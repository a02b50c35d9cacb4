import Cfgms.Lease.SplitBrain

/-! # Singleton jobs

`RunIfLeader` runs a job function while its node has the lease. A watchdog waits for the deadline
of the local authority and looks again; renewals move the deadline. The function is called once
the acquisition has returned, however long it took, and before the watchdog has looked.
-/

namespace Cfgms.Lease

open Function Option

variable {ι : Type*} {n : ℕ}

def Manager.localAuthorityDeadline (m : Manager) (name holderID : String) : Option ℤ :=
  match m.cached name with
  | none => none
  | some c =>
    if c.holderID ≠ holderID then none else some (c.acquiredOrRenewedAt + m.margin.toInt)

/-- The token that a returning call reports, if it is granted. -/
def AcquireCall.result (c : AcquireCall ι) (holderID : String) (m : Manager) : Option ℕ :=
  match c.op, c.reply with
  | _, none => none
  | .tryAcquire, some reply =>
    match (m.tryAcquireReply c.name holderID c.callStart reply).2 with
    | .ok (token, true) => some token
    | _ => none
  | .renew token, some reply => (m.renewReply c.name holderID token c.callStart reply).2.toOption

/-- A job function that runs. The watchdog waits for the timer, or has not looked yet. -/
structure JobRun (ι : Type*) where
  node : ι
  name : String
  token : ℕ
  timer : Option ℤ

/-- How far a call of `RunIfLeader` is. -/
inductive Phase (ι : Type*) where
  | idle
  | acquiring
  | running (r : JobRun ι)
  /-- The job function has stopped, and the last renewal is awaited. -/
  | stopping

/-- The calls of `RunIfLeader` make their store calls one at a time, under their own numbers. -/
structure JobState (ι : Type*) (n : ℕ) where
  cluster : ClusterState ι
  phase : Fin n → Phase ι

inductive JobAction (ι : Type*) (n : ℕ) where
  | pass (d : ℕ)
  | runIfLeader (x : Fin n) (i : ι) (name : String) (ttl : Int64)
  | effect (x : Fin n)
  | answer (x : Fin n)
  | fail (x : Fin n)
  /-- The first round of the watchdog. -/
  | look (x : Fin n)
  /-- The ticker or the end of a backoff. -/
  | renew (x : Fin n)
  /-- The job function returns by itself. -/
  | finish (x : Fin n)

namespace Cluster

variable (K : Cluster ι) (c : ClusterState ι) (x : Fin n)

def deadlineAhead (r : JobRun ι) : Option ℤ :=
  ((c.managers r.node).localAuthorityDeadline r.name (K.holderID r.node)).filter fun deadline =>
    0 < deadline - K.clock c r.node

def stopped : Phase ι := if (c.acquires x).isSome then .stopping else .idle

/-- One round of the watchdog. -/
def cancelAtAuthorityDeadline (r : JobRun ι) : Phase ι :=
  (K.deadlineAhead c r).elim (stopped c x) fun deadline => .running { r with timer := deadline }

/-- A store call has returned. A renewal that failed is given up unless the deadline lies ahead. -/
def answered (result : Option (JobRun ι)) : Phase ι → Phase ι
  | .acquiring => result.elim .idle .running
  | .running r =>
    if result.isSome ∨ (K.deadlineAhead c r).isSome then .running r else stopped c x
  | .stopping | .idle => .idle

/-- Time passes up to the instant at which a timer fires. -/
def waits : Phase ι → Bool
  | .running r => r.timer.any fun due => K.clock c r.node ≤ due
  | _ => true

/-- A timer that comes due fires, and the watchdog looks again. -/
def fired : Phase ι → Phase ι
  | .running r =>
    if r.timer.any fun due => K.clock c r.node < due then .running r
    else K.cancelAtAuthorityDeadline c x r
  | p => p

section

variable [DecidableEq ι]

def jobStep (s : JobState ι n) : JobAction ι n → Option (JobState ι n)
  | .pass d =>
    (K.step s.cluster (.tick d)).bind fun c =>
      if ∀ x, K.waits c (s.phase x) then some ⟨c, fun x => K.fired c x (s.phase x)⟩ else none
  | .runIfLeader x i name ttl =>
    match s.phase x with
    | .idle => (K.step s.cluster (.tryAcquire x i name ttl)).map fun c =>
        ⟨c, update s.phase x (if (c.acquires x).isSome then .acquiring else .idle)⟩
    | _ => none
  | .effect x => (K.step s.cluster (.acquireEffect x)).map fun c => ⟨c, s.phase⟩
  | .answer x =>
    (K.step s.cluster (.acquireReturn x)).map fun c =>
      let result := (s.cluster.acquires x).bind fun call =>
        (call.result (K.holderID call.node) (s.cluster.managers call.node)).map fun token =>
          ⟨call.node, call.name, token, none⟩
      ⟨c, update s.phase x (K.answered c x result (s.phase x))⟩
  | .fail x =>
    (K.step s.cluster (.acquireFail x)).map fun c =>
      ⟨c, update s.phase x (K.answered c x none (s.phase x))⟩
  | .look x =>
    match s.phase x with
    | .running r => if r.timer.isSome then none else some { s with
        phase := update s.phase x (K.cancelAtAuthorityDeadline s.cluster x r) }
    | _ => none
  | .renew x =>
    match s.phase x with
    | .running r =>
      (K.step s.cluster (.renew x r.node r.name r.token)).map fun c => ⟨c, s.phase⟩
    | _ => none
  | .finish x =>
    match s.phase x with
    | .running _ => some { s with phase := update s.phase x (stopped s.cluster x) }
    | _ => none

def jobs : Machine (JobState ι n) (JobAction ι n) := ⟨K.jobStep⟩

end

/-- A job runs on one node at a time, before the deadline that its watchdog has read, and while the
stored lease is that node's and has not expired. -/
structure Exclusive (s : JobState ι n) : Prop where
  alone : ∀ x y r r', s.phase x = .running r → s.phase y = .running r' → r.name = r'.name →
    r.node = r'.node
  inTime : ∀ x r, s.phase x = .running r → ∀ due ∈ r.timer, K.clock s.cluster r.node < due
  held : ∀ x r, s.phase x = .running r → ∃ row, s.cluster.table r.name = some row ∧
    row.holderID = K.holderID r.node ∧ K.storeClock s.cluster < row.expiresAt

/-- A granted acquisition returns within the safety margin from its start. -/
def ReturnsInTime (s : JobState ι n) : JobAction ι n → Prop
  | .answer x => s.phase x = .acquiring → ∀ call r, s.cluster.acquires x = some call →
      call.reply = some (.ok r) → r.acquired → K.Open s.cluster call.node call.callStart
  | _ => True

/-- The lease is covered by a call whose window is open, and stays so until the timer. -/
def Guards (r : JobRun ι) : Prop :=
  ∃ start, K.Covers c.table r.node r.name start ∧ start ≤ K.clock c r.node ∧
    K.Open c r.node start ∧ ∀ due ∈ r.timer, K.clock c r.node < due ∧
      due ≤ start + (K.config r.node).margin.toInt

structure JobInv (s : JobState ι n) : Prop where
  safe : K.Safe s.cluster
  guarded : ∀ x r, s.phase x = .running r → K.Guards s.cluster r

variable {K c x} {c' : ClusterState ι} {s s' : JobState ι n} {r r' : JobRun ι}

theorem stopped_ne_running : stopped c x ≠ .running r := by
  unfold stopped
  split <;> simp

theorem Safe.guards_of_watch (h : K.Safe c)
    (hwatch : K.cancelAtAuthorityDeadline c x r = .running r') : K.Guards c r' := by
  unfold cancelAtAuthorityDeadline at hwatch
  cases hahead : K.deadlineAhead c r with
  | none =>
    rw [hahead] at hwatch
    exact absurd hwatch stopped_ne_running
  | some deadline =>
    rw [hahead] at hwatch
    cases hwatch
    obtain ⟨hdeadline, hpos⟩ := filter_eq_some_iff.mp hahead
    have hpos : 0 < deadline - K.clock c r.node := of_decide_eq_true hpos
    unfold Manager.localAuthorityDeadline at hdeadline
    split at hdeadline
    · cases hdeadline
    next a ha =>
    split at hdeadline <;> cases hdeadline
    rw [h.config] at hpos ⊢
    have hclaim : Claims c r.node r.name a.acquiredOrRenewedAt := .cached a ha rfl
    have hopen : K.Open c r.node a.acquiredOrRenewedAt := by
      unfold Open
      omega
    refine ⟨_, h.covered _ _ _ hclaim hopen, h.started _ _ _ hclaim, hopen, ?_⟩
    rintro due ⟨⟩
    exact ⟨Int.lt_of_sub_pos hpos, le_rfl⟩

theorem grants_of_result {call : AcquireCall ι} {holderID : String} {m : Manager} {token : ℕ}
    (h : call.result holderID m = some token) :
    ∃ r, call.reply = some (.ok r) ∧ call.Grants r := by
  unfold AcquireCall.result at h
  split at h
  · cases h
  · next reply hop hreply =>
    cases reply with
    | error e => cases h
    | ok r =>
      cases hr : r.acquired with
      | false => simp [Manager.tryAcquireReply, hr] at h
      | true => exact ⟨r, hreply, hr, by simp [hop]⟩
  · next issued reply hop hreply =>
    cases reply with
    | error e => cases h
    | ok r =>
      cases hr : r.acquired with
      | false => simp [Manager.renewReply, hr, Except.toOption] at h
      | true =>
        by_cases htoken : r.token = issued
        · exact ⟨r, hreply, hr, by simp [hop, htoken]⟩
        · simp [Manager.renewReply, hr, htoken, Except.toOption] at h

theorem JobInv.update (h : K.JobInv s) {p : Phase ι}
    (hp : ∀ r, p = .running r → s.phase x = .running r ∨ K.Guards s.cluster r) :
    K.JobInv { s with phase := update s.phase x p } := by
  refine ⟨h.safe, fun y r hrunning => ?_⟩
  dsimp only at hrunning
  by_cases hy : y = x
  · subst hy
    rw [update_self] at hrunning
    exact (hp r hrunning).elim (h.guarded y r) id
  · rw [update_of_ne hy] at hrunning
    exact h.guarded y r hrunning

theorem running_of_answered {result : Option (JobRun ι)} {p : Phase ι}
    (h : K.answered c x result p = .running r) :
    p = .running r ∨ p = .acquiring ∧ result = some r := by
  unfold answered at h
  split at h
  · cases result with
    | none => cases h
    | some started =>
      cases h
      exact .inr ⟨rfl, rfl⟩
  · split at h
    · exact .inl h
    · exact absurd h stopped_ne_running
  · cases h
  · cases h

theorem JobInv.started (h : K.JobInv s) (htimely : K.ReturnsInTime s (.answer x))
    (hphase : s.phase x = .acquiring)
    (hstarted : ((s.cluster.acquires x).bind fun call =>
      (call.result (K.holderID call.node) (s.cluster.managers call.node)).map fun token =>
        (⟨call.node, call.name, token, none⟩ : JobRun ι)) = some r) :
    K.Guards s.cluster r := by
  obtain ⟨call, hcall, hmap⟩ := bind_eq_some_iff.mp hstarted
  obtain ⟨token, hresult, rfl⟩ := map_eq_some_iff.mp hmap
  obtain ⟨state, hreply, hgrants⟩ := grants_of_result hresult
  have hclaim : Claims s.cluster call.node call.name call.callStart :=
    .granted x call state hcall hreply hgrants rfl rfl rfl
  have hopen := htimely hphase call state hcall hreply hgrants.1
  exact ⟨_, h.safe.covered _ _ _ hclaim hopen, h.safe.started _ _ _ hclaim, hopen, by simp⟩

theorem JobInv.pass (h : K.JobInv s) (hsafe : K.Safe c) (htable : c.table = s.cluster.table)
    (hnow : s.cluster.now ≤ c.now) : K.JobInv ⟨c, fun x => K.fired c x (s.phase x)⟩ := by
  refine ⟨hsafe, fun x r hrunning => ?_⟩
  change K.Guards c r
  dsimp only [fired] at hrunning
  split at hrunning
  · next hphase =>
    split at hrunning
    · next hahead =>
      cases hrunning
      obtain ⟨start, hcovers, hstart, _, htimer⟩ := h.guarded x r hphase
      obtain ⟨due, hdue, hlt⟩ := (any_eq_true _ _).mp hahead
      have hlt : K.clock c r.node < due := of_decide_eq_true hlt
      have hle := (htimer due hdue).2
      refine ⟨start, htable ▸ hcovers, ?_, ?_, fun due' hdue' => ?_⟩
      · unfold clock at hstart ⊢
        omega
      · unfold Open
        omega
      · cases hdue.symm.trans hdue'
        exact ⟨hlt, hle⟩
    · exact hsafe.guards_of_watch hrunning
  · next hother => exact absurd hrunning (hother r)

theorem JobInv.exclusive (hx : ∀ i, (K.config i).Exact) (h : K.JobInv s) : K.Exclusive s := by
  have hheld (x : Fin n) (r : JobRun ι) (hphase : s.phase x = .running r) :
      ∃ row, s.cluster.table r.name = some row ∧ row.holderID = K.holderID r.node ∧
        K.storeClock s.cluster < row.expiresAt := by
    obtain ⟨start, ⟨row, hrow, hholder, hexpires⟩, _, hopen, _⟩ := h.guarded x r hphase
    have hmargin := margin_lt_leaseTTL (hx r.node)
    refine ⟨row, hrow, hholder, ?_⟩
    unfold Open clock at hopen
    unfold storeClock
    omega
  constructor
  · intro x y r r' hr hr' hname
    obtain ⟨row, hrow, hholder, _⟩ := hheld x r hr
    obtain ⟨row', hrow', hholder', _⟩ := hheld y r' hr'
    rw [hname, hrow'] at hrow
    cases hrow
    exact K.holderID_injective (hholder.symm.trans hholder')
  · intro x r hphase due hdue
    obtain ⟨_, _, _, _, htimer⟩ := h.guarded x r hphase
    exact (htimer due hdue).1
  · exact hheld

variable [DecidableEq ι]
variable {a : ClusterAction ι}

theorem Guards.step (h : K.Guards c r) (hx : ∀ i, (K.config i).Exact) (hsafe : K.Safe c)
    (hs : K.step c a = some c') (ha : ∀ d k, a ≠ .tick d ∧ a ≠ .releaseEffect k) : K.Guards c' r := by
  cases a with
  | tick d => exact absurd rfl (ha d 0).1
  | releaseEffect k => exact absurd rfl (ha 0 k).2
  | tryAcquire k i name ttl =>
    simp only [Cluster.step, issue] at hs
    split at hs
    · cases hs
      exact h
    split at hs <;> cases hs
    exact h
  | acquireEffect k =>
    simp only [Cluster.step] at hs
    split at hs <;> cases hs
    obtain ⟨start, hcovers, hstart, hopen, htimer⟩ := h
    refine ⟨start, ?_, hstart, hopen, htimer⟩
    rw [hsafe.config]
    exact hcovers.acquireOrRenew (hx _) hstart hopen _ _
  | _ =>
    simp only [Cluster.step, issue] at hs
    split at hs
    all_goals
      cases hs
      try exact h

theorem JobInv.call (h : K.JobInv s) (hx : ∀ i, (K.config i).Exact)
    (hs : K.step s.cluster a = some c) (ha : ∀ d k, a ≠ .tick d ∧ a ≠ .releaseEffect k) :
    K.JobInv ⟨c, s.phase⟩ := by
  have hsettled : K.ReleasesSettled s.cluster a := by
    cases a with
    | releaseEffect k => exact absurd rfl (ha 0 k).2
    | _ => trivial
  constructor
  · exact h.safe.step hx hsettled hs
  · exact fun y r hrunning => (h.guarded y r hrunning).step hx h.safe hs ha

theorem JobInv.step {act : JobAction ι n} (hx : ∀ i, (K.config i).Exact) (h : K.JobInv s)
    (htimely : K.ReturnsInTime s act) (hs : K.jobStep s act = some s') : K.JobInv s' := by
  cases act with
  | pass d =>
    simp only [jobStep] at hs
    obtain ⟨c, hc, hs⟩ := bind_eq_some_iff.mp hs
    have hsafe : K.Safe c := Safe.step (a := .tick d) hx h.safe trivial hc
    split at hs
    · cases hc
      cases hs
      exact h.pass hsafe rfl (by simp)
    · cases hs
  | runIfLeader x i name ttl =>
    simp only [jobStep] at hs
    split at hs
    · obtain ⟨c, hc, rfl⟩ := map_eq_some_iff.mp hs
      refine (h.update fun r hr => ?_).call hx hc (by simp)
      split at hr <;> cases hr
    · cases hs
  | effect x =>
    obtain ⟨c, hc, rfl⟩ := map_eq_some_iff.mp hs
    exact h.call hx hc (by simp)
  | answer x =>
    obtain ⟨c, hc, rfl⟩ := map_eq_some_iff.mp hs
    refine (h.update fun r hr => (running_of_answered hr).imp_right ?_).call hx hc (by simp)
    rintro ⟨hphase, hstarted⟩
    exact h.started htimely hphase hstarted
  | fail x =>
    obtain ⟨c, hc, rfl⟩ := map_eq_some_iff.mp hs
    refine (h.update fun r hr => (running_of_answered hr).imp_right ?_).call hx hc (by simp)
    rintro ⟨_, ⟨⟩⟩
  | look x =>
    simp only [jobStep] at hs
    split at hs
    · split at hs <;> cases hs
      exact h.update fun r hr => .inr (h.safe.guards_of_watch hr)
    · cases hs
  | renew x =>
    simp only [jobStep] at hs
    split at hs
    · obtain ⟨c, hc, rfl⟩ := map_eq_some_iff.mp hs
      exact h.call hx hc (by simp)
    · cases hs
  | finish x =>
    simp only [jobStep] at hs
    split at hs <;> cases hs
    exact h.update fun r hr => absurd hr stopped_ne_running

/-- Where granted acquisitions return within the safety margin, and the margins do not wrap, a job
runs on one node at a time, and only while the stored lease is that node's. -/
theorem singleton_jobs_exclusive (K : Cluster ι) (hx : ∀ i, (K.config i).Exact)
    {s₀ s : JobState ι n} (h₀ : K.Initial s₀.cluster) (hidle : ∀ x, s₀.phase x = .idle)
    (as : List (JobAction ι n)) (htimely : K.jobs.Guarded K.ReturnsInTime s₀ as)
    (hrun : K.jobs.run s₀ as = some s) : K.Exclusive s := by
  have hstart : K.JobInv s₀ := by
    refine ⟨h₀.safe, fun x r hphase => ?_⟩
    cases (hidle x).symm.trans hphase
  exact (K.jobs.run_invariant (fun s a s' hs hq ha => JobInv.step hx hs hq ha) as s₀ s hstart
    htimely hrun).exclusive hx

def noJobs : JobState Bool 2 := ⟨freshState, fun _ => .idle⟩

def acquires (x : Fin 2) (i : Bool) : List (JobAction Bool 2) :=
  [.runIfLeader x i "job" 10000000000, .effect x, .answer x, .look x]

/-- Both nodes ask for the job at once. -/
def contend : List (JobAction Bool 2) :=
  [.runIfLeader 0 false "job" 10000000000, .runIfLeader 1 true "job" 10000000000, .effect 0,
    .effect 1, .answer 1, .answer 0, .look 0]

theorem singleton_jobs_exclusive_contend :
    ∃ s r, twoNodes.jobs.run noJobs contend = some s ∧ s.phase 0 = .running r ∧ s.phase 1 = .idle ∧
      twoNodes.Exclusive s := by
  have htimely : twoNodes.jobs.Guarded twoNodes.ReturnsInTime noJobs contend := by
    refine .cons rfl trivial (.cons rfl trivial (.cons rfl trivial (.cons rfl trivial
      (.cons rfl ?_ (.cons rfl ?_ (.cons rfl trivial trivial))))))
    · rintro - call r ⟨⟩ ⟨⟩ ⟨⟩
    · rintro - call r ⟨⟩ - -
      unfold Open
      decide
  exact ⟨_, _, rfl, rfl, rfl, singleton_jobs_exclusive twoNodes (fun _ => tenSeconds_exact)
    twoNodes_initial (fun _ => rfl) contend htimely rfl⟩

/-- The acquisition of the first node takes effect, and returns eleven seconds later, when the
second one has taken the expired lease. -/
def lateAcquisition : List (JobAction Bool 2) :=
  [.runIfLeader 0 false "job" 10000000000, .effect 0, .pass 10000000001] ++ acquires 1 true ++
    [.pass 1000000000, .answer 0]

theorem job_runs_twice : ∃ s r r', twoNodes.jobs.run noJobs lateAcquisition = some s ∧
    s.phase 0 = .running r ∧ s.phase 1 = .running r' ∧ r.name = r'.name ∧ r.node ≠ r'.node :=
  ⟨_, _, _, rfl, rfl, rfl, rfl, by decide⟩

end Cluster

end Cfgms.Lease
