import Cfgms.Dispatch.Routine

/-! # Steward actions

A steward action is to be claimed within its TTL and sent once. The queue checks the expiry of
an entry only when it first hands it out, so a stale entry must not be handed out again, nor the
clock pass the expiry between the hand-out and the claim.
-/

namespace Cfgms.Dispatch

open Ordered Script Run List Discipline

/-- The entry of an action expires when the TTL has passed. -/
def Timed (e : QueueEntry) : Prop :=
  e.kind = .stewardAction → e.expiresAt = e.queuedAt + stewardActionTTL

def Sent.isAction (x : Sent) : Bool := x.kind = .stewardAction ∧ x.runID ≠ "" ∧ x.jobID ≠ ""

def Decided (store : RunStore) (jobID : String) : Prop :=
  ∃ j ∈ store.jobs.rows, j.jobID = jobID ∧ j.status ≠ .pending

namespace History

variable (h : History)

def sendsOf (jobID : String) : ℕ := h.sent.countP fun x => x.isAction ∧ x.jobID = jobID

/-- How often a job is claimed and not sent. -/
def licencesOf (jobID : String) : ℕ := h.licences.countP fun x => x.2 = jobID

end History

structure ActionInv (s : System) : Prop where
  queue : ∀ e ∈ s.queue.rows, Timed e
  handed : ∀ x ∈ s.history.handed, x.2.kind = .stewardAction →
    x.2.expiresAt = x.2.queuedAt + stewardActionTTL ∧ s.now ≤ x.2.expiresAt
  claims : ∀ c ∈ s.history.claims, c.claimedAt ≤ c.queuedAt + stewardActionTTL
  licensed : ∀ x ∈ s.history.licences, ∃ c ∈ s.history.claims, c.jobID = x.2
  sent : ∀ x ∈ s.history.sent, x.isAction → ∃ c ∈ s.history.claims, c.jobID = x.jobID
  once : ∀ jobID, s.history.licencesOf jobID + s.history.sendsOf jobID ≤ 1
  decided : ∀ jobID, 0 < s.history.licencesOf jobID + s.history.sendsOf jobID →
    Decided s.store jobID

/-- No stale action is handed out again, and the clock does not pass the expiry of an action
that a dispatch has in hand. -/
def isPrompt : {β : Type} → System → ℕ → Op β → Env → Bool
  | _, s, _, .dequeue deviceID, _ => ∀ e ∈ s.queue.rows, e.deviceID = deviceID →
    e.kind = .stewardAction → e.state = .dispatched → s.now ≤ e.expiresAt
  | _, s, _, .advance, env => ∀ x ∈ s.history.handed, x.2.kind = .stewardAction →
    s.now + env.elapsed ≤ x.2.expiresAt
  | _, _, _, _, _ => true

def Prompt {β : Type} (s : System) (tid : ℕ) (o : Op β) (env : Env) : Prop := isPrompt s tid o env

instance {β : Type} (s : System) (tid : ℕ) (o : Op β) (env : Env) :
    Decidable (Prompt s tid o env) := inferInstanceAs (Decidable (_ = true))

/-- What a call needs no knowledge for: no job goes back to pending, actions are queued with
their TTL, and only scripts and untracked actions are sent. -/
def Ordinary : {β : Type} → Op β → Prop
  | _, .updateJobStatus _ status _ => status ≠ .pending
  | _, .updateJobResult _ status _ _ _ _ => status ≠ .pending
  | _, .expireJobIfStatus _ _ newStatus _ => newStatus ≠ .pending
  | _, .enqueue entry => Timed entry
  | _, .markJobDispatched _ _ _ => False
  | _, .send entry _ _ => ¬ (entry.kind = .stewardAction ∧ isTracked entry)
  | _, _ => True

/-- A job is claimed for an action in hand, and a tracked action is sent after its claim. -/
def ActionPre : {β : Type} → System → ℕ → Op β → Prop
  | _, s, tid, .markJobDispatched jobID _ entry =>
    entry.kind = .stewardAction ∧ entry.jobID = jobID ∧ (tid, entry) ∈ s.history.handed
  | _, s, tid, .send entry _ _ => entry.kind = .stewardAction ∧ isTracked entry →
    (tid, entry.jobID) ∈ s.history.licences
  | _, _, _, o => Ordinary o

variable {β : Type} {s : System} {tid : ℕ} {o : Op β} {env : Env}
variable {jobID id : String}

theorem decided_casJob {store : RunStore} {allowed : JobStatus → Bool}
    {f : JobRecord → JobRecord} {hf : ∀ j, (f j).jobID = j.jobID}
    (h : ∀ j, j.status ≠ .pending → (f j).status ≠ .pending) (hid : Decided store id) :
    Decided (store.casJob jobID allowed f hf).1 id := by
  obtain ⟨j, hj, rfl, hstatus⟩ := hid
  refine ⟨if j.isAt jobID allowed then f j else j, mem_map_of_mem hj, ?_⟩
  split
  · exact ⟨hf j, h j hstatus⟩
  · exact ⟨rfl, hstatus⟩

/-- A job that was decided stays so. -/
theorem exec_decided (hpre : ActionPre s tid o) (hid : Decided s.store id) :
    Decided (exec o tid s env).1.store id := by
  have hwrite := @System.write_rule s env (Decided · id)
  have hcas (s' : System) := @System.compareAndSet_rule s' env (Decided · id)
  cases o with
  | createRun r =>
    refine hwrite hid fun store hstore => ?_
    rwa [Decided, RunStore.createRun_eq_some hstore]
  | createJob j =>
    refine hwrite hid fun store hstore => ?_
    obtain ⟨j, hj, hstatus⟩ := hid
    exact ⟨j, RunStore.createJob_eq_some hstore ▸ mem_append_left _ hj, hstatus⟩
  | updateJobStatus =>
    refine hwrite hid ?_
    rintro _ ⟨⟩
    exact decided_casJob (fun _ _ => hpre) hid
  | updateRunStatus | updateRunCounts =>
    refine hwrite hid ?_
    rintro _ ⟨⟩
    exact hid
  | updateJobResult | expireJobIfStatus =>
    exact hcas _ hid (decided_casJob (fun _ _ => hpre) hid)
  | updateJobResultCode =>
    exact hcas _ hid (decided_casJob (fun _ h => h) hid)
  | markJobDispatched =>
    exact hcas _ hid (decided_casJob (fun _ _ h => by cases h) hid)
  | _ => rwa [(exec_frame _ _ _ _).store rfl]

theorem ActionInv.mono {s' : System} (h : ActionInv s) (hqueue : ∀ e ∈ s'.queue.rows, Timed e)
    (hnow : s'.now = s.now) (hhanded : s'.history.handed ⊆ s.history.handed)
    (hclaims : s'.history.claims = s.history.claims)
    (hlicences : s'.history.licences = s.history.licences)
    (hsent : s'.history.sent = s.history.sent)
    (hdecided : ∀ id, Decided s.store id → Decided s'.store id) : ActionInv s' := by
  constructor
  · exact hqueue
  · intro x hx
    rw [hnow]
    exact h.handed x (hhanded hx)
  · rw [hclaims]
    exact h.claims
  · rw [hlicences, hclaims]
    exact h.licensed
  · rw [hsent, hclaims]
    exact h.sent
  · intro jobID
    rw [History.licencesOf, History.sendsOf, hlicences, hsent]
    exact h.once jobID
  · intro jobID hpos
    rw [History.licencesOf, History.sendsOf, hlicences, hsent] at hpos
    exact hdecided jobID (h.decided jobID hpos)

theorem timed_of_evolves {q q' : QueueStore} (h : ∀ e ∈ q.rows, Timed e)
    (hevolves : QueueStore.Evolves q q') : ∀ e ∈ q'.rows, Timed e := by
  intro e' he'
  obtain ⟨e, he, hsame, _⟩ := hevolves e' he'
  have htimed : Timed e'.asQueued := hsame ▸ h e he
  exact htimed

theorem ActionInv.dequeue (h : ActionInv s) {deviceID : String}
    (hguard : Prompt s tid (.dequeue deviceID) env) :
    ActionInv (exec (.dequeue deviceID) tid s env).1 := by
  have hevolves : QueueStore.Evolves s.queue (exec (.dequeue deviceID) tid s env).1.queue :=
    exec_evolves rfl
  simp only [exec] at hevolves ⊢
  split
  · exact h
  next hok =>
  rw [if_neg hok] at hevolves
  have htimed := timed_of_evolves h.queue hevolves
  refine { h with queue := htimed, handed := ?_ }
  intro x hx hkind
  rcases mem_append.mp hx with hold | hnew
  · exact h.handed x hold hkind
  obtain ⟨e, he, rfl⟩ := mem_map.mp hnew
  obtain ⟨hmem, hdevice, e₀, he₀, hsame, hstate⟩ := QueueStore.mem_dequeue _ he
  refine ⟨htimed e hmem hkind, ?_⟩
  rw [show e.expiresAt = e.asQueued.expiresAt from rfl, hsame]
  rcases hstate with ⟨_, hfresh⟩ | hagain
  · exact hfresh
  -- An entry that is handed out again has not been checked by the queue.
  apply of_decide_eq_true hguard e₀ he₀ _ _ hagain
  · exact (congrArg QueueEntry.deviceID hsame).symm.trans hdevice
  · exact (congrArg QueueEntry.kind hsame).symm.trans hkind

variable {entry : QueueEntry}

theorem ActionInv.markJobDispatched (h : ActionInv s) {time : ℤ}
    (hpre : ActionPre s tid (.markJobDispatched jobID time entry)) :
    ActionInv (exec (.markJobDispatched jobID time entry) tid s env).1 := by
  have hdecided : ∀ id, Decided s.store id →
      Decided (exec (.markJobDispatched jobID time entry) tid s env).1.store id :=
    fun id hid => exec_decided hpre hid
  obtain ⟨hkind, hjob, hhanded⟩ := hpre
  obtain ⟨hexpires, hnow⟩ := h.handed _ hhanded hkind
  obtain ⟨store, changed, hexec, -, hchanged⟩ :=
    exec_markJobDispatched tid s env jobID time entry
  rw [hexec] at hdecided ⊢
  cases changed with
  | false => exact h.mono h.queue rfl (filter_subset_self _) rfl rfl rfl hdecided
  | true =>
    obtain ⟨hrow, rfl⟩ := hchanged rfl
    obtain ⟨j, hj, hat⟩ := any_eq_true.mp hrow
    obtain ⟨hid, hpending⟩ : j.jobID = jobID ∧ j.status = .pending := by
      simpa [JobRecord.isAt] using hat
    -- The row was pending, so nothing was claimed or sent for the job before.
    have hnone : s.history.licencesOf jobID + s.history.sendsOf jobID = 0 := by
      by_contra hpos
      obtain ⟨j', hj', hid', hstatus⟩ := h.decided jobID (Nat.pos_of_ne_zero hpos)
      obtain rfl := inj_on_of_nodup_map s.store.jobs.nodup hj hj' (hid.trans hid'.symm)
      exact hstatus hpending
    have hcount : ∀ id, (s.history.claimsJob tid jobID entry s.now true).licencesOf id =
        s.history.licencesOf id + if jobID = id then 1 else 0 := by
      intro id
      simp [History.licencesOf, History.claimsJob, countP_cons]
    constructor
    · exact h.queue
    · intro x hx
      exact h.handed x (mem_filter.mp hx).1
    · exact forall_mem_append.mpr ⟨h.claims, forall_mem_singleton.mpr (hexpires ▸ hnow)⟩
    · intro x hx
      rcases mem_cons.mp hx with rfl | hold
      · exact ⟨_, mem_append_right _ (mem_singleton.mpr rfl), rfl⟩
      · obtain ⟨c, hc, hcjob⟩ := h.licensed x hold
        exact ⟨c, mem_append_left _ hc, hcjob⟩
    · intro x hx haction
      obtain ⟨c, hc, hcjob⟩ := h.sent x hx haction
      exact ⟨c, mem_append_left _ hc, hcjob⟩
    · intro id
      have hold := h.once id
      change (s.history.claimsJob tid jobID entry s.now true).licencesOf id +
        s.history.sendsOf id ≤ 1
      rw [hcount]
      split
      · next heq =>
        subst heq
        omega
      · omega
    · intro id hpos
      rcases eq_or_ne jobID id with rfl | hne
      · refine ⟨_, mem_map_of_mem hj, ?_⟩
        rw [if_pos hat]
        refine ⟨hid, ?_⟩
        rintro ⟨⟩
      · apply hdecided id
        apply h.decided id
        change 0 < (s.history.claimsJob tid jobID entry s.now true).licencesOf id +
          s.history.sendsOf id at hpos
        rwa [hcount, if_neg hne, Nat.add_zero] at hpos

variable {deadline : ℤ} {cancelledBefore : List String}

/-- A tracked action uses up the licence of its claim. -/
theorem History.sends_le {h h' : History} {others : List InFlight}
    (hh : h' = h.sends tid entry deadline cancelledBefore others)
    (hpre : entry.kind = .stewardAction ∧ isTracked entry → (tid, entry.jobID) ∈ h.licences) :
    h'.licencesOf id + h'.sendsOf id ≤ h.licencesOf id + h.sendsOf id := by
  have hcount : h'.sendsOf id = h.sendsOf id +
      if (entry.kind = .stewardAction ∧ isTracked entry) ∧ entry.jobID = id then 1 else 0 := by
    simp [hh, History.sendsOf, History.sends, countP_append, countP_singleton, Sent.isAction,
      isTracked]
  rw [hcount]
  split
  · next haction =>
    obtain ⟨haction, rfl⟩ := haction
    have hperm := (perm_cons_erase (hpre haction)).countP_eq fun x => x.2 = entry.jobID
    rw [countP_cons_of_pos (by simp)] at hperm
    have hused : h'.licencesOf entry.jobID + 1 = h.licencesOf entry.jobID := hh ▸ hperm.symm
    omega
  · have hfewer : h'.licencesOf id ≤ h.licencesOf id := hh ▸ erase_sublist.countP_le
    omega

theorem ActionInv.send (h : ActionInv s)
    (hpre : ActionPre s tid (.send entry deadline cancelledBefore)) :
    ActionInv (exec (.send entry deadline cancelledBefore) tid s env).1 := by
  simp only [exec]
  split
  · constructor
    · exact h.queue
    · intro x hx
      exact h.handed x (mem_filter.mp hx).1
    · exact h.claims
    · intro x hx
      exact h.licensed x (mem_of_mem_erase hx)
    · intro x hx haction
      rcases mem_append.mp hx with hold | hnew
      · exact h.sent x hold haction
      obtain rfl := mem_singleton.mp hnew
      have haction : entry.kind = .stewardAction ∧ isTracked entry := by
        simpa [Sent.isAction, isTracked] using haction
      exact h.licensed _ (hpre haction)
    · exact fun id => (History.sends_le rfl hpre).trans (h.once id)
    · exact fun id hpos => h.decided id (hpos.trans_le (History.sends_le rfl hpre))
  · exact h
  · exact h

theorem exec_actionInv (h : ActionInv s) (hpre : ActionPre s tid o) (hguard : Prompt s tid o env) :
    ActionInv (exec o tid s env).1 := by
  have hdecided : ∀ id, Decided s.store id → Decided (exec o tid s env).1.store id :=
    fun id hid => exec_decided hpre hid
  have hqueue : ∀ e ∈ (exec o tid s env).1.queue.rows, Timed e := by
    cases o with
    | enqueue entry =>
      intro e he
      rcases mem_of_exec_enqueue he with rfl | he
      · exact hpre
      · exact h.queue e he
    | _ => exact timed_of_evolves h.queue (exec_evolves rfl)
  have hframe := exec_frame o tid s env
  cases o with
  | advance =>
    refine { h with handed := ?_ }
    intro x hx hkind
    exact ⟨(h.handed x hx hkind).1, of_decide_eq_true hguard x hx hkind⟩
  | dequeue => exact h.dequeue hguard
  | markJobDispatched => exact h.markJobDispatched hpre
  | send => exact h.send hpre
  | drain | setLock => exact h.mono hqueue rfl (filter_subset_self _) rfl rfl rfl hdecided
  | _ =>
    refine h.mono hqueue (hframe.now rfl) ?_ (hframe.claims rfl) (hframe.licences rfl)
      (hframe.sent rfl) hdecided
    rw [hframe.handed rfl]
    exact List.Subset.refl _

/-- What a dispatch has in hand and has claimed stays with it. -/
structure ActionRely (t : ℕ) (s s' : System) : Prop where
  handed : ∀ e, (t, e) ∈ s.history.handed → (t, e) ∈ s'.history.handed
  licences : ∀ id, (t, id) ∈ s.history.licences → (t, id) ∈ s'.history.licences

theorem ActionRely.refl (t : ℕ) (s : System) : ActionRely t s s :=
  ⟨fun _ h => h, fun _ h => h⟩

theorem ActionRely.trans {t : ℕ} {s s' s'' : System} (h : ActionRely t s s')
    (h' : ActionRely t s' s'') : ActionRely t s s'' :=
  ⟨fun e he => h'.handed e (h.handed e he), fun id hid => h'.licences id (h.licences id hid)⟩

/-- The operations of the others change neither. -/
theorem exec_actionRely {t : ℕ} (hne : t ≠ tid) : ActionRely t s (exec o tid s env).1 := by
  have hfilter : ∀ {h : List (ℕ × QueueEntry)} {e} {p : ℕ × QueueEntry → Bool}, (t, e) ∈ h →
      p (t, e) = true → (t, e) ∈ h.filter p := fun he hp => mem_filter.mpr ⟨he, hp⟩
  have hframe := exec_frame o tid s env
  cases o with
  | markJobDispatched jobID time entry =>
    obtain ⟨store, changed, hexec, -⟩ := exec_markJobDispatched tid s env jobID time entry
    rw [hexec]
    refine ⟨fun e he => hfilter he (decide_eq_true hne), fun id hid => ?_⟩
    cases changed with
    | false => exact hid
    | true => exact mem_cons_of_mem _ hid
  | dequeue =>
    simp only [exec]
    split
    · exact .refl t s
    · exact ⟨fun _ he => mem_append_left _ he, fun _ hid => hid⟩
  | drain => exact ⟨fun _ he => hfilter he (decide_eq_true hne), fun _ hid => hid⟩
  | setLock => exact ⟨fun _ he => hfilter he (decide_eq_true (.inl hne)), fun _ hid => hid⟩
  | send =>
    simp only [exec]
    split
    · refine ⟨fun _ he => hfilter he (decide_eq_true hne), fun id hid => ?_⟩
      exact (mem_erase_of_ne fun heq => hne (congrArg Prod.fst heq)).mpr hid
    all_goals exact .refl t s
  | _ => exact ⟨fun _ he => hframe.handed rfl ▸ he, fun _ hid => hframe.licences rfl ▸ hid⟩

/-- Actions are claimed in time and sent once. -/
def actions : Discipline api where
  Inv := ActionInv
  Guard := Prompt
  Pre := ActionPre
  Rely := ActionRely
  rely_refl := .refl
  rely_trans := .trans
  exec_inv := exec_actionInv
  exec_rely _ _ _ := exec_actionRely

theorem Ordinary.pre (h : Ordinary o) : ActionPre s tid o := by
  cases o with
  | markJobDispatched => cases h
  | send => exact fun hkind => absurd hkind h
  | _ => exact h

variable {α : Type} {p : Call α}

theorem safe_of_ordinary (hp : p.All Ordinary) : actions.Runs tid s p :=
  Discipline.Safe.of_all (K := fun _ => True) hp (fun h _ _ => h.pre) (fun _ _ => trivial)
    (fun _ _ _ _ => trivial) trivial

theorem Routine.ordinary (h : Routine Timed True o) : Ordinary o := by
  cases o with
  | updateJobStatus | updateJobResult | expireJobIfStatus =>
    rintro rfl
    cases h
  | markJobDispatched | send => cases h
  | enqueue => exact h
  | _ => trivial

theorem ordinary_of_routine (hp : p.All (Routine Timed True)) :
    p.All Ordinary := hp.mono Routine.ordinary

theorem Basic.ordinary (h : Basic o) : Ordinary o :=
  (h.mono (fun _ => False.elim) False.elim).ordinary

theorem Checking.ordinary (h : Checking o) : Ordinary o := by
  cases o with
  | resolveGuard | prepare | cancel => trivial
  | _ => cases h

theorem releaseDevice_ordinary (deviceID : String) : (releaseDevice deviceID).All Ordinary :=
  ordinary_of_routine (releaseDevice_routine deviceID)

variable {e : QueueEntry}
variable (cfg : Config)

theorem dispatchScript_ordinary (deviceID : String)
    (hkind : e.kind = .script) (acquiredAt : ℤ) (cancelledBefore : List String) :
    (dispatchScript cfg deviceID e acquiredAt cancelledBefore).All Ordinary := by
  apply dispatchScript_all Basic.ordinary
  · intro t haction
    rw [hkind] at haction
    cases haction.1
  · exact fun _ _ => trivial

theorem safe_of_returns {Q : System → α → Prop} {R : α → Prop}
    (hp : p.All Ordinary) (hreturns : p.Returns R) (hQ : ∀ s a, R a → Q s a) :
    actions.Safe tid Q s p :=
  ((safe_of_ordinary hp).returns hreturns).mono fun s a h => hQ s a h.2

/-- A claim that succeeds gives the dispatch its licence. -/
theorem claimActionDispatch_safe (hkind : e.kind = .stewardAction)
    (hhanded : (tid, e) ∈ s.history.handed) (time : ℤ) :
    actions.Safe tid (fun s r => ∀ status, r = .ok (true, status) →
      (tid, e.jobID) ∈ s.history.licences) s (claimActionDispatch e.runID e.jobID time e) := by
  intro s' hrely _
  refine ⟨⟨hkind, rfl, hrely.handed _ hhanded⟩, fun env _ => ?_⟩
  obtain ⟨store, changed, hexec, hanswer, -⟩ :=
    exec_markJobDispatched tid s' env e.jobID time e
  generalize (exec (.markJobDispatched e.jobID time e) tid s' env).2 = r at hanswer ⊢
  rcases r with _ | _ | _
  · rintro _ ⟨⟩
  · -- The row was not pending: the answer says so, whatever the list shows.
    apply safe_of_returns (R := fun r => ∀ status, r ≠ .ok (true, status))
    · refine ⟨trivial, ?_⟩
      rintro (_ | jobs) <;> trivial
    · rintro (_ | jobs)
      · rintro _ ⟨⟩
      · change ∀ status, Option.elim _ _ _ ≠ _
        cases jobs.find? fun j => j.jobID = e.jobID with
        | none | some => rintro _ ⟨⟩
    · exact fun s r hr status heq => absurd heq (hr status)
  · intro _ _
    obtain rfl : changed = true := hanswer.mp rfl
    rw [hexec]
    exact mem_cons_self

theorem claimStewardAction_safe (deviceID : String)
    (hkind : e.kind = .stewardAction) (hhanded : (tid, e) ∈ s.history.handed) :
    actions.Safe tid (fun s claimed => claimed = true → (tid, e.jobID) ∈ s.history.licences) s
      (claimStewardAction deviceID e) := by
  obtain ⟨k, hk, hcases⟩ := claimStewardAction_eq deviceID e
  rw [hk]
  refine fun s' hrely _ => ⟨trivial, fun env _ => ?_⟩
  apply (claimActionDispatch_safe hkind (hrely.handed _ hhanded) _).bind
  intro s'' r hclaim
  rcases hcases r with ⟨status, rfl, hdone⟩ | ⟨hall, hreturns⟩
  · rw [hdone]
    exact fun _ => hclaim status rfl
  · apply safe_of_returns (ordinary_of_routine hall) hreturns
    rintro s a rfl ⟨⟩

theorem deliverStewardAction_safe (deviceID : String) (deadline : ℤ) (cancelledBefore : List String)
    (hlicence : e.kind = .stewardAction ∧ isTracked e → (tid, e.jobID) ∈ s.history.licences) :
    actions.Runs tid s (deliverStewardAction deviceID e deadline cancelledBefore) := by
  apply deliverStewardAction_runs (K := fun s => e.kind = .stewardAction ∧ isTracked e →
    (tid, e.jobID) ∈ s.history.licences) _ _ _ _ hlicence
  · exact fun hp => safe_of_ordinary (hp.mono Basic.ordinary)
  · exact fun _ => trivial
  · exact fun hrely hs haction => hrely.licences _ (hs haction)
  · exact id

theorem dispatchStewardAction_safe (deviceID : String)
    (hkind : e.kind = .stewardAction) (hhanded : (tid, e) ∈ s.history.handed) (acquiredAt : ℤ)
    (cancelledBefore : List String) :
    actions.Runs tid s (dispatchStewardAction cfg deviceID e acquiredAt cancelledBefore) := by
  refine safe_op_bind.mpr fun s' hrely _ => ⟨trivial, fun env _ => ?_⟩
  -- The lock is set for the entry that the dispatch goes on with.
  have hkept : (tid, e) ∈ (exec (.setLock deviceID e.executionID (actionLockTTL e)) tid s'
      env).1.history.handed :=
    mem_filter.mpr ⟨hrely.handed _ hhanded, decide_eq_true (.inr rfl)⟩
  split
  · apply (claimStewardAction_safe deviceID hkind hkept).bind
    rintro s'' (_ | _) hclaimed
    · trivial
    · exact deliverStewardAction_safe deviceID _ _ fun _ => hclaimed rfl
  · next htracked =>
    exact deliverStewardAction_safe deviceID _ _ fun h => absurd h.2 htracked

theorem checkGuards_safe {deviceID : String} {es : List QueueEntry}
    (hhanded : ∀ e ∈ es, (tid, e) ∈ s.history.handed) :
    actions.Safe tid (fun s kept => ∀ e ∈ kept, (tid, e) ∈ s.history.handed) s
      (checkGuards deviceID es) := by
  have hkeep : actions.Safe tid (fun s _ => ∀ e ∈ es, (tid, e) ∈ s.history.handed) s
      (checkGuards deviceID es) := by
    apply Discipline.Safe.of_all (checkGuards_checking deviceID es)
    · exact fun h _ _ => h.ordinary.pre
    · exact fun hes hrely e he => hrely.handed _ (hes e he)
    · intro β s o env h _ _ hes e he
      rw [exec_checking h]
      exact hes e he
    · exact hhanded
  exact (hkeep.returns (checkGuards_returns deviceID es)).mono fun s kept h e he => h.1 e (h.2 he)

theorem dispatchHeld_safe (deviceID : String) (cancelledBefore : List String) :
    actions.Runs tid s (dispatchHeld cfg deviceID cancelledBefore) := by
  refine safe_op_bind.mpr fun s _ _ => ⟨trivial, fun env _ => ?_⟩
  refine safe_op_bind.mpr fun s _ _ => ⟨trivial, fun env' _ => ?_⟩
  simp only [exec]
  split
  · exact safe_of_ordinary (releaseDevice_ordinary deviceID)
  have hhanded : ∀ e ∈ (QueueStore.dequeue s.queue env'.rank deviceID s.now).2,
      (tid, e) ∈ s.history.handed ++
        (QueueStore.dequeue s.queue env'.rank deviceID s.now).2.map fun e => (tid, e) :=
    fun e he => mem_append_right _ (mem_map_of_mem he)
  apply (checkGuards_safe hhanded).bind
  rintro s (_ | ⟨e, es⟩) hkept
  · exact safe_of_ordinary (releaseDevice_ordinary deviceID)
  change actions.Safe tid _ s (dispatchExecution cfg deviceID e _ cancelledBefore)
  unfold dispatchExecution
  split
  · next hkind =>
    exact dispatchStewardAction_safe cfg deviceID hkind (hkept e mem_cons_self) _ _
  · next hkind => exact safe_of_ordinary (dispatchScript_ordinary cfg deviceID hkind _ _)

theorem dispatchForDevice_safe (deviceID : String) :
    actions.Runs tid s (dispatchForDevice cfg deviceID) := by
  refine safe_op_bind.mpr fun s _ _ => ⟨trivial, fun env _ => ?_⟩
  refine safe_op_bind.mpr fun s _ _ => ⟨trivial, fun env' _ => ?_⟩
  cases (exec (.fill deviceID) tid s env').2 with
  | false => trivial
  | true => exact dispatchHeld_safe cfg deviceID _

/-- A direct request for an action comes with the times that synthesis gives it. -/
def Request.Stamped : Request → Prop
  | .queueExecution _ x => x.kind = .stewardAction →
    ∃ t, x.queuedAt = some t ∧ x.expiresAt = some (t + stewardActionTTL)
  | _ => True

theorem makes_timed (q : ActionRunRequest) : q.plan.Makes cfg Timed :=
  fun _ _ _ _ _ _ _ _ => rfl

theorem code_actions_safe {c : Request} (hc : c.Stamped) :
    actions.Runs tid s (c.code cfg) := by
  have hscript : ∀ e : QueueEntry, e.kind = .script → Timed e := by
    intro e hkind haction
    rw [hkind] at haction
    cases haction
  have hplain : c.Plain cfg Timed True → actions.Runs tid s (c.code cfg) :=
    fun h => safe_of_ordinary (ordinary_of_routine (code_routine hscript h))
  cases c with
  | cancelRun runID =>
    apply safe_of_ordinary
    apply cancelRunRequest_all _ trivial trivial
    exact fun h => (h.mono (fun _ => False.elim) id).ordinary
  | dispatchForDevice deviceID => exact dispatchForDevice_safe cfg deviceID
  | queueExecution deviceID x =>
    apply hplain
    intro now metadata hkind
    obtain ⟨t, hqueued, hexpires⟩ := hc hkind
    simp [QueuedExecution.entry, hqueued, hexpires]
  | actionRun q => exact hplain (makes_timed cfg q)
  | _ => exact hplain trivial

def Request.PromptlyPermitted (p : Pool api) (a : PoolAction Request Env) : Prop :=
  Pool.Permitted (fun _ c => c.Stamped) Prompt p a

instance (c : Request) : Decidable c.Stamped := by
  cases c with
  | queueExecution deviceID x =>
    exact decidable_of_iff (x.kind = .stewardAction → x.queuedAt.any fun t =>
      x.expiresAt = some (t + stewardActionTTL)) (by simp [Request.Stamped, Option.any_eq_true])
  | _ => exact inferInstanceAs (Decidable True)

instance (p : Pool api) (a : PoolAction Request Env) : Decidable (Request.PromptlyPermitted p a) :=
  inferInstanceAs (Decidable (Pool.Permitted _ _ _ _))

/-- Where no stale action is handed out again and none goes stale in hand, a tracked action is
sent only after its job was claimed, once, and every claim is within the TTL of its entry. -/
theorem action_sent_once_in_time {cfg : Config} {s : System} {p : Pool api}
    {as : List (PoolAction Request Env)} (hqueue : s.queue = .empty) (hhistory : s.history = .empty)
    (hguarded : (Pool.machine (Request.code cfg)).Guarded Request.PromptlyPermitted ⟨s, []⟩ as)
    (hrun : (Pool.machine (Request.code cfg)).run ⟨s, []⟩ as = some p) :
    (∀ c ∈ p.state.history.claims, c.claimedAt ≤ c.queuedAt + stewardActionTTL) ∧
    (∀ x ∈ p.state.history.sent, x.isAction →
      ∃ c ∈ p.state.history.claims, c.jobID = x.jobID) ∧
    ∀ jobID, p.state.history.sendsOf jobID ≤ 1 := by
  have hstart : ActionInv s := by
    constructor <;> simp [hqueue, hhistory, History.empty, Table.empty, History.licencesOf,
      History.sendsOf]
  have hsound : actions.Sound p := by
    apply run_sound (fun _ c _ _ hc => code_actions_safe cfg hc) _ hguarded hrun
    constructor
    · exact hstart
    · intro tid q hq
      cases hq
  have hinv : ActionInv p.state := hsound.1
  refine ⟨hinv.claims, hinv.sent, fun jobID => ?_⟩
  exact (Nat.le_add_left _ _).trans (hinv.once jobID)

def serviceAction (verb : String) : ActionRunRequest where
  devices := [⟨"dev-1", .empty⟩]
  tenantID := "acme"
  createdBy := "operator"
  action := ⟨verb, "service", "spooler", .empty⟩
  commandSignature := ⟨"ed25519", "sig", "key", "", "", "", "", ""⟩
  targets := ["dev-1"]
  nonce := "nonce-1"
  expiresAt := ""

def firstEnds : TerminalEvent where
  stewardID := "dev-1"
  executionID := "exec-1"
  commandFailed := false
  details := ⟨some 0, none, none, none, none, none, "ok"⟩

/-- Two actions are queued for a device, and the first is sent and ends. Its dispatch has moved
both entries to dispatched. -/
def firstActionDone : List (PoolAction Request Env) :=
  .start (.actionRun (serviceAction "restart")) ::
    drawing 0 ["run-1", "", "", "job-1", "exec-1", "", "", "", ""] ++
  .start (.actionRun (serviceAction "stop")) ::
    drawing 1 ["run-2", "", "", "job-2", "exec-2", "", "", "", ""] ++
  .start (.dispatchForDevice "dev-1") :: calls 2 9 ++
  .start (.completionEvent firstEnds) :: calls 3 11

def secondActionAfter (elapsed : ℕ) : List (PoolAction Request Env) :=
  firstActionDone ++ .start .passTime :: .tick 4 (steady "" elapsed) ::
    .start (.dispatchForDevice "dev-1") :: calls 5 9

theorem action_sent_once_in_time_second :
    ∃ p, (Pool.machine (Request.code plainConfig)).run ⟨emptySystem, []⟩
        (secondActionAfter 60000000000) = some p ∧
      p.state.history.sendsOf "job-2" = 1 ∧
      ∀ c ∈ p.state.history.claims, c.claimedAt ≤ c.queuedAt + stewardActionTTL := by
  refine exists_some_of_any (P := fun p => p.state.history.sendsOf "job-2" = 1)
    (by decide +kernel) fun p hp hsent => ⟨hsent, ?_⟩
  exact (action_sent_once_in_time rfl rfl (by decide +kernel) hp).1

/-- Three minutes later the second entry is handed out again, claimed and sent. -/
theorem stale_action_sent : ∃ p, (Pool.machine (Request.code plainConfig)).run ⟨emptySystem, []⟩
        (secondActionAfter 180000000000) = some p ∧
      ∃ x ∈ p.state.history.sent, x.isAction ∧ ∃ c ∈ p.state.history.claims,
        c.jobID = x.jobID ∧ c.queuedAt + stewardActionTTL < c.claimedAt := by
  exact exists_some_of_any (by decide +kernel) fun _ _ h => h

end Cfgms.Dispatch
