import Cfgms.Lease.Cluster

/-! # The split-brain bound

A node has a claim on a lease from the moment the store grants its call. While the window of a
claim is open, the stored row is the node's and outlasts the window. Only a release can break
this, when it takes effect while the node still has an open claim.
-/

namespace Cfgms.Lease.Cluster

open Function

variable {ι : Type*} (K : Cluster ι)

/-- Node `i` may come to use, or uses, an authority stamped `start` for the lease. -/
inductive Claims (s : ClusterState ι) (i : ι) (name : String) (start : ℤ) : Prop where
  | cached (a : CachedAuthority) : (s.managers i).cached name = some a →
      a.acquiredOrRenewedAt = start → Claims s i name start
  | granted (k : ℕ) (c : AcquireCall ι) (r : LeaseState) : s.acquires k = some c →
      c.reply = some (.ok r) → c.Grants r → c.node = i → c.name = name → c.callStart = start →
      Claims s i name start

/-- The safety margin counted from `start` has not elapsed on the node's clock. -/
def Open (s : ClusterState ι) (i : ι) (start : ℤ) : Prop :=
  K.clock s i - start < (K.config i).margin.toInt

/-- The stored row is the node's and lives for a full TTL from `start`. -/
def Covers (t : LeaseTable) (i : ι) (name : String) (start : ℤ) : Prop :=
  ∃ r, t name = some r ∧ r.holderID = K.holderID i ∧
    start - K.clockOffset i + K.storeOffset + (K.config i).leaseTTL.toInt ≤ r.expiresAt

structure Safe (s : ClusterState ι) : Prop where
  config : ∀ i, (s.managers i).toManagerConfig = K.config i
  own : ∀ i name a, (s.managers i).cached name = some a → a.holderID = K.holderID i
  issued : ∀ k c, s.acquires k = some c → c.callStart ≤ K.clock s c.node
  started : ∀ i name start, Claims s i name start → start ≤ K.clock s i
  covered : ∀ i name start, Claims s i name start → K.Open s i start →
    K.Covers s.table i name start

/-- A release that expires the row finds its node without an open claim on the lease. -/
def ReleasesSettled (s : ClusterState ι) : ClusterAction ι → Prop
  | .releaseEffect k => ∀ c, s.releases k = some c →
      ∀ r, s.table c.name = some r → r.holderID = K.holderID c.node → r.token = c.token →
        ∀ start, Claims s c.node c.name start → ¬ K.Open s c.node start
  | _ => True

variable {K}

variable {s s' : ClusterState ι}

theorem Safe.shrink (h : K.Safe s) (hnow : s.now ≤ s'.now) (htable : s'.table = s.table)
    (hconfig : ∀ i, (s'.managers i).toManagerConfig = (s.managers i).toManagerConfig)
    (hown : ∀ i name a, (s'.managers i).cached name = some a → a.holderID = K.holderID i)
    (hissued : ∀ k c, s'.acquires k = some c → c.callStart ≤ K.clock s' c.node)
    (hclaims : ∀ i name start, Claims s' i name start → Claims s i name start) : K.Safe s' where
  config i := (hconfig i).trans (h.config i)
  own := hown
  issued := hissued
  started i name start hc := by
    have hstart := h.started i name start (hclaims i name start hc)
    unfold clock at *
    omega
  covered i name start hc ho := by
    rw [htable]
    apply h.covered i name start (hclaims i name start hc)
    unfold Open clock at *
    omega

theorem Safe.issued_of_acquires (h : K.Safe s) (hnow : s.now ≤ s'.now)
    (hacq : ∀ k c, s'.acquires k = some c → s.acquires k = some c) :
    ∀ k c, s'.acquires k = some c → c.callStart ≤ K.clock s' c.node := by
  intro k c hc
  have hstart := h.issued k c (hacq k c hc)
  unfold clock at *
  omega

theorem update_none_le {κ β : Type*} [DecidableEq κ] {f : κ → Option β} {k k' : κ} {b : β}
    (h : update f k none k' = some b) : f k' = some b := by
  by_cases hk : k' = k
  · simp [hk] at h
  · simpa [hk] using h

variable {name : String}
variable {i : ι} {start : ℤ}

theorem Claims.mono (h : Claims s' i name start)
    (hm : ∀ i name a, (s'.managers i).cached name = some a →
      Claims s i name a.acquiredOrRenewedAt)
    (ha : ∀ k c r, s'.acquires k = some c → c.reply = some r → s.acquires k = some c) :
    Claims s i name start := by
  cases h with
  | cached a hc hs => exact hs ▸ hm i name a hc
  | granted k c r hc hr hg hi hn hs => exact .granted k c r (ha k c _ hc hr) hr hg hi hn hs

variable {k : ℕ}

theorem Safe.issue (h : K.Safe s)
    {op : AcquireOp} (hs : K.issue s k i name op = some s') : K.Safe s' := by
  unfold Cluster.issue at hs
  split at hs <;> cases hs
  refine h.shrink le_rfl rfl (fun _ => rfl) h.own (fun k' c hc => ?_) fun j other start hc => ?_
  · by_cases hk : k' = k
    · obtain rfl : _ = c := by simpa [hk] using hc
      exact le_rfl
    · exact h.issued k' c (by simpa [hk] using hc)
  · refine hc.mono (fun j other a ha => .cached a ha rfl) fun k' c r hc' hr => ?_
    by_cases hk : k' = k
    · obtain rfl : _ = c := by simpa [hk] using hc'
      cases hr
    · simpa [hk] using hc'

theorem margin_lt_leaseTTL (hx : (K.config i).Exact) :
    (K.config i).margin.toInt < (K.config i).leaseTTL.toInt := by
  have hr := K.renewalInterval_pos i
  have hl := K.maxAllowedRenewalLatency_pos i
  unfold ManagerConfig.Exact at hx
  omega

/-- No call of any node takes the lease away while the window is open. -/
theorem Covers.acquireOrRenew (h : K.Covers s.table i name start) (hx : (K.config i).Exact)
    (hstart : start ≤ K.clock s i) (ho : K.Open s i start) (j : ι) (other : String) :
    K.Covers (acquireOrRenew (K.storeClock s) (K.config j).leaseTTL.toInt s.table other
      (K.holderID j)).1 i name start := by
  obtain ⟨r, hr, hh, hexp⟩ := h
  have hmargin := margin_lt_leaseTTL hx
  have hout := acquireOrRenew_outcome (K.storeClock s) (K.config j).leaseTTL.toInt s.table other
    (K.holderID j)
  generalize Lease.acquireOrRenew (K.storeClock s) (K.config j).leaseTTL.toInt s.table other
    (K.holderID j) = p at hout ⊢
  obtain ⟨t', reply⟩ := p
  have frame : ∀ row : LeaseRow, name ≠ other →
      K.Covers (update s.table other (some row)) i name start :=
    fun row hne => ⟨r, by rw [update_of_ne hne, hr], hh, hexp⟩
  cases hout with
  | refused | contended => exact ⟨r, hr, hh, hexp⟩
  | created row ht =>
    apply frame row
    rintro rfl
    rw [ht] at hr
    cases hr
  | renewed r₁ row ht hren hrow htok hexp' =>
    by_cases hn : name = other
    · subst hn
      cases hr.symm.trans ht
      obtain rfl : i = j := K.holderID_injective (hh.symm.trans hren.1)
      refine ⟨row, update_self .., hrow, ?_⟩
      unfold clock at hstart
      unfold storeClock at hexp'
      omega
    · exact frame row hn
  | claimed r₁ row ht hlt =>
    apply frame row
    rintro rfl
    cases hr.symm.trans ht
    unfold Open clock at ho
    unfold storeClock at hlt
    omega

theorem covers_of_grant {r : LeaseState} (hstart : start ≤ K.clock s i)
    (hr : (acquireOrRenew (K.storeClock s) (K.config i).leaseTTL.toInt s.table name
      (K.holderID i)).2 = .ok r) (ha : r.acquired = true) :
    K.Covers (acquireOrRenew (K.storeClock s) (K.config i).leaseTTL.toInt s.table name
      (K.holderID i)).1 i name start := by
  have hout := acquireOrRenew_outcome (K.storeClock s) (K.config i).leaseTTL.toInt s.table name
    (K.holderID i)
  rw [hr] at hout
  generalize (Lease.acquireOrRenew (K.storeClock s) (K.config i).leaseTTL.toInt s.table name
    (K.holderID i)).1 = t' at hout ⊢
  have key : ∀ row : LeaseRow, row.holderID = K.holderID i →
      row.expiresAt = K.storeClock s + (K.config i).leaseTTL.toInt →
      K.Covers (update s.table name (some row)) i name start := by
    intro row hh hexp
    refine ⟨row, update_self .., hh, ?_⟩
    unfold clock at hstart
    unfold storeClock at hexp
    omega
  cases hout with
  | created row _ hh _ hexp => exact key row hh hexp
  | renewed _ row _ _ hh _ hexp => exact key row hh hexp
  | claimed _ row _ _ hh _ hexp => exact key row hh hexp
  | contended r₁ => exact absurd ha (by simp [LeaseRow.toState])

variable {c : AcquireCall ι} {reply : Except String LeaseState}

theorem Safe.acquireEffect (h : K.Safe s) (hx : ∀ i, (K.config i).Exact) (hk : s.acquires k = some c)
    {t : LeaseTable}
    (he : acquireOrRenew (K.storeClock s) (s.managers c.node).leaseTTL.toInt s.table c.name
      (K.holderID c.node) = (t, reply)) :
    K.Safe { s with
      table := t
      acquires := update s.acquires k (some { c with reply := some reply }) } := by
  rw [h.config c.node] at he
  have hissued := h.issued k c hk
  have hclaims : ∀ i name start, Claims { s with
        table := t
        acquires := update s.acquires k (some { c with reply := some reply }) }
        i name start →
      Claims s i name start ∨ i = c.node ∧ name = c.name ∧ start = c.callStart ∧
        ∃ r, reply = .ok r ∧ r.acquired = true := by
    intro i name start hc
    cases hc with
    | cached a ha hs => exact Or.inl (.cached a ha hs)
    | granted k' c' r hc' hr hg hi hn hs =>
      by_cases hkk : k' = k
      · obtain rfl : { c with reply := some reply } = c' := by simpa [hkk] using hc'
        refine Or.inr ⟨hi.symm, hn.symm, hs.symm, r, ?_, hg.1⟩
        simpa using hr
      · exact Or.inl (.granted k' c' r (by simpa [hkk] using hc') hr hg hi hn hs)
  refine ⟨h.config, h.own, fun k' c' hc' => ?_, fun i name start hc => ?_,
    fun i name start hc ho => ?_⟩
  · by_cases hkk : k' = k
    · obtain rfl : { c with reply := some reply } = c' := by simpa [hkk] using hc'
      exact hissued
    · exact h.issued k' c' (by simpa [hkk] using hc')
  · rcases hclaims i name start hc with hc | ⟨rfl, rfl, rfl, -⟩
    · exact h.started i name start hc
    · exact hissued
  · have ht : t = (acquireOrRenew (K.storeClock s) (K.config c.node).leaseTTL.toInt s.table c.name
        (K.holderID c.node)).1 := by rw [he]
    rcases hclaims i name start hc with hc | ⟨rfl, rfl, rfl, r, hr, ha⟩
    · change K.Covers t i name start
      rw [ht]
      exact (h.covered i name start hc ho).acquireOrRenew (hx i) (h.started i name start hc) ho _ _
    · change K.Covers t c.node c.name c.callStart
      rw [ht]
      exact covers_of_grant hissued (by rw [he, hr]) ha

/-- A settled release expires a row that nobody relies on. -/
theorem Safe.releaseEffect (h : K.Safe s) {c : ReleaseCall ι}
    (hk : s.releases k = some c) (hset : K.ReleasesSettled s (.releaseEffect k))
    (releases : ℕ → Option (ReleaseCall ι)) :
    K.Safe { s with
      table := Lease.release s.table c.name (K.holderID c.node) c.token
      releases := releases } := by
  have hclaims : ∀ {i name start}, Claims { s with
      table := Lease.release s.table c.name (K.holderID c.node) c.token
      releases := releases } i name start → Claims s i name start := fun hc =>
    hc.mono (fun _ _ a ha => .cached a ha rfl) fun _ _ _ hc' _ => hc'
  refine ⟨h.config, h.own, h.issued, fun i name start hc => h.started i name start (hclaims hc),
    fun i name start hc ho => ?_⟩
  obtain ⟨r, hr, hh, hexp⟩ := h.covered i name start (hclaims hc) ho
  change K.Covers (Lease.release s.table c.name (K.holderID c.node) c.token) i name start
  rcases release_eq s.table c.name (K.holderID c.node) c.token with he | ⟨r₁, hr₁, hh₁, ht₁, he⟩
  · rw [he]
    exact ⟨r, hr, hh, hexp⟩
  rw [he]
  refine ⟨r, ?_, hh, hexp⟩
  rw [update_of_ne, hr]
  rintro rfl
  cases hr.symm.trans hr₁
  obtain rfl : i = c.node := K.holderID_injective (hh.symm.trans hh₁)
  exact hset c hk r hr hh₁ ht₁ start (hclaims hc) ho

theorem Initial.safe (h : K.Initial s) : K.Safe s := by
  obtain ⟨hm, ha, -⟩ := h
  have hnone : ∀ i name start, ¬ Claims s i name start := by
    intro i name start hc
    cases hc with
    | cached a hc _ => simp [hm i, newManager] at hc
    | granted k c r hc => simp [ha k] at hc
  refine ⟨fun i => by simp [hm i, newManager], fun i name a hc => ?_, fun k c hc => ?_,
    fun i name start hc => absurd hc (hnone i name start),
    fun i name start hc => absurd hc (hnone i name start)⟩
  · simp [hm i, newManager] at hc
  · simp [ha k] at hc

theorem Safe.holder_unique (h : K.Safe s) {j : ι} {holder other : String} {token token' : ℕ}
    (hi : K.hasLocalAuthority s i name holder = some token)
    (hj : K.hasLocalAuthority s j name other = some token') : holder = other := by
  have row : ∀ {i : ι} {holder : String} {token : ℕ},
      K.hasLocalAuthority s i name holder = some token →
      ∃ r, s.table name = some r ∧ r.holderID = holder := by
    intro i holder token hi
    obtain ⟨a, ha, hh, hopen, -⟩ := Manager.hasLocalAuthority_eq_some.mp hi
    rw [h.config i] at hopen
    obtain ⟨r, hr, hrow, -⟩ := h.covered i name _ (.cached a ha rfl) hopen
    exact ⟨r, hr, by rw [hrow, ← h.own i name a ha, hh]⟩
  obtain ⟨r, hr, rfl⟩ := row hi
  obtain ⟨r', hr', rfl⟩ := row hj
  cases hr.symm.trans hr'
  rfl

variable [DecidableEq ι]

theorem Safe.release (h : K.Safe s) (i : ι) (name : String)
    (releases : ℕ → Option (ReleaseCall ι)) :
    K.Safe { s with
      managers := update s.managers i
        ((s.managers i).invalidateLocalAuthority name (K.holderID i))
      releases := releases } := by
  have hcached : ∀ j other a, (update s.managers i
      ((s.managers i).invalidateLocalAuthority name (K.holderID i)) j).cached other = some a →
      (s.managers j).cached other = some a := by
    intro j other a ha
    by_cases hj : j = i
    · subst hj
      rw [update_self] at ha
      exact Manager.cached_of_invalidateLocalAuthority ha
    · rwa [update_of_ne hj] at ha
  refine h.shrink le_rfl rfl (fun j => ?_)
    (fun j other a ha => h.own j other a (hcached j other a ha)) h.issued fun j other start hc => hc.mono
      (fun j other a ha => .cached a (hcached j other a ha) rfl) fun k c r hc' _ => hc'
  by_cases hj : j = i <;> simp [hj]

theorem Safe.acquireReturn (h : K.Safe s) (hk : s.acquires k = some c) (hr : c.reply = some reply) :
    K.Safe { s with
      managers := update s.managers c.node
        (c.finish (K.holderID c.node) (s.managers c.node) reply)
      acquires := update s.acquires k none } := by
  have hcached : ∀ j other a, (update s.managers c.node
      (c.finish (K.holderID c.node) (s.managers c.node) reply) j).cached other = some a →
      a.holderID = K.holderID j ∧ Claims s j other a.acquiredOrRenewedAt := by
    intro j other a ha
    by_cases hj : j = c.node
    · subst hj
      rw [update_self] at ha
      rcases AcquireCall.cached_of_finish ha with ha | ⟨r, rfl, hg, rfl, hh, hs⟩
      · exact ⟨h.own _ _ _ ha, .cached a ha rfl⟩
      · exact ⟨hh, .granted k c r hk hr hg rfl rfl hs.symm⟩
    · rw [update_of_ne hj] at ha
      exact ⟨h.own j other a ha, .cached a ha rfl⟩
  refine h.shrink le_rfl rfl (fun j => ?_) (fun j other a ha => (hcached j other a ha).1)
    (h.issued_of_acquires le_rfl fun _ _ => update_none_le) fun j other start hc => hc.mono
      (fun j other a ha => (hcached j other a ha).2) fun _ _ _ hc' _ => update_none_le hc'
  by_cases hj : j = c.node
  · subst hj
    simpa using c.finish_config _ _ _
  · simp [hj]

theorem Safe.step {a : ClusterAction ι} (hx : ∀ i, (K.config i).Exact)
    (h : K.Safe s) (hset : K.ReleasesSettled s a) (hs : K.step s a = some s') : K.Safe s' := by
  cases a
  case tick d =>
    cases hs
    have hnow : s.now ≤ s.now + d := by omega
    exact h.shrink hnow rfl (fun _ => rfl) h.own (h.issued_of_acquires hnow fun _ _ => id)
      fun i name start hc => hc.mono (fun _ _ a ha => .cached a ha rfl) fun _ _ _ hc' _ => hc'
  case renew => exact h.issue hs
  case tryAcquire =>
    simp only [Cluster.step] at hs
    split at hs
    · cases hs
      exact h
    · exact h.issue hs
  -- the other steps find what they need, or are none
  all_goals
    simp only [Cluster.step] at hs
    split at hs <;> cases hs
  · exact h.release _ _ _
  next hk => exact h.acquireEffect hx hk rfl
  next hk => exact h.acquireReturn hk rfl
  · exact h.shrink le_rfl rfl (fun _ => rfl) h.own
      (h.issued_of_acquires le_rfl fun _ _ => update_none_le) fun i name start hc =>
        hc.mono (fun _ _ a ha => .cached a ha rfl) fun _ _ _ hc' _ => update_none_le hc'
  next hk => exact h.releaseEffect hk hset _
  · exact h.shrink le_rfl rfl (fun _ => rfl) h.own h.issued fun i name start hc =>
      hc.mono (fun _ _ a ha => .cached a ha rfl) fun _ _ _ hc' _ => hc'

/-- While releases are settled and the margins do not wrap, no two holders have authority
at the same instant. -/
theorem no_split_brain (K : Cluster ι) (hx : ∀ i, (K.config i).Exact) {s₀ s : ClusterState ι}
    (h₀ : K.Initial s₀) (as : List (ClusterAction ι))
    (hset : K.machine.Guarded K.ReleasesSettled s₀ as) (hrun : K.machine.run s₀ as = some s)
    (i j : ι) (name holder other : String) (hne : holder ≠ other) :
    ¬ ((K.hasLocalAuthority s i name holder).isSome ∧
      (K.hasLocalAuthority s j name other).isSome) := by
  have hsafe : K.Safe s := K.machine.run_invariant
    (fun s a s' hs hq ha => Safe.step hx hs hq ha) as s₀ s h₀.safe hset hrun
  rintro ⟨hi, hj⟩
  obtain ⟨token, hi⟩ := Option.isSome_iff_exists.mp hi
  obtain ⟨token', hj⟩ := Option.isSome_iff_exists.mp hj
  exact hne (hsafe.holder_unique hi hj)

def tenSeconds : ManagerConfig where
  leaseTTL := 10000000000
  renewalInterval := 1000000000
  maxAllowedRenewalLatency := 1000000000
  margin := 8000000000
  margin_eq := by decide

def nodeName : Bool → String
  | false => "node-a"
  | true => "node-b"

def twoNodes : Cluster Bool where
  holderID := nodeName
  config _ := tenSeconds
  clockOffset _ := 0
  storeOffset := 1000000000
  holderID_injective := by
    rintro (_ | _) (_ | _) h
    · rfl
    · exact absurd h (by decide)
    · exact absurd h (by decide)
    · rfl
  renewalInterval_pos _ := by decide
  maxAllowedRenewalLatency_pos _ := by decide

def freshState : ClusterState Bool where
  now := 0
  table _ := none
  managers _ := newManager tenSeconds
  acquires _ := none
  releases _ := none

theorem twoNodes_initial : twoNodes.Initial freshState :=
  ⟨fun _ => rfl, fun _ => rfl, fun _ => rfl⟩

theorem tenSeconds_exact : tenSeconds.Exact := by
  unfold ManagerConfig.Exact
  decide

def handOver : List (ClusterAction Bool) :=
  [.tryAcquire 0 false "job" 10000000000, .acquireEffect 0, .acquireReturn 0,
    .release 0 false "job" 1, .releaseEffect 0, .releaseReturn 0,
    .tryAcquire 0 true "job" 10000000000, .acquireEffect 0, .acquireReturn 0]

theorem handOver_settled :
    twoNodes.machine.Guarded twoNodes.ReleasesSettled freshState handOver := by
  refine .cons rfl trivial (.cons rfl trivial (.cons rfl trivial (.cons rfl trivial (.cons rfl ?_
    (.cons rfl trivial (.cons rfl trivial (.cons rfl trivial (.cons rfl trivial trivial))))))))
  intro c hc r _ _ _ start hclaim
  cases hc
  cases hclaim with
  | cached a ha => cases ha
  | granted k c r hc =>
    cases k with
    | zero | succ => cases hc

theorem no_split_brain_handOver : ∃ s, twoNodes.machine.run freshState handOver = some s ∧
    ¬ ((twoNodes.hasLocalAuthority s false "job" "node-a").isSome ∧
      (twoNodes.hasLocalAuthority s true "job" "node-b").isSome) :=
  ⟨_, rfl, no_split_brain twoNodes (fun _ => tenSeconds_exact) twoNodes_initial handOver
    handOver_settled rfl false true "job" "node-a" "node-b" (by decide)⟩

/-- A renewal is granted, its node releases the lease and another node takes it; then the
renewal's answer arrives. -/
def lateRenewal : List (ClusterAction Bool) :=
  [.tryAcquire 0 false "job" 10000000000, .acquireEffect 0, .acquireReturn 0,
    .renew 1 false "job" 1, .acquireEffect 1,
    .release 0 false "job" 1, .releaseEffect 0, .releaseReturn 0,
    .tryAcquire 2 true "job" 10000000000, .acquireEffect 2, .acquireReturn 2,
    .acquireReturn 1]

theorem split_brain_lateRenewal : ∃ s, twoNodes.machine.run freshState lateRenewal = some s ∧
    (twoNodes.hasLocalAuthority s false "job" "node-a").isSome ∧
    (twoNodes.hasLocalAuthority s true "job" "node-b").isSome :=
  ⟨_, rfl, by decide, by decide⟩

end Cfgms.Lease.Cluster
