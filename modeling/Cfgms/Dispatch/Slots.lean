import Cfgms.Dispatch.Routine

/-! # Device slots

A slot stays taken while its execution is open. The releases do not check whose slot it is: one
execution is in flight per device if a slot is drained only when nobody else uses it, and it keeps
its lock record if the record is deleted only while the slot is free.
-/

namespace Cfgms.Dispatch

open Ordered Script Run Program List Discipline

/-- A slot is drained only if no other dispatch holds it and no execution on the device is open,
and a lock record is deleted only if the slot is free. -/
def isExclusive : {β : Type} → System → ℕ → Op β → Env → Bool
  | _, s, tid, .drain deviceID, _ =>
    (∀ x ∈ s.history.holders, x.1 = deviceID → x.2 = tid) ∧ s.inFlightOn deviceID = []
  | _, s, _, .clearLock deviceID, _ => deviceID ∉ s.full
  | _, _, _, _, _ => true

def Exclusive {β : Type} (s : System) (tid : ℕ) (o : Op β) (env : Env) : Prop := isExclusive s tid o env

instance {β : Type} (s : System) (tid : ℕ) (o : Op β) (env : Env) :
    Decidable (Exclusive s tid o env) := inferInstanceAs (Decidable (_ = true))

structure SlotInv (s : System) : Prop where
  held : ∀ x ∈ s.history.holders, x.1 ∈ s.full
  taken : ∀ deviceID, s.inFlightOn deviceID ≠ [] → deviceID ∈ s.full
  idle : ∀ x ∈ s.history.holders, s.inFlightOn x.1 = []
  unique : ∀ x ∈ s.history.holders, ∀ y ∈ s.history.holders, x.1 = y.1 → x = y
  sent : ∀ x ∈ s.history.sent, x.others = []

/-- A command is sent by the dispatch that holds the slot. -/
def SlotPre : {β : Type} → System → ℕ → Op β → Prop
  | _, s, tid, .send entry _ _ => (entry.deviceID, tid) ∈ s.history.holders
  | _, _, _, _ => True

variable {β : Type} {s s' : System} {tid : ℕ} {o : Op β} {env : Env}
variable {deviceID : String}

theorem SlotInv.of_fewer (h : SlotInv s) (hfull : s'.full = s.full)
    (hholders : s'.history.holders = s.history.holders)
    (hinFlight : ∀ x ∈ s'.history.inFlight, x ∈ s.history.inFlight) (hnow : s.now ≤ s'.now)
    (hsent : s'.history.sent = s.history.sent) : SlotInv s' := by
  have hfewer : ∀ deviceID, s.inFlightOn deviceID = [] → s'.inFlightOn deviceID = [] := by
    intro deviceID hnil
    simp [System.inFlightOn] at hnil ⊢
    exact fun x hx hdevice => (hnil x (hinFlight x hx) hdevice).trans_le hnow
  constructor
  · rw [hfull, hholders]
    exact h.held
  · intro deviceID hopen
    rw [hfull]
    exact h.taken deviceID fun hnil => hopen (hfewer deviceID hnil)
  · rw [hholders]
    exact fun x hx => hfewer x.1 (h.idle x hx)
  · rw [hholders]
    exact h.unique
  · rw [hsent]
    exact h.sent

theorem SlotInv.fill (h : SlotInv s) (deviceID : String) :
    SlotInv (exec (.fill deviceID) tid s env).1 := by
  simp only [exec]
  split
  · exact h
  next hfree =>
  have hnobody : ∀ x ∈ s.history.holders, x.1 ≠ deviceID := by
    rintro x hx rfl
    exact hfree (h.held x hx)
  constructor
  · exact forall_mem_cons.mpr ⟨mem_cons_self, fun x hx => mem_cons_of_mem _ (h.held x hx)⟩
  · exact fun d hopen => mem_cons_of_mem _ (h.taken d hopen)
  · exact forall_mem_cons.mpr ⟨by_contra fun hopen => hfree (h.taken deviceID hopen), h.idle⟩
  · intro x hx y hy heq
    rcases mem_cons.mp hx with rfl | hx <;> rcases mem_cons.mp hy with rfl | hy
    · rfl
    · exact absurd heq.symm (hnobody y hy)
    · exact absurd heq (hnobody x hx)
    · exact h.unique x hx y hy heq
  · exact h.sent

theorem SlotInv.drain (h : SlotInv s) (hguard : Exclusive s tid (.drain deviceID) env) :
    SlotInv (exec (.drain deviceID) tid s env).1 := by
  obtain ⟨halone, hnil⟩ := of_decide_eq_true hguard
  constructor
  · intro x hx
    obtain ⟨hx, hother⟩ := mem_filter.mp hx
    refine mem_filter.mpr ⟨h.held x hx, decide_eq_true fun hdevice => ?_⟩
    exact of_decide_eq_true hother (Prod.ext hdevice (halone x hx hdevice))
  · intro d hopen
    refine mem_filter.mpr ⟨h.taken d hopen, decide_eq_true ?_⟩
    rintro rfl
    exact hopen hnil
  · exact fun x hx => h.idle x (mem_filter.mp hx).1
  · exact fun x hx y hy => h.unique x (mem_filter.mp hx).1 y (mem_filter.mp hy).1
  · exact h.sent

variable {entry : QueueEntry} {deadline : ℤ} {cancelledBefore : List String}

theorem inFlightOn_sends {others : List InFlight} (hne : entry.deviceID ≠ deviceID) :
    (s.withHistory fun h => h.sends tid entry deadline cancelledBefore others).inFlightOn
      deviceID = s.inFlightOn deviceID := by
  have hnew : List.filter (fun x : InFlight => decide (x.deviceID = deviceID ∧ s.now ≤ x.deadline))
      [⟨entry.deviceID, entry.executionID, deadline⟩] = [] := by
    apply filter_eq_nil_iff.mpr
    intro x hx hopen
    obtain rfl := mem_singleton.mp hx
    exact hne (of_decide_eq_true hopen).1
  calc
    _ = s.inFlightOn deviceID ++ List.filter _ [_] := filter_append _ _
    _ = s.inFlightOn deviceID := by rw [hnew, append_nil]

theorem SlotInv.send (h : SlotInv s) (hpre : SlotPre s tid (.send entry deadline cancelledBefore)) :
    SlotInv (exec (.send entry deadline cancelledBefore) tid s env).1 := by
  simp only [exec]
  split
  · constructor
    · exact fun x hx => h.held x (mem_filter.mp hx).1
    · intro d hopen
      rcases eq_or_ne entry.deviceID d with rfl | hne
      · exact h.held _ hpre
      · rw [inFlightOn_sends hne] at hopen
        exact h.taken d hopen
    · intro x hx
      obtain ⟨hx, hother⟩ := mem_filter.mp hx
      have hne : entry.deviceID ≠ x.1 := fun heq =>
        of_decide_eq_true hother (h.unique x hx _ hpre heq.symm)
      rw [inFlightOn_sends hne]
      exact h.idle x hx
    · exact fun x hx y hy => h.unique x (mem_filter.mp hx).1 y (mem_filter.mp hy).1
    · exact forall_mem_append.mpr ⟨h.sent, forall_mem_singleton.mpr (h.idle _ hpre)⟩
  · exact h
  · exact h

theorem exec_slotInv (h : SlotInv s) (hpre : SlotPre s tid o) (hguard : Exclusive s tid o env) :
    SlotInv (exec o tid s env).1 := by
  have hframe := exec_frame o tid s env
  cases o with
  | advance => exact h.of_fewer rfl rfl (fun _ hx => hx) (Int.le_add_of_nonneg_right
      (Int.natCast_nonneg _)) rfl
  | cancel deviceID executionID =>
    refine h.of_fewer (hframe.full rfl) (hframe.holders rfl) (fun x hx => ?_) (hframe.now rfl).ge
      (hframe.sent rfl)
    cases hfails : env.fails <;>
      simp only [exec, System.onQueue, System.withHistory, hfails] at hx
    · split at hx <;> exact (mem_filter.mp hx).1
    · exact hx
  | reportEnd => exact h.of_fewer rfl rfl (fun _ hx => (mem_filter.mp hx).1) le_rfl rfl
  | fill deviceID => exact h.fill deviceID
  | drain => exact h.drain hguard
  | send => exact h.send hpre
  | _ =>
    exact h.of_fewer (hframe.full rfl) (hframe.holders rfl) (fun _ hx => hframe.inFlight rfl ▸ hx)
      (hframe.now rfl).ge (hframe.sent rfl)

/-- A slot that a dispatch holds is taken from it by nobody else. -/
def SlotRely (t : ℕ) (s s' : System) : Prop :=
  ∀ deviceID, (deviceID, t) ∈ s.history.holders → (deviceID, t) ∈ s'.history.holders

def Op.letsGo : {β : Type} → Op β → Bool
  | _, .drain _ | _, .send _ _ _ => true
  | _, _ => false

theorem exec_holders (h : o.letsGo = false) :
    s.history.holders ⊆ (exec o tid s env).1.history.holders := by
  cases o with
  | drain | send => cases h
  | fill =>
    simp only [exec]
    split
    · exact List.Subset.refl _
    · exact subset_cons_self _ _
  | _ =>
    rw [(exec_frame _ _ _ _).holders rfl]
    exact List.Subset.refl _

theorem exec_slotRely {t : ℕ} (hne : t ≠ tid) : SlotRely t s (exec o tid s env).1 := by
  have hfilter : ∀ {d d'}, (d, t) ∈ s.history.holders →
      (d, t) ∈ s.history.holders.filter fun x => x ≠ (d', tid) := by
    intro d d' hd
    exact mem_filter.mpr ⟨hd, decide_eq_true fun heq => hne (congrArg Prod.snd heq)⟩
  intro d hd
  cases o with
  | drain => exact hfilter hd
  | send =>
    simp only [exec]
    split
    · exact hfilter hd
    all_goals exact hd
  | _ => exact exec_holders rfl hd

def slots : Discipline api where
  Inv := SlotInv
  Guard := Exclusive
  Pre := SlotPre
  Rely := SlotRely
  rely_refl _ _ _ h := h
  rely_trans h h' d hd := h' d (h d hd)
  exec_inv := exec_slotInv
  exec_rely _ _ _ := exec_slotRely

def Sendless : {β : Type} → Op β → Prop
  | _, .send _ _ _ => False
  | _, _ => True

theorem Sendless.pre (h : Sendless o) : SlotPre s tid o := by
  cases o with
  | send => cases h
  | _ => trivial

theorem Routine.sendless {E : QueueEntry → Prop} {L : Prop} (h : Routine E L o) : Sendless o := by
  cases o with
  | send => cases h
  | _ => trivial

variable {α : Type} {p : Call α}

theorem safe_of_sendless (hp : p.All Sendless) : slots.Runs tid s p :=
  Discipline.Safe.of_all (K := fun _ => True) hp (fun h _ _ => h.pre) (fun _ _ => trivial)
    (fun _ _ _ _ => trivial) trivial

theorem safe_of_plain (hp : p.All (Routine (fun _ => True) True)) :
    slots.Runs tid s p := safe_of_sendless (hp.mono Routine.sendless)

def Holds (tid : ℕ) (deviceID : String) (s : System) : Prop :=
  (deviceID, tid) ∈ s.history.holders

theorem Holds.pre {e : QueueEntry} (h : Holds tid deviceID s)
    (hdevice : e.deviceID = deviceID) (deadline : ℤ) (cancelledBefore : List String) :
    SlotPre s tid (.send e deadline cancelledBefore) := by
  subst hdevice
  exact h

def Keeps {β : Type} (o : Op β) : Prop := o.letsGo = false

theorem safe_of_keeps (hp : p.All Keeps)
    (h : Holds tid deviceID s) : slots.Safe tid (fun s _ => Holds tid deviceID s) s p := by
  apply Discipline.Safe.of_all hp _ _ _ h
  · intro β s o hkeeps _ _
    cases o with
    | send => cases hkeeps
    | _ => trivial
  · exact fun h hrely => hrely _ h
  · exact fun hkeeps _ _ h => exec_holders hkeeps h

theorem Checking.keeps (h : Checking o) : Keeps o := by
  cases o with
  | resolveGuard | prepare | cancel => rfl
  | _ => cases h

theorem claimActionDispatch_keeps (runID jobID : String) (time : ℤ) (e : QueueEntry) :
    (claimActionDispatch runID jobID time e).All Keeps := by
  refine ⟨rfl, ?_⟩
  rintro (_ | _ | _)
  · trivial
  · refine ⟨rfl, ?_⟩
    rintro (_ | _) <;> trivial
  · trivial

theorem releaseDevice_safe (deviceID : String) :
    slots.Runs tid s (releaseDevice deviceID) :=
  safe_of_plain (releaseDevice_routine deviceID)

theorem refuseLockedDown_safe (deviceID : String) (e : QueueEntry) :
    slots.Runs tid s (refuseLockedDown deviceID e) :=
  safe_of_plain (refuseLockedDown_routine deviceID e)

section Dispatch

variable (cfg : Config) {e : QueueEntry} (hdevice : e.deviceID = deviceID)
  (hs : Holds tid deviceID s)
include hdevice hs

theorem sendScript_slots_safe (deadline : ℤ) (cancelledBefore : List String) :
    slots.Runs tid s (sendScript deviceID e deadline cancelledBefore) := by
  apply (safe_of_keeps ((prepareExecution_checking deviceID e).mono Checking.keeps) hs).bind
  rintro s (_ | _) hs
  · exact releaseDevice_safe deviceID
  refine safe_op_bind.mpr fun s' hrely _ =>
    ⟨Holds.pre (hrely _ hs) hdevice deadline cancelledBefore, fun env _ => ?_⟩
  generalize (exec (.send e deadline cancelledBefore) tid s' env).2 = outcome
  cases outcome with
  | sent => trivial
  | lockedDown => exact refuseLockedDown_safe deviceID e
  | failed => exact releaseDevice_safe deviceID

variable (acquiredAt : ℤ)
variable (cancelledBefore : List String)

theorem dispatchScript_slots_safe : slots.Runs tid s
      (dispatchScript cfg deviceID e acquiredAt cancelledBefore) := by
  refine safe_op_bind.mpr fun s₁ hrely₁ _ => ⟨trivial, fun env₁ _ => ?_⟩
  refine safe_op_bind.mpr fun s₂ hrely₂ _ => ⟨trivial, fun env₂ _ => ?_⟩
  split
  · exact refuseLockedDown_safe deviceID e
  · exact sendScript_slots_safe hdevice (hrely₂ _ (hrely₁ _ hs)) _ _

theorem deliverStewardAction_slots_safe (deadline : ℤ) (cancelledBefore : List String) :
    slots.Runs tid s (deliverStewardAction deviceID e deadline cancelledBefore) := by
  apply deliverStewardAction_runs _ _ _ _ hs
  · exact fun hp => safe_of_sendless (hp.mono Routine.sendless)
  · exact fun _ => trivial
  · exact fun hrely hs => hrely _ hs
  · exact fun hs => Holds.pre hs hdevice deadline cancelledBefore

omit hdevice in
theorem claimStewardAction_slots_safe :
    slots.Safe tid (fun s claimed => claimed = true → Holds tid deviceID s) s
      (claimStewardAction deviceID e) := by
  obtain ⟨k, hk, hcases⟩ := claimStewardAction_eq deviceID e
  rw [hk]
  refine safe_call.mpr fun s' hrely _ => ⟨trivial, fun env _ => ?_⟩
  apply (safe_of_keeps (claimActionDispatch_keeps _ _ _ e) (hrely _ hs)).bind
  intro s'' r hholds
  rcases hcases r with ⟨status, rfl, hdone⟩ | ⟨hall, hreturns⟩
  · rw [hdone]
    exact fun _ => hholds
  · apply ((safe_of_plain hall).returns hreturns).mono
    rintro s a ⟨_, rfl⟩ ⟨⟩

theorem dispatchStewardAction_slots_safe : slots.Runs tid s
      (dispatchStewardAction cfg deviceID e acquiredAt cancelledBefore) := by
  refine safe_op_bind.mpr fun s' hrely _ => ⟨trivial, fun env _ => ?_⟩
  have hs' : Holds tid deviceID
      (exec (.setLock deviceID e.executionID (actionLockTTL e)) tid s' env).1 := hrely _ hs
  split
  · apply (claimStewardAction_slots_safe hs').bind
    rintro s'' (_ | _) hclaimed
    · trivial
    · exact deliverStewardAction_slots_safe hdevice (hclaimed rfl) _ _
  · exact deliverStewardAction_slots_safe hdevice hs' _ _

theorem dispatchExecution_slots_safe : slots.Runs tid s
      (dispatchExecution cfg deviceID e acquiredAt cancelledBefore) := by
  unfold dispatchExecution
  split
  · exact dispatchStewardAction_slots_safe cfg hdevice hs _ _
  · exact dispatchScript_slots_safe cfg hdevice hs _ _

end Dispatch

variable (cfg : Config)

theorem dispatchHeld_slots_safe {deviceID : String} (cancelledBefore : List String)
    (hs : Holds tid deviceID s) :
    slots.Runs tid s (dispatchHeld cfg deviceID cancelledBefore) := by
  refine safe_op_bind.mpr fun s₁ hrely₁ _ => ⟨trivial, fun env₁ _ => ?_⟩
  refine safe_op_bind.mpr fun s₂ hrely₂ _ => ⟨trivial, fun env₂ _ => ?_⟩
  have hs₂ : Holds tid deviceID (exec (.dequeue deviceID) tid s₂ env₂).1 :=
    exec_holders rfl (hrely₂ _ (hrely₁ _ hs))
  simp only [exec] at hs₂ ⊢
  split
  · exact releaseDevice_safe deviceID
  next hok =>
  rw [if_neg hok] at hs₂
  apply ((safe_of_keeps ((checkGuards_checking deviceID _).mono Checking.keeps) hs₂).returns
    (checkGuards_returns deviceID _)).bind
  rintro s (_ | ⟨e, es⟩) ⟨hs, hkept⟩
  · exact releaseDevice_safe deviceID
  · obtain ⟨_, hdevice, _⟩ := QueueStore.mem_dequeue _ (hkept mem_cons_self)
    exact dispatchExecution_slots_safe cfg hdevice hs _ _

theorem dispatchForDevice_slots_safe (deviceID : String) :
    slots.Runs tid s (dispatchForDevice cfg deviceID) := by
  refine safe_op_bind.mpr fun s₁ _ _ => ⟨trivial, fun env₁ _ => ?_⟩
  refine safe_op_bind.mpr fun s₂ _ _ => ⟨trivial, fun env₂ _ => ?_⟩
  simp only [exec]
  split
  · trivial
  · exact dispatchHeld_slots_safe cfg _ mem_cons_self

theorem code_slots_safe (c : Request) : slots.Runs tid s (c.code cfg) := by
  have hplain : c.Plain cfg (fun _ => True) True → slots.Runs tid s (c.code cfg) :=
    fun h => safe_of_plain (code_routine (fun _ _ => trivial) h)
  cases c with
  | cancelRun runID => exact safe_of_sendless (cancelRunRequest_all Routine.sendless trivial trivial)
  | dispatchForDevice deviceID => exact dispatchForDevice_slots_safe cfg deviceID
  | queueExecution deviceID x => exact hplain fun _ _ => trivial
  | actionRun q => exact hplain fun _ _ _ _ _ _ _ => trivial
  | _ => exact hplain trivial

def Unrecorded (deviceID : String) (s : System) : Prop :=
  deviceID ∈ s.full ∧ s.lockMeta.get deviceID = none

def SettlesSlot (deviceID : String) : {β : Type} → Op β → Prop
  | _, .recordLock d | _, .drain d => d = deviceID
  | _, _ => False

/-- A taken slot gets its lock record, or is freed. -/
def recordDebt (deviceID : String) : Debt api where
  Due := Unrecorded deviceID
  Pays := SettlesSlot deviceID
  Answers _ _ := True

theorem recordDebt_lawful : (recordDebt deviceID).Lawful slots where
  not_due := by
    intro β s tid o env _ _ _ hpays hdue
    cases o with
    | recordLock d =>
      obtain rfl : d = deviceID := hpays
      have hnone : (s.lockMeta.store ⟨d, s.now, "", 0⟩).get d = none := hdue.2
      rw [Table.get_store, if_pos rfl] at hnone
      cases hnone
    | drain d =>
      obtain rfl : d = deviceID := hpays
      exact of_decide_eq_true (mem_filter.mp hdue.1).2 rfl
    | _ => cases hpays
  answers _ _ _ _ _ := trivial

/-- The operations that can leave a slot without a lock record. -/
def Op.unrecords : {β : Type} → Op β → Bool
  | _, .fill _ | _, .takeLock _ _ => true
  | _, _ => false

/-- Where lock records are deleted only for free slots, the rest leaves a taken slot its record. -/
theorem exec_unrecorded (ho : o.unrecords = false) (hguard : Exclusive s tid o env)
    (h : ¬ Unrecorded deviceID s) : ¬ Unrecorded deviceID (exec o tid s env).1 := by
  cases o with
  | fill | takeLock => cases ho
  | drain d => exact fun hdue => h ⟨(mem_filter.mp hdue.1).1, hdue.2⟩
  | recordLock d =>
    rintro ⟨hfull, hnone⟩
    change (s.lockMeta.store ⟨d, s.now, "", 0⟩).get deviceID = none at hnone
    rw [Table.get_store] at hnone
    split at hnone
    · cases hnone
    · exact h ⟨hfull, hnone⟩
  | setLock d executionID ttl =>
    rintro ⟨hfull, hnone⟩
    apply h
    refine ⟨hfull, ?_⟩
    have hsame : ∀ m, (LockMeta.withExecution executionID ttl m).deviceID = m.deviceID :=
      fun _ => rfl
    have hget : (s.lockMeta.update (·.deviceID = d) (LockMeta.withExecution executionID ttl)
        hsame).get deviceID = none := hnone
    rw [Table.get_update] at hget
    exact Option.map_eq_none_iff.mp hget
  | clearLock d =>
    rintro ⟨hfull, hnone⟩
    have hfree : d ∉ s.full := of_decide_eq_true hguard
    apply h
    refine ⟨hfull, ?_⟩
    have hne : d ≠ deviceID := by
      rintro rfl
      exact hfree hfull
    exact (Table.get_erase_of_ne hne).symm.trans hnone
  | _ => rwa [Unrecorded, (exec_frame _ _ _ _).full rfl, (exec_frame _ _ _ _).lockMeta rfl]

section Accountable

variable {promised : α → Prop}

def Records {β : Type} (o : Op β) : Prop := o.unrecords = false

theorem Routine.records {E : QueueEntry → Prop} (h : Routine E False o) : Records o := by
  cases o with
  | takeLock | fill => cases h
  | _ => rfl

theorem Basic.records (h : Basic o) : Records o := Routine.records h

theorem accountable_of_records {p : Call α} (hp : p.All Records) :
    (recordDebt deviceID).Accountable slots promised p :=
  .of_all hp fun ho _ _ hguard h => exec_unrecorded ho hguard h

theorem accountable_of_basic {p : Call α} (hp : p.All Basic) :
    (recordDebt deviceID).Accountable slots promised p :=
  accountable_of_records (hp.mono Basic.records)

variable {γ : Type} {f : γ → Call α}

theorem accountable_then {p : Call γ}
    (hp : (recordDebt deviceID).Settles slots p)
    (hf : ∀ c, (recordDebt deviceID).Accountable slots promised (f c)) :
    (recordDebt deviceID).Accountable slots promised (p >>= f) :=
  hp.bind hf fun _ => False.elim

theorem accountable_call {o : Op γ} (ho : Records o)
    (hf : ∀ c, (recordDebt deviceID).Accountable slots promised (f c)) :
    (recordDebt deviceID).Accountable slots promised (call o >>= f) :=
  accountable_then (accountable_of_records ((all_op _).mpr ho)) hf

theorem exec_takeLock_unrecorded {d executionID : String} (h : ¬ Unrecorded deviceID s)
    (hdue : Unrecorded deviceID (exec (.takeLock d executionID) tid s env).1) :
    d = deviceID ∧ (exec (.takeLock d executionID) tid s env).2 = true := by
  simp only [exec] at hdue ⊢
  split at hdue
  · exact absurd hdue h
  split at hdue
  · exact absurd hdue h
  next hexecution =>
  rw [if_neg hexecution]
  refine ⟨by_contra fun hne => h ⟨hdue.1, ?_⟩, rfl⟩
  exact (Table.get_erase_of_ne hne).symm.trans hdue.2

theorem releaseDeviceIfExecution_accountable (d executionID : String) {promised : Bool → Prop} :
    (recordDebt deviceID).Accountable slots promised (releaseDeviceIfExecution d executionID) := by
  refine Debt.accountable_op_bind.mpr fun s tid env _ _ _ => ⟨fun h hdue => ?_, ?_⟩
  · obtain ⟨rfl, htaken⟩ := exec_takeLock_unrecorded h hdue
    rw [htaken]
    exact .inl rfl
  · cases (exec (.takeLock d executionID) tid s env).2 with
    | false => trivial
    | true => exact accountable_of_records ⟨rfl, fun _ => trivial⟩

variable (job : JobRecord)

theorem tearDown_accountable :
    (recordDebt deviceID).Settles slots (tearDown job) := by
  unfold tearDown
  split
  · refine accountable_call rfl ?_
    intro _
    exact accountable_then (releaseDeviceIfExecution_accountable _ _) fun _ => trivial
  · trivial

theorem expireActionJob_slots_accountable (now : ℤ) (job : JobRecord) :
    (recordDebt deviceID).Settles slots (expireActionJob now job) := by
  refine accountable_call rfl ?_
  rintro (_ | _ | _)
  · trivial
  · trivial
  apply accountable_then (tearDown_accountable job)
  intro _
  apply accountable_then (accountable_of_basic (refreshRun_routine job.runID))
  exact fun _ => accountable_of_records ⟨rfl, fun _ => trivial⟩

theorem expireAll_slots_accountable (now : ℤ) (jobs : List JobRecord) :
    (recordDebt deviceID).Settles slots (expireAll now jobs) := by
  induction jobs with
  | nil => trivial
  | cons job jobs ih => exact accountable_then (expireActionJob_slots_accountable now job) fun _ => ih

theorem sweepActionJobs_accountable :
    (recordDebt deviceID).Settles slots sweepActionJobs := by
  refine accountable_call rfl ?_
  intro now
  refine accountable_call rfl ?_
  rintro (_ | jobs)
  · trivial
  · exact expireAll_slots_accountable now jobs

theorem releaseExpired_accountable (locks : List LockMeta) :
    (recordDebt deviceID).Settles slots (releaseExpired locks) := by
  induction locks with
  | nil => trivial
  | cons m ms ih => exact accountable_then (releaseDeviceIfExecution_accountable _ _) fun _ => ih

theorem releaseCancelled_accountable :
    (recordDebt deviceID).Settles slots (releaseCancelled job) := by
  unfold releaseCancelled
  split
  · exact accountable_then (releaseDeviceIfExecution_accountable _ _) fun _ => trivial
  · trivial

theorem cancelJob_slots_accountable :
    (recordDebt deviceID).Settles slots (cancelJob job) := by
  have hcancel : (cancelQueued job).All Basic := by
    exact all_ite.mpr ⟨fun _ => trivial, fun _ => ⟨trivial, fun _ => trivial⟩⟩
  apply accountable_then (accountable_of_basic hcancel)
  rintro (_ | _)
  · trivial
  apply accountable_then (releaseCancelled_accountable job)
  intro _
  refine accountable_call rfl ?_
  rintro (_ | _) <;> trivial

theorem cancelJobs_slots_accountable (jobs : List JobRecord) :
    (recordDebt deviceID).Settles slots (cancelJobs jobs) := by
  induction jobs with
  | nil => trivial
  | cons job jobs ih =>
    unfold cancelJobs
    split
    · exact ih
    apply accountable_then (cancelJob_slots_accountable job)
    rintro (_ | _)
    · trivial
    · exact ih

theorem cancelRun_slots_accountable (runID : String) :
    (recordDebt deviceID).Settles slots (cancelRun runID) := by
  refine accountable_call rfl ?_
  rintro ((_ | _) | run)
  · trivial
  · trivial
  dsimp only
  split
  · trivial
  refine accountable_call rfl ?_
  rintro (_ | jobs)
  · trivial
  apply accountable_then (cancelJobs_slots_accountable jobs)
  rintro (_ | _)
  · trivial
  · refine accountable_call rfl ?_
    rintro (_ | _) <;> trivial

theorem cancelRunRequest_accountable (runID : String) :
    (recordDebt deviceID).Settles slots (cancelRunRequest runID) := by
  apply accountable_then (cancelRun_slots_accountable runID)
  rintro (_ | _)
  · trivial
  · exact accountable_of_records ((all_op _).mpr rfl)

theorem dispatchHeld_records (d : String) (cancelledBefore : List String) :
    (dispatchHeld cfg d cancelledBefore).All Records := by
  refine ⟨rfl, fun acquiredAt => ⟨rfl, ?_⟩⟩
  have hrelease : (releaseDevice d).All Records := (releaseDevice_routine d).mono Basic.records
  rintro (_ | entries)
  · exact hrelease
  apply ((checkGuards_routine d entries).mono Basic.records).bind
  rintro (_ | ⟨e, es⟩)
  · exact hrelease
  apply dispatchExecution_all Basic.records
  · exact fun _ => rfl
  · exact fun _ _ => rfl
  · exact fun _ => rfl

theorem dispatchForDevice_accountable (d : String) :
    (recordDebt deviceID).Settles slots (dispatchForDevice cfg d) := by
  refine accountable_call rfl ?_
  intro cancelledBefore
  refine Debt.accountable_op_bind.mpr fun s tid env _ _ _ => ⟨fun h hdue => ?_, ?_⟩
  · simp only [exec] at hdue ⊢
    split at hdue
    · exact absurd hdue h
    next hfree =>
    rw [if_neg hfree]
    refine .inl (by_contra fun hne => h ⟨?_, hdue.2⟩)
    exact (mem_cons.mp hdue.1).resolve_left fun heq => hne heq.symm
  · cases (exec (.fill d) tid s env).2 with
    | false => trivial
    | true => exact accountable_of_records (dispatchHeld_records cfg d cancelledBefore)

theorem code_slots_accountable (c : Request) :
    (recordDebt deviceID).Settles slots (c.code cfg) := by
  have hplain : c.Plain cfg (fun _ => True) False →
      (recordDebt deviceID).Settles slots (c.code cfg) :=
    fun h => accountable_of_records ((code_routine (fun _ _ => trivial) h).mono Routine.records)
  cases c with
  | cancelRun runID => exact cancelRunRequest_accountable runID
  | dispatchForDevice d => exact dispatchForDevice_accountable cfg d
  | sweepActionJobs => exact sweepActionJobs_accountable
  | sweepExpiredLocks => exact accountable_call rfl releaseExpired_accountable
  | queueExecution d x => exact hplain fun _ _ => trivial
  | actionRun q => exact hplain fun _ _ _ _ _ _ _ => trivial
  | _ => exact hplain trivial

end Accountable

def Request.ExclusivelyPermitted (p : Pool api) (a : PoolAction Request Env) : Prop :=
  Pool.Permitted (fun _ _ => True) Exclusive p a

instance (p : Pool api) (a : PoolAction Request Env) :
    Decidable (Request.ExclusivelyPermitted p a) :=
  inferInstanceAs (Decidable (Pool.Permitted _ _ _ _))

/-- Where slots are released only by those who use them, a command is sent only while nothing
else is in flight on the device, and a slot that is taken while no call is under way has a lock
record. -/
theorem one_execution_in_flight {cfg : Config} {s : System} {p : Pool api}
    {as : List (PoolAction Request Env)} (hhistory : s.history = .empty)
    (hlocks : ∀ deviceID ∈ s.full, (s.lockMeta.get deviceID).isSome)
    (hguarded : (Pool.machine (Request.code cfg)).Guarded Request.ExclusivelyPermitted ⟨s, []⟩ as)
    (hrun : (Pool.machine (Request.code cfg)).run ⟨s, []⟩ as = some p) :
    (∀ x ∈ p.state.history.sent, x.others = []) ∧
    (p.Idle → ∀ deviceID ∈ p.state.full, (p.state.lockMeta.get deviceID).isSome) := by
  have hstart : SlotInv s := by
    constructor <;> simp [hhistory, History.empty, System.inFlightOn]
  have hcovered : ∀ deviceID, (recordDebt deviceID).Covered slots p := by
    intro deviceID
    apply Debt.run_covered (S := fun _ _ => True) recordDebt_lawful
      (fun _ c _ _ _ => code_slots_safe cfg c) (fun _ c _ _ => code_slots_accountable cfg c) _
      hguarded hrun
    constructor
    · refine ⟨hstart, fun tid q hq => ?_⟩
      cases hq
    · rintro ⟨hfull, hnone⟩
      have hsome := hlocks deviceID hfull
      rw [hnone] at hsome
      cases hsome
    · intro q hq
      cases hq
  constructor
  · exact (hcovered "").sound.1.sent
  · intro hidle deviceID hfull
    rw [Option.isSome_iff_ne_none]
    exact fun hnone => (hcovered deviceID).not_due hidle ⟨hfull, hnone⟩

def script (scriptRef : String) : ScriptRunRequest where
  devices := [⟨"dev-1", .empty⟩]
  tenantID := "acme"
  createdBy := "operator"
  scriptRef := scriptRef
  scriptVersion := "1"
  shell := "bash"
  runtimeParams := .empty
  scriptMeta := none
  paramPlatformBindings := .empty
  requiredAPIScope := []

def creates (tid : ℕ) (scriptRef runID jobID executionID : String) :
    List (PoolAction Request Env) :=
  .start (.scriptRun (script scriptRef)) ::
    drawing tid [runID, "", "", jobID, executionID, "", "", "", ""]

def firstCompletes : TerminalEvent where
  stewardID := "dev-1"
  executionID := "exec-1"
  commandFailed := false
  details := ⟨some 0, none, none, none, none, none, ""⟩

def firstSent : List (PoolAction Request Env) :=
  creates 0 "backup" "run-1" "job-1" "exec-1" ++ .start (.dispatchForDevice "dev-1") :: calls 1 8

def secondSent : List (PoolAction Request Env) :=
  firstSent ++ .start (.completionEvent firstCompletes) :: calls 2 10 ++
    creates 3 "cleanup" "run-2" "job-2" "exec-2" ++
    .start (.dispatchForDevice "dev-1") :: calls 4 8

theorem one_execution_in_flight_second :
    ∃ p, (Pool.machine (Request.code plainConfig)).run ⟨emptySystem, []⟩ secondSent = some p ∧
      p.state.history.sent.map (·.executionID) = ["exec-1", "exec-2"] ∧
      (∀ x ∈ p.state.history.sent, x.others = []) ∧
      ∀ deviceID ∈ p.state.full, (p.state.lockMeta.get deviceID).isSome := by
  refine exists_some_of_any (P := fun p => p.Idle ∧ p.state.history.sent.map (·.executionID) =
    ["exec-1", "exec-2"]) (by decide +kernel) fun p hp ⟨hidle, hsent⟩ => ?_
  obtain ⟨halone, hlocks⟩ := one_execution_in_flight rfl (by decide) (by decide +kernel) hp
  exact ⟨hsent, halone, hlocks hidle⟩

/-- The event of the first execution comes again and frees the slot of the second, so that the
third is sent while the second is open. -/
theorem late_event_frees_slot : ∃ p, (Pool.machine (Request.code plainConfig)).run ⟨emptySystem, []⟩
        (secondSent ++ .start (.completionEvent firstCompletes) :: calls 5 5 ++
          creates 6 "report" "run-3" "job-3" "exec-3" ++
          .start (.dispatchForDevice "dev-1") :: calls 7 3 ++
          .tick 7 ⟨false, fun id => if id = "exec-3" then 0 else 1, "", 0, true, .sent⟩ ::
          calls 7 4) = some p ∧
      ∃ x ∈ p.state.history.sent, x.kind = .script ∧ x.executionID = "exec-3" ∧
        x.others.map (·.executionID) = ["exec-2"] := by
  exact exists_some_of_any (by decide +kernel) fun _ _ h => h

end Cfgms.Dispatch
