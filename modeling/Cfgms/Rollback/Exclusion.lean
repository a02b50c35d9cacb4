import Cfgms.Machine.Threads
import Cfgms.Ordered.Table
import Mathlib.Data.List.Sort

/-! # Concurrent rollbacks

`ExecuteRollback` looks for a rollback of its target in progress, saves its operation as pending
and leaves the rest to a goroutine, which writes its own copy over the stored one and never reads
it. So operations exclude each other, and a cancellation lasts, only at the right times.
-/

namespace Cfgms.Rollback.Manager

open Ordered List Discipline

inductive TargetType where
  | device
  | group
  | client
  | msp
  deriving DecidableEq

structure Target where
  type : TargetType
  id : String
  deriving DecidableEq

inductive RollbackStatus where
  | pending
  | validating
  | approvalRequired
  | inProgress
  | completed
  | failed
  | cancelled
  deriving DecidableEq

structure RollbackOperation where
  id : String
  target : Target
  initiatedAt : ℤ
  status : RollbackStatus
  deriving DecidableEq

abbrev RollbackStore := Table RollbackOperation.id

def RollbackStore.inProgress (s : RollbackStore) (type : TargetType) : List RollbackOperation :=
  s.rows.filter fun r => r.status = .inProgress ∧ r.target.type = type

/-- `ListOperations` for the operations in progress, with limit 1. Twice as many are read, the
newest first, before the target is looked at. -/
def RollbackStore.listOperations (s : RollbackStore) (target : Target) : List RollbackOperation :=
  ((((s.inProgress target.type).insertionSort fun r r' => r'.initiatedAt ≤ r.initiatedAt).take
    2).filter fun r => target.id = "" ∨ r.target.id = target.id).take 1

/-- The store, and what has happened so far. No decision of a call depends on the latter. -/
structure System where
  store : RollbackStore
  /-- The operations that were accepted and have not completed or failed, with their goroutines. -/
  active : List (ℕ × RollbackOperation)
  /-- The targets that a call found free, until an operation for the target is accepted. -/
  cleared : List (ℕ × Target)
  /-- The operations whose cancellation returned without an error. -/
  cancelled : List String
  /-- The operations that were merged into main after their cancellation. -/
  mergedLate : List String

structure CallEnv where
  fails : Bool
  holds : Bool
  uuid : String
  now : ℤ
  changes : ℕ

inductive Op : Type → Type where
  | list (target : Target) : Op (Except Unit (List RollbackOperation))
  | preview : Op (Option ℕ)
  | newOperation (target : Target) : Op RollbackOperation
  | save (operation : RollbackOperation) : Op (Except Unit Unit)
  | get (id : String) : Op (Except Unit (Option RollbackOperation))
  | update (operation : RollbackOperation) : Op (Except Unit Unit)
  | validate : Op (Except Unit Bool)
  /-- `CreateBranch` and `applyChange`. -/
  | git : Op Bool
  | merge (id : String) : Op Bool

def RollbackStatus.ended (status : RollbackStatus) : Bool := status = .completed ∨ status = .failed

namespace System

variable (s : System)

/-- The goroutine of an operation that has completed or failed is done. -/
def ends (tid : ℕ) (operation : RollbackOperation) : System :=
  { s with active := s.active.filter fun a =>
      ¬ (operation.status.ended ∧ a.1 = tid ∧ a.2.id = operation.id) }

def write (operation : RollbackOperation) : System :=
  { s with
    store := s.store.store operation
    cancelled := if operation.status = .cancelled then operation.id :: s.cancelled
      else s.cancelled }

end System

def exec : {β : Type} → Op β → ℕ → System → CallEnv → System × β
  | _, .list target, tid, s, env =>
    if env.fails then (s, .error ())
    else
      let found := s.store.listOperations target
      ({ s with cleared := if found = [] then (tid, target) :: s.cleared else s.cleared },
        .ok found)
  | _, .preview, _, s, env => (s, if env.holds then some env.changes else none)
  | _, .newOperation target, _, s, env => (s, ⟨env.uuid, target, env.now, .pending⟩)
  | _, .save operation, tid, s, env =>
    if env.fails then (s, .error ())
    else
      ({ s with
          store := s.store.store operation
          active := (tid, operation) :: s.active
          cleared := s.cleared.filter fun c => c.2 ≠ operation.target }, .ok ())
  | _, .get id, _, s, env => (s, if env.fails then .error () else .ok (s.store.get id))
  | _, .update operation, tid, s, env =>
    if env.fails ∨ s.store.get operation.id = none then (s.ends tid operation, .error ())
    else ((s.ends tid operation).write operation, .ok ())
  | _, .validate, _, s, env => (s, if env.fails then .error () else .ok env.holds)
  | _, .git, _, s, env => (s, env.holds)
  | _, .merge id, _, s, env =>
    ({ s with mergedLate := if env.holds ∧ id ∈ s.cancelled then id :: s.mergedLate
        else s.mergedLate }, env.holds)

abbrev api : Interface System CallEnv := ⟨Op, exec⟩

abbrev Call (α : Type) := Program api α

abbrev call {α : Type} (o : Op α) : Call α := Program.op (A := api) o

/-- The loop over the changes: whether it comes to the merge. -/
def applyAll (force : Bool) (operation : RollbackOperation) : ℕ → Call Bool
  | 0 => return true
  | n + 1 => do
    let _ ← call (.update operation)
    if (← call .git) ∨ force then applyAll force operation n else return false

def mergeRollback (operation : RollbackOperation) : Call Bool := do
  let _ ← call (.update operation)
  if ← call (.merge operation.id) then
    let _ ← call (.update operation)
    return true
  else return false

/-- What `executeRollbackAsync` does up to the end: whether it completes. -/
def performRollback (force : Bool) (changes : ℕ) (operation : RollbackOperation) : Call Bool := do
  let _ ← call (.update { operation with status := .validating })
  match ← call .validate with
  | .error _ => return false
  | .ok passed =>
    if passed ∨ force then
      let operation := { operation with status := .inProgress }
      let _ ← call (.update operation)
      if ← call .git then
        let _ ← call (.update operation)
        if ← applyAll force operation changes then mergeRollback operation else return false
      else return false
    else return false

/-- The end of an operation is stored once, whichever way it comes to it. -/
def executeRollbackAsync (force : Bool) (changes : ℕ) (operation : RollbackOperation) :
    Call Unit := do
  let completes ← performRollback force changes operation
  let _ ← call (.update { operation with status := if completes then .completed else .failed })

/-- `ExecuteRollback`, and the goroutine that it starts. -/
def executeRollback (target : Target) (force : Bool) : Call Unit := do
  match ← call (.list target) with
  | .error _ => return
  | .ok (_ :: _) => return
  | .ok [] =>
    match ← call .preview with
    | none => return
    | some changes =>
      let operation ← call (.newOperation target)
      match ← call (.save operation) with
      | .error _ => return
      | .ok () => executeRollbackAsync force changes operation

def cancellable (status : RollbackStatus) : Bool :=
  status = .pending ∨ status = .validating ∨ status = .approvalRequired

def cancelRollback (id : String) : Call Unit := do
  match ← call (.get id) with
  | .error _ => return
  | .ok none => return
  | .ok (some operation) =>
    if cancellable operation.status then
      let _ ← call (.update { operation with status := .cancelled })
    else return

inductive Request where
  | execute (target : Target) (force : Bool)
  | cancel (id : String)

def Request.code : Request → Call Unit
  | .execute target force => executeRollback target force
  | .cancel id => cancelRollback id

/-- A listing sees the operation for its target that is active; no other operation for the target
was accepted since when one is saved, and its id is new; and an operation is cancelled when its
goroutine is done. -/
def isOrderly : {β : Type} → System → ℕ → Op β → CallEnv → Bool
  | _, s, _, .list target, _ => ∀ a ∈ s.active, a.2.target = target →
    ∃ r ∈ s.store.rows, r.target = target ∧ r.status = .inProgress ∧
      ((s.store.inProgress target.type).filter fun r' =>
        r' ≠ r ∧ r.initiatedAt ≤ r'.initiatedAt).length ≤ 1
  | _, s, tid, .save operation, _ =>
    (tid, operation.target) ∈ s.cleared ∧ s.store.get operation.id = none
  | _, s, _, .update operation, _ =>
    operation.status = .cancelled → ∀ a ∈ s.active, a.2.id ≠ operation.id
  | _, _, _, _, _ => true

def Orderly {β : Type} (s : System) (tid : ℕ) (o : Op β) (env : CallEnv) : Prop :=
  isOrderly s tid o env

instance {β : Type} (s : System) (tid : ℕ) (o : Op β) (env : CallEnv) :
    Decidable (Orderly s tid o env) := inferInstanceAs (Decidable (_ = true))

/-- Operations for one target exclude each other, and what is cancelled stays so and is not
merged. -/
structure Exclusive (s : System) : Prop where
  one : (s.active.map fun a => a.2.target).Nodup
  stays : ∀ id ∈ s.cancelled, ∃ r, s.store.get id = some r ∧ r.status = .cancelled
  unmerged : s.mergedLate = []

structure Inv (s : System) : Prop extends Exclusive s where
  free : ∀ c ∈ s.cleared, ∀ a ∈ s.active, a.2.target ≠ c.2
  done : ∀ id ∈ s.cancelled, ∀ a ∈ s.active, a.2.id ≠ id

variable {r : RollbackOperation}

theorem mem_take_two {l : List RollbackOperation} (hr : r ∈ l)
    (hnodup : l.Nodup) (hsorted : l.Pairwise fun r r' => r'.initiatedAt ≤ r.initiatedAt)
    (hfew : (l.filter fun r' => r' ≠ r ∧ r.initiatedAt ≤ r'.initiatedAt).length ≤ 1) :
    r ∈ l.take 2 := by
  match l with
  | [] => cases hr
  | [a] => simpa using hr
  | a :: b :: rest =>
    -- Otherwise the first two come before it.
    by_contra hnot
    have hrest : r ∈ rest := by simp_all
    obtain ⟨ha, hb, _⟩ := by simpa only [pairwise_cons] using hsorted
    simp only [nodup_cons, mem_cons, not_or] at hnodup
    have hane : a ≠ r := fun h => hnodup.1.2 (h ▸ hrest)
    have hbne : b ≠ r := fun h => hnodup.2.1 (h ▸ hrest)
    have hale := ha r (.tail b hrest)
    have hble := hb r hrest
    simp [hane, hbne, hale, hble] at hfew

theorem listOperations_ne_nil {s : RollbackStore} (hr : r ∈ s.rows)
    (hstatus : r.status = .inProgress)
    (hfew : ((s.inProgress r.target.type).filter fun r' =>
      r' ≠ r ∧ r.initiatedAt ≤ r'.initiatedAt).length ≤ 1) :
    s.listOperations r.target ≠ [] := by
  have hmem : r ∈ s.inProgress r.target.type := mem_filter.mpr ⟨hr, by simp [hstatus]⟩
  have hnodup : (s.inProgress r.target.type).Nodup := s.nodup.of_map.filter _
  have hperm := perm_insertionSort
    (fun r r' : RollbackOperation => r'.initiatedAt ≤ r.initiatedAt) (s.inProgress r.target.type)
  have htake : r ∈ ((s.inProgress r.target.type).insertionSort fun r r' =>
      r'.initiatedAt ≤ r.initiatedAt).take 2 := by
    apply mem_take_two (hperm.mem_iff.mpr hmem) (hperm.nodup_iff.mpr hnodup)
      (pairwise_insertionSort _ _)
    rwa [(hperm.filter _).length_eq]
  intro hnil
  have hnone := filter_eq_nil_iff.mp ((take_eq_nil_iff.mp hnil).resolve_left Nat.one_ne_zero) r
    htake
  simp at hnone

def Runs (s : System) (tid : ℕ) (id : String) : Prop := ∃ a ∈ s.active, a.1 = tid ∧ a.2.id = id

/-- An operation is updated and merged by its own goroutine, cancellations apart. -/
def OpPre : {β : Type} → System → ℕ → Op β → Prop
  | _, s, tid, .update operation => operation.status = .cancelled ∨ Runs s tid operation.id
  | _, s, tid, .merge id => Runs s tid id
  | _, _, _, _ => True

variable {β : Type} {s : System} {tid : ℕ} {o : Op β} {env : CallEnv}

theorem exec_list_inv {target : Target} (h : Inv s) (horderly : Orderly s tid (.list target) env) :
    Inv (exec (.list target) tid s env).1 := by
  simp only [exec]
  split
  · exact h
  refine ⟨⟨h.one, h.stays, h.unmerged⟩, ?_, h.done⟩
  intro c hc a ha htarget
  split at hc
  · next hfound =>
    rcases mem_cons.mp hc with rfl | hc
    · obtain ⟨r, hr, rfl, hstatus, hfew⟩ := of_decide_eq_true horderly a ha htarget
      exact listOperations_ne_nil hr hstatus hfew hfound
    · exact h.free c hc a ha htarget
  · exact h.free c hc a ha htarget

variable {operation : RollbackOperation}

theorem exec_save_inv (h : Inv s) (horderly : Orderly s tid (.save operation) env) :
    Inv (exec (.save operation) tid s env).1 := by
  obtain ⟨hcleared, hnew⟩ := of_decide_eq_true horderly
  simp only [exec]
  split
  · exact h
  have hother : ∀ id ∈ s.cancelled, operation.id ≠ id := by
    rintro id hid rfl
    obtain ⟨r, hr, _⟩ := h.stays _ hid
    cases hnew.symm.trans hr
  refine ⟨⟨?_, ?_, h.unmerged⟩, ?_, ?_⟩
  · refine nodup_cons.mpr ⟨?_, h.one⟩
    rw [mem_map]
    rintro ⟨a, ha, htarget⟩
    exact h.free _ hcleared a ha htarget
  · intro id hid
    obtain ⟨r, hr, hstatus⟩ := h.stays id hid
    exact ⟨r, by rw [Table.get_store, if_neg (hother id hid), hr], hstatus⟩
  · intro c hc
    obtain ⟨hc, htarget⟩ := mem_filter.mp hc
    exact forall_mem_cons.mpr ⟨Ne.symm (of_decide_eq_true htarget), h.free c hc⟩
  · exact fun id hid => forall_mem_cons.mpr ⟨hother id hid, h.done id hid⟩

theorem ends_inv (h : Inv s) (operation : RollbackOperation) : Inv (s.ends tid operation) := by
  have hsub {a : ℕ × RollbackOperation} (ha : a ∈ (s.ends tid operation).active) : a ∈ s.active :=
    mem_of_mem_filter ha
  refine ⟨⟨?_, h.stays, h.unmerged⟩, ?_, ?_⟩
  · exact h.one.sublist (filter_sublist.map _)
  · exact fun c hc a ha => h.free c hc a (hsub ha)
  · exact fun id hid a ha => h.done id hid a (hsub ha)

theorem exec_update_inv (h : Inv s)
    (hpre : OpPre s tid (.update operation)) (horderly : Orderly s tid (.update operation) env) :
    Inv (exec (.update operation) tid s env).1 := by
  have hends : Inv (s.ends tid operation) := ends_inv h operation
  have hcancelled : ∀ id ∈ ((s.ends tid operation).write operation).cancelled,
      operation.status = .cancelled ∧ id = operation.id ∨ id ∈ s.cancelled := by
    intro id hid
    dsimp only [System.write] at hid
    split at hid
    · next hstatus => exact (mem_cons.mp hid).imp_left fun heq => ⟨hstatus, heq⟩
    · exact .inr hid
  simp only [exec]
  split
  · exact hends
  refine ⟨⟨hends.one, ?_, hends.unmerged⟩, hends.free, ?_⟩
  · intro id hid
    by_cases heq : operation.id = id
    · refine ⟨operation, by rw [System.write, Table.get_store, if_pos heq], ?_⟩
      rcases hcancelled id hid with ⟨hstatus, _⟩ | hid
      · exact hstatus
      -- A goroutine that still runs has no cancelled operation.
      refine hpre.resolve_right ?_
      rintro ⟨a, ha, _, haid⟩
      exact h.done id hid a ha (haid.trans heq)
    · obtain ⟨r, hr, hstatus⟩ := h.stays id ((hcancelled id hid).resolve_left fun hnew =>
        heq hnew.2.symm)
      exact ⟨r, by rw [System.write, Table.get_store, if_neg heq]; exact hr, hstatus⟩
  · intro id hid a ha
    rcases hcancelled id hid with ⟨hstatus, rfl⟩ | hid
    · exact of_decide_eq_true horderly hstatus a (mem_of_mem_filter ha)
    · exact hends.done id hid a ha

theorem exec_merge_inv {id : String} (h : Inv s) (hpre : OpPre s tid (.merge id)) :
    Inv (exec (.merge id) tid s env).1 := by
  obtain ⟨a, ha, _, haid⟩ := hpre
  have hnot : ¬ (env.holds ∧ id ∈ s.cancelled) := fun hmerged => h.done id hmerged.2 a ha haid
  exact ⟨⟨h.one, h.stays, by simp only [exec, if_neg hnot, h.unmerged]⟩, h.free, h.done⟩

theorem exec_runs {t : ℕ} (ht : t ≠ tid) {a : ℕ × RollbackOperation} (ha : a ∈ s.active)
    (hat : a.1 = t) : a ∈ (exec o tid s env).1.active := by
  have hends (operation : RollbackOperation) : a ∈ (s.ends tid operation).active :=
    mem_filter.mpr ⟨ha, by simp [hat, ht]⟩
  cases o with
  | list | save =>
    simp only [exec]
    split
    · exact ha
    · first | exact ha | exact .tail _ ha
  | update =>
    simp only [exec]
    split <;> exact hends _
  | _ => exact ha

def discipline : Discipline api where
  Inv := Inv
  Guard := Orderly
  Pre := OpPre
  Rely tid s s' := ∀ a ∈ s.active, a.1 = tid → a ∈ s'.active
  rely_refl _ _ _ ha _ := ha
  rely_trans h h' a ha htid := h' a (h a ha htid) htid
  exec_inv := by
    intro β s tid o env h hpre horderly
    cases o with
    | list => exact exec_list_inv h horderly
    | save => exact exec_save_inv h horderly
    | update => exact exec_update_inv h hpre horderly
    | merge => exact exec_merge_inv h hpre
    | _ => exact h
  exec_rely _ _ _ ht a ha hat := exec_runs ht ha hat

/-- What a goroutine does before the end. -/
@[simp] def Working (id : String) : {β : Type} → Op β → Prop
  | _, .update operation => operation.id = id ∧ operation.status.ended = false
  | _, .merge id' => id' = id
  | _, .validate | _, .git => True
  | _, _ => False

open Program in
theorem applyAll_working (force : Bool) (operation : RollbackOperation)
    (hopen : operation.status.ended = false) (n : ℕ) :
    (applyAll force operation n).All (Working operation.id) := by
  induction n with
  | zero => trivial
  | succ n ih => simp [applyAll, hopen, ih]

open Program in
theorem performRollback_working (force : Bool) (changes : ℕ) (operation : RollbackOperation) :
    (performRollback force changes operation).All (Working operation.id) := by
  have happly : ((applyAll force { operation with status := .inProgress } changes) >>= fun merge =>
      if merge then mergeRollback { operation with status := .inProgress } else return false).All
        (Working operation.id) := by
    apply (applyAll_working force { operation with status := .inProgress } rfl changes).bind
    intro merge
    cases merge <;> simp [mergeRollback, RollbackStatus.ended]
  simp [performRollback, forall_except, RollbackStatus.ended]
  exact ⟨happly, fun _ => happly⟩

theorem exec_working {id : String} (ho : Working id o) (h : Runs s tid id) :
    Runs (exec o tid s env).1 tid id := by
  obtain ⟨a, ha, hown⟩ := h
  refine ⟨a, ?_, hown⟩
  cases o with
  | update operation =>
    simp only [exec]
    split <;> exact mem_filter.mpr ⟨ha, by simp [ho.2]⟩
  | merge | validate | git => exact ha
  | _ => cases ho

theorem executeRollbackAsync_safe (force : Bool) (changes : ℕ) (h : Runs s tid operation.id) :
    discipline.Runs tid s (executeRollbackAsync force changes operation) := by
  have hperform : discipline.Safe tid (fun s _ => Runs s tid operation.id) s
      (performRollback force changes operation) := by
    apply Discipline.Safe.of_all (performRollback_working force changes operation) _ _ _ h
    · intro β s o ho _ hruns
      cases o with
      | update => exact .inr (ho.1 ▸ hruns)
      | merge => exact ho ▸ hruns
      | _ => trivial
    · rintro s s' ⟨a, ha, hown, haid⟩ hrely
      exact ⟨a, hrely a ha hown, hown, haid⟩
    · intro β s o env ho _ _ hruns
      exact exec_working ho hruns
  apply hperform.bind
  rintro s completes ⟨a, ha, hown, haid⟩ s' hrely _
  exact ⟨.inr ⟨a, hrely a ha hown, hown, haid⟩, fun _ _ => trivial⟩

theorem executeRollback_safe (target : Target) (force : Bool) :
    discipline.Runs tid s (executeRollback target force) := by
  refine safe_op_bind.mpr fun _ _ _ => ⟨trivial, fun _ _ => ?_⟩
  split
  · trivial
  · trivial
  refine safe_op_bind.mpr fun _ _ _ => ⟨trivial, fun _ _ => ?_⟩
  split
  · trivial
  refine safe_op_bind.mpr fun _ _ _ => ⟨trivial, fun _ _ => ?_⟩
  refine safe_op_bind.mpr fun s _ _ => ⟨trivial, fun env _ => ?_⟩
  split
  · trivial
  next hsaved =>
  apply executeRollbackAsync_safe
  simp only [exec] at hsaved ⊢
  split at hsaved
  · cases hsaved
  next hok =>
  rw [if_neg hok]
  exact ⟨_, mem_cons_self, rfl, rfl⟩

theorem cancelRollback_safe (id : String) :
    discipline.Runs tid s (cancelRollback id) := by
  refine safe_op_bind.mpr fun _ _ _ => ⟨trivial, fun _ _ => ?_⟩
  split
  · trivial
  · trivial
  split
  · exact fun _ _ _ => ⟨.inl rfl, fun _ _ => trivial⟩
  · trivial

def OrderlyPermitted (p : Pool api) (a : PoolAction Request CallEnv) : Prop :=
  Pool.Permitted (fun _ _ => True) Orderly p a

instance (p : Pool api) (a : PoolAction Request CallEnv) : Decidable (OrderlyPermitted p a) :=
  inferInstanceAs (Decidable (Pool.Permitted _ _ _ _))

def emptySystem : System := ⟨.empty, [], [], [], []⟩

/-- In every run of orderly calls the operations for one target exclude each other, and an
operation that was cancelled stays so and is not merged. -/
theorem orderly_run_exclusive {as : List (PoolAction Request CallEnv)} {p : Pool api}
    (horderly : (Pool.machine Request.code).Guarded OrderlyPermitted ⟨emptySystem, []⟩ as)
    (hrun : (Pool.machine Request.code).run ⟨emptySystem, []⟩ as = some p) :
    Exclusive p.state := by
  have hstart : discipline.Sound ⟨emptySystem, []⟩ := by
    constructor
    · exact ⟨⟨nodup_nil, by simp [emptySystem], rfl⟩, by simp [emptySystem],
        by simp [emptySystem]⟩
    · simp
  refine (run_sound (S := fun _ _ => True) ?_ hstart horderly hrun).1.toExclusive
  intro s c tid _ _
  cases c with
  | execute target force => exact executeRollback_safe target force
  | cancel id => exact cancelRollback_safe id

def calls (tid n : ℕ) (uuid : String) : List (PoolAction Request CallEnv) :=
  List.replicate n (.tick tid ⟨false, true, uuid, 0, 0⟩)

def device : Target := ⟨.device, "device-1"⟩

/-- A second rollback of the device is refused while the first is in progress. The cancellation of
the first takes effect when its goroutine is done, and a third rollback is accepted after it. -/
def inTurn : List (PoolAction Request CallEnv) :=
  .start (.execute device false) :: calls 0 4 "op-1" ++ .start (.cancel "op-1") :: calls 1 1 "" ++
    calls 0 3 "" ++ .start (.execute device false) :: calls 2 1 "" ++ calls 0 6 "" ++
    calls 1 1 "" ++ .start (.execute device false) :: calls 3 7 "op-2"

theorem orderly_run_exclusive_inTurn :
    ∃ p, (Pool.machine Request.code).run ⟨emptySystem, []⟩ inTurn = some p ∧
      (p.state.cancelled = ["op-1"] ∧ p.state.active.map (·.2.id) = ["op-2"]) ∧
      Exclusive p.state := by
  refine exists_some_of_any
    (P := fun p => p.state.cancelled = ["op-1"] ∧ p.state.active.map (·.2.id) = ["op-2"])
    (by decide +kernel) fun p hp hids => ⟨hids, ?_⟩
  exact orderly_run_exclusive (by decide +kernel) hp

/-- A second rollback of the device is accepted while the first is pending. The first is
cancelled, and merged all the same. -/
def overlapping : List (PoolAction Request CallEnv) :=
  .start (.execute device false) :: calls 0 4 "op-1" ++
    .start (.execute device false) :: calls 1 4 "op-2" ++
    .start (.cancel "op-1") :: calls 2 2 "" ++ calls 0 7 ""

theorem cancelled_rollback_merged :
    ∃ p, (Pool.machine Request.code).run ⟨emptySystem, []⟩ overlapping = some p ∧
      ¬ (p.state.active.map fun a => a.2.target).Nodup ∧ p.state.mergedLate = ["op-1"] ∧
      (p.state.store.get "op-1").map RollbackOperation.status = some .inProgress := by
  exact exists_some_of_any (by decide +kernel) fun _ _ h => h

end Cfgms.Rollback.Manager
