import Mathlib.Algebra.Order.BigOperators.Group.List
import Mathlib.Algebra.Order.Ring.Nat
import Cfgms.Machine.Runs

/-! # Synchronisation of workflows

Locks, barriers and semaphores with the calls on them, each call in one of its phases. A timeout or
a cancellation can end a call that waits. The goroutine of a lock that was given up stays behind,
and a barrier goes on counting the callers that have left.
-/

namespace Cfgms.Workflow

open List

theorem sum_map_set {α : Type*} (f : α → ℕ) {l : List α} {i : ℕ} {a : α} (b : α)
    (hi : l[i]? = some a) : ((l.set i b).map f).sum + f a = (l.map f).sum + f b := by
  obtain ⟨hlt, rfl⟩ := List.getElem?_eq_some_iff.mp hi
  have hset := ((set_perm_cons_eraseIdx hlt b).map f).sum_eq
  have hget := ((getElem_cons_eraseIdx_perm hlt).map f).sum_eq
  simp only [map_cons, sum_cons] at hset hget
  omega

inductive Mode | read | write
  deriving DecidableEq

/-- The goroutine of a call waits for the lock or has it, its caller waits, has returned or has
given up. -/
inductive LockPhase | waiting | locked | held | abandoned | leaked | released
  deriving DecidableEq

def LockPhase.locks (p : LockPhase) : Bool := p = .locked ∨ p = .held ∨ p = .leaked

/-- The lock of a `sync.RWMutex`, by the number of its holders, and the calls. -/
structure RWLock where
  holders : Mode → ℕ := 0
  calls : List (Mode × LockPhase) := []

namespace RWLock

inductive Action
  | acquire (m : Mode)
  | lock (i : ℕ)
  | ret (i : ℕ)
  | expire (i : ℕ)
  | release (i : ℕ)

/-- No timeout or cancellation ends a wait. -/
def Action.waits : Action → Bool
  | .expire _ => false
  | _ => true

/-- Which of the goroutines that wait for the lock comes first is left open. -/
def step (s : RWLock) : Action → Option RWLock
  | .acquire m => some { s with calls := s.calls ++ [(m, .waiting)] }
  | .lock i => s.calls[i]?.bind fun (m, p) =>
    if s.holders .write = 0 ∧ (m = .write → s.holders .read = 0) ∧ (p = .waiting ∨ p = .abandoned)
    then some ⟨Function.update s.holders m (s.holders m + 1),
      s.calls.set i (m, if p = .waiting then .locked else .leaked)⟩
    else none
  | .ret i => s.calls[i]?.bind fun (m, p) =>
    if p = .locked then some { s with calls := s.calls.set i (m, .held) } else none
  -- where both cases of the select are ready, the caller can leave with an error and the lock
  | .expire i => s.calls[i]?.bind fun (m, p) =>
    if p = .waiting ∨ p = .locked then some { s with
      calls := s.calls.set i (m, if p = .waiting then .abandoned else .leaked) }
    else none
  | .release i => s.calls[i]?.bind fun (m, p) =>
    if p = .held then
      some ⟨Function.update s.holders m (s.holders m - 1), s.calls.set i (m, .released)⟩
    else none

def machine : Machine RWLock Action := ⟨step⟩

/-- The calls of a mode whose phase satisfies a test. -/
def count (s : RWLock) (m : Mode) (q : LockPhase → Bool) : ℕ :=
  (s.calls.map fun c => if c.1 = m ∧ q c.2 then 1 else 0).sum

variable {s s' : RWLock}

theorem count_set {i : ℕ} {m' : Mode} {p : LockPhase} (hi : s.calls[i]? = some (m', p))
    (p' : LockPhase) (l : Mode → ℕ) (m : Mode) (q : LockPhase → Bool) :
    count ⟨l, s.calls.set i (m', p')⟩ m q + (if m' = m ∧ q p then 1 else 0) =
      s.count m q + if m' = m ∧ q p' then 1 else 0 :=
  sum_map_set _ _ hi

structure Kept (s : RWLock) : Prop where
  holders : ∀ m, s.holders m = s.count m LockPhase.locks
  owned : ∀ c ∈ s.calls, c.2 ≠ .abandoned ∧ c.2 ≠ .leaked

variable {a : Action}

theorem holders_step (hs : ∀ m, s.holders m = s.count m LockPhase.locks)
    (hstep : s.step a = some s') (m : Mode) : s'.holders m = s'.count m LockPhase.locks := by
  cases a with
  | acquire m' =>
    cases hstep
    simpa [count, LockPhase.locks] using hs m
  | lock i | ret i | expire i | release i =>
    obtain ⟨⟨m', p⟩, hi, hstep⟩ := Option.bind_eq_some_iff.mp hstep
    obtain ⟨hp, ⟨⟩⟩ := Option.ite_none_right_eq_some.mp hstep
    have hcount := fun p' l => count_set hi p' l m LockPhase.locks
    grind [hs m, hs m', LockPhase.locks]

theorem Kept.step (hs : Kept s) (ha : a.waits) (hstep : s.step a = some s') : Kept s' := by
  refine ⟨holders_step hs.holders hstep, ?_⟩
  cases a with
  | acquire m' =>
    cases hstep
    exact forall_mem_append.mpr ⟨hs.owned, by simp⟩
  | expire i => cases ha
  | lock i | ret i | release i =>
    obtain ⟨⟨m', p⟩, hi, hstep⟩ := Option.bind_eq_some_iff.mp hstep
    obtain ⟨hp, ⟨⟩⟩ := Option.ite_none_right_eq_some.mp hstep
    have hp' := hs.owned _ (mem_of_getElem? hi)
    intro c hc
    grind [hs.owned, mem_or_eq_of_mem_set hc]

/-- No call waits, and no goroutine of one. -/
def Quiet (s : RWLock) : Prop := ∀ c ∈ s.calls, c.2 = .held ∨ c.2 = .leaked ∨ c.2 = .released

/-- Where no wait is ended by a timeout or a cancellation, the lock is held by the calls that have
succeeded and not released it, and a lock that nobody holds can be acquired. -/
theorem lock_held_by_successful {as : List Action}
    (hwaits : machine.Guarded (fun _ a => a.waits) {} as) (hrun : machine.run {} as = some s)
    (hquiet : s.Quiet) :
    (∀ m, s.holders m = s.count m (· = .held)) ∧
      (s.holders = 0 → ∀ m, (machine.run s [.acquire m, .lock s.calls.length,
        .ret s.calls.length]).isSome) := by
  have hs : Kept s := machine.run_invariant (fun _ _ _ hs => hs.step) as {} s
    ⟨fun _ => rfl, nofun⟩ hwaits hrun
  refine ⟨fun m => ?_, fun hfree m => ?_⟩
  · rw [hs.holders, count, count, map_congr_left]
    intro c hc
    have hphase : c.2.locks = (c.2 = .held) := by
      rcases hquiet c hc with h | h | h
      · simp [h, LockPhase.locks]
      · exact ((hs.owned c hc).2 h).elim
      · simp [h, LockPhase.locks]
    simp [hphase]
  · simp [Machine.run, machine, RWLock.step, hfree]

/-- A reader that had to wait for a writer, and one that comes later. -/
def readersAfterWriter : List Action :=
  [.acquire .write, .lock 0, .ret 0, .acquire .read, .release 0, .lock 1, .ret 1, .acquire .read,
    .lock 2, .ret 2]

theorem lock_held_by_readers :
    ∃ s, machine.run {} readersAfterWriter = some s ∧ s.holders .read = 2 ∧
      s.holders .read = s.count .read (· = .held) ∧
      s.holders .write = s.count .write (· = .held) := by
  have hheld := (@lock_held_by_successful _ readersAfterWriter (by decide) rfl
    (by unfold Quiet; decide)).1
  exact ⟨_, rfl, rfl, hheld .read, hheld .write⟩

/-- A reader gives up while a writer has the lock. Its goroutine takes the lock all the same, and
no writer can have it again. -/
theorem abandoned_reader_locks :
    ((machine.run {} [.acquire .write, .lock 0, .ret 0, .acquire .read, .expire 1, .release 0,
      .lock 1]).any fun s => s.calls = [(.write, .released), (.read, .leaked)] ∧
        s.holders .read = 1 ∧ (machine.run s [.acquire .write, .lock 2]).isNone) := by
  decide

end RWLock

inductive WaitPhase | waiting | passed | failed | panicked
  deriving DecidableEq

/-- A barrier with the calls of `Wait` on it. Its channel can be closed once; `together` notes how
many callers were there then. -/
structure Barrier where
  count : ℤ
  waiting : ℕ := 0
  completed : Bool := false
  together : ℕ := 0
  calls : List WaitPhase := []

namespace Barrier

inductive Action
  | arrive
  | pass (i : ℕ)
  | expire (i : ℕ)

def step (b : Barrier) : Action → Option Barrier
  | .arrive =>
    let b' := { b with waiting := b.waiting + 1 }
    if b.waiting + 1 < b.count then some { b' with calls := b.calls ++ [.waiting] }
    else if b.completed then some { b' with calls := b.calls ++ [.panicked] }
    else some { b' with
      completed := true, together := b.calls.count .waiting + 1, calls := b.calls ++ [.passed] }
  | .pass i =>
    if b.completed ∧ b.calls[i]? = some .waiting then some { b with calls := b.calls.set i .passed }
    else none
  | .expire i =>
    if b.calls[i]? = some .waiting then some { b with calls := b.calls.set i .failed } else none

def machine : Machine Barrier Action := ⟨step⟩

/-- No more callers come than the barrier counts, and none leaves before it is completed. -/
def Meets (b : Barrier) : Action → Bool
  | .arrive => b.calls = [] ∨ b.calls.length < b.count
  | .pass _ => true
  | .expire _ => b.completed

structure Sound (b : Barrier) : Prop where
  arrived : b.waiting = b.calls.length
  before : ¬ b.completed → ∀ c ∈ b.calls, c = .waiting
  after : b.completed → b.count ≤ b.together ∧ b.count ≤ b.calls.length ∧ b.calls ≠ []
  calm : .panicked ∉ b.calls

theorem Sound.step {b b' : Barrier} {a : Action} (hb : Sound b) (ha : b.Meets a)
    (hstep : b.step a = some b') : Sound b' := by
  obtain ⟨harrived, hbefore, hafter, hcalm⟩ := hb
  cases a with
  | arrive =>
    have hopen : ¬ b.completed := fun h => by
      obtain ⟨-, hfull, hne⟩ := hafter h
      have hroom : b.calls = [] ∨ b.calls.length < b.count := by simpa [Meets] using ha
      exact hroom.elim hne (by omega)
    have hlength : b.calls.count .waiting = b.calls.length :=
      count_eq_length.mpr fun c hc => (hbefore hopen c hc).symm
    simp only [Barrier.step, if_neg hopen] at hstep
    split_ifs at hstep <;> cases hstep
    · refine ⟨by simp [harrived], fun _ c hc => ?_, fun h => (hopen h).elim, by simp [hcalm]⟩
      exact (mem_append.mp hc).elim (hbefore hopen c) mem_singleton.mp
    · refine ⟨by simp [harrived], fun h => (h rfl).elim, fun _ => ?_, by simp [hcalm]⟩
      simp only [length_append, length_singleton, ne_eq, append_eq_nil_iff, cons_ne_nil, and_false,
        not_false_eq_true, and_true]
      omega
  | pass i | expire i =>
    obtain ⟨hi, ⟨⟩⟩ := Option.ite_none_right_eq_some.mp hstep
    refine ⟨by simpa using harrived, fun h => ?_, ?_, fun h => ?_⟩
    · grind [Meets]
    · simpa using hafter
    · exact (mem_or_eq_of_mem_set h).elim hcalm nofun

end Barrier

/-- A call of `Acquire` has some of the permits it wants or all of them, or it gives permits back
one by one, after an error or in `Release`. -/
inductive PermitPhase
  | acquiring (got want : ℕ)
  | held (n : ℕ)
  | giving (n : ℕ)

def PermitPhase.permits : PermitPhase → ℕ
  | .acquiring got _ => got
  | .held n | .giving n => n

def PermitPhase.heldPermits : PermitPhase → ℕ
  | .held n => n
  | _ => 0

structure Semaphore where
  capacity : ℕ
  permits : ℕ := capacity
  calls : List PermitPhase := []

namespace Semaphore

inductive Action
  | acquire (count : ℤ)
  | take (i : ℕ)
  | expire (i : ℕ)
  | release (i : ℕ)
  | give (i : ℕ)

def step (s : Semaphore) : Action → Option Semaphore
  | .acquire count => some { s with
      calls := s.calls ++ [.acquiring 0 (if count ≤ 0 then 1 else count.toNat)] }
  | .take i =>
    match s.calls[i]?, s.permits with
    | some (.acquiring got want), n + 1 => some { s with
        permits := n
        calls := s.calls.set i (if got + 1 = want then .held want else .acquiring (got + 1) want) }
    | _, _ => none
  | .expire i =>
    match s.calls[i]? with
    | some (.acquiring got _) => some { s with calls := s.calls.set i (.giving got) }
    | _ => none
  | .release i =>
    match s.calls[i]? with
    | some (.held n) => some { s with calls := s.calls.set i (.giving n) }
    | _ => none
  | .give i =>
    match s.calls[i]? with
    | some (.giving (n + 1)) => some { s with
        permits := min (s.permits + 1) s.capacity, calls := s.calls.set i (.giving n) }
    | _ => none

def machine : Machine Semaphore Action := ⟨step⟩

theorem permits_step {s s' : Semaphore} {a : Action}
    (hs : s.permits + (s.calls.map PermitPhase.permits).sum = s.capacity)
    (hstep : s.step a = some s') :
    s'.permits + (s'.calls.map PermitPhase.permits).sum = s'.capacity := by
  have hset := fun i c c' => sum_map_set PermitPhase.permits (l := s.calls) (i := i) (a := c) c'
  cases a with
  | acquire count =>
    cases hstep
    simpa [PermitPhase.permits] using hs
  | take i | expire i | release i | give i =>
    simp only [step] at hstep
    split at hstep <;> cases hstep
    grind [PermitPhase.permits]

end Semaphore

/-- At a barrier that no more callers come to than it counts and that none leaves before it is
completed, `Wait` succeeds once they all are there, and does not panic. The permits of a semaphore
are held at most once, and all are there again in the end. -/
theorem counted {count : ℤ} {as : List Barrier.Action} {b : Barrier}
    (hmeets : Barrier.machine.Guarded (Barrier.Meets · ·) ⟨count, 0, false, 0, []⟩ as)
    (hbarrier : Barrier.machine.run ⟨count, 0, false, 0, []⟩ as = some b)
    {capacity : ℕ} {calls : List Semaphore.Action} {s : Semaphore}
    (hsemaphore : Semaphore.machine.run ⟨capacity, capacity, []⟩ calls = some s) :
    ((.passed ∈ b.calls → b.count ≤ b.together) ∧ .panicked ∉ b.calls) ∧
      (s.calls.map PermitPhase.heldPermits).sum ≤ s.capacity ∧
        ((∀ c ∈ s.calls, c = .giving 0) → s.permits = s.capacity) := by
  constructor
  · have hb : b.Sound := Barrier.machine.run_invariant (fun _ _ _ hb => hb.step) as _ b
      ⟨rfl, by simp, by simp, by simp⟩ hmeets hbarrier
    refine ⟨fun hpassed => (hb.after ?_).1, hb.calm⟩
    by_contra hopen
    cases hb.before hopen _ hpassed
  · have hs : s.permits + (s.calls.map PermitPhase.permits).sum = s.capacity :=
      Semaphore.machine.run_invariant (fun _ _ _ hs _ => Semaphore.permits_step hs) calls _ s rfl
        (Semaphore.machine.guarded_of_forall (fun _ _ => trivial) calls _) hsemaphore
    constructor
    · have hle : (s.calls.map PermitPhase.heldPermits).sum ≤ (s.calls.map PermitPhase.permits).sum :=
        sum_le_sum fun c _ => by cases c <;> simp [PermitPhase.heldPermits, PermitPhase.permits]
      omega
    · intro hdone
      have hzero : (s.calls.map PermitPhase.permits).sum = 0 :=
        sum_eq_zero fun n hn => by
          obtain ⟨c, hc, rfl⟩ := mem_map.mp hn
          rw [hdone c hc]
          rfl
      omega

/-- One call gives up with one of its two permits, the other one takes its permit and gives it
back. -/
def permitsBack : List Semaphore.Action :=
  [.acquire 2, .acquire 1, .take 0, .take 1, .expire 0, .give 0, .release 1, .give 1]

theorem counted_two :
    ∃ b s, Barrier.machine.run ⟨2, 0, false, 0, []⟩ [.arrive, .arrive, .pass 0] = some b ∧
      b.calls = [.passed, .passed] ∧ b.count ≤ b.together ∧
      Semaphore.machine.run ⟨2, 2, []⟩ permitsBack = some s ∧ s.permits = s.capacity := by
  obtain ⟨hbarrier, -, hsemaphore⟩ := @counted 2 [.arrive, .arrive, .pass 0] _ (by decide) rfl 2
    permitsBack _ rfl
  refine ⟨_, _, rfl, rfl, hbarrier.1 (by decide), rfl, hsemaphore ?_⟩
  simp

/-- A caller that has left is counted, and one that comes too late panics. -/
theorem miscounted :
    ((Barrier.machine.run ⟨2, 0, false, 0, []⟩ [.arrive, .expire 0, .arrive]).any fun b =>
      .passed ∈ b.calls ∧ (b.together : ℤ) < b.count) ∧
    (Barrier.machine.run ⟨1, 0, false, 0, []⟩ [.arrive, .arrive]).any (.panicked ∈ ·.calls) := by
  decide

end Cfgms.Workflow
