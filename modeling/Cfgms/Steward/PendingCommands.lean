import Mathlib.Algebra.GroupWithZero.Nat
import Mathlib.Data.List.Perm.Basic
import Cfgms.Machine.Runs

/-! # Commands that arrive before their handler

A control plane provider holds the commands that reach it while no handler is subscribed. `Drain`
hands them over one by one, and the lock of the queue is free while a handler runs.
-/

namespace Cfgms.Steward.Pending

open List

structure Queue (H C : Type*) where
  handler : Option H := none
  backlog : List C := []
  draining : Bool := false
  limit : ℕ

namespace Queue

variable {H C : Type*}

def defaultLimit : ℕ := 256

def new (limit : ℤ) : Queue H C := { limit := if limit ≤ 0 then defaultLimit else limit.toNat }

/-- The handler if the command is to be dispatched now, and whether it was dropped. -/
def admitCommand (q : Queue H C) (sc : C) : Queue H C × Option H × Bool :=
  if q.handler.isSome && !q.draining then (q, q.handler, false)
  else if q.limit ≤ q.backlog.length then (q, none, true)
  else ({ q with backlog := q.backlog ++ [sc] }, none, false)

/-- Whether the caller must run `Drain`. -/
def subscribe (q : Queue H C) (h : Option H) : Queue H C × Bool :=
  if h.isNone || q.backlog.isEmpty || q.draining then ({ q with handler := h }, false)
  else ({ q with handler := h, draining := true }, true)

/-- What `Drain` does under the lock: it takes a command to dispatch, or ends. -/
def drain (q : Queue H C) : Queue H C × Option (H × C) :=
  match q.backlog, q.handler with
  | sc :: backlog, some h => ({ q with backlog }, some (h, sc))
  | _, _ => ({ q with draining := false }, none)

def reset (q : Queue H C) : Queue H C :=
  { q with handler := none, backlog := [], draining := false }

variable (q : Queue H C)

theorem admitCommand_cases (sc : C) :
    (∃ h, q.handler = some h ∧ q.draining = false ∧ q.admitCommand sc = (q, some h, false)) ∨
    ((q.handler.isSome → q.draining = true) ∧ (q.admitCommand sc = (q, none, true) ∨
      q.admitCommand sc = ({ q with backlog := q.backlog ++ [sc] }, none, false))) := by
  unfold admitCommand
  split
  · cases hh : q.handler <;> simp_all
  · split <;> simp_all

theorem subscribe_cases (h : Option H) :
    ((h.isSome → q.backlog ≠ [] → q.draining = true) ∧
      q.subscribe h = ({ q with handler := h }, false)) ∨
    (h.isSome ∧ q.backlog ≠ [] ∧ q.draining = false ∧
      q.subscribe h = ({ q with handler := h, draining := true }, true)) := by
  unfold subscribe
  split <;> cases h <;> simp_all
  tauto

theorem drain_cases :
    (∃ sc backlog h, q.backlog = sc :: backlog ∧ q.handler = some h ∧
      q.drain = ({ q with backlog }, some (h, sc))) ∨
    ((q.handler.isSome → q.backlog = []) ∧ q.drain = ({ q with draining := false }, none)) := by
  unfold drain
  rcases q with ⟨_ | _, _ | _, _, _⟩ <;> simp

end Queue

variable {H : Type*}

/-- A goroutine that dispatches. It is given a command some time before it calls the handler. -/
inductive Worker (H : Type*)
  | idle
  | given (h : H) (n : ℕ)
  | running

def Worker.busy : Worker H → Bool
  | .idle => false
  | _ => true

def Worker.taken : Worker H → List ℕ
  | .given _ n => [n]
  | _ => []

/-- The steps that a goroutine still has to take, a `Drain` also to end. -/
def Worker.work : Worker H → ℕ
  | .idle => 1
  | .given .. => 3
  | .running => 2

/-- The queue with its receiver and the active calls of `Drain`. A command is its number in the
order of arrival. -/
structure Provider (H : Type*) where
  queue : Queue H ℕ
  receiver : Worker H := .idle
  drains : List (Worker H) := []
  arrived : ℕ := 0
  dispatched : List ℕ := []
  dropped : List ℕ := []
  discarded : List ℕ := []

/-- A goroutine is the receiver or an active `Drain`, by its position. -/
inductive Action (H : Type*)
  | arrive
  | subscribe (h : Option H)
  | reset
  | take (i : ℕ)
  | dispatch (i : Option ℕ)
  | finish (i : Option ℕ)

/-- The action is one of a goroutine that is at work already. -/
def Action.continues : Action H → Bool
  | .take _ | .dispatch _ | .finish _ => true
  | _ => false

namespace Provider

def worker (s : Provider H) : Option ℕ → Option (Worker H)
  | none => some s.receiver
  | some i => s.drains[i]?

def setWorker (s : Provider H) : Option ℕ → Worker H → Provider H
  | none, w => { s with receiver := w }
  | some i, w => { s with drains := s.drains.set i w }

def step (s : Provider H) : Action H → Option (Provider H)
  -- the receiver admits a command after it has dispatched the one before
  | .arrive => if s.receiver.busy then none else
    let s' := { s with arrived := s.arrived + 1 }
    match s.queue.admitCommand s.arrived with
    | (queue, some h, _) => some { s' with queue, receiver := .given h s.arrived }
    | (queue, none, true) => some { s' with queue, dropped := s.arrived :: s.dropped }
    | (queue, none, false) => some { s' with queue }
  | .subscribe h =>
    match s.queue.subscribe h with
    | (queue, true) => some { s with queue, drains := s.drains ++ [.idle] }
    | (queue, false) => some { s with queue }
  | .reset => some { s with
      queue := s.queue.reset, discarded := s.queue.backlog ++ s.discarded }
  | .take i =>
    match s.drains[i]?, s.queue.drain with
    | some .idle, (queue, some (h, n)) =>
      some { s with queue, drains := s.drains.set i (.given h n) }
    | some .idle, (queue, none) => some { s with queue, drains := s.drains.eraseIdx i }
    | _, _ => none
  | .dispatch i =>
    match s.worker i with
    | some (.given _ n) =>
      some { s.setWorker i .running with dispatched := s.dispatched ++ [n] }
    | _ => none
  | .finish i =>
    match s.worker i with
    | some .running => some (s.setWorker i .idle)
    | _ => none

def machine : Machine (Provider H) (Action H) := ⟨step⟩

def start (limit : ℤ) : Provider H := { queue := .new limit }

def workers (s : Provider H) : List (Worker H) := s.receiver :: s.drains

/-- The commands that were not dropped or discarded, those that were dispatched first. -/
def line (s : Provider H) : List ℕ :=
  s.dispatched ++ s.workers.flatMap Worker.taken ++ s.queue.backlog

/-- No command is held, and no `Drain` has one. -/
def Quiet (s : Provider H) : Prop := s.queue.backlog = [] ∧ ∀ w ∈ s.drains, w.busy = false

/-- Every command is in one place, the handler is called in the order of arrival and once at a time,
and what is held while a handler is subscribed has a `Drain` to hand it over. -/
structure Orderly (s : Provider H) : Prop where
  once : s.line ++ s.dropped ++ s.discarded ~ range s.arrived
  inOrder : s.dispatched.Pairwise (· < ·)
  alone : s.workers.countP Worker.busy ≤ 1
  oneDrain : s.drains.length ≤ 1
  served : s.queue.handler.isSome → s.queue.backlog ≠ [] → s.drains ≠ []

/-- Nothing is left to do, and with a handler no command has been left behind. -/
structure Settled (s : Provider H) : Prop where
  idle : s.receiver = .idle ∧ s.drains = []
  dispatched : s.queue.handler.isSome →
    s.dispatched ++ s.dropped ++ s.discarded ~ range s.arrived

/-- No handler is subscribed while a `Drain` that a `Reset` has overtaken is active, unless that
`Drain` has no command and none is held. -/
def Permitted (s : Provider H) : Action H → Prop
  | .subscribe (some _) => s.queue.draining ∨ s.drains.isEmpty ∨ s.Quiet
  | _ => True

/-- The receiver and the `Drain` never both have a command. -/
structure Kept (s : Provider H) : Prop where
  accounted : s.line ++ s.dropped ++ s.discarded ~ range s.arrived ∧ s.line.Pairwise (· < ·)
  oneDrain : s.drains.length ≤ 1
  draining : s.queue.draining → s.drains ≠ []
  live : s.queue.handler.isSome → s.queue.draining ∨ s.Quiet
  receiving : s.receiver.busy → s.queue.draining = false ∧ s.Quiet

variable {s s' : Provider H} {a : Action H}

@[simp] theorem taken_given (h : H) (n : ℕ) : (Worker.given h n).taken = [n] := rfl

@[simp] theorem taken_running : (Worker.running : Worker H).taken = [] := rfl

@[simp] theorem taken_idle : (Worker.idle : Worker H).taken = [] := rfl

theorem taken_eq_nil {w : Worker H} (hw : w.busy = false) : w.taken = [] := by
  cases w <;> first | rfl | cases hw

theorem Quiet.taken (hs : s.Quiet) : s.drains.flatMap Worker.taken = [] :=
  flatMap_eq_nil_iff.mpr fun w hw => taken_eq_nil (hs.2 w hw)

namespace Kept

/-- The next command goes to the end of the line. -/
theorem accounted_append (hs : Kept s) :
    s.line ++ [s.arrived] ++ s.dropped ++ s.discarded ~ range (s.arrived + 1) ∧
      (s.line ++ [s.arrived]).Pairwise (· < ·) := by
  obtain ⟨honce, horder⟩ := hs.accounted
  refine ⟨?_, pairwise_append.mpr ⟨horder, pairwise_singleton _ _, fun n hn m hm => ?_⟩⟩
  · rw [range_succ, append_assoc, append_assoc]
    refine (perm_append_comm_assoc _ _ _).trans (perm_append_comm.trans ?_)
    rw [← append_assoc]
    exact honce.append_right _
  · rw [mem_singleton.mp hm]
    exact mem_range.mp (honce.subset (by simp [hn]))

theorem arrive (hs : Kept s) (h : s.step .arrive = some s') : Kept s' := by
  have hline := hs.accounted_append
  obtain ⟨hidle, h⟩ := Option.ite_none_left_eq_some.mp h
  obtain ⟨h₀, hh₀, hdraining, hq⟩ | ⟨hdraining, hq | hq⟩ := s.queue.admitCommand_cases s.arrived <;>
    simp only [hq, Option.some.injEq] at h <;> subst h
  · have hquiet : s.Quiet := (hs.live (by simp [hh₀])).resolve_left (by simp [hdraining])
    refine ⟨?_, hs.oneDrain, hs.draining, hs.live, fun _ => ⟨hdraining, hquiet⟩⟩
    simpa [line, workers, hquiet.taken, hquiet.1, taken_eq_nil (by simpa using hidle)]
      using hline
  · refine ⟨⟨?_, hs.accounted.2⟩, hs.oneDrain, hs.draining, hs.live, hs.receiving⟩
    simpa [line, workers] using hline.1
  · refine ⟨?_, hs.oneDrain, hs.draining, fun hh => .inl (hdraining hh), fun h => (hidle h).elim⟩
    simpa [line, workers] using hline

theorem subscribe (hs : Kept s) {h₀ : Option H} (ha : Permitted s (.subscribe h₀))
    (h : s.step (.subscribe h₀) = some s') : Kept s' := by
  simp only [Provider.step] at h
  obtain ⟨hheld, hq⟩ | ⟨hsome, hheld, hdraining, hq⟩ := s.queue.subscribe_cases h₀ <;>
    simp only [hq, Option.some.injEq] at h <;> subst h
  · refine ⟨hs.accounted, hs.oneDrain, hs.draining, fun hh => ?_, hs.receiving⟩
    obtain ⟨h₁, rfl⟩ := Option.isSome_iff_exists.mp hh
    obtain hd | hnone | hquiet := ha
    · exact .inl hd
    · rw [or_iff_not_imp_left]
      exact fun hd => ⟨by_contra (hd <| hheld rfl ·), by simp [isEmpty_iff.mp hnone]⟩
    · exact .inr hquiet
  · obtain ⟨h₁, rfl⟩ := Option.isSome_iff_exists.mp hsome
    have hdrains : s.drains = [] := by
      obtain hd | hnone | hquiet := ha
      · cases hdraining.symm.trans hd
      · exact isEmpty_iff.mp hnone
      · exact (hheld hquiet.1).elim
    refine ⟨?_, by simp [hdrains], by simp, fun _ => .inl rfl,
      fun hbusy => (hheld (hs.receiving hbusy).2.1).elim⟩
    simpa [line, workers] using hs.accounted

theorem reset (hs : Kept s) (h : s.step .reset = some s') : Kept s' := by
  cases h
  refine ⟨⟨.trans ?_ hs.accounted.1, hs.accounted.2.sublist ?_⟩, hs.oneDrain, nofun, nofun,
    fun hbusy => ⟨rfl, rfl, (hs.receiving hbusy).2.2⟩⟩ <;>
    simp only [line, workers, Queue.reset, append_nil, append_assoc]
  · exact ((perm_append_comm_assoc _ _ _).append_left _).append_left _
  · simp

theorem drains_eq (hs : Kept s) {i : ℕ} {w : Worker H} (hi : s.drains[i]? = some w) :
    i = 0 ∧ s.drains = [w] := by
  have hlen := hs.oneDrain
  rcases hd : s.drains with _ | ⟨w', _ | _⟩
  · simp [hd] at hi
  · cases i <;> simp_all
  · simp [hd] at hlen

theorem take (hs : Kept s) {i : ℕ} (h : s.step (.take i) = some s') : Kept s' := by
  have hline := hs.accounted
  simp only [Provider.step] at h
  rcases hi : s.drains[i]? with _ | _ | _ | _ <;> simp only [hi, reduceCtorEq] at h
  obtain ⟨rfl, hdrains⟩ := hs.drains_eq hi
  obtain ⟨n, backlog, h₀, hbacklog, hhandler, hq⟩ | ⟨hend, hq⟩ := s.queue.drain_cases <;>
    simp only [hq, Option.some.injEq] at h <;> subst h
  · have hnot : ¬ s.Quiet := by simp [Quiet, hbacklog]
    have hidle : ¬ s.receiver.busy = true := fun hbusy => hnot (hs.receiving hbusy).2
    refine ⟨?_, by simp [hdrains], by simp [hdrains],
      fun hh => .inl ((hs.live hh).resolve_right hnot), fun hbusy => (hidle hbusy).elim⟩
    simpa [line, workers, hdrains, hbacklog, taken_eq_nil (by simpa using hidle)]
      using hline
  · refine ⟨?_, by simp [hdrains], nofun, fun hh => .inr ⟨hend hh, by simp [hdrains]⟩,
      fun hbusy => ⟨rfl, (hs.receiving hbusy).2.1, by simp [hdrains]⟩⟩
    simpa [line, workers, hdrains] using hline

/-- A goroutine with a command goes on. -/
theorem setWorker (hs : Kept s) {i : Option ℕ} {w w' : Worker H} {dispatched : List ℕ}
    (hi : s.worker i = some w) (hbusy : w.busy = true)
    (hw : dispatched ++ w'.taken = s.dispatched ++ w.taken) :
    Kept { s.setWorker i w' with dispatched } := by
  cases i with
  | none =>
    obtain rfl : s.receiver = w := Option.some.inj hi
    obtain ⟨hdraining, hquiet⟩ := hs.receiving hbusy
    refine ⟨?_, hs.oneDrain, hs.draining, hs.live, fun _ => ⟨hdraining, hquiet⟩⟩
    have hline : line { s.setWorker none w' with dispatched } = s.line := by
      simp [line, workers, Provider.setWorker, hquiet.taken, hquiet.1, hw]
    exact hline ▸ hs.accounted
  | some i =>
    obtain ⟨rfl, hdrains⟩ := hs.drains_eq hi
    have hnot : ¬ s.Quiet := fun hquiet => by simp [hquiet.2 w (by simp [hdrains])] at hbusy
    have hidle : ¬ s.receiver.busy = true := fun hbusy => hnot (hs.receiving hbusy).2
    refine ⟨?_, by simp [Provider.setWorker, hdrains], by simp [Provider.setWorker, hdrains],
      fun hh => .inl ((hs.live hh).resolve_right hnot), fun hbusy => (hidle hbusy).elim⟩
    have hline : line { s.setWorker (some 0) w' with dispatched } = s.line := by
      simp [line, workers, Provider.setWorker, hdrains, hw,
        taken_eq_nil (by simpa using hidle)]
    exact hline ▸ hs.accounted

theorem step (hs : Kept s) (ha : Permitted s a) (h : s.step a = some s') : Kept s' := by
  cases a with
  | arrive => exact hs.arrive h
  | subscribe h₀ => exact hs.subscribe ha h
  | reset => exact hs.reset h
  | take i => exact hs.take h
  | dispatch i =>
    simp only [Provider.step] at h
    split at h <;> cases h
    next hi => exact hs.setWorker hi rfl (by simp)
  | finish i =>
    simp only [Provider.step] at h
    split at h <;> cases h
    next hi => exact hs.setWorker hi rfl (by cases i <;> rfl)

theorem start (limit : ℤ) : Kept (start limit : Provider H) :=
  ⟨⟨.nil, .nil⟩, Nat.zero_le _, nofun, nofun, nofun⟩

theorem orderly (hs : Kept s) : s.Orderly := by
  obtain ⟨honce, horder⟩ := hs.accounted
  refine ⟨honce, (pairwise_append.mp (pairwise_append.mp horder).1).1, ?_, hs.oneDrain, ?_⟩
  · cases hbusy : s.receiver.busy
    · simpa [workers, hbusy] using countP_le_length.trans hs.oneDrain
    · have hdrains : s.drains.countP Worker.busy = 0 :=
        countP_eq_zero.mpr fun w hw => by simp [(hs.receiving hbusy).2.2 w hw]
      simp [workers, hbusy, hdrains]
  · exact fun hh hheld => hs.draining ((hs.live hh).resolve_right fun hquiet => hheld hquiet.1)

end Kept

def work (s : Provider H) : ℕ := 4 * s.queue.backlog.length + (s.workers.map Worker.work).sum

theorem exists_continues (hlen : s.drains.length ≤ 1)
    (hleft : ¬ (s.receiver = .idle ∧ s.drains = [])) :
    ∃ a s', a.continues ∧ s.step a = some s' ∧ s'.work < s.work ∧
      s'.queue.handler = s.queue.handler := by
  obtain ⟨⟨handler, backlog, draining, limit⟩, receiver, drains, arrived, _, _, _⟩ := s
  rcases receiver with _ | ⟨h, n⟩ | _
  · rcases drains with _ | ⟨_ | ⟨h, n⟩ | _, _ | ⟨w', ws⟩⟩
    · simp at hleft
    · rcases handler with _ | h <;> rcases backlog with _ | ⟨n, backlog⟩ <;>
        refine ⟨.take 0, _, rfl, rfl, ?_, rfl⟩ <;> simp [work, workers, Worker.work]
      omega
    · simp at hlen
    · exact ⟨.dispatch (some 0), _, rfl, rfl, by simp [work, workers, setWorker, Worker.work], rfl⟩
    · simp at hlen
    · exact ⟨.finish (some 0), _, rfl, rfl, by simp [work, workers, setWorker, Worker.work], rfl⟩
    · simp at hlen
  · exact ⟨.dispatch none, _, rfl, rfl, by simp [work, workers, setWorker, Worker.work], rfl⟩
  · exact ⟨.finish none, _, rfl, rfl, by simp [work, workers, setWorker, Worker.work], rfl⟩

theorem permitted_of_continues (ha : a.continues) : Permitted s a := by
  cases a <;> first | exact trivial | cases ha

/-- The goroutines that are at work come to an end. -/
theorem Kept.settles (hs : Kept s) : ∃ as s', as.all Action.continues ∧
    machine.run s as = some s' ∧ s'.queue.handler = s.queue.handler ∧ s'.Settled := by
  induction hn : s.work using Nat.strong_induction_on generalizing s with
  | _ n ih =>
    by_cases hleft : s.receiver = .idle ∧ s.drains = []
    · refine ⟨[], s, rfl, rfl, rfl, hleft, fun hh => ?_⟩
      have hquiet : s.Quiet := (hs.live hh).resolve_left fun hd => hs.draining hd hleft.2
      simpa [line, workers, hleft, hquiet.1] using hs.accounted.1
    · obtain ⟨a, s', ha, hstep, hlt, hhandler⟩ := exists_continues hs.oneDrain hleft
      obtain ⟨as, s'', has, hrun, hhandler', hsettled⟩ :=
        ih _ (hn ▸ hlt) (hs.step (permitted_of_continues ha) hstep) rfl
      exact ⟨a :: as, s'', by simp [ha, has], machine.run_cons_iff.mpr ⟨s', hstep, hrun⟩,
        hhandler'.trans hhandler, hsettled⟩

/-- After any other subscription two `Drain`s are active, or the next command is dispatched beside
the one of the `Drain`. -/
theorem Kept.not_orderly (hs : Kept s) {h : H} (ha : ¬ Permitted s (.subscribe (some h))) :
    ∃ as s', machine.run s (.subscribe (some h) :: as) = some s' ∧ ¬ s'.Orderly := by
  obtain ⟨hdraining, hdrains, hnot⟩ : s.queue.draining = false ∧ s.drains ≠ [] ∧ ¬ s.Quiet := by
    simpa [Permitted] using ha
  have hidle : s.receiver.busy = false := by simpa using fun hbusy => hnot (hs.receiving hbusy).2
  obtain ⟨⟨handler, backlog, draining, limit⟩, receiver, drains, arrived, _, _, _⟩ := s
  obtain rfl : draining = false := hdraining
  rcases backlog with _ | ⟨n, backlog⟩
  · obtain ⟨w, hw, hbusy⟩ : ∃ w ∈ drains, w.busy = true := by simpa [Quiet] using hnot
    refine ⟨[.arrive], _, machine.run_cons_iff.mpr ⟨_, rfl, machine.run_cons_iff.mpr
      ⟨_, if_neg (by simp [hidle]), rfl⟩⟩, fun horderly => ?_⟩
    have halone : (Worker.given h arrived :: drains).countP Worker.busy ≤ 1 := horderly.alone
    have hpos : 0 < drains.countP Worker.busy := countP_pos_iff.mpr ⟨w, hw, hbusy⟩
    rw [countP_cons_of_pos rfl] at halone
    omega
  · refine ⟨[], _, rfl, fun horderly => hdrains ?_⟩
    simpa using horderly.oneDrain

/-- In every run whose subscriptions are permitted the commands are dispatched once, in the order of
arrival and one at a time, and the condition cannot be weakened for any subscription. -/
theorem commands_dispatched_in_turn {limit : ℤ} {as : List (Action H)}
    (hpermitted : machine.Guarded Permitted (start limit) as)
    (hrun : machine.run (start limit) as = some s) :
    s.Orderly ∧
    (∃ as s', as.all Action.continues ∧ machine.run s as = some s' ∧
      s'.queue.handler = s.queue.handler ∧ s'.Settled) ∧
    ∀ h, ¬ Permitted s (.subscribe (some h)) →
      ∃ as s', machine.run s (.subscribe (some h) :: as) = some s' ∧ ¬ s'.Orderly := by
  have hs : Kept s := machine.run_invariant (fun _ _ _ hs => hs.step) as _ s (.start limit)
    hpermitted hrun
  exact ⟨hs.orderly, hs.settles, fun _ => hs.not_orderly⟩

instance (s : Provider H) : ∀ a, Decidable (Permitted s a)
  | .subscribe (some _) => inferInstanceAs (Decidable (_ ∨ _ ∨ _ ∧ _))
  | .subscribe none | .arrive | .reset | .take _ | .dispatch _ | .finish _ => isTrue trivial

/-- Two commands are handed over and a third is dispatched at once. The provider is stopped while
another `Drain` is at work, which ends before the next subscription. -/
def restarted : List (Action Unit) :=
  [.arrive, .arrive, .subscribe (some ()), .take 0, .dispatch (some 0), .finish (some 0), .take 0,
    .dispatch (some 0), .finish (some 0), .take 0, .arrive, .dispatch none, .finish none,
    .subscribe none, .arrive, .subscribe (some ()), .take 0, .reset, .dispatch (some 0),
    .finish (some 0), .arrive, .take 0, .subscribe (some ())]

theorem commands_dispatched_in_turn_restarted :
    ∃ s, machine.run (start 8) restarted = some s ∧ s.dispatched = [0, 1, 2, 3] ∧
      s.queue.backlog = [4] ∧ s.Orderly := by
  refine exists_some_of_any (P := fun s => s.dispatched = [0, 1, 2, 3] ∧ s.queue.backlog = [4])
    (by decide) fun s hrun ⟨hdispatched, hbacklog⟩ => ⟨hdispatched, hbacklog, ?_⟩
  exact (commands_dispatched_in_turn (by decide) hrun).1

/-- A `Reset` and a new subscription overtake a `Drain` that has a command. -/
def overtaken : List (Action Unit) :=
  [.arrive, .subscribe (some ()), .take 0, .reset, .arrive, .subscribe (some ()), .take 1,
    .dispatch (some 1), .dispatch (some 0)]

theorem commands_dispatched_together :
    ∃ s, machine.run (start 8) overtaken = some s ∧ s.dispatched = [1, 0] ∧
      s.drains.length = 2 ∧ s.workers.countP Worker.busy = 2 :=
  exists_some_of_any (P := fun s => s.dispatched = [1, 0] ∧ s.drains.length = 2 ∧
    s.workers.countP Worker.busy = 2) (by decide) fun _ _ h => h

end Provider
end Cfgms.Steward.Pending
