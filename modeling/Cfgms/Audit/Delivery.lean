import Cfgms.Audit.Queue

/-! # No acknowledged event disappears

An acknowledged entry is in the queue, in the batch of the drain goroutine, in the store or
counted as lost. A `RecordEvent` that passed its first select before the stop channel was closed
can still send after the goroutine has exited, and a repeated `Stop` does not wait for it.
-/

namespace Cfgms.Audit.Drain

open List

variable {ι κ : Type*}

namespace QueueState

def entries (s : QueueState ι κ) : List ι := s.queue ++ s.drain.batch ++ s.written ++ s.lost

def Acknowledged (s : QueueState ι κ) (i : ι) : Prop := s.records i = some (.returned true)

/-- The call reports, or is about to report, the lost entries and no error of its context. -/
def Reports (s : QueueState ι κ) (n : κ) : Prop :=
  s.stops n = some (.leaving false) ∨ s.stops n = some (.returned false)

structure Inv (s : QueueState ι κ) : Prop where
  kept : ∀ i, s.Acknowledged i → i ∈ s.entries
  drained : s.drain.Over → s.queue = []
  exited : s.done = true → s.drain.Over
  reports : ∀ n, s.Reports n → s.done = true

theorem inv_start : (start : QueueState ι κ).Inv where
  kept _ h := by cases h
  drained h := h.elim
  exited h := by cases h
  reports n h := by rcases h with h | h <;> cases h

variable {s s' : QueueState ι κ}

section Record

variable [DecidableEq ι] {i : ι}

variable (h : s.Inv)
include h

theorem Inv.setRecord {p : RecordPoint} (hp : p = .returned true → i ∈ s.entries) :
    (s.setRecord i p).Inv where
  kept j hj := by
    by_cases hij : j = i
    · subst hij
      exact hp (by simpa [Acknowledged, QueueState.setRecord] using hj)
    · exact h.kept j (by simpa [Acknowledged, QueueState.setRecord, hij] using hj)
  drained := h.drained
  exited := h.exited
  reports := h.reports

theorem Inv.record {valid : Bool} (hs : s.record i valid = some s') : s'.Inv := by
  rw [QueueState.record] at hs
  split at hs <;> cases hs
  apply h.setRecord
  cases valid <;> simp

theorem Inv.checkStop (hs : s.checkStop i = some s') : s'.Inv := by
  rw [QueueState.checkStop] at hs
  split at hs <;> cases hs
  apply h.setRecord
  cases s.stop <;> simp

theorem Inv.send (hover : ¬ s.drain.Over) (hs : s.send i = some s') : s'.Inv := by
  rw [QueueState.send] at hs
  split at hs <;> cases hs
  have hqueue : Inv { s with queue := s.queue ++ [i] } :=
    { kept := fun j hj => by
        have hmem := h.kept j hj
        simp only [entries, mem_append] at hmem ⊢
        tauto
      drained := fun hd => absurd hd hover
      exited := h.exited
      reports := h.reports }
  apply hqueue.setRecord
  simp [entries]

end Record

theorem Inv.leaveLoop (h : s.Inv) (hd : s.drain = .loop) (purpose : Purpose κ) :
    Inv { s with drain := .draining purpose } where
  kept i hi := by simpa [entries, hd] using h.kept i hi
  drained hover := hover.elim
  exited hdone := by
    have hover := h.exited hdone
    rw [hd] at hover
    exact hover.elim
  reports := h.reports

theorem Inv.finishOnce (h : s.Inv) : Inv { s with stopOnce := .finished } :=
  { h with }

section Stop

variable [DecidableEq κ] {f : Flusher κ} {n : κ}

variable (h : s.Inv)
include h

theorem Inv.setFlush {p : FlushPoint} : (s.setFlush f p).Inv :=
  { h with }

theorem Inv.setStop {p : StopPoint}
    (hp : p = .leaving false ∨ p = .returned false → s.done = true) : (s.setStop n p).Inv where
  kept := h.kept
  drained := h.drained
  exited := h.exited
  reports m hm := by
    by_cases hmn : m = n
    · subst hmn
      exact hp (by simpa [Reports, QueueState.setStop] using hm)
    · exact h.reports m (by simpa [Reports, QueueState.setStop, hmn] using hm)

theorem Inv.submit (hs : s.submit f = some s') : s'.Inv := by
  revert hs
  fun_cases QueueState.submit s f <;> rintro ⟨⟩
  next hd _ => exact (h.leaveLoop hd _).setFlush

theorem Inv.stopFirst (hs : s.stopFirst n = some s') : s'.Inv := by
  rw [QueueState.stopFirst] at hs
  split at hs <;> cases hs
  have honce : Inv { s with stopOnce := .running } := { h with }
  exact honce.setFlush.setStop (by simp)

theorem Inv.stopAgain (hdone : s.done = true) (hs : s.stopAgain n = some s') : s'.Inv := by
  rw [QueueState.stopAgain] at hs
  split at hs <;> cases hs
  exact h.setStop fun _ => hdone

theorem Inv.stopClose (hs : s.stopClose n = some s') : s'.Inv := by
  rw [QueueState.stopClose] at hs
  split at hs <;> cases hs
  have hstop : Inv { s with stop := true } := { h with }
  exact hstop.setStop (by simp)

theorem Inv.stopDone (hs : s.stopDone n = some s') : s'.Inv := by
  revert hs
  fun_cases QueueState.stopDone s n <;> rintro ⟨⟩
  next hdone => exact h.finishOnce.setStop fun _ => hdone

theorem Inv.stopTimeout (hs : s.stopTimeout n = some s') : s'.Inv := by
  rw [QueueState.stopTimeout] at hs
  split at hs <;> cases hs
  exact h.finishOnce.setStop (by simp)

theorem Inv.stopReturn (hs : s.stopReturn n = some s') : s'.Inv := by
  rw [QueueState.stopReturn] at hs
  split at hs <;> cases hs
  next cancelled hn =>
  apply h.setStop
  rintro (hp | hp)
  · cases hp
  · cases hp
    exact h.reports n (.inl hn)

end Stop

section

variable (h : s.Inv)
include h

theorem Inv.ofDrain (hbefore : ¬ s.drain.Over) (hafter : ¬ s'.drain.Over)
    (hentries : ∀ i ∈ s.entries, i ∈ s'.entries) (hrecords : s'.records = s.records)
    (hdone : s'.done = s.done) (hstops : s'.stops = s.stops) : s'.Inv where
  kept i hi := hentries i (h.kept i (by rwa [Acknowledged, hrecords] at hi))
  drained hover := absurd hover hafter
  exited hd := absurd (h.exited (hdone ▸ hd)) hbefore
  reports n hn := by
    rw [hdone]
    exact h.reports n (by rwa [Reports, hstops] at hn)

theorem Inv.receive (hs : s.receive = some s') : s'.Inv := by
  rw [QueueState.receive] at hs
  split at hs <;> cases hs
  next i rest hd hq =>
  refine h.ofDrain (by simp [hd, DrainPoint.Over]) (by simp [DrainPoint.Over]) ?_ rfl rfl rfl
  intro j hj
  simp only [entries, hd, hq, DrainPoint.batch_loop, DrainPoint.batch_collecting,
    mem_append, mem_cons] at hj ⊢
  tauto

theorem Inv.noticeStop (hs : s.noticeStop = some s') : s'.Inv := by
  revert hs
  fun_cases QueueState.noticeStop s <;> rintro ⟨⟩
  next hd _ => exact h.leaveLoop hd _

theorem Inv.append {ok : Bool} (hs : s.append ok = some s') : s'.Inv := by
  revert hs
  fun_cases QueueState.append s ok <;> rintro ⟨⟩
  all_goals
    rename_i hd
    refine h.ofDrain (by simp [hd, DrainPoint.Over]) (by simp [DrainPoint.Over]) ?_ rfl rfl rfl
    intro j hj
    simp only [entries, hd, DrainPoint.batch_writing, mem_append, mem_cons] at hj ⊢
    tauto

theorem Inv.moveOn {p : DrainPoint ι κ} (hbefore : ¬ s.drain.Over) (hafter : ¬ p.Over)
    (hbatch : p.batch = s.drain.batch) : Inv { s with drain := p } := by
  refine h.ofDrain hbefore hafter ?_ rfl rfl rfl
  intro i hi
  simpa [entries, hbatch] using hi

theorem Inv.takeNext {i : ι} {rest batch : List ι} {purpose : Purpose κ}
    (hbefore : ¬ s.drain.Over) (hq : s.queue = i :: rest) (hbatch : s.drain.batch = batch) :
    Inv { s with queue := rest, drain := .collecting (batch ++ [i]) purpose } := by
  refine h.ofDrain hbefore (by simp [DrainPoint.Over]) ?_ rfl rfl rfl
  intro j hj
  simp only [entries, hq, hbatch, DrainPoint.batch_collecting, mem_append, mem_cons,
    not_mem_nil, or_false] at hj ⊢
  tauto

theorem Inv.finish (hbefore : ¬ s.drain.Over) (hq : s.queue = [])
    (hbatch : s.drain.batch = []) : Inv { s with drain := .finished } where
  kept i hi := by simpa [entries, hbatch] using h.kept i hi
  drained _ := hq
  exited hd := absurd (h.exited hd) hbefore
  reports := h.reports

theorem Inv.proceed (hs : s.proceed = some s') : s'.Inv := by
  revert hs
  fun_cases QueueState.proceed s <;> rintro ⟨⟩
  case case1 hd _ _ hq _ =>
    exact h.takeNext (by simp [hd, DrainPoint.Over]) hq (by simp [hd])
  case case6 hq hd =>
    have hbatch : s.drain.batch = [] := by simp [hd]
    exact h.takeNext (by simp [hd, DrainPoint.Over]) hq hbatch
  case case8 hq hd => exact h.finish (by simp [hd, DrainPoint.Over]) hq (by simp [hd])
  case case10 hd =>
    have hloop : Inv { s with drain := .loop } :=
      h.moveOn (by simp [hd, DrainPoint.Over]) id (by simp [hd])
    exact { hloop with }
  case case11 hd =>
    exact
      { kept := fun i hi => by
          simpa [entries, hd] using h.kept i hi
        drained := fun _ => h.drained (by simp [hd, DrainPoint.Over])
        exited := fun _ => trivial
        reports := fun _ _ => rfl }
  -- in the other cases the entries stay where they are
  all_goals exact h.moveOn (by simp [*, DrainPoint.Over]) id (by simp [*])

end

variable [DecidableEq ι] [DecidableEq κ]

/-- An entry is sent while the drain goroutine is still to look into the queue, and `Stop` is
called again only after the goroutine has exited. -/
def Timely (s : QueueState ι κ) : QueueAction ι κ → Prop
  | .send _ => ¬ s.drain.Over
  | .stopAgain _ => s.done = true
  | _ => True

instance (s : QueueState ι κ) (a : QueueAction ι κ) : Decidable (s.Timely a) := by
  cases a <;> unfold Timely <;> infer_instance

theorem Inv.step (h : s.Inv) {a : QueueAction ι κ} (ht : s.Timely a) (hs : s.step a = some s') :
    s'.Inv := by
  cases a with
  | record i valid => exact h.record hs
  | checkStop i => exact h.checkStop hs
  | send i => exact h.send ht hs
  | refuse | cancel =>
    simp only [QueueState.step, refuse, cancel] at hs
    split at hs <;> cases hs
    exact h.setRecord nofun
  | flush | checkDone | acked | flushDone | flushCancel =>
    simp only [QueueState.step, flush, checkDone, acked, flushDone, flushCancel] at hs
    split at hs <;> cases hs
    exact h.setFlush
  | submit f => exact h.submit hs
  | stop | stopFlushed =>
    simp only [QueueState.step, stopCall, stopFlushed] at hs
    split at hs <;> cases hs
    exact h.setStop (by simp)
  | stopFirst n => exact h.stopFirst hs
  | stopAgain n => exact h.stopAgain ht hs
  | stopClose n => exact h.stopClose hs
  | stopDone n => exact h.stopDone hs
  | stopTimeout n => exact h.stopTimeout hs
  | stopReturn n => exact h.stopReturn hs
  | receive => exact h.receive hs
  | noticeStop => exact h.noticeStop hs
  | append ok => exact h.append hs
  | proceed => exact h.proceed hs

/-- Some `Stop` has reported the lost entries, and no call is under way any more. -/
structure Settled (s : QueueState ι κ) : Prop where
  stopped : ∃ n, s.stops n = some (.returned false)
  records : ∀ i p, s.records i = some p → ∃ ok, p = .returned ok
  flushes : ∀ f p, s.flushes f = some p → ∃ cancelled, p = .returned cancelled
  stops : ∀ n p, s.stops n = some p → ∃ cancelled, p = .returned cancelled

/-- In every interleaving that is timely, each acknowledged entry is in the store or counted as
lost once `Stop` has returned and all calls have ended. -/
theorem no_acknowledged_entry_lost (as : List (QueueAction ι κ))
    (hg : machine.Guarded Timely .start as) (hr : machine.run .start as = some s)
    (hsettled : s.Settled) (i : ι) (hi : s.Acknowledged i) : i ∈ s.written ∨ i ∈ s.lost := by
  have hinv : s.Inv := machine.run_invariant (fun s a s' h hc hs => h.step hc hs) as _ s
    inv_start hg hr
  obtain ⟨n, hn⟩ := hsettled.stopped
  have hover := hinv.exited (hinv.reports n (.inr hn))
  have hmem := hinv.kept i hi
  rw [entries, hinv.drained hover, hover.batch_eq_nil] at hmem
  simpa using hmem

def recordThenStop : List (QueueAction Unit Unit) :=
  [.record () true, .checkStop (), .send (), .stop (), .stopFirst (), .checkDone (.stop ()),
    .submit (.stop ()), .proceed, .proceed, .append true, .proceed, .proceed, .proceed,
    .acked (.stop ()), .stopFlushed (), .stopClose (), .noticeStop, .proceed, .proceed,
    .stopDone (), .stopReturn ()]

theorem no_acknowledged_entry_lost_recordThenStop :
    ∃ s, machine.run .start recordThenStop = some s ∧ s.Acknowledged () ∧
      (() ∈ s.written ∨ () ∈ s.lost) := by
  refine ⟨_, rfl, rfl, ?_⟩
  refine no_acknowledged_entry_lost recordThenStop (by decide +kernel) rfl ⟨⟨(), rfl⟩, ?_, ?_, ?_⟩
    () rfl
  · rintro ⟨⟩ p hp
    cases hp
    exact ⟨_, rfl⟩
  · rintro (⟨⟩ | ⟨⟩) p hp
    · cases hp
    · cases hp
      exact ⟨_, rfl⟩
  · rintro ⟨⟩ p hp
    cases hp
    exact ⟨_, rfl⟩

/-- The event passes its first select before the stop channel is closed and is sent after the
drain goroutine has exited. -/
def sendAfterExit : List (QueueAction Unit Unit) :=
  [.record () true, .checkStop (), .stop (), .stopFirst (), .checkDone (.stop ()),
    .submit (.stop ()), .proceed, .proceed, .acked (.stop ()), .stopFlushed (), .stopClose (),
    .noticeStop, .proceed, .proceed, .stopDone (), .stopReturn (), .send ()]

theorem acknowledged_entry_lost_sendAfterExit :
    ∃ s, machine.run .start sendAfterExit = some s ∧ s.Settled ∧ s.Acknowledged () ∧
      ¬ (() ∈ s.written ∨ () ∈ s.lost) := by
  refine ⟨_, rfl, ⟨⟨(), rfl⟩, ?_, ?_, ?_⟩, rfl, by rintro (h | h) <;> cases h⟩
  · rintro ⟨⟩ p hp
    cases hp
    exact ⟨_, rfl⟩
  · rintro (⟨⟩ | ⟨⟩) p hp
    · cases hp
    · cases hp
      exact ⟨_, rfl⟩
  · rintro ⟨⟩ p hp
    cases hp
    exact ⟨_, rfl⟩

end QueueState

end Cfgms.Audit.Drain
