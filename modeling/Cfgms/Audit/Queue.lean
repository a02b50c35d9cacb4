import Cfgms.Machine.Runs
import Mathlib.Data.List.Nodup

/-! # The queue of the audit manager

`RecordEvent` puts an entry into a bounded channel that one goroutine drains. `Stop` flushes,
closes the stop channel and waits for the goroutine. All calls interleave, a select takes any of
its ready cases, and an entry is identified with the call that made it.
-/

namespace Cfgms.Audit.Drain

variable {ι κ : Type*}

def defaultQueueCapacity : ℕ := 1024

def defaultDrainBatchSize : ℕ := 256

inductive RecordPoint where
  | checkStop
  | select
  | returned (ok : Bool)
  deriving DecidableEq

/-- A flush is made by a caller of `Flush`, or by `Stop` before it closes the stop channel. -/
inductive Flusher (κ : Type*) where
  | flush (n : κ)
  | stop (n : κ)
  deriving DecidableEq

inductive FlushPoint where
  | checkDone
  | submit
  | await
  | returned (cancelled : Bool)
  deriving DecidableEq

/-- `cancelled` is whether the call is to return an error of its context. -/
inductive StopPoint where
  | enter
  | flushing
  | closing (cancelled : Bool)
  | waiting (cancelled : Bool)
  | leaving (cancelled : Bool)
  | returned (cancelled : Bool)
  deriving DecidableEq

inductive Once where
  | free
  | running
  | finished
  deriving DecidableEq

inductive Purpose (κ : Type*) where
  | loop
  | flush (f : Flusher κ)
  | stop

inductive DrainPoint (ι κ : Type*) where
  | loop
  | collecting (batch : List ι) (purpose : Purpose κ)
  | writing (batch : List ι) (purpose : Purpose κ)
  | draining (purpose : Purpose κ)
  | acking (f : Flusher κ)
  | finished
  | exited

structure QueueState (ι κ : Type*) where
  queue : List ι
  stop : Bool
  done : Bool
  stopOnce : Once
  drain : DrainPoint ι κ
  acks : List (Flusher κ)
  records : ι → Option RecordPoint
  flushes : Flusher κ → Option FlushPoint
  stops : κ → Option StopPoint
  /-- The entries that the store has taken. -/
  written : List ι
  /-- The entries that were counted in `lostEntries`. -/
  lost : List ι

inductive QueueAction (ι κ : Type*) where
  | record (i : ι) (valid : Bool)
  | checkStop (i : ι)
  | send (i : ι)
  | refuse (i : ι)
  | cancel (i : ι)
  | flush (n : κ)
  | checkDone (f : Flusher κ)
  | submit (f : Flusher κ)
  | acked (f : Flusher κ)
  | flushDone (f : Flusher κ)
  | flushCancel (f : Flusher κ)
  | stop (n : κ)
  | stopFirst (n : κ)
  | stopAgain (n : κ)
  | stopFlushed (n : κ)
  | stopClose (n : κ)
  | stopDone (n : κ)
  | stopTimeout (n : κ)
  | stopReturn (n : κ)
  | receive
  | noticeStop
  | append (ok : Bool)
  | proceed

namespace DrainPoint

def batch : DrainPoint ι κ → List ι
  | .collecting b _ | .writing b _ => b
  | _ => []

section Batch

variable (b : List ι) (p : Purpose κ) (f : Flusher κ)

@[simp] theorem batch_loop : (loop : DrainPoint ι κ).batch = [] := rfl

@[simp] theorem batch_collecting : (collecting b p).batch = b := rfl

@[simp] theorem batch_writing : (writing b p).batch = b := rfl

@[simp] theorem batch_draining : (draining p : DrainPoint ι κ).batch = [] := rfl

@[simp] theorem batch_acking : (acking f : DrainPoint ι κ).batch = [] := rfl

@[simp] theorem batch_finished : (finished : DrainPoint ι κ).batch = [] := rfl

@[simp] theorem batch_exited : (exited : DrainPoint ι κ).batch = [] := rfl

end Batch

/-- The goroutine has looked into the queue for the last time. -/
def Over : DrainPoint ι κ → Prop
  | .finished | .exited => True
  | _ => False

instance (p : DrainPoint ι κ) : Decidable p.Over := by
  cases p <;> unfold Over <;> infer_instance

theorem Over.batch_eq_nil {p : DrainPoint ι κ} (h : p.Over) : p.batch = [] := by
  cases p with
  | collecting | writing => exact h.elim
  | _ => rfl

end DrainPoint

namespace QueueState

def start : QueueState ι κ where
  queue := []
  stop := false
  done := false
  stopOnce := .free
  drain := .loop
  acks := []
  records _ := none
  flushes _ := none
  stops _ := none
  written := []
  lost := []

variable (s : QueueState ι κ)

section Record

variable [DecidableEq ι]

def setRecord (i : ι) (p : RecordPoint) : QueueState ι κ :=
  { s with records := Function.update s.records i (some p) }

def record (i : ι) (valid : Bool) : Option (QueueState ι κ) :=
  if s.records i = none then
    some (s.setRecord i (if valid then .checkStop else .returned false))
  else none

/-- The first select of `enqueue`. -/
def checkStop (i : ι) : Option (QueueState ι κ) :=
  if s.records i = some .checkStop then
    some (s.setRecord i (if s.stop then .returned false else .select))
  else none

/-- The second select of `enqueue` takes the queue, which has room. -/
def send (i : ι) : Option (QueueState ι κ) :=
  if s.records i = some .select ∧ s.queue.length < defaultQueueCapacity then
    some ({ s with queue := s.queue ++ [i] }.setRecord i (.returned true))
  else none

/-- The second select of `enqueue` takes the closed stop channel. -/
def refuse (i : ι) : Option (QueueState ι κ) :=
  if s.records i = some .select ∧ s.stop then some (s.setRecord i (.returned false)) else none

/-- The second select of `enqueue` takes the context of the caller. -/
def cancel (i : ι) : Option (QueueState ι κ) :=
  if s.records i = some .select then some (s.setRecord i (.returned false)) else none

end Record

section Flush

variable [DecidableEq κ]

def setFlush (f : Flusher κ) (p : FlushPoint) : QueueState ι κ :=
  { s with flushes := Function.update s.flushes f (some p) }

def setStop (n : κ) (p : StopPoint) : QueueState ι κ :=
  { s with stops := Function.update s.stops n (some p) }

def flush (n : κ) : Option (QueueState ι κ) :=
  if s.flushes (.flush n) = none then some (s.setFlush (.flush n) .checkDone) else none

def checkDone (f : Flusher κ) : Option (QueueState ι κ) :=
  if s.flushes f = some .checkDone then
    some (s.setFlush f (if s.done then .returned false else .submit))
  else none

/-- The drain goroutine takes the request and starts to empty the queue. -/
def submit (f : Flusher κ) : Option (QueueState ι κ) :=
  match s.drain with
  | .loop =>
    if s.flushes f = some .submit then
      some ({ s with drain := .draining (.flush f) }.setFlush f .await)
    else none
  | _ => none

def acked (f : Flusher κ) : Option (QueueState ι κ) :=
  if s.flushes f = some .await ∧ f ∈ s.acks then some (s.setFlush f (.returned false)) else none

def flushDone (f : Flusher κ) : Option (QueueState ι κ) :=
  if (s.flushes f = some .submit ∨ s.flushes f = some .await) ∧ s.done then
    some (s.setFlush f (.returned false))
  else none

def flushCancel (f : Flusher κ) : Option (QueueState ι κ) :=
  if s.flushes f = some .submit ∨ s.flushes f = some .await then
    some (s.setFlush f (.returned true))
  else none

def stopCall (n : κ) : Option (QueueState ι κ) :=
  if s.stops n = none then some (s.setStop n .enter) else none

/-- The first call runs the body of `stopOnce`, which starts with a flush. -/
def stopFirst (n : κ) : Option (QueueState ι κ) :=
  if s.stops n = some .enter ∧ s.stopOnce = .free then
    some (({ s with stopOnce := .running }.setFlush (.stop n) .checkDone).setStop n .flushing)
  else none

/-- A later call waits for the body to end and then reports the lost entries alone. -/
def stopAgain (n : κ) : Option (QueueState ι κ) :=
  if s.stops n = some .enter ∧ s.stopOnce = .finished then some (s.setStop n (.leaving false))
  else none

def stopFlushed (n : κ) : Option (QueueState ι κ) :=
  match s.stops n, s.flushes (.stop n) with
  | some .flushing, some (.returned cancelled) => some (s.setStop n (.closing cancelled))
  | _, _ => none

def stopClose (n : κ) : Option (QueueState ι κ) :=
  match s.stops n with
  | some (.closing cancelled) => some ({ s with stop := true }.setStop n (.waiting cancelled))
  | _ => none

def stopDone (n : κ) : Option (QueueState ι κ) :=
  match s.stops n with
  | some (.waiting cancelled) =>
    if s.done then some ({ s with stopOnce := .finished }.setStop n (.leaving cancelled)) else none
  | _ => none

def stopTimeout (n : κ) : Option (QueueState ι κ) :=
  match s.stops n with
  | some (.waiting _) => some ({ s with stopOnce := .finished }.setStop n (.leaving true))
  | _ => none

def stopReturn (n : κ) : Option (QueueState ι κ) :=
  match s.stops n with
  | some (.leaving cancelled) => some (s.setStop n (.returned cancelled))
  | _ => none

end Flush

/-- The select of `drainLoop` takes an entry. -/
def receive : Option (QueueState ι κ) :=
  match s.drain, s.queue with
  | .loop, i :: rest => some { s with queue := rest, drain := .collecting [i] .loop }
  | _, _ => none

/-- The select of `drainLoop` takes the closed stop channel. -/
def noticeStop : Option (QueueState ι κ) :=
  match s.drain with
  | .loop => if s.stop then some { s with drain := .draining .stop } else none
  | _ => none

/-- The store takes the next entry of the batch, or refuses it in every attempt. -/
def append (ok : Bool) : Option (QueueState ι κ) :=
  match s.drain, ok with
  | .writing (i :: batch) purpose, true =>
      some { s with written := s.written ++ [i], drain := .writing batch purpose }
  | .writing (i :: batch) purpose, false =>
      some { s with lost := s.lost ++ [i], drain := .writing batch purpose }
  | _, _ => none

/-- The other steps of the drain goroutine. -/
def proceed : Option (QueueState ι κ) :=
  match s.drain with
  | .collecting batch purpose =>
    match s.queue with
    | i :: rest =>
      if batch.length < defaultDrainBatchSize then
        some { s with queue := rest, drain := .collecting (batch ++ [i]) purpose }
      else some { s with drain := .writing batch purpose }
    | [] => some { s with drain := .writing batch purpose }
  | .writing [] .loop => some { s with drain := .loop }
  | .writing [] purpose => some { s with drain := .draining purpose }
  | .draining purpose =>
    match s.queue, purpose with
    | i :: rest, purpose => some { s with queue := rest, drain := .collecting [i] purpose }
    | [], .flush f => some { s with drain := .acking f }
    | [], .stop => some { s with drain := .finished }
    | [], .loop => none
  | .acking f => some { s with acks := f :: s.acks, drain := .loop }
  | .finished => some { s with done := true, drain := .exited }
  | _ => none

variable [DecidableEq ι] [DecidableEq κ]

def step : QueueAction ι κ → Option (QueueState ι κ)
  | .record i valid => s.record i valid
  | .checkStop i => s.checkStop i
  | .send i => s.send i
  | .refuse i => s.refuse i
  | .cancel i => s.cancel i
  | .flush n => s.flush n
  | .checkDone f => s.checkDone f
  | .submit f => s.submit f
  | .acked f => s.acked f
  | .flushDone f => s.flushDone f
  | .flushCancel f => s.flushCancel f
  | .stop n => s.stopCall n
  | .stopFirst n => s.stopFirst n
  | .stopAgain n => s.stopAgain n
  | .stopFlushed n => s.stopFlushed n
  | .stopClose n => s.stopClose n
  | .stopDone n => s.stopDone n
  | .stopTimeout n => s.stopTimeout n
  | .stopReturn n => s.stopReturn n
  | .receive => s.receive
  | .noticeStop => s.noticeStop
  | .append ok => s.append ok
  | .proceed => s.proceed

end QueueState

def machine [DecidableEq ι] [DecidableEq κ] : Machine (QueueState ι κ) (QueueAction ι κ) :=
  ⟨fun s a => s.step a⟩

end Cfgms.Audit.Drain
