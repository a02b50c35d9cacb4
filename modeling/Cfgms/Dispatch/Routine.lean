import Cfgms.Dispatch.Synthesis

/-! # Routine operations

Every call but a dispatch and a cancellation is made of operations that need no knowledge of
what went before. They close jobs, free slots and queue entries, and neither send nor claim.
A dispatch and a cancellation make a few operations of their own besides.
-/

namespace Cfgms.Dispatch

open Script Run Program

/-- An operation that needs no knowledge. `E` is what holds of the entries that are queued, and
`L` is whether lock records are taken. -/
@[simp] def Routine (E : QueueEntry → Prop) (L : Prop) : {β : Type} → Op β → Prop
  | _, .updateJobStatus _ status _ => status.isTerminal
  | _, .updateJobResult _ status _ _ _ _ => status.isTerminal
  | _, .expireJobIfStatus _ _ newStatus _ => newStatus.isTerminal
  | _, .enqueue entry => E entry
  | _, .takeLock _ _ => L
  | _, .markJobDispatched _ _ _ | _, .send _ _ _ | _, .fill _ | _, .dequeue _ | _, .recordLock _
  | _, .setLock _ _ _ | _, .beginDispatch | _, .listJobsToCancel _ | _, .returnCancelled _ => False
  | _, _ => True

variable {E : QueueEntry → Prop} {L : Prop}
variable {β : Type} {o : Op β}

theorem Routine.mono {E' : QueueEntry → Prop} {L' : Prop}
    (h : Routine E L o) (hE : ∀ e, E e → E' e) (hL : L → L') : Routine E' L' o := by
  cases o with
  | enqueue entry => exact hE entry h
  | takeLock => exact hL h
  | _ => exact h

variable (deviceID : String)

theorem releaseDevice_routine : (releaseDevice deviceID).All (Routine E L) := by
  simp [releaseDevice]

theorem releaseDeviceIfExecution_routine (hL : L) (deviceID executionID : String) :
    (releaseDeviceIfExecution deviceID executionID).All (Routine E L) := by
  simp [releaseDeviceIfExecution, hL]

theorem refreshRun_routine (runID : String) : (refreshRun runID).All (Routine E L) := by
  simp [refreshRun, forall_except]

theorem alreadyTerminal_routine (runID jobID : String) :
    (alreadyTerminal runID jobID).All (Routine E L) := by
  simp [alreadyTerminal, forall_except]

theorem recordJobResult_routine (runID jobID executionID : String) (failed : Bool)
    (output stderr : String) (exitCode : ℤ) :
    (recordJobResult runID jobID executionID failed output stderr exitCode).All (Routine E L) := by
  cases failed <;>
    simp [recordJobResult, forall_except, JobStatus.isTerminal, alreadyTerminal_routine,
      refreshRun_routine]

theorem recordActionResult_routine (runID jobID executionID resultCode : String) :
    (recordActionResult runID jobID executionID resultCode).All (Routine E L) := by
  simp [recordActionResult, forall_except, alreadyTerminal_routine,
    recordJobResult_routine]

theorem recordJobRefused_routine (runID jobID executionID : String) :
    (recordJobRefused runID jobID executionID).All (Routine E L) := by
  simp [recordJobRefused, forall_except, alreadyTerminal_routine, recordJobResult_routine]

theorem tearDown_routine (hL : L) (job : JobRecord) : (tearDown job).All (Routine E L) := by
  simp [tearDown, All.bind, releaseDeviceIfExecution_routine hL]

theorem expireActionJob_routine (hL : L) (now : ℤ) (job : JobRecord) :
    (expireActionJob now job).All (Routine E L) := by
  have hstatus : (if job.status = .dispatched then JobStatus.noResult else .expired).isTerminal := by
    split <;> rfl
  simp [expireActionJob, forall_except, hstatus, All.bind, tearDown_routine hL,
    refreshRun_routine]

theorem expireAll_routine (hL : L) (now : ℤ) (jobs : List JobRecord) :
    (expireAll now jobs).All (Routine E L) := by
  induction jobs with
  | nil => trivial
  | cons job jobs ih => exact (expireActionJob_routine hL now job).bind fun _ => ih

theorem expireActionJobs_routine (hL : L) (now : ℤ) : (expireActionJobs now).All (Routine E L) := by
  simp [expireActionJobs, forall_except, expireAll_routine hL]

theorem releaseCancelled_routine (hL : L) (job : JobRecord) :
    (releaseCancelled job).All (Routine E L) := by
  simp [releaseCancelled, All.bind, releaseDeviceIfExecution_routine hL]

variable (e : QueueEntry)

theorem checkGuard_routine : (checkGuard e).All (Routine E L) := by
  unfold checkGuard
  split
  · trivial
  · simp

variable (es : List QueueEntry)

theorem checkGuards_routine : (checkGuards deviceID es).All (Routine E L) := by
  induction es with
  | nil => trivial
  | cons e es ih =>
    apply (checkGuard_routine e).bind
    rintro (_ | _)
    · exact ⟨trivial, fun _ => ih⟩
    · exact ih.bind fun _ => trivial

theorem recordRefusal_routine : (recordRefusal e).All (Routine E L) := by
  simp [recordRefusal, All.bind, recordJobRefused_routine]

theorem refuseLockedDown_routine : (refuseLockedDown deviceID e).All (Routine E L) := by
  apply (recordRefusal_routine e).bind
  simp [releaseDevice_routine]

theorem prepareExecution_routine : (prepareExecution deviceID e).All (Routine E L) := by
  apply (checkGuard_routine e).bind
  simp

theorem recordUndelivered_routine : (recordUndelivered e).All (Routine E L) := by
  simp [recordUndelivered, All.bind, recordActionResult_routine]

theorem failStewardAction_routine : (failStewardAction deviceID e).All (Routine E L) := by
  apply (recordUndelivered_routine e).bind
  simp

variable {cfg : Config}
variable {deviceID : String} {x : QueuedExecution}

theorem queueExecution_routine
    (hx : ∀ now metadata, E (x.entry cfg.hash cfg.maxAge deviceID now metadata)) :
    (queueExecution cfg deviceID x).All (Routine E L) := by
  refine (all_call _ _).mpr ⟨trivial, fun now => ?_⟩
  cases x.metadataWithReserved with
  | error e => trivial
  | ok metadata => exact (all_op _).mpr (hx _ _)

section

variable (hE : ∀ e, e.kind = .script → E e)
include hE

variable (cfg : Config)

theorem requeueIdempotent_routine
    (deviceID : String) (e : QueueEntry) : (requeueIdempotent cfg deviceID e).All (Routine E L) := by
  refine ⟨trivial, fun executionID => ?_⟩
  exact (queueExecution_routine fun _ _ => hE _ rfl).bind fun _ => trivial

omit hE in
theorem captureEntry_routine (deviceID executionID : String) :
    (captureEntry deviceID executionID).All (Routine E L) := by
  simp [captureEntry, forall_except]

omit hE in
theorem completeAction_routine (ev : TerminalEvent) (e : QueueEntry) :
    (completeAction ev e).All (Routine E L) := by
  simp [completeAction, All.bind, recordActionResult_routine]

variable (ev : TerminalEvent)

theorem completeScript_routine (e : QueueEntry) : (completeScript cfg ev e).All (Routine E L) := by
  simp [completeScript, All.bind, requeueIdempotent_routine hE, recordJobResult_routine]

theorem completeEntry_routine (captured : Option QueueEntry) :
    (completeEntry cfg ev captured).All (Routine E L) := by
  cases captured with
  | none => simp [completeEntry]
  | some e =>
    unfold completeEntry
    dsimp only
    split
    · exact completeAction_routine ev e
    · exact completeScript_routine hE cfg ev e

theorem handleCompletionEvent_routine : (handleCompletionEvent cfg ev).All (Routine E L) := by
  unfold handleCompletionEvent
  split
  · trivial
  refine ⟨trivial, fun _ => ?_⟩
  apply (captureEntry_routine _ _).bind
  intro captured
  exact (completeEntry_routine hE cfg ev captured).bind fun _ => releaseDevice_routine _

end

theorem releaseExpired_routine (hL : L) (locks : List LockMeta) :
    (releaseExpired locks).All (Routine E L) := by
  induction locks with
  | nil => trivial
  | cons m ms ih => exact (releaseDeviceIfExecution_routine hL _ _).bind fun _ => ih

theorem sweepExpiredLocks_routine (hL : L) (cfg : Config) :
    (sweepExpiredLocks cfg).All (Routine E L) :=
  ⟨trivial, fun locks => releaseExpired_routine hL locks⟩

theorem sweepActionJobs_routine (hL : L) : sweepActionJobs.All (Routine E L) :=
  ⟨trivial, fun now => expireActionJobs_routine hL now⟩

theorem performMaintenance_routine (cfg : Config) : (performMaintenance cfg).All (Routine E L) := by
  simp [performMaintenance]

theorem cancelAll_routine (queued : List (String × String)) :
    (cancelAll queued).All (Routine E L) := by
  induction queued with
  | nil => trivial
  | cons x xs ih => exact ⟨trivial, fun _ => ih⟩

theorem cancelJobRows_routine (jobIDs : List String) : (cancelJobRows jobIDs).All (Routine E L) := by
  induction jobIDs with
  | nil => trivial
  | cons jobID jobIDs ih => exact ⟨rfl, fun _ => ih⟩

theorem rollbackSynthesis_routine (runID : String) (progress : SynthesisProgress) :
    (rollbackSynthesis runID progress).All (Routine E L) := by
  apply (cancelAll_routine _).bind
  intro _
  apply (cancelJobRows_routine _).bind
  simp

theorem enqueue_routine (p : SynthesisProgress)
    (hx : ∀ now metadata, E (x.entry cfg.hash cfg.maxAge deviceID now metadata)) :
    (p.enqueue cfg deviceID x).All (Routine E L) := by
  apply (queueExecution_routine hx).bind
  rintro (e | _)
  · cases e <;> trivial
  · trivial

def SynthesisPlan.Makes (plan : SynthesisPlan) (cfg : Config) (E : QueueEntry → Prop) : Prop :=
  ∀ runID jobID executionID device time now metadata,
    E ((plan.execution runID jobID executionID device time).entry cfg.hash cfg.maxAge device.id now
      metadata)

variable {plan : SynthesisPlan}

theorem synthesizeJobs_routine (hplan : plan.Makes cfg E)
    (runID : String) (now : ℤ) (devices : List StewardResult) (progress : SynthesisProgress) :
    (synthesizeJobs cfg plan runID now devices progress).All (Routine E L) := by
  induction devices generalizing progress with
  | nil => trivial
  | cons device devices ih =>
    refine ⟨trivial, fun jobID => ⟨trivial, fun executionID => ⟨trivial, ?_⟩⟩⟩
    rintro (e | _)
    · exact (rollbackSynthesis_routine _ _).bind fun _ => trivial
    apply (enqueue_routine _ fun _ _ => hplan _ _ _ _ _ _ _).bind
    rintro (e | p)
    · exact (rollbackSynthesis_routine _ _).bind fun _ => trivial
    · exact ih p

theorem synthesizeRun_routine (hplan : plan.Makes cfg E) :
    (synthesizeRun cfg plan).All (Routine E L) := by
  refine ⟨trivial, fun runID => ⟨trivial, fun now => ⟨trivial, ?_⟩⟩⟩
  rintro (e | _)
  · trivial
  apply (synthesizeJobs_routine hplan _ _ _ _).bind
  rintro (e | progress)
  · trivial
  refine ⟨trivial, ?_⟩
  rintro (e | _)
  · exact (rollbackSynthesis_routine _ _).bind fun _ => trivial
  · trivial

def Checking : {β : Type} → Op β → Prop
  | _, .resolveGuard _ _ | _, .cancel _ _ | _, .prepare _ => True
  | _, _ => False

theorem checkGuard_checking : (checkGuard e).All Checking := by
  unfold checkGuard
  split
  · trivial
  · exact all_ite.mpr ⟨fun _ => trivial, fun _ => (all_op _).mpr trivial⟩

theorem checkGuards_checking (deviceID : String) (es : List QueueEntry) :
    (checkGuards deviceID es).All Checking := by
  induction es with
  | nil => trivial
  | cons e es ih =>
    apply (checkGuard_checking e).bind
    rintro (_ | _)
    · exact ⟨trivial, fun _ => ih⟩
    · exact ih.bind fun _ => trivial

theorem prepareExecution_checking (deviceID : String) (e : QueueEntry) :
    (prepareExecution deviceID e).All Checking := by
  apply (checkGuard_checking e).bind
  rintro (_ | _)
  · exact ⟨trivial, fun _ => trivial⟩
  · exact (all_op _).mpr trivial

theorem exec_checking (h : Checking o) {tid : ℕ} {s : System} {env : Env} :
    (exec o tid s env).1.history.handed = s.history.handed := by
  cases o with
  | resolveGuard | prepare | cancel => exact (exec_frame _ _ _ _).handed rfl
  | _ => cases h

theorem checkGuards_returns (deviceID : String) (es : List QueueEntry) :
    (checkGuards deviceID es).Returns fun kept => kept ⊆ es := by
  induction es with
  | nil => exact List.Subset.refl _
  | cons e es ih =>
    apply (returns_true _).bind
    rintro (_ | _) _
    · exact fun _ => ih.mono fun _ h => List.subset_cons_of_subset e h
    · exact ih.bind fun _ h => List.cons_subset_cons e h

/-- An operation that queues nothing and takes no lock record. -/
abbrev Basic {β : Type} (o : Op β) : Prop := Routine (fun _ => False) False o

/-- A steward action is claimed, or the rest of the call is routine and refuses it. -/
theorem claimStewardAction_eq (deviceID : String) (e : QueueEntry) :
    ∃ k, claimStewardAction deviceID e =
        (.call .now fun time => claimActionDispatch e.runID e.jobID time e >>= k) ∧
      ∀ r, (∃ status, r = .ok (true, status) ∧ k r = .done true) ∨
        (k r).All (Routine E L) ∧ (k r).Returns (· = false) := by
  refine ⟨_, rfl, ?_⟩
  have hrelease := releaseDevice_routine (E := E) (L := L) deviceID
  rintro (_ | ⟨_ | _, status⟩)
  · exact .inr ⟨hrelease.bind fun _ => trivial, (returns_true _).bind fun _ _ => rfl⟩
  · refine .inr ⟨all_ite.mpr ⟨fun _ => hrelease.bind fun _ => trivial, fun _ => ?_⟩, ?_⟩
    · exact ⟨trivial, fun _ => hrelease.bind fun _ => trivial⟩
    · dsimp only
      split
      · exact (returns_true _).bind fun _ _ => rfl
      · exact (returns_true _).bind fun _ _ => (returns_true _).bind fun _ _ => rfl
  · exact .inl ⟨status, rfl, rfl⟩

section Dispatch

variable {P : ∀ {β : Type}, Op β → Prop} (hP : ∀ {β : Type} {o : Op β}, Basic o → P o)
  {e : QueueEntry} {cancelledBefore : List String} (hsend : ∀ t, P (.send e t cancelledBefore))
include hP hsend

theorem sendScript_all (deviceID : String) (deadline : ℤ) :
    (sendScript deviceID e deadline cancelledBefore).All P := by
  apply ((prepareExecution_routine deviceID e).mono hP).bind
  rintro (_ | _)
  · exact (releaseDevice_routine deviceID).mono hP
  refine ⟨hsend deadline, ?_⟩
  rintro (_ | _ | _)
  · trivial
  · exact (refuseLockedDown_routine deviceID e).mono hP
  · exact (releaseDevice_routine deviceID).mono hP

theorem deliverStewardAction_all (deviceID : String) (deadline : ℤ) :
    (deliverStewardAction deviceID e deadline cancelledBefore).All P := by
  have hrefuse : (refuseLockedDown deviceID e).All P :=
    (refuseLockedDown_routine deviceID e).mono hP
  have hfail :=
    ((failStewardAction_routine deviceID e).bind fun _ => releaseDevice_routine deviceID).mono hP
  unfold deliverStewardAction
  split
  · refine (all_call _ _).mpr ⟨hP trivial, fun locked => ?_⟩
    refine all_ite.mpr ⟨fun _ => hrefuse, fun _ => ?_⟩
    unfold sendStewardAction
    split
    · exact hfail
    refine ⟨hsend deadline, ?_⟩
    rintro (_ | _ | _)
    · trivial
    · exact hrefuse
    · exact hfail
  · exact hfail

variable (hset : ∀ d ttl, P (.setLock d e.executionID ttl))
include hset

theorem dispatchScript_all (cfg : Config) (deviceID : String) (acquiredAt : ℤ) :
    (dispatchScript cfg deviceID e acquiredAt cancelledBefore).All P := by
  refine ⟨hset _ _, fun _ => ⟨hP trivial, fun locked => ?_⟩⟩
  refine all_ite.mpr ⟨fun _ => ?_, fun _ => sendScript_all hP hsend deviceID _⟩
  exact (refuseLockedDown_routine deviceID e).mono hP

variable (hmark : ∀ t, P (.markJobDispatched e.jobID t e))
include hmark

omit hsend hset in
theorem claimActionDispatch_all (time : ℤ) :
    (claimActionDispatch e.runID e.jobID time e).All P := by
  refine ⟨hmark time, ?_⟩
  rintro (_ | _ | _)
  · trivial
  · refine ⟨hP trivial, ?_⟩
    rintro (_ | _) <;> trivial
  · trivial

omit hsend hset in
theorem claimStewardAction_all (deviceID : String) : (claimStewardAction deviceID e).All P := by
  obtain ⟨k, hk, hcases⟩ := claimStewardAction_eq deviceID e
  rw [hk]
  refine ⟨hP trivial, fun time => (claimActionDispatch_all hP hmark time).bind fun r => ?_⟩
  rcases hcases r with ⟨status, rfl, hdone⟩ | ⟨hall, -⟩
  · rw [hdone]
    trivial
  · exact hall.mono hP

theorem dispatchStewardAction_all (cfg : Config) (deviceID : String) (acquiredAt : ℤ) :
    (dispatchStewardAction cfg deviceID e acquiredAt cancelledBefore).All P := by
  have hdeliver := deliverStewardAction_all hP hsend deviceID
  refine ⟨hset _ _, fun _ => all_ite.mpr ⟨fun _ => ?_, fun _ => hdeliver _⟩⟩
  apply (claimStewardAction_all hP hmark deviceID).bind
  rintro (_ | _)
  · trivial
  · exact hdeliver _

theorem dispatchExecution_all (cfg : Config) (deviceID : String) (acquiredAt : ℤ) :
    (dispatchExecution cfg deviceID e acquiredAt cancelledBefore).All P := by
  unfold dispatchExecution
  split
  · exact dispatchStewardAction_all hP hsend hset hmark cfg deviceID acquiredAt
  · exact dispatchScript_all hP hsend hset cfg deviceID acquiredAt

end Dispatch

/-- An action is delivered safely where what allows to send it is kept by the others. -/
theorem deliverStewardAction_runs {D : Discipline api} {K : System → Prop} {tid : ℕ}
    {deviceID : String} {e : QueueEntry} {deadline : ℤ} {cancelledBefore : List String}
    (hbasic : ∀ {s} {p : Call Unit}, p.All Basic → D.Runs tid s p)
    (hlook : ∀ s, D.Pre s tid (.isLockedDown deviceID))
    (hrely : ∀ {s s'}, D.Rely tid s s' → K s → K s')
    (hsend : ∀ {s}, K s → D.Pre s tid (.send e deadline cancelledBefore)) {s : System} (hs : K s) :
    D.Runs tid s (deliverStewardAction deviceID e deadline cancelledBefore) := by
  have hfail : ∀ {s}, D.Runs tid s (do
      failStewardAction deviceID e
      releaseDevice deviceID) :=
    hbasic ((failStewardAction_routine deviceID e).bind fun _ => releaseDevice_routine deviceID)
  have hrefuse : ∀ {s}, D.Runs tid s (refuseLockedDown deviceID e) :=
    hbasic (refuseLockedDown_routine deviceID e)
  unfold deliverStewardAction
  split
  · refine Discipline.safe_op_bind.mpr fun s' hs' _ => ⟨hlook s', fun env _ => ?_⟩
    split
    · exact hrefuse
    unfold sendStewardAction
    split
    · exact hfail
    refine Discipline.safe_op_bind.mpr fun s'' hs'' _ =>
      ⟨hsend (hrely hs'' (hrely hs' hs)), fun env' _ => ?_⟩
    generalize (exec (.send e deadline cancelledBefore) tid s'' env').2 = outcome
    cases outcome with
    | sent => trivial
    | lockedDown => exact hrefuse
    | failed => exact hfail
  · exact hfail

section Cancellation

variable {P : ∀ {β : Type}, Op β → Prop}
  (hP : ∀ {β : Type} {o : Op β}, Routine (fun _ => False) True o → P o)
include hP

theorem cancelJob_all (job : JobRecord) : (cancelJob job).All P := by
  have hcancel : (cancelQueued job).All (Routine (fun _ => False) True) := by
    simp [cancelQueued]
  apply (hcancel.mono hP).bind
  rintro (_ | _)
  · trivial
  apply ((releaseCancelled_routine trivial job).mono hP).bind
  intro _
  refine ⟨hP rfl, ?_⟩
  rintro (_ | _) <;> trivial

theorem cancelJobs_all (jobs : List JobRecord) : (cancelJobs jobs).All P := by
  induction jobs with
  | nil => trivial
  | cons job jobs ih =>
    refine all_ite.mpr ⟨fun _ => ih, fun _ => ?_⟩
    apply (cancelJob_all hP job).bind
    rintro (_ | _)
    · trivial
    · exact ih

theorem cancelRun_all {runID : String} (hlist : P (.listJobsToCancel runID)) :
    (cancelRun runID).All P := by
  refine ⟨hP trivial, ?_⟩
  rintro ((_ | _) | run)
  · trivial
  · trivial
  refine all_ite.mpr ⟨fun _ => trivial, fun _ => ⟨hlist, ?_⟩⟩
  rintro (_ | jobs)
  · trivial
  apply (cancelJobs_all hP jobs).bind
  rintro (_ | _)
  · trivial
  · refine ⟨hP trivial, ?_⟩
    rintro (_ | _) <;> trivial

theorem cancelRunRequest_all {runID : String} (hlist : P (.listJobsToCancel runID))
    (hreturn : P (.returnCancelled runID)) : (cancelRunRequest runID).All P := by
  apply (cancelRun_all hP hlist).bind
  rintro (_ | _)
  · trivial
  · exact (all_op _).mpr hreturn

end Cancellation

/-- The requests that neither dispatch nor cancel. `E` holds of what is queued directly and of
steward actions. -/
def Request.Plain (cfg : Config) (E : QueueEntry → Prop) (L : Prop) : Request → Prop
  | .cancelRun _ | .dispatchForDevice _ => False
  | .sweepActionJobs | .sweepExpiredLocks => L
  | .queueExecution deviceID x =>
    ∀ now metadata, E (x.entry cfg.hash cfg.maxAge deviceID now metadata)
  | .actionRun q => q.plan.Makes cfg E
  | _ => True

theorem code_routine {cfg : Config} (hE : ∀ e, e.kind = .script → E e) {c : Request}
    (hc : c.Plain cfg E L) : (c.code cfg).All (Routine E L) := by
  cases c with
  | cancelRun | dispatchForDevice => cases hc
  | completionEvent ev => exact handleCompletionEvent_routine hE cfg ev
  | performMaintenance => exact performMaintenance_routine cfg
  | sweepActionJobs => exact sweepActionJobs_routine hc
  | sweepExpiredLocks => exact sweepExpiredLocks_routine hc cfg
  | queueExecution => exact (queueExecution_routine hc).bind fun _ => trivial
  | scriptRun q =>
    refine All.bind ?_ fun _ => trivial
    unfold synthesizeScriptRunForDevices
    split
    · trivial
    · exact synthesizeRun_routine fun _ _ _ _ _ _ _ => hE _ rfl
  | commandRun q =>
    refine All.bind ?_ fun _ => trivial
    unfold synthesizeCommandRunForDevices
    split
    · trivial
    · exact synthesizeRun_routine fun _ _ _ _ _ _ _ => hE _ rfl
  | actionRun q =>
    refine All.bind ?_ fun _ => trivial
    unfold synthesizeActionRunForDevices
    split
    · exact synthesizeRun_routine hc
    · trivial
  | passTime => exact (all_op _).mpr trivial

end Cfgms.Dispatch
