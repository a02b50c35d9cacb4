import Cfgms.Dispatch.System

/-! # The run manager

`run.Manager` cancels runs and records how their jobs end. Each call is a program over the
operations of the dispatch system, with the source's order of operations.
-/

namespace Cfgms.Dispatch

open Script Run

abbrev Call (α : Type) := Program api α

abbrev call {α : Type} (o : Op α) : Call α := Program.op (A := api) o

inductive RunError where
  | notFound
  | alreadyTerminal
  | jobAlreadyTerminal (jobID status : String)
  | invalid (message : String)
  | store (context : String)
  | queue (context : String) (cause : QueueError)

def minute : ℤ := 60000000000

def stewardActionTTL : ℤ := 2 * minute

def stewardActionTimeout : ℤ := minute

/-- `releaseDevice` drains the channel, then deletes the lock record. -/
def releaseDevice (deviceID : String) : Call Unit := do
  call (.drain deviceID)
  call (.clearLock deviceID)

/-- `releaseDeviceIfExecution` deletes the lock record, then drains the channel. -/
def releaseDeviceIfExecution (deviceID executionID : String) : Call Bool := do
  if ← call (.takeLock deviceID executionID) then
    call (.drain deviceID)
    return true
  else return false

def refreshRun (runID : String) : Call (Except RunError Unit) := do
  match ← call (.listRunJobs runID) with
  | .error _ => return .error (.store ("record job completion: list jobs for run " ++ runID))
  | .ok jobs =>
    match ← call (.updateRunCounts runID (completedCount jobs) (failedCount jobs) jobs) with
    | .error _ => return .error (.store ("record job completion: update counts for run " ++ runID))
    | .ok () =>
      if jobs.all fun j => j.status.isTerminal then
        match ← call (.getRun runID) with
        | .error _ => return .error (.store ("record job completion: get run " ++ runID))
        | .ok run =>
          if run.status.isTerminal then return .ok ()
          else
            let finalStatus := if 0 < failedCount jobs then RunStatus.failed else .completed
            match ← call (.updateRunStatus runID finalStatus) with
            | .error _ =>
              return .error (.store ("record job completion: update run status for run " ++ runID))
            | .ok () => return .ok ()
      else return .ok ()

/-- The error for a late result, with the status that the job's row holds. -/
def alreadyTerminal (runID jobID : String) : Call (Except RunError Unit) := do
  match ← call (.listRunJobs runID) with
  | .error _ => return .error (.jobAlreadyTerminal jobID "")
  | .ok jobs =>
    let job := jobs.find? fun j => j.jobID = jobID
    return .error (.jobAlreadyTerminal jobID (job.elim "" fun j => j.status.text))

def recordJobResult (runID jobID executionID : String) (failed : Bool) (output stderr : String)
    (exitCode : ℤ) : Call (Except RunError Unit) := do
  let status := if failed then JobStatus.failed else .completed
  match ← call (.updateJobResult jobID status executionID output stderr exitCode) with
  | .error _ => return .error (.store ("record job completion: update job " ++ jobID))
  | .ok false => alreadyTerminal runID jobID
  | .ok true => refreshRun runID

def normalizeResultCode (code : String) : String :=
  if code ∈ ["ok", "self_protect", "process_changed", "unsupported", "failed", "not_found",
      "permission_denied"] then code
  else "failed"

def recordActionResult (runID jobID executionID resultCode : String) :
    Call (Except RunError Unit) := do
  let code := normalizeResultCode resultCode
  match ← call (.updateJobResultCode jobID code) with
  | .error _ => return .error (.store ("record action result: update job " ++ jobID))
  | .ok false => alreadyTerminal runID jobID
  | .ok true =>
    recordJobResult runID jobID executionID (code ≠ "ok") "" "" (if code ≠ "ok" then 1 else 0)

def recordJobRefused (runID jobID executionID : String) : Call (Except RunError Unit) := do
  match ← call (.updateJobResultCode jobID "refused") with
  | .error _ => return .error (.store ("record refused job: update job " ++ jobID))
  | .ok false => alreadyTerminal runID jobID
  | .ok true => recordJobResult runID jobID executionID true "" "refused: locked down" 1

def claimActionDispatch (runID jobID : String) (time : ℤ) (entry : QueueEntry) :
    Call (Except RunError (Bool × String)) := do
  match ← call (.markJobDispatched jobID time entry) with
  | .error _ => return .error (.store ("claim action dispatch: job " ++ jobID))
  | .ok true => return .ok (true, JobStatus.dispatched.text)
  | .ok false =>
    match ← call (.listRunJobs runID) with
    | .error _ => return .error (.store ("claim action dispatch: list jobs for run " ++ runID))
    | .ok jobs =>
      let job := jobs.find? fun j => j.jobID = jobID
      return job.elim (.error .notFound) fun j => .ok (false, j.status.text)

/-- The entry must not be dispatched again, and the device's slot is freed. -/
def tearDown (job : JobRecord) : Call Unit := do
  if job.executionID ≠ "" then
    let _ ← call (.cancel job.deviceID job.executionID)
    let _ ← releaseDeviceIfExecution job.deviceID job.executionID

/-- One job of the sweep. A job that another caller closed is skipped. -/
def expireActionJob (now : ℤ) (job : JobRecord) : Call Unit := do
  let newStatus := if job.status = .dispatched then JobStatus.noResult else .expired
  match ← call (.expireJobIfStatus job.jobID job.status newStatus now) with
  | .error _ => return
  | .ok false => return
  | .ok true =>
    tearDown job
    let _ ← refreshRun job.runID
    -- The run is read for the audit record.
    let _ ← call (.getRun job.runID)

def expireAll (now : ℤ) : List JobRecord → Call Unit
  | [] => return
  | job :: jobs => do
    expireActionJob now job
    expireAll now jobs

def expireActionJobs (now : ℤ) : Call Unit := do
  match ← call (.listStaleActionJobs (now - stewardActionTTL) (now - stewardActionTimeout)) with
  | .error _ => return
  | .ok jobs => expireAll now jobs

/-- An entry that is absent is already gone. -/
def orAbsent : Except QueueError Unit → Except QueueError Unit
  | .error (.notFound _ _) => .ok ()
  | r => r

def cancelQueued (job : JobRecord) : Call (Except QueueError Unit) := do
  if job.executionID = "" then return .ok ()
  else return orAbsent (← call (.cancel job.deviceID job.executionID))

def releaseCancelled (job : JobRecord) : Call Unit := do
  if job.executionID ≠ "" then
    let _ ← releaseDeviceIfExecution job.deviceID job.executionID

def cancelJob (job : JobRecord) : Call (Except RunError Unit) := do
  match ← cancelQueued job with
  | .error e =>
    return .error (.queue ("cancel run: cancel queued execution for job " ++ job.jobID) e)
  | .ok () =>
    releaseCancelled job
    match ← call (.updateJobStatus job.jobID .cancelled "") with
    | .error _ => return .error (.store ("cancel run: update job " ++ job.jobID))
    | .ok () => return .ok ()

def cancelJobs : List JobRecord → Call (Except RunError Unit)
  | [] => return .ok ()
  | job :: jobs => do
    if job.status.isTerminal then cancelJobs jobs
    else
      match ← cancelJob job with
      | .error e => return .error e
      | .ok () => cancelJobs jobs

def cancelRun (runID : String) : Call (Except RunError Unit) := do
  match ← call (.getRun runID) with
  | .error .notFound => return .error .notFound
  | .error .failed => return .error (.store "run store get run")
  | .ok run =>
    if run.status.isTerminal then return .error .alreadyTerminal
    else
      match ← call (.listJobsToCancel runID) with
      | .error _ => return .error (.store "cancel run: list jobs")
      | .ok jobs =>
        match ← cancelJobs jobs with
        | .error e => return .error e
        | .ok () =>
          match ← call (.updateRunStatus runID .cancelled) with
          | .error _ => return .error (.store "")
          | .ok () => return .ok ()

end Cfgms.Dispatch
