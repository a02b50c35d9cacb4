import Cfgms.Dispatch.Manager

/-! # The dispatcher

`Dispatcher` hands the next execution of a device to its steward and takes the terminal
events. A dispatch takes the device's slot, dequeues, and sends the first execution; the slot
stays taken until an event, a cancellation or the sweep of expired locks releases it.
-/

namespace Cfgms.Dispatch

open Script Run

structure Config where
  hash : HashConfig
  maxAge : ℤ
  dispatchTimeout : ℤ
  defaultLockTTL : ℤ
  /-- An execution's timeout times the grace multiplier. -/
  graceTTL : ℤ → ℤ

def checkGuard (e : QueueEntry) : Call Bool :=
  match e.guard with
  | none => return true
  | some g =>
    if g.runID = "" ∨ g.grantID = "" then return false
    else call (.resolveGuard g.runID g.grantID)

/-- The loop of `DequeueForDevice` cancels the entries whose guard fails. -/
def checkGuards (deviceID : String) : List QueueEntry → Call (List QueueEntry)
  | [] => return []
  | e :: es => do
    if ← checkGuard e then
      let rest ← checkGuards deviceID es
      return e :: rest
    else
      let _ ← call (.cancel deviceID e.executionID)
      checkGuards deviceID es

/-- Both command types are on the operator allow-list, so that the marker decides. -/
def mayReachLockedSteward (e : QueueEntry) : Bool := e.metaString "operator_principal" ≠ ""

def isTracked (e : QueueEntry) : Bool := e.runID ≠ "" ∧ e.jobID ≠ ""

def recordRefusal (e : QueueEntry) : Call Unit := do
  if isTracked e then
    let _ ← recordJobRefused e.runID e.jobID e.executionID

def refuseLockedDown (deviceID : String) (e : QueueEntry) : Call Unit := do
  recordRefusal e
  let _ ← call (.cancel deviceID e.executionID)
  releaseDevice deviceID

/-- The TTL that `setLockExecution` records. -/
def scriptLockTTL (cfg : Config) (e : QueueEntry) : ℤ :=
  if 0 < e.timeout then cfg.graceTTL e.timeout else 0

/-- When the sweep takes the lock as expired. -/
def lockDeadline (cfg : Config) (acquiredAt ttl : ℤ) : ℤ :=
  acquiredAt + if 0 < ttl then ttl else cfg.defaultLockTTL

/-- `PrepareExecutionForDevice`: the guard once more, then the payload. -/
def prepareExecution (deviceID : String) (e : QueueEntry) : Call Bool := do
  if ← checkGuard e then call (.prepare e.executionID)
  else
    let _ ← call (.cancel deviceID e.executionID)
    return false

def sendScript (deviceID : String) (e : QueueEntry) (deadline : ℤ)
    (cancelledBefore : List String) : Call Unit := do
  if ← prepareExecution deviceID e then
    match ← call (.send e deadline cancelledBefore) with
    | .sent => return
    | .lockedDown => refuseLockedDown deviceID e
    | .failed => releaseDevice deviceID
  else releaseDevice deviceID

def dispatchScript (cfg : Config) (deviceID : String) (e : QueueEntry) (acquiredAt : ℤ)
    (cancelledBefore : List String) : Call Unit := do
  let ttl := scriptLockTTL cfg e
  call (.setLock deviceID e.executionID ttl)
  let locked ← call (.isLockedDown deviceID)
  if locked ∧ ¬ mayReachLockedSteward e then refuseLockedDown deviceID e
  else sendScript deviceID e (lockDeadline cfg acquiredAt ttl) cancelledBefore

def hasAll (e : QueueEntry) (keys : List String) : Bool := keys.all fun k => e.metaString k ≠ ""

def hasOperatorProof (e : QueueEntry) : Bool :=
  hasAll e ["signature_algorithm", "signature_value", "signature_public_key"] ||
  hasAll e ["webauthn_authenticator_data", "webauthn_client_data_json", "webauthn_signature",
    "webauthn_credential_id"]

/-- Whether the action may be sent. If not, the slot has been released. -/
def claimStewardAction (deviceID : String) (e : QueueEntry) : Call Bool := do
  let time ← call .now
  match ← claimActionDispatch e.runID e.jobID time e with
  | .error _ =>
    releaseDevice deviceID
    return false
  | .ok (true, _) => return true
  | .ok (false, status) =>
    if status = JobStatus.dispatched.text then
      releaseDevice deviceID
      return false
    else
      let _ ← call (.cancel deviceID e.executionID)
      releaseDevice deviceID
      return false

def recordUndelivered (e : QueueEntry) : Call Unit := do
  if isTracked e then
    let _ ← recordActionResult e.runID e.jobID e.executionID "failed"

def failStewardAction (deviceID : String) (e : QueueEntry) : Call Unit := do
  recordUndelivered e
  let _ ← call (.acknowledge e.executionID deviceID .failed)

def sendStewardAction (e : QueueEntry) (deadline : ℤ) (cancelledBefore : List String) :
    Call SendOutcome :=
  match e.action with
  | none => return .failed
  | some _ => call (.send e deadline cancelledBefore)

def deliverStewardAction (deviceID : String) (e : QueueEntry) (deadline : ℤ)
    (cancelledBefore : List String) : Call Unit := do
  if hasOperatorProof e then
    let locked ← call (.isLockedDown deviceID)
    if locked ∧ ¬ mayReachLockedSteward e then refuseLockedDown deviceID e
    else
      match ← sendStewardAction e deadline cancelledBefore with
      | .sent => return
      | .lockedDown => refuseLockedDown deviceID e
      | .failed =>
        failStewardAction deviceID e
        releaseDevice deviceID
  else
    failStewardAction deviceID e
    releaseDevice deviceID

def actionLockTTL (e : QueueEntry) : ℤ := if 0 < e.timeout then e.timeout else stewardActionTimeout

def dispatchStewardAction (cfg : Config) (deviceID : String) (e : QueueEntry) (acquiredAt : ℤ)
    (cancelledBefore : List String) : Call Unit := do
  call (.setLock deviceID e.executionID (actionLockTTL e))
  let deadline := lockDeadline cfg acquiredAt (actionLockTTL e)
  if isTracked e then
    if ← claimStewardAction deviceID e then deliverStewardAction deviceID e deadline cancelledBefore
    else return
  else deliverStewardAction deviceID e deadline cancelledBefore

def dispatchExecution (cfg : Config) (deviceID : String) (e : QueueEntry) (acquiredAt : ℤ)
    (cancelledBefore : List String) : Call Unit :=
  match e.kind with
  | .stewardAction => dispatchStewardAction cfg deviceID e acquiredAt cancelledBefore
  | .script => dispatchScript cfg deviceID e acquiredAt cancelledBefore

/-- A dispatch that holds the slot. Only the first execution is sent. -/
def dispatchHeld (cfg : Config) (deviceID : String) (cancelledBefore : List String) :
    Call Unit := do
  let acquiredAt ← call (.recordLock deviceID)
  match ← call (.dequeue deviceID) with
  | .error _ => releaseDevice deviceID
  | .ok entries =>
    match ← checkGuards deviceID entries with
    | [] => releaseDevice deviceID
    | e :: _ => dispatchExecution cfg deviceID e acquiredAt cancelledBefore

def dispatchForDevice (cfg : Config) (deviceID : String) : Call Unit := do
  let cancelledBefore ← call .beginDispatch
  if ← call (.fill deviceID) then dispatchHeld cfg deviceID cancelledBefore
  else return

structure EventDetails where
  exitCode : Option ℤ
  stdout : Option String
  stdoutPreview : Option String
  stderr : Option String
  stderrPreview : Option String
  error : Option String
  resultCode : String

/-- A `script_completed` or `command_failed` event. -/
structure TerminalEvent where
  stewardID : String
  executionID : String
  commandFailed : Bool
  details : EventDetails

namespace TerminalEvent

variable (ev : TerminalEvent)

def hasExitCode (p : ℤ → Bool) : Bool := ev.details.exitCode.any p

def state : QueueState :=
  if ev.commandFailed ∨ ev.hasExitCode (fun n => n ≠ 0) then .failed else .completed

def actionResultCode : String :=
  if ev.commandFailed then "failed"
  else if ev.details.resultCode ≠ "" then ev.details.resultCode
  else if ev.hasExitCode (fun n => n = 0) then "ok" else "failed"

def rawStdout : String := (ev.details.stdout.or ev.details.stdoutPreview).getD ""

def rawStderr : String :=
  let stderr := (ev.details.stderr.or ev.details.stderrPreview).getD ""
  if ev.commandFailed ∧ stderr = "" then ev.details.error.getD "" else stderr

def controllerOutputCapBytes : ℕ := 4 * 1024 * 1024

/-- Output above the ceiling is dropped. -/
def output : String × String :=
  if controllerOutputCapBytes < ev.rawStdout.utf8ByteSize + ev.rawStderr.utf8ByteSize then
    ("", "")
  else (ev.rawStdout, ev.rawStderr)

end TerminalEvent

def queueExecution (cfg : Config) (deviceID : String) (x : QueuedExecution) :
    Call (Except QueueError Unit) := do
  let now ← call .now
  match x.metadataWithReserved with
  | .error e => return .error e
  | .ok metadata => call (.enqueue (x.entry cfg.hash cfg.maxAge deviceID now metadata))

def retryOf (e : QueueEntry) (executionID : String) : QueuedExecution where
  executionID := executionID
  scriptID := e.scriptRef
  scriptVersion := ""
  scriptRef := e.scriptRef
  shell := e.shell
  parameters := e.parameters
  environment := .empty
  timeout := e.timeout
  queuedAt := none
  expiresAt := none
  generateAPIKey := false
  apiKeyTTL := 0
  apiKeyPermissions := []
  executionContext := ""
  metadata := some ((e.metadata.getD .empty).set ("retry_count", .int (e.metaInt "retry_count" + 1)))
  kind := .script
  action := none
  pin := none
  guard := none

/-- The retry goes into the queue under a fresh id. The job keeps the id of the first try. -/
def requeueIdempotent (cfg : Config) (deviceID : String) (e : QueueEntry) : Call Unit := do
  let executionID ← call .newID
  let _ ← queueExecution cfg deviceID (retryOf e executionID)

/-- `captureCompletionMeta`: the active entry of the execution, when it has metadata. -/
def captureEntry (deviceID executionID : String) : Call (Option QueueEntry) := do
  match ← call (.list deviceID) with
  | .error _ => return none
  | .ok entries =>
    return entries.find? fun e => e.executionID = executionID ∧ e.metadata.isSome

def QueueEntry.retries (e : QueueEntry) (state : QueueState) : Bool :=
  e.kind = .script ∧ state = .failed ∧ e.metaBool "idempotent" ∧ e.metaInt "retry_count" < 1

/-- The completion of a steward action. An action is never retried. -/
def completeAction (ev : TerminalEvent) (e : QueueEntry) : Call Unit := do
  let state := if ev.actionResultCode = "ok" then QueueState.completed else .failed
  let _ ← call (.acknowledge ev.executionID ev.stewardID state)
  if isTracked e then
    let _ ← recordActionResult e.runID e.jobID ev.executionID ev.actionResultCode

/-- The completion of a script. A failed acknowledgement does not stop the rest. -/
def completeScript (cfg : Config) (ev : TerminalEvent) (e : QueueEntry) : Call Unit := do
  let _ ← call (.acknowledge ev.executionID ev.stewardID ev.state)
  if QueueEntry.retries e ev.state then requeueIdempotent cfg ev.stewardID e
  else if isTracked e then
    let _ ← recordJobResult e.runID e.jobID ev.executionID
      (ev.state = .failed) ev.output.1 ev.output.2 (ev.details.exitCode.getD 0)

def completeEntry (cfg : Config) (ev : TerminalEvent) : Option QueueEntry → Call Unit
  | none => do
    let _ ← call (.acknowledge ev.executionID ev.stewardID ev.state)
  | some e =>
    match e.kind with
    | .stewardAction => completeAction ev e
    | .script => completeScript cfg ev e

/-- The slot is released whichever execution holds it. -/
def handleCompletionEvent (cfg : Config) (ev : TerminalEvent) : Call Unit := do
  if ev.stewardID = "" ∨ ev.executionID = "" then return
  else
    call (.reportEnd ev.stewardID ev.executionID)
    let captured ← captureEntry ev.stewardID ev.executionID
    completeEntry cfg ev captured
    releaseDevice ev.stewardID

def releaseExpired : List LockMeta → Call Unit
  | [] => return
  | m :: ms => do
    let _ ← releaseDeviceIfExecution m.deviceID m.executionID
    releaseExpired ms

def sweepExpiredLocks (cfg : Config) : Call Unit := do
  let expired ← call (.expiredLocks cfg.defaultLockTTL)
  releaseExpired expired

def sweepActionJobs : Call Unit := do
  let now ← call .now
  expireActionJobs now

def performMaintenance (cfg : Config) : Call Unit := do
  call .cleanupExpired
  call (.requeueStale cfg.dispatchTimeout)

end Cfgms.Dispatch
