import Cfgms.Dispatch.Dispatcher

/-! # Synthesizing runs

A run is created with one job and one queued execution for each device. An execution that the
queue refuses as a duplicate is passed over, and any other failure rolls the run back.
-/

namespace Cfgms.Dispatch

open Go Script Run

structure ScriptParameter where
  name : String
  dnaPath : String
  default : Option String
  required : Bool

structure ScriptMetadata where
  parameters : List ScriptParameter
  idempotent : Bool

/-- The value of a declared parameter: runtime override, admin binding, author's path, default. -/
def resolveParam (bindings runtimeParams dna : StringMap String) (p : ScriptParameter) :
    Option String :=
  let bound := ((bindings.get p.name).filter fun path => path ≠ "").bind dna.get
  let declared := if p.dnaPath = "" then none else dna.get p.dnaPath
  (runtimeParams.get p.name).or (bound.or (declared.or p.default))

def resolveDeclared (bindings runtimeParams dna : StringMap String) :
    List ScriptParameter → StringMap String → Except String (StringMap String)
  | [], resolved => .ok resolved
  | p :: ps, resolved =>
    match resolveParam bindings runtimeParams dna p with
    | some v => resolveDeclared bindings runtimeParams dna ps (resolved.set (p.name, v))
    | none =>
      if p.required then .error p.name
      else resolveDeclared bindings runtimeParams dna ps resolved

/-- Runtime parameters that the metadata does not declare are carried through. -/
def carryThrough (resolved : StringMap String) (runtimeParams : StringMap String) :
    StringMap String :=
  runtimeParams.entries.foldl
    (fun m kv => if (m.get kv.1).isSome then m else m.set kv) resolved

/-- `ResolveParams`. The error names a required parameter without a value. -/
def resolveParams (scriptMeta : Option ScriptMetadata) (bindings runtimeParams dna : StringMap String) :
    Except String (StringMap String) :=
  match scriptMeta with
  | none => .ok runtimeParams
  | some m =>
    match resolveDeclared bindings runtimeParams dna m.parameters .empty with
    | .error name => .error name
    | .ok resolved => .ok (carryThrough resolved runtimeParams)

structure StewardResult where
  id : String
  dnaAttributes : StringMap String

structure SynthesisProgress where
  jobIDs : List String
  queued : List (String × String)

def cancelAll : List (String × String) → Call Unit
  | [] => return
  | x :: xs => do
    let _ ← call (.cancel x.1 x.2)
    cancelAll xs

def cancelJobRows : List String → Call Unit
  | [] => return
  | jobID :: jobIDs => do
    let _ ← call (.updateJobStatus jobID .cancelled "")
    cancelJobRows jobIDs

/-- Every step is attempted even when an earlier one fails. -/
def rollbackSynthesis (runID : String) (progress : SynthesisProgress) : Call Unit := do
  cancelAll progress.queued
  cancelJobRows progress.jobIDs
  let _ ← call (.updateRunStatus runID .failed)

def newJob (runID jobID executionID deviceID : String) (now : ℤ) : JobRecord where
  jobID := jobID
  runID := runID
  deviceID := deviceID
  executionID := executionID
  status := .pending
  createdAt := now
  completedAt := none
  output := ""
  stderr := ""
  exitCode := 0
  resultCode := ""
  dispatchedAt := none

/-- What the three kinds of run differ in. -/
structure SynthesisPlan where
  devices : List StewardResult
  context : String
  run : (runID : String) → (now : ℤ) → RunRecord
  execution : (runID jobID executionID : String) → (device : StewardResult) → (now : ℤ) →
    QueuedExecution

/-- `synthesisProgress.enqueue`: a duplicate is no error and is not recorded. -/
def SynthesisProgress.enqueue (cfg : Config) (p : SynthesisProgress) (deviceID : String)
    (x : QueuedExecution) : Call (Except QueueError SynthesisProgress) := do
  match ← queueExecution cfg deviceID x with
  | .ok () => return .ok { p with queued := p.queued ++ [(deviceID, x.executionID)] }
  | .error .duplicateExecution => return .ok p
  | .error e => return .error e

def synthesizeJobs (cfg : Config) (plan : SynthesisPlan) (runID : String) (now : ℤ) :
    List StewardResult → SynthesisProgress → Call (Except RunError SynthesisProgress)
  | [], progress => return .ok progress
  | device :: devices, progress => do
    let jobID ← call .newID
    let executionID ← call .newID
    let progress := { progress with jobIDs := progress.jobIDs ++ [jobID] }
    match ← call (.createJob (newJob runID jobID executionID device.id now)) with
    | .error _ =>
      rollbackSynthesis runID progress
      return .error (.store (plan.context ++ ": create job for device " ++ device.id))
    | .ok () =>
      match ← progress.enqueue cfg device.id (plan.execution runID jobID executionID device now) with
      | .error e =>
        rollbackSynthesis runID progress
        return .error (.queue (plan.context ++ ": enqueue for device " ++ device.id) e)
      | .ok progress => synthesizeJobs cfg plan runID now devices progress

def synthesizeRun (cfg : Config) (plan : SynthesisPlan) : Call (Except RunError String) := do
  let runID ← call .newID
  let now ← call .now
  match ← call (.createRun (plan.run runID now)) with
  | .error _ => return .error (.store (plan.context ++ ": create run"))
  | .ok () =>
    match ← synthesizeJobs cfg plan runID now plan.devices ⟨[], []⟩ with
    | .error e => return .error e
    | .ok progress =>
      match ← call (.updateRunStatus runID .running) with
      | .error _ =>
        rollbackSynthesis runID progress
        return .error (.store (plan.context ++ ": update run status"))
      | .ok () => return .ok runID

def jobMetadata (runID jobID : String) : Metadata :=
  (StringMap.empty.set ("workflow_run_id", .str runID)).set ("job_id", .str jobID)

/-- An assignment for each text that is not empty. -/
def setTexts (m : Metadata) (texts : List (String × String)) : Metadata :=
  texts.foldl (fun m kv => if kv.2 = "" then m else m.set (kv.1, .str kv.2)) m

def stampOperatorPrincipal (m : Metadata) (createdBy : String) : Metadata :=
  setTexts m [("operator_principal", createdBy)]

/-- What every synthesized execution leaves at its zero value. -/
def bareExecution (executionID shell : String) (parameters : StringMap String)
    (metadata : Metadata) : QueuedExecution where
  executionID := executionID
  scriptID := ""
  scriptVersion := ""
  scriptRef := ""
  shell := shell
  parameters := parameters
  environment := .empty
  timeout := 0
  queuedAt := none
  expiresAt := none
  generateAPIKey := false
  apiKeyTTL := 0
  apiKeyPermissions := []
  executionContext := ""
  metadata := some metadata
  kind := .script
  action := none
  pin := none
  guard := none

def newRun (runID tenantID createdBy : String) (now : ℤ) (devices : List StewardResult) :
    RunRecord where
  runID := runID
  tenantID := tenantID
  createdBy := createdBy
  createdAt := now
  status := .pending
  scriptRef := ""
  inlineContent := ""
  shell := ""
  jobCount := devices.length
  completedJobs := 0
  failedJobs := 0
  kind := .script

structure ScriptRunRequest where
  devices : List StewardResult
  tenantID : String
  createdBy : String
  scriptRef : String
  scriptVersion : String
  shell : String
  runtimeParams : StringMap String
  scriptMeta : Option ScriptMetadata
  paramPlatformBindings : StringMap String
  requiredAPIScope : List String

namespace ScriptRunRequest

variable (q : ScriptRunRequest)

def resolve (device : StewardResult) : Except String (StringMap String) :=
  resolveParams q.scriptMeta q.paramPlatformBindings q.runtimeParams device.dnaAttributes

def resolveAll : List StewardResult → StringMap (StringMap String) →
    Except RunError (StringMap (StringMap String))
  | [], m => .ok m
  | device :: devices, m =>
    match q.resolve device with
    | .error name =>
      .error (.invalid ("synthesize script run: resolve params for device " ++ device.id ++
        ": required parameter " ++ name))
    | .ok resolved => resolveAll devices (m.set (device.id, resolved))

def metadata (runID jobID : String) : Metadata :=
  let m := (jobMetadata runID jobID).set ("tenant_id", .str q.tenantID)
  let m := if q.scriptMeta.any (·.idempotent) then m.set ("idempotent", .bool true) else m
  let m := stampOperatorPrincipal m q.createdBy
  if q.requiredAPIScope = [] then m else m.set ("required_api_scope", .strs q.requiredAPIScope)

def plan (resolvedByDevice : StringMap (StringMap String)) : SynthesisPlan where
  devices := q.devices
  context := "synthesize script run"
  run runID now :=
    { newRun runID q.tenantID q.createdBy now q.devices with
      scriptRef := q.scriptRef, shell := q.shell }
  execution runID jobID executionID device _ :=
    { bareExecution executionID q.shell ((resolvedByDevice.get device.id).getD .empty)
        (q.metadata runID jobID) with
      scriptRef := q.scriptRef, scriptVersion := q.scriptVersion }

end ScriptRunRequest

/-- Every device's parameters are resolved before anything is created. -/
def synthesizeScriptRunForDevices (cfg : Config) (q : ScriptRunRequest) :
    Call (Except RunError String) :=
  match q.resolveAll q.devices .empty with
  | .error e => return .error e
  | .ok resolved => synthesizeRun cfg (q.plan resolved)

structure CommandSignature where
  algorithm : String
  value : String
  publicKey : String
  webAuthnAuthenticatorData : String
  webAuthnClientDataJSON : String
  webAuthnSignature : String
  webAuthnCredentialID : String
  webAuthnManifest : String

namespace CommandSignature

variable (c : CommandSignature)

def webAuthn : List (String × String) :=
  [("webauthn_authenticator_data", c.webAuthnAuthenticatorData),
    ("webauthn_client_data_json", c.webAuthnClientDataJSON),
    ("webauthn_signature", c.webAuthnSignature),
    ("webauthn_credential_id", c.webAuthnCredentialID)]

def x509 : List (String × String) :=
  [("signature_algorithm", c.algorithm), ("signature_value", c.value),
    ("signature_public_key", c.publicKey)]

def hasProof : Bool :=
  (c.x509.all fun kv => kv.2 ≠ "") || c.webAuthn.all fun kv => kv.2 ≠ ""

/-- A partial set is refused, and so is a device without a roster manifest. -/
def validateWebAuthn (devices : List StewardResult) (manifests : StringMap String) :
    Except String Unit :=
  if (c.webAuthn.all fun kv => kv.2 = "") ∧ c.webAuthnManifest = "" then .ok ()
  else if c.webAuthn.any fun kv => kv.2 = "" then .error "incomplete webauthn operator proof"
  else
    match devices.find? fun d => (manifests.get d.id).getD "" = "" with
    | some d => .error ("no webauthn manifest for device " ++ d.id)
    | none => .ok ()

end CommandSignature

structure CommandRunRequest where
  devices : List StewardResult
  tenantID : String
  createdBy : String
  inlineContent : String
  shell : String
  params : StringMap String
  commandSignature : Option CommandSignature
  manifests : StringMap String
  targets : List String
  nonce : String
  expiresAt : String
  timeout : ℤ

namespace CommandRunRequest

variable (q : CommandRunRequest)

def validate : Except String Unit :=
  match q.commandSignature with
  | none => .ok ()
  | some c => c.validateWebAuthn q.devices q.manifests

def signed (c : CommandSignature) (device : StewardResult) (m : Metadata) : Metadata :=
  let m := c.x509.foldl (fun m kv => m.set (kv.1, .str kv.2)) m
  let m := setTexts m
    (c.webAuthn ++ [("webauthn_manifest", (q.manifests.get device.id).getD "")])
  ((m.set ("targets", .strs q.targets)).set ("nonce", .str q.nonce)).set
    ("expires_at", .str q.expiresAt)

def metadata (runID jobID : String) (device : StewardResult) : Metadata :=
  let m := (jobMetadata runID jobID).set ("inline_script_content", .str q.inlineContent)
  let m := stampOperatorPrincipal m q.createdBy
  match q.commandSignature with
  | none => m
  | some c => q.signed c device m

def plan : SynthesisPlan where
  devices := q.devices
  context := "synthesize command run"
  run runID now :=
    { newRun runID q.tenantID q.createdBy now q.devices with
      inlineContent := q.inlineContent, shell := q.shell }
  execution runID jobID executionID device _ :=
    { bareExecution executionID q.shell q.params (q.metadata runID jobID device) with
      timeout := q.timeout }

end CommandRunRequest

def synthesizeCommandRunForDevices (cfg : Config) (q : CommandRunRequest) :
    Call (Except RunError String) :=
  match q.validate with
  | .error message => return .error (.invalid ("synthesize command run: " ++ message))
  | .ok () => synthesizeRun cfg q.plan

structure ActionRunRequest where
  devices : List StewardResult
  tenantID : String
  createdBy : String
  action : StewardActionSpec
  commandSignature : CommandSignature
  targets : List String
  nonce : String
  expiresAt : String

namespace ActionRunRequest

variable (q : ActionRunRequest)

def metadata (runID jobID : String) : Metadata :=
  let m := jobMetadata runID jobID
  let m := (m.set ("tenant_id", .str q.tenantID)).set ("created_by", .str q.createdBy)
  let m := ((m.set ("targets", .strs q.targets)).set ("nonce", .str q.nonce)).set
    ("expires_at", .str q.expiresAt)
  let m := stampOperatorPrincipal m q.createdBy
  setTexts m (q.commandSignature.x509 ++ q.commandSignature.webAuthn ++
    [("webauthn_manifest", q.commandSignature.webAuthnManifest)])

def plan : SynthesisPlan where
  devices := q.devices
  context := "synthesize action run"
  run runID now :=
    { newRun runID q.tenantID q.createdBy now q.devices with kind := .stewardAction }
  execution runID jobID executionID _ now :=
    { bareExecution executionID "" .empty (q.metadata runID jobID) with
      kind := .stewardAction
      action := some q.action
      timeout := stewardActionTimeout
      queuedAt := some now
      expiresAt := some (now + stewardActionTTL) }

end ActionRunRequest

def synthesizeActionRunForDevices (cfg : Config) (q : ActionRunRequest) :
    Call (Except RunError String) :=
  if q.commandSignature.hasProof then synthesizeRun cfg q.plan
  else return .error (.invalid "synthesize action run: operator proof is required")

inductive Request where
  | cancelRun (runID : String)
  | dispatchForDevice (deviceID : String)
  | completionEvent (ev : TerminalEvent)
  | performMaintenance
  | sweepActionJobs
  | sweepExpiredLocks
  | queueExecution (deviceID : String) (x : QueuedExecution)
  | scriptRun (q : ScriptRunRequest)
  | commandRun (q : CommandRunRequest)
  | actionRun (q : ActionRunRequest)
  | passTime

/-- `CancelRun`, and that it returned without an error. -/
def cancelRunRequest (runID : String) : Call Unit := do
  match ← cancelRun runID with
  | .error _ => return
  | .ok () => call (.returnCancelled runID)

def Request.code (cfg : Config) : Request → Call Unit
  | .cancelRun runID => cancelRunRequest runID
  | .dispatchForDevice deviceID => Dispatch.dispatchForDevice cfg deviceID
  | .completionEvent ev => handleCompletionEvent cfg ev
  | .performMaintenance => Dispatch.performMaintenance cfg
  | .sweepActionJobs => Dispatch.sweepActionJobs
  | .sweepExpiredLocks => Dispatch.sweepExpiredLocks cfg
  | .queueExecution deviceID x => do
    let _ ← Dispatch.queueExecution cfg deviceID x
  | .scriptRun q => do
    let _ ← synthesizeScriptRunForDevices cfg q
  | .commandRun q => do
    let _ ← synthesizeCommandRunForDevices cfg q
  | .actionRun q => do
    let _ ← synthesizeActionRunForDevices cfg q
  | .passTime => call .advance

def plainConfig : Config where
  hash := ⟨fun m => String.join (m.entries.map fun kv => kv.1 ++ "=" ++ kv.2),
    fun a => (a.map StewardActionSpec.verb).getD "", id⟩
  maxAge := 24 * 60 * minute
  dispatchTimeout := 60 * minute
  defaultLockTTL := 5 * minute
  graceTTL t := t

def emptySystem : System where
  now := 0
  store := ⟨.empty, .empty⟩
  queue := .empty
  full := []
  lockMeta := .empty
  history := .empty

def steady (uuid : String) (elapsed : ℕ) : Env := ⟨false, fun _ => 0, uuid, elapsed, true, .sent⟩

/-- A thread makes its next calls, which draw the given ids. -/
def drawing (tid : ℕ) (uuids : List String) : List (PoolAction Request Env) :=
  uuids.map fun uuid => .tick tid (steady uuid 0)

def calls (tid n : ℕ) : List (PoolAction Request Env) := drawing tid (List.replicate n "")

end Cfgms.Dispatch
