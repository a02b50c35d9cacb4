import Cfgms.Script.Queue

/-! # Preparing an execution

`entryToQueued` turns an entry of the queue back into an execution, and
`PrepareExecutionForDevice` resolves its script and adds the variables of an API key. What the
queue is wired to is a parameter.
-/

namespace Cfgms.Script

open Go

/-- The pin, when any `pin_` key is present. -/
def QueueEntry.pin (e : QueueEntry) : Option ExecutionPin :=
  if (e.metadata.getD .empty).entries.any fun kv => "pin_".toList.isPrefixOf kv.1.toList then
    some ⟨e.metaString "pin_owner_tenant", e.metaString "pin_version",
      e.metaString "pin_approval_hash"⟩
  else none

/-- The entry has no version to copy. -/
def entryToQueued (e : QueueEntry) : QueuedExecution where
  executionID := e.executionID
  scriptID := e.scriptRef
  scriptVersion := ""
  scriptRef := e.scriptRef
  shell := e.shell
  parameters := e.parameters
  environment := e.environment
  timeout := e.timeout
  queuedAt := some e.queuedAt
  expiresAt := some e.expiresAt
  generateAPIKey := e.generateAPIKey
  apiKeyTTL := e.apiKeyTTL
  apiKeyPermissions := e.apiKeyPermissions
  executionContext := e.executionContext
  metadata := e.metadata
  kind := e.kind
  action := e.action
  pin := e.pin
  guard := e.guard

structure ScriptSignature where
  algorithm : String
  signature : String
  publicKey : String

structure VersionedScript where
  version : String
  content : String
  signature : Option ScriptSignature

/-- The script repository. An empty version asks for the latest one. -/
inductive Library where
  | absent
  | shared (get : (scriptRef version : String) → Option VersionedScript)
  | perTenant (getForTenant : (tenantID scriptRef version : String) → Option VersionedScript)

structure EphemeralKey where
  key : String
  expiresAt : ℤ

structure Wiring where
  library : Library
  approvalHash : (ownerTenant : String) → VersionedScript → String
  scopeLookup : Option ((tenantID scriptRef : String) → Option (List String))
  guardResolver : Option ((runID grantID : String) → Bool)
  generateKey : Option ((scriptID executionID tenantID deviceID : String) → (ttl : ℤ) →
    (permissions : List String) → Option EphemeralKey)
  controllerURL : String

inductive PrepareError where
  | guardFailed (reason : String)
  | pinMismatch (reason : String)
  | tenantRequired (scriptRef : String)
  | unresolved (scriptRef : String)
  | apiScopeNotGrantable
  | keyGeneration

structure PreparedExecution where
  executionID : String
  scriptID : String
  scriptVersion : String
  scriptContent : String
  shell : String
  timeout : ℤ
  environment : StringMap String
  ephemeralKey : Option EphemeralKey
  scriptRef : String
  signature : Option ScriptSignature

namespace QueuedExecution

variable (x : QueuedExecution)

def metaValue (key : String) : Option MetaValue := x.metadata.bind (·.get key)

def metaString (key : String) : String :=
  match x.metaValue key with
  | some (.str s) => s
  | _ => ""

def metaBool (key : String) : Bool :=
  match x.metaValue key with
  | some (.bool b) => b
  | _ => false

def metaInt (key : String) : ℤ :=
  match x.metaValue key with
  | some (.int n) => n
  | _ => 0

def tenantForExecution (tenantID : String) : String :=
  if tenantID ≠ "" then tenantID else x.metaString "tenant_id"

end QueuedExecution

def emptyScope : Option MetaValue → Bool
  | none => true
  | some (.strs ss) => ss = []
  | some (.str s) => s = ""
  | some (.bool _) | some (.int _) => false

namespace Wiring

variable (W : Wiring)

def checkGuard (x : QueuedExecution) : Except PrepareError Unit :=
  match x.guard with
  | none => .ok ()
  | some g =>
    match W.guardResolver with
    | none => .error (.guardFailed "no guard resolver is registered")
    | some resolves =>
      if g.runID = "" ∨ g.grantID = "" then .error (.guardFailed "incomplete guard reference")
      else if resolves g.runID g.grantID then .ok () else .error (.guardFailed "refused")

def checkPinnedScope (tenantID scriptRef : String) (x : QueuedExecution) :
    Except PrepareError Unit :=
  if emptyScope (x.metaValue "required_api_scope") then
    match W.scopeLookup with
    | none => .ok ()
    | some scopeOf =>
      match scopeOf tenantID scriptRef with
      | some [] => .ok ()
      | _ => .error .apiScopeNotGrantable
  else .error .apiScopeNotGrantable

def verify (p : ExecutionPin) (s : VersionedScript) : Except PrepareError Unit :=
  if s.version ≠ p.version then .error (.pinMismatch "version differs")
  else if W.approvalHash p.ownerTenant s ≠ p.approvalHash then
    .error (.pinMismatch "approval hash differs")
  else .ok ()

/-- One read of the owner's exact version. -/
def resolvePinned (tenantID scriptRef : String) (p : ExecutionPin) (x : QueuedExecution) :
    Except PrepareError VersionedScript :=
  if p.ownerTenant = "" ∨ p.version = "" ∨ p.approvalHash = "" then
    .error (.pinMismatch "incomplete pin")
  else
    match W.library with
    | .perTenant getForTenant =>
      match getForTenant p.ownerTenant scriptRef p.version with
      | none => .error (.unresolved scriptRef)
      | some s => do
        W.verify p s
        W.checkPinnedScope (x.tenantForExecution tenantID) scriptRef x
        return s
    | _ => .error (.pinMismatch "library is not tenant-resolved")

def resolveLibraryScript (tenantID scriptRef : String) (x : QueuedExecution) :
    Except PrepareError (Option VersionedScript) :=
  match x.pin, W.library with
  | some _, .absent => .error (.pinMismatch "no script library is wired")
  | some p, _ =>
    if scriptRef = "" then .error (.pinMismatch "pinned execution has no script reference")
    else do
      let s ← W.resolvePinned tenantID scriptRef p x
      return some s
  | none, .absent => .ok none
  | none, .shared get =>
    if scriptRef = "" then .ok none
    else
      match get scriptRef x.scriptVersion with
      | none => .error (.unresolved scriptRef)
      | some s => .ok (some s)
  | none, .perTenant getForTenant =>
    if scriptRef = "" then .ok none
    else if x.tenantForExecution tenantID = "" then .error (.tenantRequired scriptRef)
    else
      match getForTenant (x.tenantForExecution tenantID) scriptRef x.scriptVersion with
      | none => .error (.unresolved scriptRef)
      | some s => .ok (some s)

end Wiring

/-- An inline execution brings its content in the metadata. -/
def setPreparedContent (prepared : PreparedExecution) (s : Option VersionedScript)
    (x : QueuedExecution) : PreparedExecution :=
  match s with
  | some s =>
    { prepared with
      scriptContent := s.content
      scriptVersion := s.version
      signature := s.signature }
  | none =>
    if prepared.scriptRef ≠ "" then prepared
    else
      match x.metaValue "inline_script_content" with
      | some (.str inline) => { prepared with scriptContent := inline }
      | _ => prepared

def scriptCallbackPermissions : List String :=
  ["script:callback", "script:status", "script:log", "script:result", "device:dna:read",
    "config:read"]

def keyVariables (W : Wiring) (deviceID tenantID : String) (x : QueuedExecution)
    (k : EphemeralKey) : List (String × String) :=
  [("CFGMS_API_KEY", k.key), ("CFGMS_EXECUTION_ID", x.executionID), ("CFGMS_DEVICE_ID", deviceID),
    ("CFGMS_TENANT_ID", tenantID), ("CFGMS_CONTROLLER_URL", W.controllerURL)]

def attachEphemeralKey (W : Wiring) (prepared : PreparedExecution) (deviceID tenantID : String)
    (x : QueuedExecution) : Except PrepareError PreparedExecution :=
  if x.generateAPIKey = false then .ok prepared
  else if x.pin.isSome ∨ x.guard.isSome then .error .apiScopeNotGrantable
  else
    match W.generateKey with
    | none => .ok prepared
    | some generate =>
      let ttl := if x.apiKeyTTL = 0 then 3600000000000 else x.apiKeyTTL
      let permissions :=
        if x.apiKeyPermissions = [] then scriptCallbackPermissions else x.apiKeyPermissions
      match generate x.scriptID x.executionID tenantID deviceID ttl permissions with
      | none => .error .keyGeneration
      | some k =>
        .ok { prepared with
          environment := (keyVariables W deviceID tenantID x k).foldl StringMap.set
            prepared.environment
          ephemeralKey := some k }

def prepareExecutionForDevice (W : Wiring) (deviceID tenantID : String) (x : QueuedExecution) :
    Except PrepareError PreparedExecution := do
  W.checkGuard x
  let s ← W.resolveLibraryScript tenantID x.reference x
  let prepared : PreparedExecution :=
    { executionID := x.executionID
      scriptID := x.scriptID
      scriptVersion := ""
      scriptContent := ""
      shell := x.shell
      timeout := x.timeout
      environment := StringMap.empty.assignAll x.environment
      ephemeralKey := none
      scriptRef := x.reference
      signature := none }
  attachEphemeralKey W (setPreparedContent prepared s x) deviceID tenantID x

def keyVariableNames : List String :=
  ["CFGMS_API_KEY", "CFGMS_EXECUTION_ID", "CFGMS_DEVICE_ID", "CFGMS_TENANT_ID",
    "CFGMS_CONTROLLER_URL"]

/-- What is prepared is the execution, apart from the variables of its API key. -/
structure PreparedExecution.Carries (p : PreparedExecution) (x : QueuedExecution) : Prop where
  reference : p.scriptRef = x.reference
  shell : p.shell = x.shell
  timeout : p.timeout = x.timeout
  environment : ∀ k, x.generateAPIKey = false ∨ k ∉ keyVariableNames →
    p.environment.get k = x.environment.get k

theorem setPreparedContent_eq (p : PreparedExecution) (s : Option VersionedScript)
    (x : QueuedExecution) : ∃ content version signature, setPreparedContent p s x =
      { p with scriptContent := content, scriptVersion := version, signature := signature } := by
  unfold setPreparedContent
  split
  · exact ⟨_, _, _, rfl⟩
  split
  · exact ⟨_, _, _, rfl⟩
  split <;> exact ⟨_, _, _, rfl⟩

theorem get_foldl_set {α : Type} (added : List (String × α)) {m : StringMap α} {k : String}
    (hk : k ∉ added.map Prod.fst) : (added.foldl StringMap.set m).get k = m.get k := by
  induction added generalizing m with
  | nil => rfl
  | cons e es ih =>
    rw [List.map_cons, List.mem_cons, not_or] at hk
    rw [List.foldl_cons, ih hk.2, StringMap.get_set, if_neg (Ne.symm hk.1)]

variable {W : Wiring} {p : PreparedExecution} {deviceID tenantID : String} {x : QueuedExecution}

theorem attachEphemeralKey_carries {p' : PreparedExecution} (h : p.Carries x)
    (hp' : attachEphemeralKey W p deviceID tenantID x = .ok p') : p'.Carries x := by
  revert hp'
  fun_cases attachEphemeralKey W p deviceID tenantID x <;> rintro ⟨⟩
  · exact h
  · exact h
  next hkey _ _ _ _ _ _ _ =>
  refine { h with environment := fun k hk => ?_ }
  have hother : k ∉ keyVariableNames := hk.resolve_left hkey
  exact (get_foldl_set _ hother).trans (h.environment k hk)

theorem prepareExecutionForDevice_carries
    (h : prepareExecutionForDevice W deviceID tenantID x = .ok p) : p.Carries x := by
  unfold prepareExecutionForDevice at h
  cases hguard : W.checkGuard x with
  | error e => simp [hguard, bind, Except.bind] at h
  | ok u =>
    cases hscript : W.resolveLibraryScript tenantID x.reference x with
    | error e => simp [hguard, hscript, bind, Except.bind] at h
    | ok s =>
      simp only [hguard, hscript, bind, Except.bind] at h
      apply attachEphemeralKey_carries _ h
      obtain ⟨content, version, signature, hcontent⟩ := setPreparedContent_eq _ s x
      rw [hcontent]
      refine ⟨rfl, rfl, rfl, fun k _ => ?_⟩
      exact (StringMap.get_assignAll _ _ k).trans (Option.or_none ..)

end Cfgms.Script
