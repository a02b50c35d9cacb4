import Cfgms.Expiring.Cache
import Cfgms.Go.Map
import Cfgms.Operator.Envelope

/-! # The steward's command handler

A signed command passes the checks of its signature, its addressee and its age, is looked up
in the replay cache, and is dispatched if its parameters and its script are acceptable. The nonce
of an operator's envelope is looked up in a second cache.
-/

namespace Cfgms.Steward

open Expiring Go Operator

/-- A parameter, as far as the handler tells values apart: a text, a list of texts, a list of
other values with the texts among it, or anything else. -/
inductive Param where
  | text (s : String)
  | texts (ss : List String)
  | items (xs : List (Option String))
  | other

inductive CommandType where
  | executeScript
  | stewardAction
  | openTerminal
  | other (text : String)
  deriving DecidableEq

structure Command where
  id : String
  type : CommandType
  stewardID : String
  /-- Nanoseconds since the epoch. -/
  timestamp : ℤ
  params : StringMap Param
  term : ℕ
  signingPayloadVersion : ℕ

def signingPayloadV1 : ℕ := 1

def Command.payloadVersion (cmd : Command) : ℕ :=
  if cmd.signingPayloadVersion = 0 then signingPayloadV1 else cmd.signingPayloadVersion

def Command.stringParam (cmd : Command) (key : String) : String :=
  match cmd.params.get key with
  | some (.text s) => s
  | _ => ""

def extractStringSlice : Option Param → List String
  | some (.items xs) => xs.reduceOption.filter (· ≠ "")
  | some (.texts ss) => ss
  | _ => []

structure SignedCommand (S : Type*) where
  command : Command
  signature : Option S
  rawParams : Option (StringMap String)

inductive CommandError where
  | unauthenticated (detail : String)
  | lockedPath
  | wrongSteward
  | stale
  | duplicate
  | paramsTooLarge (detail : String)
  deriving DecidableEq

structure ScriptSignature where
  algorithm : String
  value : String
  publicKey : String

/-- The credentials that the steward trusts at one time. Each check answers with its refusal. -/
structure Trust (S : Type*) where
  verifier : Option (SignedCommand S → Option String)
  /-- A library script against the trusted keys. -/
  library : List UInt8 → String → ScriptSignature → Option String
  operator : Command → Envelope → Option String

/-- The readings of the clock while one command is handled. -/
structure Clock where
  aged : ℤ
  recorded : ℤ
  expiry : ℤ
  nonced : ℤ
  aged_le : aged ≤ recorded
  recorded_le : recorded ≤ expiry
  expiry_le : expiry ≤ nonced

structure Delivery (S : Type*) where
  signed : Option (SignedCommand S)
  trust : Trust S
  clock : Clock

/-- The handler's settings, with `encoding/json`, `encoding/base64` and `time.Parse`. -/
structure Handler where
  locked : Bool
  stewardID : String
  replayWindow : ℤ
  maxParamsBytes : ℕ
  requireSignedAdhoc : Bool
  marshaledLength : StringMap Param → Option ℕ
  decodeBase64 : String → Option (List UInt8)
  parseRFC3339 : String → Option ℤ

def minute : ℤ := 60000000000

def hour : ℤ := 60 * minute

def defaultReplayWindow : ℤ := 5 * minute

def defaultMaxParamBytes : ℕ := 65536

def envelopeNonceCacheTTL : ℤ := 24 * hour

def maxReplayCacheEntries : ℕ := 10000

/-- A handler with the defaults in the place of zero settings. -/
def Handler.new (cfg : Handler) : Handler :=
  { cfg with
    replayWindow := if cfg.replayWindow = 0 then defaultReplayWindow else cfg.replayWindow
    maxParamsBytes :=
      if cfg.maxParamsBytes = 0 then defaultMaxParamBytes else cfg.maxParamsBytes }

structure Caches where
  replayCache : Cache String
  envelopeNonceCache : Cache String

def Caches.empty : Caches := ⟨.empty, .empty⟩

namespace Handler

variable {S : Type*} (h : Handler)

def hasX509Proof (cmd : Command) : Bool :=
  cmd.stringParam "signature_algorithm" ≠ "" ∧ cmd.stringParam "signature_value" ≠ "" ∧
    cmd.stringParam "signature_public_key" ≠ ""

def hasWebAuthnProof (cmd : Command) : Bool :=
  cmd.stringParam "webauthn_authenticator_data" ≠ "" ∧
    cmd.stringParam "webauthn_client_data_json" ≠ "" ∧
    cmd.stringParam "webauthn_signature" ≠ "" ∧ cmd.stringParam "webauthn_credential_id" ≠ ""

/-- The run-as account, which must be a text where there is one. -/
def executionContext (cmd : Command) : Except CommandError String :=
  match cmd.params.get "execution_context" with
  | none => .ok ""
  | some (.text s) => .ok s
  | some _ => .error (.unauthenticated "execution_context must be a string")

def envelope (cmd : Command) (content : List UInt8) (shell : String) :
    Except CommandError Envelope :=
  match h.parseRFC3339 (cmd.stringParam "expires_at") with
  | none => .error (.unauthenticated "missing or invalid operator envelope expiry")
  | some expiresAt => do
    let context ← executionContext cmd
    return {
      content := content
      shell := shell
      targets := extractStringSlice (cmd.params.get "targets")
      nonce := cmd.stringParam "nonce"
      expiresAt := expiresAt
      executionContext := context }

/-- A verification of the envelope that a command carries. -/
structure Verification where
  command : Command
  content : List UInt8
  shell : String
  /-- The refusal of the credential, if any. -/
  credential : Envelope → Option String
  expiry : ℤ
  nonced : ℤ
  expiry_le : expiry ≤ nonced

/-- The envelope that is looked up in the nonce cache: the credential vouches for it, it is for
this steward, and it has not expired. -/
def boundEnvelope (v : Verification) : Except CommandError Envelope :=
  if hasX509Proof v.command ∨ hasWebAuthnProof v.command then
    match h.envelope v.command v.content v.shell with
    | .error err => .error err
    | .ok e =>
      match v.credential e with
      | some refusal => .error (.unauthenticated refusal)
      | none =>
        if h.stewardID ∉ e.targets then
          .error (.unauthenticated "steward is not in the signed target list")
        else if e.expiresAt < v.expiry then
          .error (.unauthenticated "operator envelope has expired")
        else .ok e
  else .error (.unauthenticated "")

def verifyOperatorEnvelope (nonces : Cache String) (v : Verification) :
    Cache String × Option CommandError :=
  match h.boundEnvelope v with
  | .error err => (nonces, some err)
  | .ok e =>
    let (nonces, first) := nonces.add maxReplayCacheEntries envelopeNonceCacheTTL e.nonce v.nonced
    (nonces, if first then none
      else some (.unauthenticated "operator envelope nonce already used"))

def authenticate (d : Delivery S) (signed : SignedCommand S) : Except CommandError Unit :=
  let cmd := signed.command
  if h.locked then .error .lockedPath
  else if cmd.payloadVersion = signingPayloadV1 ∧ 0 < cmd.term then
    .error (.unauthenticated "stamped command signed without term coverage")
  else
    match d.trust.verifier with
    | some verify =>
      if signed.signature.isNone then .error (.unauthenticated "")
      else
        match verify signed with
        | some refusal => .error (.unauthenticated refusal)
        | none => checkAddressee cmd
    | none => checkAddressee cmd
where
  checkAddressee (cmd : Command) : Except CommandError Unit :=
    if cmd.stewardID ≠ h.stewardID then .error .wrongSteward
    else if h.replayWindow < d.clock.aged - cmd.timestamp then .error .stale
    else .ok ()

def checkParamsSize (cmd : Command) : Option CommandError :=
  if cmd.params.entries = [] then none
  else
    match h.marshaledLength cmd.params with
    | none => some (.paramsTooLarge "invalid params")
    | some n => if h.maxParamsBytes < n then some (.paramsTooLarge "") else none

def preflightScriptSignature (nonces : Cache String) (d : Delivery S) (cmd : Command) :
    Cache String × Option CommandError :=
  let shell := cmd.stringParam "shell"
  if shell = actionShell then
    (nonces, some (.unauthenticated "shell \"steward-action\" is reserved for steward actions"))
  else if shell = terminalShell then
    (nonces, some (.unauthenticated "shell \"terminal-open\" is reserved for terminal sessions"))
  else
    let isLibraryScript := cmd.stringParam "script_id" ≠ ""
    match h.decodeBase64 (cmd.stringParam "script_content") with
    | none =>
      (nonces, if isLibraryScript ∨ h.requireSignedAdhoc then
        some (.unauthenticated "invalid script_content encoding") else none)
    | some content =>
      if isLibraryScript then
        (nonces, if hasX509Proof cmd then
          (d.trust.library content shell ⟨cmd.stringParam "signature_algorithm",
            cmd.stringParam "signature_value", cmd.stringParam "signature_public_key"⟩).map
            fun refusal => .unauthenticated ("library script verification failed: " ++ refusal)
          else some (.unauthenticated "library script requires a script signature"))
      else
        h.verifyOperatorEnvelope nonces {
          command := cmd
          content := content
          shell := shell
          credential := d.trust.operator cmd
          expiry := d.clock.expiry
          nonced := d.clock.nonced
          expiry_le := d.clock.expiry_le }

/-- What comes of a command: the entry it leaves in the replay cache, and the refusal, without
which it is dispatched. -/
structure Reply where
  recorded : Option (String × ℤ)
  refusal : Option CommandError

def checkAfterReplay (nonces : Cache String) (d : Delivery S) (cmd : Command) :
    Cache String × Option CommandError :=
  match h.checkParamsSize cmd with
  | some err => (nonces, some err)
  | none =>
    match cmd.type with
    | .executeScript => h.preflightScriptSignature nonces d cmd
    | _ => (nonces, none)

def handleCommand (s : Caches) (d : Delivery S) : Caches × Reply :=
  match d.signed with
  | none => (s, ⟨none, some (.unauthenticated "")⟩)
  | some signed =>
    match h.authenticate d signed with
    | .error err => (s, ⟨none, some err⟩)
    | .ok () =>
      let entry := (signed.command.id, d.clock.recorded)
      let (replays, first) :=
        s.replayCache.add maxReplayCacheEntries h.replayWindow entry.1 entry.2
      if first then
        let (nonces, refusal) := h.checkAfterReplay s.envelopeNonceCache d signed.command
        (⟨replays, nonces⟩, ⟨some entry, refusal⟩)
      else (⟨replays, s.envelopeNonceCache⟩, ⟨none, some .duplicate⟩)

end Handler

end Cfgms.Steward
