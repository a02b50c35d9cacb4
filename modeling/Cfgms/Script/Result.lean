import Cfgms.Go.Json
import Cfgms.Script.Queue

/-! # Script results on the wire

A steward reports the result of a script in the details of an event. On the wire the details are
texts only, and the controller guesses the type of each: what reads as JSON is decoded. Output
that happens to be a JSON document, or a number, is then no text any more and is lost.
-/

namespace Cfgms.Script

open Go Text Option

inductive WireEventType where
  | unspecified
  | configApplied
  | dnaSynced
  | taskCompleted
  | taskFailed
  | error
  | commandReceived
  | commandCompleted
  | commandFailed
  | scriptCompleted
  | dnaChanged
  | relayRequest
  | upgradeDownloaded
  | upgradeSwapped
  | upgradeCommitted
  | upgradeRolledBack
  | observeSweepRequest
deriving DecidableEq

inductive WireSeverity where
  | unspecified
  | info
  | warning
  | error
  | critical
deriving DecidableEq

def eventTypes : List (String × WireEventType) :=
  [("config_applied", .configApplied), ("dna_synced", .dnaSynced),
    ("task_completed", .taskCompleted), ("task_failed", .taskFailed), ("error", .error),
    ("command_received", .commandReceived), ("command_completed", .commandCompleted),
    ("command_failed", .commandFailed), ("script_completed", .scriptCompleted),
    ("dna_changed", .dnaChanged), ("relay_request", .relayRequest),
    ("steward.upgrade.downloaded", .upgradeDownloaded),
    ("steward.upgrade.swapped", .upgradeSwapped),
    ("steward.upgrade.committed", .upgradeCommitted),
    ("steward.upgrade.rolled_back", .upgradeRolledBack),
    ("observe_sweep_request", .observeSweepRequest)]

def severities : List (String × WireSeverity) :=
  [("info", .info), ("warning", .warning), ("error", .error), ("critical", .critical)]

def eventTypeToProto (t : String) : WireEventType :=
  ((eventTypes.find? fun e => e.1 = t).map (·.2)).getD .unspecified

def protoToEventType (t : WireEventType) : String :=
  ((eventTypes.find? fun e => e.2 = t).map (·.1)).getD ""

def severityToProto (s : String) : WireSeverity :=
  ((severities.find? fun e => e.1 = s).map (·.2)).getD .unspecified

def protoToSeverity (s : WireSeverity) : String :=
  ((severities.find? fun e => e.2 = s).map (·.1)).getD ""

/-- An event with details of some kind; the timestamp is in nanoseconds. -/
structure Event (α : Type) where
  id : String
  type : String
  stewardID : String
  tenantID : String
  timestamp : ℤ
  commandID : String
  severity : String
  details : StringMap α

structure WireEvent where
  id : String
  type : WireEventType
  stewardID : String
  tenantID : String
  timestamp : ℤ
  commandID : String
  severity : WireSeverity
  details : StringMap (List UInt8)

/-- What a steward puts into details: texts and integers. -/
inductive Detail where
  | string (text : List UInt8)
  | int (n : ℤ)

inductive Decoded where
  | string (text : List UInt8)
  | float (f : ℚ)
  /-- A boolean, nil, a list or a map. -/
  | other
deriving DecidableEq

def Detail.text : Detail → List UInt8
  | .string text => text
  | .int n => Json.marshalInt n

def interfaceMapToStringMap : StringMap Detail → StringMap (List UInt8) :=
  StringMap.mapValues Detail.text

/-- A text that reads as JSON is decoded, unless it reads as a string. -/
def decode (text : List UInt8) : Decoded :=
  match Json.unmarshal text with
  | some (.number f) => .float f
  | some .other => .other
  | some .string => .string text
  | none => .string text

def stringMapToInterfaceMap : StringMap (List UInt8) → StringMap Decoded :=
  StringMap.mapValues decode

def eventToProto (e : Event Detail) : WireEvent where
  id := e.id
  type := eventTypeToProto e.type
  stewardID := e.stewardID
  tenantID := e.tenantID
  timestamp := e.timestamp
  commandID := e.commandID
  severity := severityToProto e.severity
  details := interfaceMapToStringMap e.details

def eventFromProto (pb : WireEvent) : Event Decoded where
  id := pb.id
  type := protoToEventType pb.type
  stewardID := pb.stewardID
  tenantID := pb.tenantID
  timestamp := pb.timestamp
  commandID := pb.commandID
  severity := protoToSeverity pb.severity
  details := stringMapToInterfaceMap pb.details

structure ExecutionResult where
  exitCode : ℤ
  stdout : List UInt8
  stderr : List UInt8
  /-- Nanoseconds. -/
  duration : ℤ

def scriptPreviewMaxBytes : ℕ := 4096

def execOutputHardCapBytes : ℕ := 2 ^ 20

def execOutputTruncMarker : String := "\n[output truncated at 1 MB]"

def applyOutputCap (stdout stderr : List UInt8) (capBytes : ℕ) : List UInt8 × List UInt8 :=
  if stdout.length + stderr.length ≤ capBytes then (stdout, stderr)
  else
    let marker := bytes execOutputTruncMarker
    let available := capBytes - marker.length
    if available ≤ stdout.length then (stdout.take available ++ marker, [])
    else (stdout, stderr.take (available - stdout.length) ++ marker)

def truncatePreview (s : List UInt8) (maxBytes : ℕ) : List UInt8 :=
  if s.length ≤ maxBytes then s else s.take maxBytes

def completedDetails (executionID : List UInt8) (r : ExecutionResult) : StringMap Detail :=
  let out := applyOutputCap r.stdout r.stderr execOutputHardCapBytes
  { entries :=
      [("execution_id", .string executionID), ("exit_code", .int r.exitCode),
        ("duration_ms", .int (r.duration.tdiv 1000000)),
        ("stdout_preview", .string (truncatePreview out.1 scriptPreviewMaxBytes)),
        ("stderr_preview", .string (truncatePreview out.2 scriptPreviewMaxBytes)),
        ("stdout", .string out.1), ("stderr", .string out.2)]
    nodup := by simp }

def completedEvent (id stewardID commandID : String) (timestamp : ℤ) (executionID : List UInt8)
    (r : ExecutionResult) : Event Detail :=
  ⟨id, "script_completed", stewardID, "", timestamp, commandID, "", completedDetails executionID r⟩

def Decoded.asString : Decoded → Option (List UInt8)
  | .string text => some text
  | .float _ => none
  | .other => none

def Decoded.asFloat : Decoded → Option ℚ
  | .float f => some f
  | .string _ => none
  | .other => none

section Completion

variable (details : StringMap Decoded)

def stringAt (key : String) : Option (List UInt8) := (details.get key).bind Decoded.asString

def floatAt (key : String) : Option ℚ := (details.get key).bind Decoded.asFloat

/-- The conversion to `int`: towards zero, and the least value for what does not fit. -/
def floatToInt (f : ℚ) : ℤ :=
  let t := if f < 0 then ⌈f⌉ else ⌊f⌋
  if -2 ^ 63 ≤ t ∧ t < 2 ^ 63 then t else -2 ^ 63

def completionState (commandFailed : Bool) : QueueState :=
  if commandFailed then .failed
  else
    match floatAt details "exit_code" with
    | some exitCode => if exitCode ≠ 0 then .failed else .completed
    | none => .completed

def completionOutput (commandFailed : Bool) : List UInt8 × List UInt8 :=
  let stdout := ((stringAt details "stdout").or (stringAt details "stdout_preview")).getD []
  let stderr := ((stringAt details "stderr").or (stringAt details "stderr_preview")).getD []
  if commandFailed ∧ stderr = [] then (stdout, (stringAt details "error").getD [])
  else (stdout, stderr)

def controllerOutputCapBytes : ℕ := 4 * 1024 * 1024

/-- No result for an event without details. -/
def completionResult (commandFailed : Bool) : Option ExecutionResult :=
  if details.entries = [] then none
  else
    let output := completionOutput details commandFailed
    let output := if controllerOutputCapBytes < output.1.length + output.2.length then ([], [])
      else output
    some
      { exitCode := ((floatAt details "exit_code").map floatToInt).getD 0
        stdout := output.1
        stderr := output.2
        duration := ((floatAt details "duration_ms").map fun f =>
          wrapInt64 (floatToInt f * 1000000)).getD 0 }

end Completion

/-- The text does not read as JSON, or reads as a JSON string. -/
def KeptAsText (text : List UInt8) : Prop :=
  Json.unmarshal text = none ∨ Json.unmarshal text = some .string

variable (text : List UInt8)

theorem asString_decode : KeptAsText text ∧ (decode text).asString = some text ∨
      ¬ KeptAsText text ∧ (decode text).asString = none := by
  unfold KeptAsText decode
  cases Json.unmarshal text with
  | none => simp [Decoded.asString]
  | some v => cases v <;> simp [Decoded.asString]

def readBack (text : List UInt8) : List UInt8 :=
  ((decode text).asString.or
    (decode (truncatePreview text scriptPreviewMaxBytes)).asString).getD []

theorem length_readBack_le : (readBack text).length ≤ text.length := by
  unfold readBack
  rcases asString_decode text with ⟨-, h⟩ | ⟨-, h⟩
  · simp [h]
  rw [h, none_or]
  rcases asString_decode (truncatePreview text scriptPreviewMaxBytes) with ⟨-, h⟩ | ⟨-, h⟩
  · rw [h, getD_some]
    unfold truncatePreview
    split
    · exact le_rfl
    · exact List.length_take_le' _ _
  · simp [h]

theorem readBack_eq_iff : readBack text = text ↔ KeptAsText text := by
  unfold readBack
  rcases asString_decode text with ⟨hkept, h⟩ | ⟨hlost, h⟩
  · simp [h, hkept]
  rw [h, none_or]
  refine iff_of_false (fun heq => ?_) hlost
  have hne : text ≠ [] := by
    rintro rfl
    exact hlost (.inl Json.unmarshal_nil)
  unfold truncatePreview at heq
  split at heq
  · -- the preview is the text itself and is lost with it
    rw [h] at heq
    exact hne heq.symm
  · next hlong =>
    rcases asString_decode (text.take scriptPreviewMaxBytes) with ⟨-, h⟩ | ⟨-, h⟩
    · rw [h, getD_some] at heq
      have hlength := congrArg List.length heq
      rw [List.length_take] at hlength
      omega
    · rw [h] at heq
      exact hne heq.symm

theorem floatToInt_intCast (m : ℤ) :
    floatToInt m = if -2 ^ 63 ≤ m ∧ m < 2 ^ 63 then m else -2 ^ 63 := by
  simp [floatToInt]

theorem floatToInt_eq_iff {n : ℤ} (hlo : -2 ^ 63 ≤ n) (hhi : n < 2 ^ 63) :
    floatToInt (if n < 0 then -toFloat64 n.natAbs else toFloat64 n.natAbs) = n ↔
      toFloat64 n.natAbs = n.natAbs := by
  obtain ⟨m, hm, -⟩ := exists_toFloat64_natCast n.natAbs
  have hsign : (if n < 0 then -toFloat64 n.natAbs else toFloat64 n.natAbs : ℚ) =
      ((if n < 0 then -(m : ℤ) else m : ℤ) : ℚ) := by
    rw [hm]
    split <;> push_cast <;> rfl
  have hexact : toFloat64 n.natAbs = n.natAbs ↔ m = n.natAbs := by
    rw [hm]
    exact_mod_cast Iff.rfl
  rw [hsign, floatToInt_intCast, hexact]
  rcases eq_or_lt_of_le hlo with hleast | hlo
  · -- the least value is a power of two
    have hpow := toFloat64_two_pow 63
    have hm63 : m = n.natAbs := by
      rw [show n.natAbs = 2 ^ 63 by omega] at hm ⊢
      exact_mod_cast hm.symm.trans hpow
    split_ifs <;> omega
  · split_ifs <;> omega

theorem signed_ne_zero {n : ℤ} (h : n ≠ 0) :
    (if n < 0 then -toFloat64 n.natAbs else toFloat64 n.natAbs : ℚ) ≠ 0 := by
  obtain ⟨m, hm, hzero⟩ := exists_toFloat64_natCast n.natAbs
  have hne : (m : ℚ) ≠ 0 := by
    have hm0 : m ≠ 0 := fun hm0 => h (Int.natAbs_eq_zero.mp (hzero.mp hm0))
    exact_mod_cast hm0
  rw [hm]
  split
  · exact neg_ne_zero.mpr hne
  · exact hne

section Report

variable (executionID : List UInt8) {r : ExecutionResult}
variable (r) in
/-- The details of a report as the controller has them. -/
def receivedDetails : StringMap Decoded :=
  stringMapToInterfaceMap (interfaceMapToStringMap (completedDetails executionID r))

theorem received_details (key : String) : (receivedDetails executionID r).get key =
      ((completedDetails executionID r).get key).map (decode ∘ Detail.text) := by
  simp [receivedDetails, stringMapToInterfaceMap, interfaceMapToStringMap, StringMap.get_mapValues]

theorem received_exitCode (h : r.exitCode.natAbs < 2 ^ 64) :
    floatAt (receivedDetails executionID r) "exit_code" =
      some (if r.exitCode < 0 then -toFloat64 r.exitCode.natAbs
        else toFloat64 r.exitCode.natAbs) := by
  have hget : (completedDetails executionID r).get "exit_code" = some (.int r.exitCode) := rfl
  rw [floatAt, received_details, hget]
  simp [Detail.text, decode, Json.unmarshal_marshalInt h, Decoded.asFloat]

theorem received_output (h : r.stdout.length + r.stderr.length ≤ execOutputHardCapBytes) :
    completionOutput (receivedDetails executionID r) false =
      (readBack r.stdout, readBack r.stderr) := by
  have hcap : applyOutputCap r.stdout r.stderr execOutputHardCapBytes = (r.stdout, r.stderr) :=
    if_pos h
  have hfull (key : String) : (completedDetails executionID r).get key =
      StringMap.get ⟨[("execution_id", .string executionID), ("exit_code", .int r.exitCode),
        ("duration_ms", .int (r.duration.tdiv 1000000)),
        ("stdout_preview", .string (truncatePreview r.stdout scriptPreviewMaxBytes)),
        ("stderr_preview", .string (truncatePreview r.stderr scriptPreviewMaxBytes)),
        ("stdout", .string r.stdout), ("stderr", .string r.stderr)], by simp⟩ key := by
    simp [completedDetails, hcap]
  simp only [completionOutput, stringAt, received_details, bind_map, Function.comp_def, hfull]
  rfl

theorem received_result (hcap : r.stdout.length + r.stderr.length ≤ execOutputHardCapBytes)
    (hexit : r.exitCode.natAbs < 2 ^ 64) :
    ∃ duration, completionResult (receivedDetails executionID r) false =
      some ⟨floatToInt (if r.exitCode < 0 then -toFloat64 r.exitCode.natAbs
        else toFloat64 r.exitCode.natAbs), readBack r.stdout, readBack r.stderr, duration⟩ := by
  have hsize : ¬ controllerOutputCapBytes <
      (readBack r.stdout).length + (readBack r.stderr).length := by
    have hout := length_readBack_le r.stdout
    have herr := length_readBack_le r.stderr
    unfold controllerOutputCapBytes
    unfold execOutputHardCapBytes at hcap
    omega
  have hnonempty : (receivedDetails executionID r).entries ≠ [] := List.cons_ne_nil _ _
  simp only [completionResult, if_neg hnonempty, received_output _ hcap,
    received_exitCode _ hexit, if_neg hsize]
  exact ⟨_, rfl⟩

theorem received_state (hexit : r.exitCode.natAbs < 2 ^ 64) :
    completionState (receivedDetails executionID r) false =
      if r.exitCode = 0 then .completed else .failed := by
  simp only [completionState, received_exitCode _ hexit, Bool.false_eq_true, if_false]
  by_cases hzero : r.exitCode = 0
  · simp [hzero, toFloat64]
  · rw [if_pos (signed_ne_zero hzero), if_neg hzero]

end Report

/-- The controller records the output and the exit code of the result, and the state that the exit
code stands for. -/
structure Intact (r : ExecutionResult) (details : StringMap Decoded) : Prop where
  result : ∃ r', completionResult details false = some r' ∧ r'.stdout = r.stdout ∧
    r'.stderr = r.stderr ∧ r'.exitCode = r.exitCode
  state : completionState details false = if r.exitCode = 0 then .completed else .failed

/-- The result of a script reaches the controller with its output and exit code exactly if neither
output reads as JSON other than a string, and the exit code is one that a `float64` holds. -/
theorem script_result_intact (id stewardID commandID : String) (timestamp : ℤ)
    (executionID : List UInt8) (r : ExecutionResult)
    (hcap : r.stdout.length + r.stderr.length ≤ execOutputHardCapBytes)
    (hexit : -2 ^ 63 ≤ r.exitCode ∧ r.exitCode < 2 ^ 63) :
    Intact r (eventFromProto (eventToProto
        (completedEvent id stewardID commandID timestamp executionID r))).details ↔
      KeptAsText r.stdout ∧ KeptAsText r.stderr ∧
        toFloat64 r.exitCode.natAbs = r.exitCode.natAbs := by
  obtain ⟨duration, hresult⟩ := received_result executionID hcap (by omega)
  have hstate := received_state executionID (r := r) (by omega)
  constructor
  · rintro ⟨⟨r', hr', hout, herr, hcode⟩, -⟩
    cases hresult.symm.trans hr'
    exact ⟨(readBack_eq_iff _).mp hout, (readBack_eq_iff _).mp herr,
      (floatToInt_eq_iff hexit.1 hexit.2).mp hcode⟩
  · rintro ⟨hout, herr, hcode⟩
    exact ⟨⟨_, hresult, (readBack_eq_iff _).mpr hout, (readBack_eq_iff _).mpr herr,
      (floatToInt_eq_iff hexit.1 hexit.2).mpr hcode⟩, hstate⟩

/-- A script that prints a word and fails. -/
theorem script_result_intact_word : Intact ⟨3, bytes "done\n", [], 0⟩ (eventFromProto (eventToProto
      (completedEvent "e" "s" "c" 0 (bytes "x") ⟨3, bytes "done\n", [], 0⟩))).details :=
  (script_result_intact "e" "s" "c" 0 (bytes "x") ⟨3, bytes "done\n", [], 0⟩
    (by decide) (by decide)).mpr
    ⟨.inl (by decide), .inl (by decide), toFloat64_natCast (by decide)⟩

/-- A script that prints a number: the output is recorded as empty. -/
theorem number_output_lost : ((completionResult (eventFromProto (eventToProto
      (completedEvent "e" "s" "c" 0 (bytes "x") ⟨0, bytes "42\n", [], 0⟩))).details false).map
        ExecutionResult.stdout) = some [] := by
  decide +kernel

end Cfgms.Script
