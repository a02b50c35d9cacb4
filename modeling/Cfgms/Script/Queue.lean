import Cfgms.Go.Map
import Cfgms.Ordered.Table
import Mathlib.Data.List.Sort

/-! # The execution queue

Executions wait in a store under their execution ids. An entry is queued, is handed to its
device, and ends completed, failed, expired or cancelled. Times are nanoseconds, and a zero
time is absent.
-/

namespace Cfgms.Script

open Go Ordered

inductive QueueState where
  | queued
  | dispatched
  | completed
  | failed
  | expired
  | cancelled
  deriving DecidableEq

def QueueState.active : QueueState → Bool
  | .queued | .dispatched => true
  | .completed | .failed | .expired | .cancelled => false

inductive QueueKind where
  | script
  | stewardAction
  deriving DecidableEq

structure StewardActionSpec where
  verb : String
  targetKind : String
  targetName : String
  parameters : StringMap String

inductive MetaValue where
  | str (s : String)
  | bool (b : Bool)
  | int (n : ℤ)
  | strs (ss : List String)

abbrev Metadata := StringMap MetaValue

structure ExecutionPin where
  ownerTenant : String
  version : String
  approvalHash : String

structure ExecutionGuard where
  runID : String
  grantID : String

structure QueuedExecution where
  executionID : String
  scriptID : String
  scriptVersion : String
  scriptRef : String
  shell : String
  parameters : StringMap String
  environment : StringMap String
  timeout : ℤ
  queuedAt : Option ℤ
  expiresAt : Option ℤ
  generateAPIKey : Bool
  apiKeyTTL : ℤ
  apiKeyPermissions : List String
  executionContext : String
  metadata : Option Metadata
  kind : QueueKind
  action : Option StewardActionSpec
  pin : Option ExecutionPin
  guard : Option ExecutionGuard

structure QueueEntry where
  executionID : String
  deviceID : String
  scriptRef : String
  shell : String
  parameters : StringMap String
  environment : StringMap String
  timeout : ℤ
  queuedAt : ℤ
  expiresAt : ℤ
  dispatchedAt : Option ℤ
  completedAt : Option ℤ
  state : QueueState
  paramHash : String
  generateAPIKey : Bool
  apiKeyTTL : ℤ
  apiKeyPermissions : List String
  executionContext : String
  metadata : Option Metadata
  kind : QueueKind
  action : Option StewardActionSpec

/-- The entry as it was queued: what happens to it later is forgotten. -/
def QueueEntry.asQueued (e : QueueEntry) : QueueEntry :=
  { e with state := .queued, dispatchedAt := none, completedAt := none }

/-- The `json` texts of parameters and actions, and the hash of the text they make up. -/
structure HashConfig where
  marshalParameters : StringMap String → String
  marshalAction : Option StewardActionSpec → String
  sha256 : String → String

def computeParamHash (K : HashConfig) (scriptRef deviceID : String)
    (parameters : StringMap String) (kind : QueueKind) (action : Option StewardActionSpec) :
    String :=
  K.sha256 (scriptRef ++ "|" ++ deviceID ++ "|" ++ K.marshalParameters parameters ++
    match kind with
    | .script => ""
    | .stewardAction => "|steward_action|" ++ K.marshalAction action)

/-- `InMemoryQueueStore`. -/
abbrev QueueStore := Table QueueEntry.executionID

inductive QueueError where
  | duplicateExecution
  | reservedMetadataKey
  | metadataTooLarge
  | pinMismatch
  | guardFailed
  | notFound (deviceID executionID : String)
  | notDispatched (executionID : String) (state : QueueState)
  | storage
  deriving DecidableEq

namespace QueueStore

variable (q : QueueStore)

/-- An entry of the device with the key is already queued. -/
def duplicates (deviceID paramHash : String) : Bool :=
  q.rows.any fun e => e.deviceID = deviceID ∧ e.paramHash = paramHash ∧ e.state = .queued

def enqueue (entry : QueueEntry) : Except QueueError QueueStore :=
  if duplicates q entry.deviceID entry.paramHash then .error .duplicateExecution
  else .ok (q.store entry)

/-- What `Dequeue` makes of an entry of the device. -/
def dispatch (now : ℤ) (e : QueueEntry) : QueueEntry :=
  match e.state with
  | .queued =>
    if e.expiresAt < now then { e with state := .expired }
    else { e with state := .dispatched, dispatchedAt := some now }
  | _ => e

theorem dispatch_executionID (now : ℤ) (e : QueueEntry) :
    (dispatch now e).executionID = e.executionID := by
  unfold dispatch
  split
  · split <;> rfl
  · rfl

/-- `Dequeue`. The entries come out in any order: `rank` stands for the map's. -/
def dequeue (rank : String → ℕ) (deviceID : String) (now : ℤ) : QueueStore × List QueueEntry :=
  let q' := Table.update q (fun e => e.deviceID = deviceID) (dispatch now)
    (dispatch_executionID now)
  (q', (q'.rows.filter fun e => e.deviceID = deviceID ∧ e.state = .dispatched).insertionSort
    fun e e' => rank e.executionID ≤ rank e'.executionID)

variable {deviceID executionID : String}
variable {now : ℤ} {e : QueueEntry}

theorem mem_dequeue {rank : String → ℕ} (h : e ∈ (dequeue q rank deviceID now).2) :
    e ∈ (dequeue q rank deviceID now).1.rows ∧ e.deviceID = deviceID ∧
      ∃ e₀ ∈ q.rows, e.asQueued = e₀.asQueued ∧
        (e₀.state = .queued ∧ now ≤ e₀.expiresAt ∨ e₀.state = .dispatched) := by
  obtain ⟨hmem, hstate⟩ := List.mem_filter.mp ((List.mem_insertionSort _).mp h)
  obtain ⟨hdevice, hdispatched⟩ := of_decide_eq_true hstate
  refine ⟨hmem, hdevice, ?_⟩
  obtain ⟨e₀, he₀, heq⟩ := (Table.mem_update q).mp hmem
  refine ⟨e₀, he₀, ?_⟩
  split at heq
  · subst heq
    unfold dispatch at hdispatched ⊢
    split at hdispatched
    · next hqueued =>
      split at hdispatched
      · cases hdispatched
      next hfresh =>
      simp only [hqueued, if_neg hfresh]
      exact ⟨rfl, .inl ⟨trivial, not_lt.mp hfresh⟩⟩
    · exact ⟨rfl, .inr hdispatched⟩
  · subst heq
    exact ⟨rfl, .inr hdispatched⟩

def finish (state : QueueState) (now : ℤ) (e : QueueEntry) : QueueEntry :=
  { e with state := state, completedAt := some now }

def acknowledgeCompletion (executionID deviceID : String) (state : QueueState) (now : ℤ) :
    Except QueueError QueueStore :=
  match q.get executionID with
  | none => .error (.notFound deviceID executionID)
  | some e =>
    if e.deviceID ≠ deviceID then .error (.notFound deviceID executionID)
    else if e.state ≠ .dispatched then .error (.notDispatched executionID e.state)
    else .ok (Table.update q (fun e => e.executionID = executionID) (finish state now)
      fun _ => rfl)

def withState (state : QueueState) (e : QueueEntry) : QueueEntry := { e with state := state }

def cancel (deviceID executionID : String) : Except QueueError QueueStore :=
  if q.rows.any fun e => e.deviceID = deviceID ∧ e.state.active then
    match q.get executionID with
    | none => .error (.notFound deviceID executionID)
    | some e =>
      if e.deviceID ≠ deviceID ∨ e.state.active = false then
        .error (.notFound deviceID executionID)
      else .ok (Table.update q (fun e => e.executionID = executionID) (withState .cancelled)
        fun _ => rfl)
  else .error (.notFound deviceID executionID)

theorem cancel_eq_error {e : QueueError}
    (h : cancel q deviceID executionID = .error e) : e = .notFound deviceID executionID := by
  revert h
  fun_cases cancel q deviceID executionID <;> rintro ⟨⟩ <;> rfl

theorem not_active_cancel (he : e ∈ ((cancel q deviceID executionID).toOption.getD q).rows)
    (hdevice : e.deviceID = deviceID) (hid : e.executionID = executionID) :
    e.state.active = false := by
  revert he
  fun_cases cancel q deviceID executionID <;> intro he
  · next hget =>
    exact absurd (decide_eq_true hid) (List.find?_eq_none.mp hget e he)
  · next e₀ hget hother =>
    obtain ⟨he₀, hid₀⟩ := Table.get_eq_some_iff.mp hget
    obtain rfl := List.inj_on_of_nodup_map q.nodup he he₀ (hid.trans hid₀.symm)
    exact hother.resolve_left (not_not_intro hdevice)
  · dsimp only [Except.toOption, Option.getD] at he
    obtain ⟨e₁, _, heq⟩ := (Table.mem_update q).mp he
    split at heq
    · subst heq
      rfl
    next hne =>
    subst heq
    exact absurd (decide_eq_true hid) hne
  · next hnone =>
    rw [Bool.not_eq_true, List.any_eq_false] at hnone
    simpa [hdevice] using hnone e he

def requeue (e : QueueEntry) : QueueEntry := { e with state := .queued, dispatchedAt := none }

def isStale (dispatchTimeout now : ℤ) (e : QueueEntry) : Bool :=
  e.state = .dispatched && e.dispatchedAt.any fun t => dispatchTimeout < now - t

def requeueStale (dispatchTimeout now : ℤ) : QueueStore :=
  Table.update q (isStale dispatchTimeout now) requeue fun _ => rfl

def cleanupExpired (now : ℤ) : QueueStore :=
  Table.update q (fun e => e.state = .queued ∧ e.expiresAt < now) (withState .expired)
    fun _ => rfl

def list (deviceID : String) : List QueueEntry :=
  q.rows.filter fun e => (deviceID = "" ∨ e.deviceID = deviceID) ∧ e.state.active

/-- Every entry was there before, and is active only if it was. -/
def Evolves (q q' : QueueStore) : Prop :=
  ∀ e' ∈ q'.rows, ∃ e ∈ q.rows, e'.asQueued = e.asQueued ∧ (e'.state.active → e.state.active)

theorem Evolves.refl : Evolves q q := fun e he => ⟨e, he, rfl, id⟩

variable {q}

theorem evolves_update {p : QueueEntry → Bool} {f : QueueEntry → QueueEntry}
    {hf : ∀ e, (f e).executionID = e.executionID}
    (h : ∀ e ∈ q.rows, p e → (f e).asQueued = e.asQueued ∧ ((f e).state.active → e.state.active)) :
    Evolves q (Table.update q p f hf) := by
  intro e' he'
  obtain ⟨e, he, rfl⟩ := (Table.mem_update q).mp he'
  refine ⟨e, he, ?_⟩
  split
  · next hp => exact h e he hp
  · exact ⟨rfl, id⟩

theorem evolves_dequeue (rank : String → ℕ) (deviceID : String) (now : ℤ) :
    Evolves q (dequeue q rank deviceID now).1 := by
  dsimp [dequeue]
  apply evolves_update
  intro e _ _
  unfold dispatch
  split
  · next hqueued =>
    split
    · exact ⟨rfl, fun h => by cases h⟩
    · exact ⟨rfl, fun _ => by rw [hqueued]; rfl⟩
  · exact ⟨rfl, id⟩

theorem evolves_acknowledgeCompletion {state : QueueState} {q' : QueueStore}
    (h : acknowledgeCompletion q executionID deviceID state now = .ok q') : Evolves q q' := by
  revert h
  fun_cases acknowledgeCompletion q executionID deviceID state now <;> rintro ⟨⟩
  next e hget _ hdispatched =>
  obtain ⟨he, rfl⟩ := Table.get_eq_some_iff.mp hget
  apply evolves_update
  intro e₁ he₁ hid
  obtain rfl := List.inj_on_of_nodup_map q.nodup he₁ he (of_decide_eq_true hid)
  exact ⟨rfl, fun _ => by rw [not_not.mp hdispatched]; rfl⟩

theorem evolves_cancel {q' : QueueStore}
    (h : cancel q deviceID executionID = .ok q') : Evolves q q' := by
  revert h
  fun_cases cancel q deviceID executionID <;> rintro ⟨⟩
  exact evolves_update fun _ _ _ => ⟨rfl, fun h => by cases h⟩

theorem evolves_requeueStale (dispatchTimeout now : ℤ) :
    Evolves q (requeueStale q dispatchTimeout now) := by
  apply evolves_update
  intro e _ hstale
  obtain ⟨hdispatched, _⟩ := (Bool.and_eq_true _ _).mp hstale
  exact ⟨rfl, fun _ => by rw [of_decide_eq_true hdispatched]; rfl⟩

theorem evolves_cleanupExpired (now : ℤ) : Evolves q (cleanupExpired q now) :=
  evolves_update fun _ _ _ => ⟨rfl, fun h => by cases h⟩

end QueueStore

def maxQueueMetadataEntries : ℕ := 1024

def isReserved (key : String) : Bool :=
  "pin_".toList.isPrefixOf key.toList || "guard_".toList.isPrefixOf key.toList

def ExecutionPin.putReserved (p : ExecutionPin) (m : Metadata) : Except QueueError Metadata :=
  if p.ownerTenant = "" ∨ p.version = "" ∨ p.approvalHash = "" then .error .pinMismatch
  else .ok (((m.set ("pin_owner_tenant", .str p.ownerTenant)).set
    ("pin_version", .str p.version)).set ("pin_approval_hash", .str p.approvalHash))

def ExecutionGuard.putReserved (g : ExecutionGuard) (m : Metadata) : Except QueueError Metadata :=
  if g.runID = "" ∨ g.grantID = "" then .error .guardFailed
  else .ok ((m.set ("guard_run_id", .str g.runID)).set ("guard_grant_id", .str g.grantID))

def putPin : Option ExecutionPin → Metadata → Except QueueError Metadata
  | none, m => .ok m
  | some p, m => p.putReserved m

def putGuard : Option ExecutionGuard → Metadata → Except QueueError Metadata
  | none, m => .ok m
  | some g, m => g.putReserved m

def QueuedExecution.metadataWithReserved (e : QueuedExecution) :
    Except QueueError (Option Metadata) :=
  let m := e.metadata.getD .empty
  if m.entries.any fun kv => isReserved kv.1 then .error .reservedMetadataKey
  else if e.pin.isNone ∧ e.guard.isNone then .ok e.metadata
  else if maxQueueMetadataEntries < m.entries.length then .error .metadataTooLarge
  else do
    let m ← putPin e.pin m
    let m ← putGuard e.guard m
    return some m

/-- The script reference, or else the script id. -/
def QueuedExecution.reference (e : QueuedExecution) : String :=
  if e.scriptRef = "" then e.scriptID else e.scriptRef

def QueuedExecution.entry (K : HashConfig) (maxAge : ℤ) (deviceID : String) (now : ℤ)
    (e : QueuedExecution) (metadata : Option Metadata) : QueueEntry where
  executionID := e.executionID
  deviceID := deviceID
  scriptRef := e.reference
  shell := e.shell
  parameters := e.parameters
  environment := e.environment
  timeout := e.timeout
  queuedAt := e.queuedAt.getD now
  expiresAt := e.expiresAt.getD (e.queuedAt.getD now + maxAge)
  dispatchedAt := none
  completedAt := none
  state := .queued
  paramHash := computeParamHash K e.reference deviceID e.parameters e.kind e.action
  generateAPIKey := e.generateAPIKey
  apiKeyTTL := e.apiKeyTTL
  apiKeyPermissions := e.apiKeyPermissions
  executionContext := e.executionContext
  metadata := metadata
  kind := e.kind
  action := e.action

def QueueStore.queueExecution (K : HashConfig) (maxAge : ℤ) (q : QueueStore) (deviceID : String)
    (now : ℤ) (x : QueuedExecution) : Except QueueError QueueStore :=
  match x.metadataWithReserved with
  | .error e => .error e
  | .ok metadata => enqueue q (x.entry K maxAge deviceID now metadata)

namespace QueueEntry

def metaValue (e : QueueEntry) (key : String) : Option MetaValue := e.metadata.bind (·.get key)

/-- A metadata text, empty when it is absent or of another type. -/
def metaString (e : QueueEntry) (key : String) : String :=
  match e.metaValue key with
  | some (.str s) => s
  | _ => ""

def metaBool (e : QueueEntry) (key : String) : Bool :=
  match e.metaValue key with
  | some (.bool b) => b
  | _ => false

def metaInt (e : QueueEntry) (key : String) : ℤ :=
  match e.metaValue key with
  | some (.int n) => n
  | _ => 0

def runID (e : QueueEntry) : String := e.metaString "workflow_run_id"

def jobID (e : QueueEntry) : String := e.metaString "job_id"

/-- The guard reference, when any `guard_` key is present. -/
def guard (e : QueueEntry) : Option ExecutionGuard :=
  if (e.metadata.getD .empty).entries.any fun kv => "guard_".toList.isPrefixOf kv.1.toList then
    some ⟨e.metaString "guard_run_id", e.metaString "guard_grant_id"⟩
  else none

end QueueEntry

end Cfgms.Script
