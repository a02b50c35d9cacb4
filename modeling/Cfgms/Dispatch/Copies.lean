import Cfgms.Dispatch.Synthesis
import Cfgms.Script.Dedup
import Cfgms.Script.Prepare

/-! # What was queued and what runs

An execution is copied field by field into a queue entry, back into an execution, into what is
prepared for the device, and into a retry. The entry has no field for the script version, and the
retry leaves out the environment, the run-as context and the settings of the API key.
-/

namespace Cfgms.Dispatch

open Go Script

/-- The execution does what was asked for. -/
structure Agrees (y x : QueuedExecution) : Prop where
  reference : y.reference = x.reference
  version : x.scriptVersion ≠ "" → y.scriptVersion = x.scriptVersion
  shell : y.shell = x.shell
  parameters : y.parameters = x.parameters
  environment : y.environment.get = x.environment.get
  timeout : y.timeout = x.timeout
  executionContext : y.executionContext = x.executionContext
  generateAPIKey : y.generateAPIKey = x.generateAPIKey
  apiKeyTTL : y.apiKeyTTL = x.apiKeyTTL
  apiKeyPermissions : y.apiKeyPermissions = x.apiKeyPermissions
  kind : y.kind = x.kind
  action : y.action = x.action

/-- What comes of an entry: the execution that is dequeued, what is prepared of it, and the
retry that some queue accepts when it ends. -/
structure Faithful (W : Wiring) (cfg : Config) (e : QueueEntry) (x : QueuedExecution) : Prop where
  dequeued : Agrees (entryToQueued e) x
  prepared : ∀ tenantID p,
    prepareExecutionForDevice W e.deviceID tenantID (entryToQueued e) = .ok p → p.Carries x
  retried : ∀ state executionID now q q', QueueEntry.retries e state →
    QueueStore.queueExecution cfg.hash cfg.maxAge q e.deviceID now (retryOf e executionID) =
      .ok q' → Agrees (retryOf e executionID) x

/-- An idempotent script that was not retried before, without a pin or a guard. -/
structure IsRetried (x : QueuedExecution) : Prop where
  kind : x.kind = .script
  idempotent : x.metaBool "idempotent" = true
  retryCount : x.metaInt "retry_count" < 1
  pin : x.pin = none
  guard : x.guard = none

/-- Nothing is asked for that a retry leaves out. -/
structure IsBare (x : QueuedExecution) : Prop where
  environment : x.environment.get = StringMap.empty.get
  executionContext : x.executionContext = ""
  generateAPIKey : x.generateAPIKey = false
  apiKeyTTL : x.apiKeyTTL = 0
  apiKeyPermissions : x.apiKeyPermissions = []
  action : x.action = none

def HasReserved (m : Option Metadata) : Prop :=
  ∃ k, isReserved k ∧ ((m.getD .empty).get k).isSome

theorem any_isReserved_iff (m : Option Metadata) :
    (m.getD .empty).entries.any (fun kv => isReserved kv.1) ↔ HasReserved m :=
  StringMap.any_key_iff _ isReserved

variable {x : QueuedExecution} {m : Option Metadata}

theorem not_hasReserved_of_ok (h : x.metadataWithReserved = .ok m) : ¬ HasReserved x.metadata := by
  rw [← any_isReserved_iff]
  intro hany
  unfold QueuedExecution.metadataWithReserved at h
  simp only [hany, if_true] at h
  cases h

theorem metadataWithReserved_of_plain (hpin : x.pin = none)
    (hguard : x.guard = none) (h : ¬ HasReserved x.metadata) :
    x.metadataWithReserved = .ok x.metadata := by
  rw [← any_isReserved_iff] at h
  simp [QueuedExecution.metadataWithReserved, if_neg h, hpin, hguard]

theorem putReserved_pin {p : ExecutionPin} {m m' : Metadata} (h : p.putReserved m = .ok m') :
    (m'.get "pin_approval_hash").isSome := by
  unfold ExecutionPin.putReserved at h
  split at h <;> cases h
  rw [StringMap.get_set, if_pos rfl]
  rfl

theorem putReserved_guard {g : ExecutionGuard} {m m' : Metadata} (h : g.putReserved m = .ok m') :
    (m'.get "guard_grant_id").isSome := by
  unfold ExecutionGuard.putReserved at h
  split at h <;> cases h
  rw [StringMap.get_set, if_pos rfl]
  rfl

theorem hasReserved_of_ok
    (h : x.metadataWithReserved = .ok m) (hx : ¬ (x.pin = none ∧ x.guard = none)) :
    HasReserved m := by
  unfold QueuedExecution.metadataWithReserved at h
  extract_lets m₀ at h
  split_ifs at h with hreserved hplain hlarge
  · exact absurd ⟨Option.isNone_iff_eq_none.mp hplain.1, Option.isNone_iff_eq_none.mp hplain.2⟩ hx
  cases hpin : putPin x.pin m₀ with
  | error e => simp [hpin, bind, Except.bind] at h
  | ok m₁ =>
    cases hguard : putGuard x.guard m₁ with
    | error e => simp [hpin, hguard, bind, Except.bind] at h
    | ok m₂ =>
      simp only [hpin, hguard, bind, Except.bind, pure, Except.pure, Except.ok.injEq] at h
      subst h
      cases hg : x.guard with
      | some g =>
        rw [hg] at hguard
        exact ⟨_, by decide, putReserved_guard hguard⟩
      | none =>
        rw [hg] at hguard
        cases hguard
        cases hp : x.pin with
        | none => exact absurd ⟨hp, hg⟩ hx
        | some p =>
          rw [hp] at hpin
          exact ⟨_, by decide, putReserved_pin hpin⟩

theorem hasReserved_retryOf (e : QueueEntry) (executionID : String) :
    HasReserved (retryOf e executionID).metadata ↔ HasReserved e.metadata := by
  constructor
  · rintro ⟨k, hk, hsome⟩
    refine ⟨k, hk, ?_⟩
    change (((e.metadata.getD .empty).set _).get k).isSome at hsome
    rwa [StringMap.get_set, if_neg] at hsome
    rintro rfl
    have hfree : isReserved "retry_count" = false := by decide
    exact Bool.false_ne_true (hfree.symm.trans hk)
  · rintro ⟨k, hk, hsome⟩
    refine ⟨k, hk, ?_⟩
    change (((e.metadata.getD .empty).set _).get k).isSome
    rw [StringMap.get_set]
    split
    · rfl
    · exact hsome

variable {K : HashConfig} {maxAge now : ℤ} {e : QueueEntry} {metadata : Option Metadata}

theorem reference_eq_scriptRef (h : x.scriptID = x.scriptRef) : x.reference = x.scriptRef := by
  unfold QueuedExecution.reference
  split
  · exact h
  · rfl

section

variable (hmade : e.asQueued = x.entry K maxAge e.deviceID now metadata)
include hmade

theorem agrees_entryToQueued_iff : Agrees (entryToQueued e) x ↔ x.scriptVersion = "" := by
  constructor
  · intro h
    by_contra hversion
    exact hversion (h.version hversion).symm
  · intro hversion
    constructor
    · exact (reference_eq_scriptRef rfl).trans (congrArg QueueEntry.scriptRef hmade)
    · exact fun hne => absurd hversion hne
    · exact congrArg QueueEntry.shell hmade
    · exact congrArg QueueEntry.parameters hmade
    · exact congrArg (fun e => e.environment.get) hmade
    · exact congrArg QueueEntry.timeout hmade
    · exact congrArg QueueEntry.executionContext hmade
    · exact congrArg QueueEntry.generateAPIKey hmade
    · exact congrArg QueueEntry.apiKeyTTL hmade
    · exact congrArg QueueEntry.apiKeyPermissions hmade
    · exact congrArg QueueEntry.kind hmade
    · exact congrArg QueueEntry.action hmade

theorem agrees_retryOf_iff (executionID : String) :
    Agrees (retryOf e executionID) x ↔ x.scriptVersion = "" ∧ x.kind = .script ∧ IsBare x := by
  constructor
  · intro h
    refine ⟨?_, h.kind.symm, ?_⟩
    · by_contra hversion
      exact hversion (h.version hversion).symm
    · exact ⟨h.environment.symm, h.executionContext.symm, h.generateAPIKey.symm, h.apiKeyTTL.symm,
        h.apiKeyPermissions.symm, h.action.symm⟩
  · rintro ⟨hversion, hkind, hbare⟩
    have hqueued := (agrees_entryToQueued_iff hmade).mpr hversion
    exact { hqueued with
      environment := hbare.environment.symm
      executionContext := hbare.executionContext.symm
      generateAPIKey := hbare.generateAPIKey.symm
      apiKeyTTL := hbare.apiKeyTTL.symm
      apiKeyPermissions := hbare.apiKeyPermissions.symm
      kind := hkind.symm
      action := hbare.action.symm }

theorem carries_of_made {W : Wiring} {tenantID : String} {p : PreparedExecution}
    (h : prepareExecutionForDevice W e.deviceID tenantID (entryToQueued e) = .ok p) :
    p.Carries x := by
  have hp := prepareExecutionForDevice_carries h
  constructor
  · exact hp.reference.trans
      ((reference_eq_scriptRef rfl).trans (congrArg QueueEntry.scriptRef hmade))
  · exact hp.shell.trans (congrArg QueueEntry.shell hmade)
  · exact hp.timeout.trans (congrArg QueueEntry.timeout hmade)
  · intro k hk
    have hkey : e.generateAPIKey = x.generateAPIKey := congrArg QueueEntry.generateAPIKey hmade
    have henvironment : e.environment = x.environment := congrArg QueueEntry.environment hmade
    refine (hp.environment k (hk.imp_left fun h => hkey.trans h)).trans ?_
    exact congrArg (StringMap.get · k) henvironment

/-- A retry is accepted by a queue exactly if the execution has no pin and no guard. -/
theorem isRetried_iff (hmetadata : x.metadataWithReserved = .ok metadata) :
    IsRetried x ↔ QueueEntry.retries e .failed ∧ ¬ HasReserved e.metadata := by
  have hcopied : e.metadata = metadata := congrArg QueueEntry.metadata hmade
  have hkind : e.kind = x.kind := congrArg QueueEntry.kind hmade
  have hplain : ¬ HasReserved e.metadata → x.pin = none ∧ x.guard = none := by
    intro h
    by_contra hx
    exact h (hcopied ▸ hasReserved_of_ok hmetadata hx)
  have hsame : x.pin = none → x.guard = none → e.metadata = x.metadata := by
    intro hpin hguard
    have hok := metadataWithReserved_of_plain hpin hguard (not_hasReserved_of_ok hmetadata)
    exact hcopied.trans (Except.ok.inj (hmetadata.symm.trans hok))
  constructor
  · intro h
    have hm := hsame h.pin h.guard
    refine ⟨?_, hm ▸ not_hasReserved_of_ok hmetadata⟩
    have hbool : e.metaBool "idempotent" = true := by
      rw [QueueEntry.metaBool, QueueEntry.metaValue, hm]
      exact h.idempotent
    have hint : e.metaInt "retry_count" < 1 := by
      rw [QueueEntry.metaInt, QueueEntry.metaValue, hm]
      exact h.retryCount
    simp [QueueEntry.retries, hkind, h.kind, hbool, hint]
  · rintro ⟨hretries, hreserved⟩
    obtain ⟨hpin, hguard⟩ := hplain hreserved
    have hm := hsame hpin hguard
    obtain ⟨hscript, -, hbool, hint⟩ : e.kind = .script ∧ True ∧ e.metaBool "idempotent" = true ∧
        e.metaInt "retry_count" < 1 := by
      simpa [QueueEntry.retries] using hretries
    rw [QueueEntry.metaBool, QueueEntry.metaValue, hm] at hbool
    rw [QueueEntry.metaInt, QueueEntry.metaValue, hm] at hint
    exact ⟨hkind.symm.trans hscript, hbool, hint, hpin, hguard⟩

end

theorem retries_failed {state : QueueState} (h : QueueEntry.retries e state) :
    QueueEntry.retries e .failed := by
  simp only [QueueEntry.retries, decide_eq_true_eq] at h ⊢
  exact ⟨h.1, trivial, h.2.2⟩

/-- After every history of queue calls, an execution that is handed out was asked for, and it
and its retry are what was asked for exactly if no version was asked for and a retried one asks
for nothing that the retry leaves out. -/
theorem faithful_iff (W : Wiring) (cfg : Config) (history : List (ℤ × QueueCall))
    (rank : String → ℕ) (deviceID : String) (time : ℤ) {e : QueueEntry}
    (he : e ∈ (QueueStore.dequeue (Backlog.after cfg.hash cfg.maxAge history).queue rank deviceID
      time).2) :
    ∃ x, (Backlog.after cfg.hash cfg.maxAge history).requests e.executionID = some x ∧
      (Faithful W cfg e x ↔ x.scriptVersion = "" ∧ (IsRetried x → IsBare x)) := by
  obtain ⟨-, -, e₀, he₀, hsame, -⟩ := QueueStore.mem_dequeue _ he
  obtain ⟨x, now, metadata, hx, hmetadata, hmade₀⟩ := Backlog.made_after history e₀ he₀
  have hmade : e.asQueued = x.entry cfg.hash cfg.maxAge e.deviceID now metadata := by
    rw [show e.deviceID = e.asQueued.deviceID from rfl, hsame]
    exact hmade₀
  refine ⟨x, ?_, ?_⟩
  · rw [show e.executionID = e.asQueued.executionID from rfl, hsame]
    exact hx
  constructor
  · intro h
    refine ⟨(agrees_entryToQueued_iff hmade).mp h.dequeued, fun hretried => ?_⟩
    obtain ⟨hretries, hreserved⟩ := (isRetried_iff hmade hmetadata).mp hretried
    -- The empty queue accepts the retry.
    have hok := metadataWithReserved_of_plain rfl rfl (mt (hasReserved_retryOf e "").mp hreserved)
    have haccepted : ∃ q', QueueStore.queueExecution cfg.hash cfg.maxAge .empty e.deviceID 0
        (retryOf e "") = .ok q' := by
      simp only [QueueStore.queueExecution, hok]
      exact ⟨_, rfl⟩
    obtain ⟨q', hq'⟩ := haccepted
    have hagrees := h.retried _ _ _ _ _ hretries hq'
    exact ((agrees_retryOf_iff hmade "").mp hagrees).2.2
  · rintro ⟨hversion, hbare⟩
    constructor
    · exact (agrees_entryToQueued_iff hmade).mpr hversion
    · exact fun tenantID p hp => carries_of_made hmade hp
    · intro state executionID t q q' hretries haccepted
      have hreserved : ¬ HasReserved e.metadata := by
        rw [← hasReserved_retryOf e executionID]
        unfold QueueStore.queueExecution at haccepted
        split at haccepted
        · cases haccepted
        · next hok => exact not_hasReserved_of_ok hok
      have hretried := (isRetried_iff hmade hmetadata).mpr ⟨retries_failed hretries, hreserved⟩
      exact (agrees_retryOf_iff hmade executionID).mpr ⟨hversion, hretried.kind, hbare hretried⟩

/-- An idempotent script in a given version, with an environment. -/
def versioned (version : String) (environment : StringMap String) : QueuedExecution where
  executionID := "exec-1"
  scriptID := "backup"
  scriptVersion := version
  scriptRef := "backup"
  shell := "bash"
  parameters := .empty
  environment := environment
  timeout := 0
  queuedAt := none
  expiresAt := none
  generateAPIKey := false
  apiKeyTTL := 0
  apiKeyPermissions := []
  executionContext := ""
  metadata := some (StringMap.empty.set ("idempotent", .bool true))
  kind := .script
  action := none
  pin := none
  guard := none

def twoVersions : Wiring where
  library := .shared fun _ version =>
    if version = "1.0.0" then some ⟨"1.0.0", "old", none⟩ else some ⟨"2.0.0", "new", none⟩
  approvalHash _ _ := ""
  scopeLookup := none
  guardResolver := none
  generateKey := none
  controllerURL := ""

def queuedFor (x : QueuedExecution) : Backlog :=
  .after plainConfig.hash plainConfig.maxAge [(0, .queueExecution "dev-1" x)]

def handedOut (x : QueuedExecution) : List QueueEntry :=
  (QueueStore.dequeue (queuedFor x).queue (fun _ => 0) "dev-1" 0).2

theorem faithful_iff_latest : ∃ e ∈ handedOut (versioned "" .empty),
      Faithful twoVersions plainConfig e (versioned "" .empty) := by
  have hids : (handedOut (versioned "" .empty)).map QueueEntry.executionID = ["exec-1"] := by
    decide +kernel
  obtain ⟨e, he, hid⟩ := List.mem_map.mp (hids ▸ List.mem_singleton_self "exec-1")
  obtain ⟨x, hx, hiff⟩ := faithful_iff twoVersions plainConfig _ _ _ _ he
  rw [hid] at hx
  cases hx
  exact ⟨e, he, hiff.mpr ⟨rfl, fun _ => ⟨rfl, rfl, rfl, rfl, rfl, rfl⟩⟩⟩

/-- A request for version 1.0.0 is handed out without a version, and the latest version is
prepared. The retry of a request with an environment has none. -/
theorem version_and_environment_lost : (∃ e ∈ handedOut (versioned "1.0.0" .empty),
      (queuedFor (versioned "1.0.0" .empty)).requests e.executionID =
        some (versioned "1.0.0" .empty) ∧
      (entryToQueued e).scriptVersion = "" ∧
      ((prepareExecutionForDevice twoVersions "dev-1" "" (entryToQueued e)).toOption.map
        (·.scriptVersion)) = some "2.0.0") ∧
    ∃ e ∈ handedOut (versioned "" (StringMap.empty.set ("MODE", "dry-run"))),
      QueueEntry.retries e .failed ∧ (entryToQueued e).environment.get "MODE" = some "dry-run" ∧
      (retryOf e "exec-2").environment.get "MODE" = none := by
  constructor
  · have hout : (handedOut (versioned "1.0.0" .empty)).any fun e =>
        decide (e.executionID = "exec-1") &&
        decide (((prepareExecutionForDevice twoVersions "dev-1" "" (entryToQueued e)).toOption.map
          (·.scriptVersion)) = some "2.0.0") := by decide +kernel
    obtain ⟨e, he, h⟩ := List.any_eq_true.mp hout
    obtain ⟨hid, hprepared⟩ := (Bool.and_eq_true _ _).mp h
    refine ⟨e, he, ?_, rfl, of_decide_eq_true hprepared⟩
    rw [of_decide_eq_true hid]
    rfl
  · have hout : (handedOut (versioned "" (StringMap.empty.set ("MODE", "dry-run")))).any fun e =>
        QueueEntry.retries e .failed &&
        decide ((entryToQueued e).environment.get "MODE" = some "dry-run") := by decide +kernel
    obtain ⟨e, he, h⟩ := List.any_eq_true.mp hout
    obtain ⟨hretries, henvironment⟩ := (Bool.and_eq_true _ _).mp h
    exact ⟨e, he, hretries, of_decide_eq_true henvironment, rfl⟩

end Cfgms.Dispatch
