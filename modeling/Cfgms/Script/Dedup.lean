import Cfgms.Go.Strings
import Cfgms.Machine.Runs
import Cfgms.Script.Queue

/-! # De-duplication of queued executions

A backlog is a queue with the requests that its entries were made for. After every history of
queue calls, each entry carries the key of its request, so that a refusal says no more than
that the keys agree.
-/

namespace Cfgms.Script

open Go Ordered

/-- The content that a command carries in its metadata. -/
def QueuedExecution.inlineContent (x : QueuedExecution) : Option String :=
  match (x.metadata.getD .empty).get "inline_script_content" with
  | some (.str s) => some s
  | _ => none

structure StewardActionSpec.Same (a b : StewardActionSpec) : Prop where
  verb : a.verb = b.verb
  targetKind : a.targetKind = b.targetKind
  targetName : a.targetName = b.targetName
  parameters : a.parameters.get = b.parameters.get

/-- Two requests for exactly the same thing. -/
structure QueuedExecution.RunsSame (x y : QueuedExecution) : Prop where
  reference : x.reference = y.reference
  version : x.scriptVersion = y.scriptVersion
  inlineContent : x.inlineContent = y.inlineContent
  shell : x.shell = y.shell
  parameters : x.parameters.get = y.parameters.get
  environment : x.environment.get = y.environment.get
  executionContext : x.executionContext = y.executionContext
  kind : x.kind = y.kind
  action : Option.Rel StewardActionSpec.Same x.action y.action

/-- The key that a request gets on a device. -/
def QueuedExecution.paramHash (K : HashConfig) (x : QueuedExecution) (deviceID : String) :
    String :=
  computeParamHash K x.reference deviceID x.parameters x.kind x.action

/-- The fields that the key of a request is made of. -/
structure QueuedExecution.SameKey (x y : QueuedExecution) : Prop where
  reference : x.reference = y.reference
  parameters : x.parameters.get = y.parameters.get
  kind : x.kind = y.kind
  action : x.kind = .stewardAction → Option.Rel StewardActionSpec.Same x.action y.action

/-- The hash has no collisions, and the texts stand for what they are made of. The text of
parameters shows where it ends. -/
structure HashConfig.Faithful (K : HashConfig) : Prop where
  sha256 : Function.Injective K.sha256
  marshal : ∀ p p', p.get = p'.get → K.marshalParameters p = K.marshalParameters p'
  parameters : ∀ p p' s s', K.marshalParameters p ++ s = K.marshalParameters p' ++ s' →
    p.get = p'.get ∧ s = s'
  action : ∀ a a', K.marshalAction a = K.marshalAction a' ↔ Option.Rel StewardActionSpec.Same a a'

/-- The key covers the reference, the parameters and the action, and nothing else. -/
theorem paramHash_eq_iff {K : HashConfig} (hK : K.Faithful) {x y : QueuedExecution}
    (hx : '|' ∉ x.reference.toList) (hy : '|' ∉ y.reference.toList) (deviceID : String) :
    x.paramHash K deviceID = y.paramHash K deviceID ↔ x.SameKey y := by
  unfold QueuedExecution.paramHash computeParamHash
  constructor
  · intro h
    have hlist := congrArg String.toList (hK.sha256 h)
    have hbar : "|".toList = ['|'] := rfl
    simp only [String.toList_append, hbar, List.append_assoc, List.cons_append, List.nil_append]
      at hlist
    have hcut := (cut_eq_some_iff.mpr ⟨rfl, hx⟩).symm.trans (cut_eq_some_iff.mpr ⟨hlist, hy⟩)
    obtain ⟨href, hrest⟩ := Prod.mk.inj (Option.some.inj hcut)
    rw [List.append_cancel_left_eq, List.cons.injEq, ← String.toList_append, ← String.toList_append]
      at hrest
    obtain ⟨hparameters, hkind⟩ := hK.parameters _ _ _ _ (String.toList_injective hrest.2)
    have hsame : x.kind = y.kind ∧ (x.kind = .stewardAction →
        K.marshalAction x.action = K.marshalAction y.action) := by
      cases hx' : x.kind <;> cases hy' : y.kind <;> simp [hx', hy'] at hkind ⊢
      exact hkind
    exact ⟨String.toList_injective href, hparameters, hsame.1,
      fun haction => (hK.action _ _).mp (hsame.2 haction)⟩
  · rintro ⟨href, hparameters, hkind, haction⟩
    rw [href, hK.marshal _ _ hparameters, hkind]
    cases hy' : y.kind with
    | script => rfl
    | stewardAction =>
      dsimp only
      rw [(hK.action _ _).mpr (haction (hkind.trans hy'))]

inductive QueueCall where
  | queueExecution (deviceID : String) (x : QueuedExecution)
  | dequeue (rank : String → ℕ) (deviceID : String)
  | acknowledgeCompletion (executionID deviceID : String) (state : QueueState)
  | cancel (deviceID executionID : String)
  | requeueStale (dispatchTimeout : ℤ)
  | cleanupExpired

/-- A queue, and for each execution id the request that its entry was made for. -/
structure Backlog where
  queue : QueueStore
  requests : String → Option QueuedExecution

namespace Backlog

def empty : Backlog := ⟨.empty, fun _ => none⟩

def update (b : Backlog) (r : Except QueueError QueueStore) : Backlog × Except QueueError Unit :=
  match r with
  | .error e => (b, .error e)
  | .ok q => ({ b with queue := q }, .ok ())

def step (K : HashConfig) (maxAge : ℤ) (b : Backlog) :
    ℤ × QueueCall → Backlog × Except QueueError Unit
  | (now, .queueExecution deviceID x) =>
    match QueueStore.queueExecution K maxAge b.queue deviceID now x with
    | .error e => (b, .error e)
    | .ok q => (⟨q, Function.update b.requests x.executionID (some x)⟩, .ok ())
  | (now, .dequeue rank deviceID) =>
    b.update (.ok (QueueStore.dequeue b.queue rank deviceID now).1)
  | (now, .acknowledgeCompletion executionID deviceID state) =>
    b.update (QueueStore.acknowledgeCompletion b.queue executionID deviceID state now)
  | (_, .cancel deviceID executionID) => b.update (QueueStore.cancel b.queue deviceID executionID)
  | (now, .requeueStale dispatchTimeout) =>
    b.update (.ok (QueueStore.requeueStale b.queue dispatchTimeout now))
  | (now, .cleanupExpired) => b.update (.ok (QueueStore.cleanupExpired b.queue now))

def machine (K : HashConfig) (maxAge : ℤ) :
    Transducer Backlog (ℤ × QueueCall) (Except QueueError Unit) :=
  ⟨step K maxAge⟩

/-- Every entry was made for its request. -/
def Made (K : HashConfig) (maxAge : ℤ) (b : Backlog) : Prop :=
  ∀ e ∈ b.queue.rows, ∃ x now metadata, b.requests e.executionID = some x ∧
    x.metadataWithReserved = .ok metadata ∧
    e.asQueued = x.entry K maxAge e.deviceID now metadata

/-- Every entry has the key of its request. -/
def Derived (K : HashConfig) (b : Backlog) : Prop :=
  ∀ e ∈ b.queue.rows, ∃ x, b.requests e.executionID = some x ∧
    e.paramHash = x.paramHash K e.deviceID

variable {K : HashConfig} {maxAge : ℤ} {b : Backlog}

section

variable (h : b.Made K maxAge)
include h

theorem Made.update {r : Except QueueError QueueStore}
    (hr : ∀ q, r = .ok q → QueueStore.Evolves b.queue q) : (b.update r).1.Made K maxAge := by
  cases r with
  | error e => exact h
  | ok q =>
    intro e' he'
    obtain ⟨e, he, hsame, _⟩ := hr q rfl e' he'
    rw [show e'.executionID = e'.asQueued.executionID from rfl,
      show e'.deviceID = e'.asQueued.deviceID from rfl, hsame]
    exact h e he

theorem Made.store {x : QueuedExecution} (deviceID : String) (now : ℤ)
    {metadata : Option Metadata} (hmetadata : x.metadataWithReserved = .ok metadata) :
    Made K maxAge ⟨b.queue.store (x.entry K maxAge deviceID now metadata),
      Function.update b.requests x.executionID (some x)⟩ := by
  intro e he
  by_cases hid : e.executionID = x.executionID
  · have hget : (b.queue.store (x.entry K maxAge deviceID now metadata)).get x.executionID =
        some (x.entry K maxAge deviceID now metadata) :=
      (Table.get_store _).trans (if_pos rfl)
    cases hget.symm.trans (Table.get_eq_some_iff.mpr ⟨he, hid⟩)
    exact ⟨x, now, metadata, Function.update_self _ _ _, hmetadata, rfl⟩
  · rcases Table.mem_store he with rfl | hold
    · exact absurd rfl hid
    · obtain ⟨y, t, m, hy, hmade⟩ := h e hold
      exact ⟨y, t, m, (Function.update_of_ne hid _ _).trans hy, hmade⟩

theorem made_step (c : ℤ × QueueCall) : (step K maxAge b c).1.Made K maxAge := by
  obtain ⟨now, c⟩ := c
  cases c with
  | queueExecution deviceID x =>
    simp only [step, QueueStore.queueExecution]
    cases hmetadata : x.metadataWithReserved with
    | error e => exact h
    | ok metadata =>
      simp only [QueueStore.enqueue]
      cases QueueStore.duplicates b.queue (x.entry K maxAge deviceID now metadata).deviceID
          (x.entry K maxAge deviceID now metadata).paramHash
      · exact h.store deviceID now hmetadata
      · exact h
  | dequeue rank deviceID =>
    apply h.update
    rintro q ⟨⟩
    exact QueueStore.evolves_dequeue rank deviceID now
  | acknowledgeCompletion =>
    exact h.update fun q hq => QueueStore.evolves_acknowledgeCompletion hq
  | cancel => exact h.update fun q hq => QueueStore.evolves_cancel hq
  | requeueStale dispatchTimeout =>
    apply h.update
    rintro q ⟨⟩
    exact QueueStore.evolves_requeueStale dispatchTimeout now
  | cleanupExpired =>
    apply h.update
    rintro q ⟨⟩
    exact QueueStore.evolves_cleanupExpired now

def after (K : HashConfig) (maxAge : ℤ) (history : List (ℤ × QueueCall)) : Backlog :=
  (machine K maxAge).final .empty history

omit h in
theorem made_after (history : List (ℤ × QueueCall)) : (after K maxAge history).Made K maxAge := by
  apply (machine K maxAge).along_invariant (C := fun _ _ => True)
  · exact fun b c h _ => made_step h c
  · intro e he
    cases he
  · exact Transducer.along_of_forall fun _ _ => trivial

theorem Made.derived : b.Derived K := by
  intro e he
  obtain ⟨x, now, metadata, hx, _, hmade⟩ := h e he
  exact ⟨x, hx, congrArg QueueEntry.paramHash hmade⟩

end

theorem derived_after (history : List (ℤ × QueueCall)) : (after K maxAge history).Derived K :=
  (made_after history).derived

def Queued (b : Backlog) (deviceID : String) (x : QueuedExecution) : Prop :=
  ∃ e ∈ b.queue.rows, e.deviceID = deviceID ∧ e.state = .queued ∧
    b.requests e.executionID = some x

theorem bind_ne_error {ε α γ : Type} {e : ε} {r : Except ε α} {f : α → Except ε γ}
    (hr : r ≠ .error e) (hf : ∀ a, f a ≠ .error e) : r >>= f ≠ .error e := by
  cases r with
  | error e' => exact fun h => hr (congrArg Except.error (Except.error.inj h))
  | ok a => exact hf a

theorem metadataWithReserved_ne_duplicate (x : QueuedExecution) :
    x.metadataWithReserved ≠ .error .duplicateExecution := by
  unfold QueuedExecution.metadataWithReserved
  extract_lets m
  split_ifs
  · simp
  · simp
  · simp
  apply bind_ne_error
  · cases x.pin with
    | none => simp [putPin]
    | some p =>
      simp only [putPin, ExecutionPin.putReserved]
      split <;> simp
  · intro m
    apply bind_ne_error
    · cases x.guard with
      | none => simp [putGuard]
      | some g =>
        simp only [putGuard, ExecutionGuard.putReserved]
        split <;> simp
    · simp [pure, Except.pure]

theorem duplicates_iff (h : b.Derived K) {deviceID key : String} :
    QueueStore.duplicates b.queue deviceID key ↔
      ∃ x, b.Queued deviceID x ∧ x.paramHash K deviceID = key := by
  simp only [QueueStore.duplicates, List.any_eq_true, decide_eq_true_eq]
  constructor
  · rintro ⟨e, he, rfl, rfl, hqueued⟩
    obtain ⟨x, hx, hkey⟩ := h e he
    exact ⟨x, ⟨e, he, rfl, hqueued, hx⟩, hkey.symm⟩
  · rintro ⟨x, ⟨e, he, rfl, hqueued, hx⟩, rfl⟩
    obtain ⟨y, hy, hkey⟩ := h e he
    cases hx.symm.trans hy
    exact ⟨e, he, rfl, hkey, hqueued⟩

theorem step_eq_duplicate_iff (h : b.Derived K) (now : ℤ) (deviceID : String)
    (x : QueuedExecution) :
    (step K maxAge b (now, .queueExecution deviceID x)).2 = .error .duplicateExecution ↔
      x.metadataWithReserved.isOk ∧
        ∃ y, b.Queued deviceID y ∧ y.paramHash K deviceID = x.paramHash K deviceID := by
  rw [← duplicates_iff h]
  simp only [step, QueueStore.queueExecution]
  cases hmetadata : x.metadataWithReserved with
  | error e =>
    have hne : e ≠ .duplicateExecution := by
      rintro rfl
      exact metadataWithReserved_ne_duplicate x hmetadata
    simp [hne, Except.isOk, Except.toBool]
  | ok metadata =>
    have hkey : QueueStore.duplicates b.queue (x.entry K maxAge deviceID now metadata).deviceID
        (x.entry K maxAge deviceID now metadata).paramHash =
        QueueStore.duplicates b.queue deviceID (x.paramHash K deviceID) := rfl
    simp only [QueueStore.enqueue, hkey]
    cases QueueStore.duplicates b.queue deviceID (x.paramHash K deviceID)
    · simp
    · simp [Except.isOk, Except.toBool]

end Backlog

end Cfgms.Script
