import Cfgms.EntityGraph.Ingest

/-! # What the sources assert

The row of an entity and a source stands for the last thing that the source has said of the
entity, or for nothing after a retraction. It does so as long as an observation is dropped as a
repetition only where it repeats the kind as well as the payload.
-/

namespace Cfgms.EntityGraph

open Ordered Fallible

namespace Arrival

def subject : Arrival → String
  | .observed obs _ => obs.subject
  | .retracted _ _ _ subject => subject

def source : Arrival → String
  | .observed obs _ => obs.source
  | .retracted _ source _ _ => source

def kind : Arrival → ObservationKind
  | .observed obs _ => obs.kind
  | .retracted _ _ _ _ => .absence

def payload : Arrival → Option Payload
  | .observed obs _ => obs.payload
  | .retracted _ _ _ _ => some .empty

end Arrival

def statesEntity : ObservationKind → Bool
  | .state | .presence | .absence => true
  | _ => false

/-- The last word of the source on the entity. -/
def lastStated (h : List Arrival) (x s : String) : Option Arrival :=
  (h.filter fun a => a.subject = x && a.source = s && statesEntity a.kind).getLast?

/-- The kind and the payload of the last word of the source, unless it is an absence. -/
def assertedBy (h : List Arrival) (x s : String) : Option (ObservationKind × Option Payload) :=
  ((lastStated h x s).filter fun a => a.kind ≠ .absence).map fun a => (a.kind, a.payload)

/-- The kind and the payload of the row of the entity and the source. -/
def Graph.assertion (g : Graph) (x s : String) : Option (ObservationKind × Option Payload) :=
  (g.current.get (x, s)).map fun r => (r.kind, r.payload)

def Faithful (g : Graph) (h : List Arrival) (x s : String) : Prop :=
  g.assertion x s = assertedBy h x s

/-- What a source asserts after an observation, by what it has asserted before. -/
def said (before : Option (ObservationKind × Option Payload)) (kind : ObservationKind)
    (payload : Option Payload) : Option (ObservationKind × Option Payload) :=
  match kind with
  | .state | .presence => some (kind, payload)
  | .absence => none
  | _ => before

/-- What an observation that is not dropped leaves in the row. -/
def written (before : Option (ObservationKind × Option Payload)) (kind : ObservationKind)
    (payload : Option Payload) : Option (ObservationKind × Option Payload) :=
  match kind with
  | .driftDiff | .lifecycle | .applyOutcome => before
  | .absence => none
  | _ => some (kind, payload)

/-- An observation with the payload of the row has its kind, and one that says nothing on the
entity leaves the row. -/
def PlainKind (before : Option (ObservationKind × Option Payload)) (kind : ObservationKind)
    (payload : Option Payload) : Prop :=
  match kind with
  | .state | .presence | .absence => ∀ k, before = some (k, payload) → k = kind
  | .desiredState | .other _ => ∃ k, before = some (k, payload)
  | .driftDiff | .lifecycle | .applyOutcome => True

/-- An arrival does to the row what it says; a retraction reaches it. -/
def Plain (before : Option (ObservationKind × Option Payload)) : Arrival → Prop
  | .observed obs _ => PlainKind before obs.kind obs.payload
  | .retracted pattern _ _ _ => pattern.entity = none → before = none

/-- Every arrival for the entity and the source is plain after the ones before it. -/
def PlainAlong (h : List Arrival) (x s : String) : Prop :=
  ∀ p a q, h = p ++ a :: q → a.subject = x → a.source = s → Plain (assertedBy p x s) a

/-- The row is faithful before every arrival and at the end. -/
def FaithfulThroughout (g : Graph) (es : List Entry) (x s : String) : Prop :=
  (∀ p e q, es = p ++ e :: q → Faithful e.before (p.map Entry.arrival) x s) ∧
    Faithful g (es.map Entry.arrival) x s

section History

variable {h : List Arrival} {a : Arrival} {x s : String}

theorem lastStated_concat : lastStated (h ++ [a]) x s =
      if a.subject = x ∧ a.source = s ∧ statesEntity a.kind then some a else lastStated h x s := by
  unfold lastStated
  split
  · next hlast => simp [hlast]
  next hother =>
  have hnot : ¬((a.subject = x ∧ a.source = s) ∧ statesEntity a.kind) := by
    rwa [and_assoc]
  simp [hnot]

theorem assertedBy_concat : assertedBy (h ++ [a]) x s =
      if a.subject = x ∧ a.source = s then said (assertedBy h x s) a.kind a.payload
      else assertedBy h x s := by
  rw [assertedBy, lastStated_concat, assertedBy]
  by_cases hof : a.subject = x ∧ a.source = s
  · cases hkind : a.kind <;> simp [hof, hkind, statesEntity, said, Option.filter]
  have hother : ¬(a.subject = x ∧ a.source = s ∧ statesEntity a.kind) :=
    fun hall => hof ⟨hall.1, hall.2.1⟩
  simp [hof, hother]

theorem assertedBy_kind_ne {k : ObservationKind} {p : Option Payload}
    (hsome : assertedBy h x s = some (k, p)) : k ≠ .absence := by
  obtain ⟨b, hb, heq⟩ := Option.map_eq_some_iff.mp hsome
  obtain ⟨-, hkind⟩ := Option.filter_eq_some_iff.mp hb
  obtain ⟨rfl, -⟩ := Prod.mk.inj heq
  simpa using hkind

end History

namespace Graph

variable {g g' : Graph}
variable {obs : Observation}

theorem isRepeated_iff :
    g.isRepeated obs ↔ ∃ k, g.assertion obs.subject obs.source = some (k, obs.payload) := by
  unfold isRepeated assertion
  cases g.current.get (obs.subject, obs.source) with
  | none | some => simp

variable {x s : String}

theorem assertion_congr (h : g'.current = g.current) : g'.assertion x s = g.assertion x s := by
  rw [assertion, assertion, h]

theorem assertion_of_store {row : CurrentRow} (h : g'.current = g.current.store row) :
    g'.assertion x s = if row.key = (x, s) then some (row.kind, row.payload) else g.assertion x s := by
  rw [assertion, h, Table.get_store]
  split <;> rfl

theorem assertion_of_erase {k : String × String} (h : g'.current = g.current.erase k) :
    g'.assertion x s = if k = (x, s) then none else g.assertion x s := by
  rw [assertion, h, Table.get_erase]
  split <;> rfl

theorem dispatch_assertion {n : ℕ} (hentity : isEntity obs.subject)
    (hrun : g.dispatchProjectionUpdate obs n = .ok g') :
    g'.assertion x s =
      if (obs.subject, obs.source) = (x, s) then
        written (g.assertion x s) obs.kind obs.payload
      else g.assertion x s := by
  rw [dispatchProjectionUpdate, if_pos hentity] at hrun
  cases hrun
  have hcurrent := updateEntityProjection_current (g := g) obs n
  cases hkind : obs.kind <;> simp only [hkind, written] at hcurrent ⊢
  case driftDiff | lifecycle | applyOutcome => rw [assertion_congr hcurrent, ite_self]
  case absence => exact assertion_of_erase hcurrent
  case state | presence | desiredState | other => rw [assertion_of_store hcurrent, hkind]; rfl

theorem dispatch_assertion_edge {n : ℕ} (hedge : isEntity obs.subject = false)
    (hrun : g.dispatchProjectionUpdate obs n = .ok g') : g'.assertion x s = g.assertion x s := by
  rw [dispatchProjectionUpdate, if_neg (by simp [hedge])] at hrun
  exact assertion_congr (updateEdgeProjection_current hrun)

theorem ingest_assertion {t : String} (hx : isEntity x)
    (hown : ownerImmutableSubject x = false) (hstep : g.ingest obs t = .ok g') :
    g'.assertion x s =
      if (obs.subject, obs.source) = (x, s) ∧ g.isRepeated obs = false then
        written (g.assertion x s) obs.kind obs.payload
      else g.assertion x s := by
  rcases ingest_cases hstep with ⟨hreject, rfl⟩ | ⟨hrepeat, rfl⟩ | ⟨⟨-, hnew⟩, hrun⟩
  · have hother : (obs.subject, obs.source) ≠ (x, s) := by
      rintro heq
      obtain ⟨rfl, -⟩ := Prod.mk.inj heq
      simp [ownerRejected, hown] at hreject
    simp [hother]
  · simp [hrepeat]
  · have hbefore : ((g.insertPayload obs.payload).appendLog (logRowOf obs)).assertion x s =
        g.assertion x s := assertion_congr (by simp)
    cases hkind : isEntity obs.subject with
    | true => simp [dispatch_assertion hkind hrun, hbefore, hnew]
    | false =>
      have hother : (obs.subject, obs.source) ≠ (x, s) := by
        rintro heq
        obtain ⟨rfl, -⟩ := Prod.mk.inj heq
        simp [hkind] at hx
      simp [dispatch_assertion_edge hkind hrun, hbefore, hother]

theorem retract_assertion {pattern : ClaimScopePattern} {source subject : String} {asOf : ℤ}
    (hstep : g.retractSubject pattern source asOf subject = .ok g') :
    g'.assertion x s =
      if (subject, source) = (x, s) ∧ pattern.entity ≠ none then none else g.assertion x s := by
  unfold retractSubject at hstep
  cases hpattern : pattern.entity with
  | some p =>
    simp only [hpattern] at hstep
    cases hstep
    rw [assertion_of_erase (g := g) (k := (subject, source)) (by simp [appendAbsenceLog])]
    simp
  | none =>
    simp only [hpattern] at hstep
    split at hstep <;> cases hstep
    rw [assertion_congr (g := g) (by simp [appendAbsenceLog])]
    simp

end Graph

section Step

variable {g g' : Graph} {h : List Arrival} {a : Arrival} {x s : String} (hx : isEntity x)
  (hown : ownerImmutableSubject x = false)

include hx hown

theorem faithful_ingest_iff {obs : Observation} {t : String} (hbefore : Faithful g h x s)
    (hstep : g.ingest obs t = .ok g') :
    Faithful g' (h ++ [.observed obs t]) x s ↔
      (obs.subject = x → obs.source = s → Plain (assertedBy h x s) (.observed obs t)) := by
  rw [Faithful, assertedBy_concat, Graph.ingest_assertion hx hown hstep, hbefore]
  simp only [Arrival.subject, Arrival.source, Arrival.kind, Arrival.payload, Prod.mk.injEq]
  by_cases hof : obs.subject = x ∧ obs.source = s
  · obtain ⟨rfl, rfl⟩ := hof
    have hrepeat := hbefore ▸ @Graph.isRepeated_iff g obs
    simp only [true_and, and_self, if_true, forall_const, Plain]
    cases hdropped : g.isRepeated obs with
    | true =>
      obtain ⟨k, hk⟩ := hrepeat.mp hdropped
      rw [if_neg (by simp), hk]
      cases obs.kind <;> simp [said, PlainKind, assertedBy_kind_ne hk]
    | false =>
      have hnew : ∀ k, assertedBy h obs.subject obs.source ≠ some (k, obs.payload) := fun k hk => by
        simpa [hdropped] using hrepeat.mpr ⟨k, hk⟩
      cases obs.kind <;> simp [said, written, PlainKind, hnew, (hnew _).symm]
  · simp only [hof, false_and, if_false, true_iff]
    exact fun hsubject hsource => absurd ⟨hsubject, hsource⟩ hof

omit hx hown in
theorem faithful_retract_iff {pattern : ClaimScopePattern} {source subject : String} {asOf : ℤ}
    (hbefore : Faithful g h x s) (hstep : g.retractSubject pattern source asOf subject = .ok g') :
    Faithful g' (h ++ [.retracted pattern source asOf subject]) x s ↔
      (subject = x → source = s →
        Plain (assertedBy h x s) (.retracted pattern source asOf subject)) := by
  rw [Faithful, assertedBy_concat, Graph.retract_assertion hstep, hbefore]
  simp only [Arrival.subject, Arrival.source, Arrival.kind, Plain, said, Prod.mk.injEq]
  by_cases hof : subject = x ∧ source = s
  · cases hpattern : pattern.entity <;> simp [hof]
  · simp only [hof, false_and, if_false, true_iff]
    exact fun hsubject hsource => absurd ⟨hsubject, hsource⟩ hof

theorem faithful_receive_iff (hbefore : Faithful g h x s) (hstep : g.receive a = .ok g') :
    Faithful g' (h ++ [a]) x s ↔
      (a.subject = x → a.source = s → Plain (assertedBy h x s) a) := by
  cases a with
  | observed obs t => exact faithful_ingest_iff hx hown hbefore hstep
  | retracted pattern source asOf subject => exact faithful_retract_iff hbefore hstep

end Step

variable {a : Arrival} {x s : String}

theorem plainAlong_concat {h : List Arrival} : PlainAlong (h ++ [a]) x s ↔
      PlainAlong h x s ∧ (a.subject = x → a.source = s → Plain (assertedBy h x s) a) :=
  forall_split_concat

theorem faithfulThroughout_concat {g g' : Graph} {es : List Entry} :
    FaithfulThroughout g' (es ++ [⟨g, a⟩]) x s ↔
      FaithfulThroughout g es x s ∧ Faithful g' (es.map Entry.arrival ++ [a]) x s := by
  rw [FaithfulThroughout, forall_split_concat, List.map_append]
  rfl

/-- The row of an entity without a fixed owner is faithful throughout a run exactly if the arrivals
for it are plain. -/
theorem ingest_faithful_iff (rs : List Report) {x : String} (s : String) (hx : isEntity x)
    (hown : ownerImmutableSubject x = false) :
    FaithfulThroughout (graphAfter rs) (entriesOf rs) x s ↔ PlainAlong (arrivals rs) x s := by
  refine store_rule (P := fun g es =>
    FaithfulThroughout g es x s ↔ PlainAlong (es.map Entry.arrival) x s) ?_ ?_ ?_ rs
  · intro g es a g' ih hstep
    rw [faithfulThroughout_concat, List.map_append, List.map_singleton, plainAlong_concat, ← ih]
    refine and_congr_right fun hbefore => ?_
    exact faithful_receive_iff hx hown hbefore.2 hstep
  · exact fun g es row ih => ih
  · constructor
    · exact fun _ p a q hsplit => by simp at hsplit
    · exact fun _ => ⟨fun p e q hsplit => by simp at hsplit, rfl⟩

def hostReports (obs : List (ObservationKind × Option Payload)) : List Report :=
  obs.map fun o => ⟨none, 0, ⟨"observer:scan", [⟨"", 0, 0, "host:a", o.1, "high", o.2⟩], [], ""⟩⟩

theorem ingest_faithful_retracted :
    FaithfulThroughout (graphAfter (hostReports [(.state, some .empty), (.absence, none)]))
      (entriesOf (hostReports [(.state, some .empty), (.absence, none)])) "host:a" "observer:scan" := by
  apply (ingest_faithful_iff _ _ (by decide) (by decide)).mpr
  have harrivals : arrivals (hostReports [(.state, some .empty), (.absence, none)]) =
      [] ++ [.observed ⟨"observer:scan", 0, 0, "host:a", .state, "high", some .empty⟩ ""] ++
        [.observed ⟨"observer:scan", 0, 0, "host:a", .absence, "high", none⟩ ""] := by decide
  rw [harrivals, plainAlong_concat, plainAlong_concat]
  refine ⟨⟨fun p a q hsplit => by simp at hsplit, ?_⟩, ?_⟩ <;>
    simp [Plain, PlainKind, assertedBy, lastStated, Arrival.subject, Arrival.source, Arrival.kind,
      Arrival.payload, statesEntity, Option.filter]

/-- An absence with the payload of the state before it is dropped. -/
theorem absence_dropped : isEntity "host:a" ∧ ownerImmutableSubject "host:a" = false ∧
      ¬ Faithful (graphAfter (hostReports [(.state, none), (.absence, none)]))
        (arrivals (hostReports [(.state, none), (.absence, none)])) "host:a" "observer:scan" := by
  rw [Faithful]
  decide

end Cfgms.EntityGraph
