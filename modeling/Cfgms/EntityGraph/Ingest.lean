import Cfgms.EntityGraph.Store
import Cfgms.Machine.Fallible
import Cfgms.Machine.Runs

/-! # Arrivals

What a batch writes comes in one after the other: its observations, and then the retractions of
its scopes. A property that every arrival keeps holds after every sequence of batches.
-/

namespace Cfgms.EntityGraph

open Ordered Fallible

inductive Arrival where
  | observed (obs : Observation) (writerTenant : String)
  | retracted (pattern : ClaimScopePattern) (source : String) (asOf : ℤ) (subject : String)
deriving DecidableEq

def Graph.receive (g : Graph) : Arrival → Except String Graph
  | .observed obs writerTenant => g.ingest obs writerTenant
  | .retracted pattern source asOf subject => g.retractSubject pattern source asOf subject

theorem Graph.ingest_cases {g g' : Graph} {obs : Observation} {t : String}
    (hstep : g.ingest obs t = .ok g') :
    g.ownerRejected obs t ∧ g' = g ∨ g.isRepeated obs ∧ g' = g ∨
      (g.ownerRejected obs t = false ∧ g.isRepeated obs = false) ∧
        ((g.insertPayload obs.payload).appendLog (Graph.logRowOf obs)).dispatchProjectionUpdate obs
          g.nextID = .ok g' := by
  unfold Graph.ingest at hstep
  split at hstep
  · next hreject => exact .inl ⟨hreject, (Except.ok.inj hstep).symm⟩
  next hpass =>
  split at hstep
  · next hrepeat => exact .inr (.inl ⟨hrepeat, (Except.ok.inj hstep).symm⟩)
  · next hnew =>
    exact .inr (.inr ⟨⟨by simpa using hpass, by simpa using hnew⟩, mapError_eq_ok.mp hstep⟩)

/-- An arrival and the store in which it comes in. -/
structure Entry where
  before : Graph
  arrival : Arrival

namespace ObservationBatch

variable (batch : ObservationBatch) (tenantResolver : Option (String → String)) (now : ℤ)

def observedEntry (e : Graph × Observation × ℕ) : Entry :=
  ⟨e.1, .observed (batch.resolve tenantResolver e.2.1) (batch.writerTenant tenantResolver e.2.1)⟩

def retractedEntry (cs : ClaimScope) (e : Graph × String) : Entry :=
  ⟨e.1, .retracted cs.pattern (batch.sourceOr cs.source) (cs.asOf.getD now) e.2⟩

def scopeEntries (g : Graph) (cs : ClaimScope) : List Entry :=
  (record (batch.retractIn now cs) g (batch.missingSubjects g cs)).map (batch.retractedEntry now cs)

def entries (g : Graph) : List Entry :=
  (record (batch.ingestAt tenantResolver) g batch.observations.zipIdx).map
      (batch.observedEntry tenantResolver) ++
    match batch.observations.zipIdx.foldlM (batch.ingestAt tenantResolver) g with
    | .ok g' =>
      (record (batch.processScope now) g' batch.claimScopes).flatMap fun e =>
        batch.scopeEntries now e.1 e.2
    | .error _ => []

end ObservationBatch

section Rule

variable {P : Graph → List Entry → Prop}
  (hreceive : ∀ g es a g', P g es → g.receive a = .ok g' → P g' (es ++ [⟨g, a⟩]))
  (hsave : ∀ g es row, P g es → P (g.savePriorSubjects row) es)
  {batch : ObservationBatch} {tenantResolver : Option (String → String)} {now : ℤ}
  {g g' : Graph} {es : List Entry}

include hreceive

theorem observations_rule (hg : P g es)
    (hrun : batch.observations.zipIdx.foldlM (batch.ingestAt tenantResolver) g = .ok g') :
    P g' (es ++ (record (batch.ingestAt tenantResolver) g batch.observations.zipIdx).map
      (batch.observedEntry tenantResolver)) := by
  refine foldlM_record (P := fun g h => P g (es ++ h.map (batch.observedEntry tenantResolver)))
    (fun g h item g' hp hstep => ?_) (by simpa using hg) hrun
  rw [ObservationBatch.ingestAt] at hstep
  split at hstep
  · cases hstep
  · simpa [ObservationBatch.observedEntry] using hreceive g _ (.observed _ _) g' hp hstep

include hsave

theorem processScope_rule {cs : ClaimScope} (hg : P g es)
    (hrun : batch.processScope now g cs = .ok g') :
    P g' (es ++ batch.scopeEntries now g cs) := by
  obtain ⟨g₁, hretract, hdone⟩ := bind_eq_ok.mp hrun
  cases hdone
  apply hsave
  refine foldlM_record (P := fun g h => P g (es ++ h.map (batch.retractedEntry now cs)))
    (fun g h subject g' hp hstep => ?_) (by simpa using hg) hretract
  have hstep := mapError_eq_ok.mp hstep
  simpa [ObservationBatch.retractedEntry] using hreceive g _ (.retracted _ _ _ _) g' hp hstep

theorem reportObservations_rule (hg : P g es)
    (hrun : g.reportObservations tenantResolver now batch = .ok g') :
    P g' (es ++ batch.entries tenantResolver now g) := by
  obtain ⟨g₁, hobserve, hscopes⟩ := bind_eq_ok.mp hrun
  have h₁ := observations_rule hreceive hg hobserve
  rw [ObservationBatch.processClaimScopes] at hscopes
  split at hscopes
  · cases hscopes
  rw [ObservationBatch.entries, hobserve, ← List.append_assoc]
  refine foldlM_record (P := fun g h =>
    P g (es ++ (record (batch.ingestAt tenantResolver) _ _).map (batch.observedEntry tenantResolver) ++
      h.flatMap fun e => batch.scopeEntries now e.1 e.2))
    (fun g h cs g' hp hstep => ?_) (by simpa using h₁) hscopes
  simpa using processScope_rule hreceive hsave hp hstep

end Rule

structure Report where
  tenantResolver : Option (String → String)
  now : ℤ
  batch : ObservationBatch

/-- The store, which answers a batch with what it has written. -/
def store : Transducer Graph Report (List Entry) where
  step g r :=
    match g.reportObservations r.tenantResolver r.now r.batch with
    | .ok g' => (g', r.batch.entries r.tenantResolver r.now g)
    | .error _ => (g, [])

def graphAfter (rs : List Report) : Graph := store.final .empty rs

def entriesOf (rs : List Report) : List Entry := (store.outputs .empty rs).flatten

def arrivals (rs : List Report) : List Arrival := (entriesOf rs).map Entry.arrival

section Runs

variable {P : Graph → List Entry → Prop}
  (hreceive : ∀ g es a g', P g es → g.receive a = .ok g' → P g' (es ++ [⟨g, a⟩]))
  (hsave : ∀ g es row, P g es → P (g.savePriorSubjects row) es)

include hreceive hsave

theorem store_step_rule {g : Graph} {es : List Entry} (r : Report) (hg : P g es) :
    P (store.step g r).1 (es ++ (store.step g r).2) := by
  simp only [store]
  split
  · next hrun => exact reportObservations_rule hreceive hsave hg hrun
  · simpa using hg

theorem store_rule (hempty : P .empty []) (rs : List Report) :
    P (graphAfter rs) (entriesOf rs) := by
  refine store.history_invariant (P := fun g os => P g os.flatten) (fun g os r hp => ?_) hempty rs
  simpa using store_step_rule hreceive hsave r hp

end Runs

end Cfgms.EntityGraph
