import Cfgms.Machine.Fallible
import Cfgms.Modules.LoadOrder

/-! # Dependencies of workflow components

The components of a composite workflow name the components they depend on. The engine turns the
names into indices and refuses to run components that wait for each other.
-/

namespace Cfgms.Workflow

open Go Cfgms.Graph List

structure WorkflowComponent where
  name : String
  dependsOn : List String

structure DependencyLists where
  adjList : List (List ℕ)
  inDegree : List ℕ

/-- The components that wait for a component. -/
def DependencyLists.dependents (g : DependencyLists) (i : ℕ) : List ℕ := (g.adjList[i]?).getD []

-- of two components with one name the map holds the later
def nameToIdx (components : List WorkflowComponent) : StringMap ℕ :=
  components.zipIdx.foldl (fun m c => m.set (c.1.name, c.2)) .empty

def addDependencies (nameToIdx : StringMap ℕ) (i : ℕ) (name : String) :
    List String → DependencyLists → Except String DependencyLists
  | [], g => .ok g
  | dep :: deps, g =>
    match nameToIdx.get dep with
    | none =>
      .error ("component " ++ name.quote ++ " depends on unknown component " ++ dep.quote)
    | some depIdx =>
      addDependencies nameToIdx i name deps
        ⟨g.adjList.modify depIdx (· ++ [i]), g.inDegree.modify i (· + 1)⟩

def buildDependencyGraph (components : List WorkflowComponent) : Except String DependencyLists :=
  components.zipIdx.foldlM
    (fun g c => addDependencies (nameToIdx components) c.2 c.1.name c.1.dependsOn g)
    ⟨replicate components.length [], replicate components.length 0⟩

def detectDependencyCycle (components : List WorkflowComponent) (g : DependencyLists) :
    Option String :=
  let (found, s) := searchAll g.dependents components.length (range components.length) .start
  if found then
    some ("dependency cycle detected: " ++
      String.intercalate " → " (s.cycle.map fun i => (components[i]?.map (·.name)).getD ""))
  else none

/-- The last component of a name, the one that dependencies on the name refer to. -/
def StandsFor (components : List WorkflowComponent) (name : String) (i : ℕ) : Prop :=
  (components.map (·.name))[i]? = some name ∧ name ∉ (components.map (·.name)).drop (i + 1)

def DependsOn (components : List WorkflowComponent) (j i : ℕ) : Prop :=
  ∃ c, components[j]? = some c ∧ ∃ dep ∈ c.dependsOn, StandsFor components dep i

variable {components : List WorkflowComponent} {name : String} {i : ℕ}

theorem StandsFor.lt
    (h : StandsFor components name i) : i < components.length := by
  simpa using (List.getElem?_eq_some_iff.mp h.1).1

theorem nameToIdx_get :
    (nameToIdx components).get name = some i ↔ StandsFor components name i := by
  induction components using reverseRecOn with
  | nil => simp [nameToIdx, StandsFor, StringMap.empty, StringMap.get]
  | append_singleton components c ih =>
    have hset : nameToIdx (components ++ [c]) =
        (nameToIdx components).set (c.name, components.length) := by
      simp [nameToIdx, zipIdx_append]
    rw [hset, StringMap.get_set]
    have hout : ¬ i < components.length → (nameToIdx components).get name ≠ some i :=
      fun hi hget => hi (ih.mp hget).lt
    rcases lt_trichotomy i components.length with hi | rfl | hi
    · rw [StandsFor, map_append, getElem?_append_left (by simpa using hi),
        drop_append_of_le_length (by simpa using Nat.succ_le_of_lt hi), mem_append, not_or,
        ← and_assoc, ← StandsFor, ← ih]
      by_cases hname : c.name = name
      · simp [hname, hi.ne']
      · simp [hname, Ne.symm hname]
    · rw [StandsFor, drop_of_length_le (by simp)]
      by_cases hname : c.name = name <;> simp [hname, hout (lt_irrefl _)]
    · have hlong : ¬ StandsFor (components ++ [c]) name i := by
        intro h
        have hlt := h.lt
        rw [length_append, length_singleton] at hlt
        omega
      by_cases hname : c.name = name <;> simp [hname, hout hi.not_gt, hi.ne, hlong]

variable {g : DependencyLists} {idx : StringMap ℕ}

section

variable (hidx : ∀ dep j, idx.get dep = some j → j < g.adjList.length)
include hidx

theorem addDependencies_eq_ok {deps : List String}
    {g' : DependencyLists}
    (h : addDependencies idx i name deps g = .ok g') :
    g'.adjList.length = g.adjList.length ∧ ∀ j k, k ∈ g'.dependents j ↔
      k ∈ g.dependents j ∨ k = i ∧ ∃ dep ∈ deps, idx.get dep = some j := by
  induction deps generalizing g with
  | nil =>
    cases h
    simp
  | cons dep deps ih =>
    rw [addDependencies] at h
    cases hget : idx.get dep with
    | none => simp [hget] at h
    | some depIdx =>
      rw [hget] at h
      obtain ⟨hlen, hmem⟩ := ih (by simpa using hidx) h
      refine ⟨by simpa using hlen, fun j k => ?_⟩
      rw [hmem]
      have hstep : k ∈ (DependencyLists.mk (g.adjList.modify depIdx (· ++ [i]))
          (g.inDegree.modify i (· + 1))).dependents j ↔
            k ∈ g.dependents j ∨ k = i ∧ depIdx = j := by
        have hlt := hidx dep depIdx hget
        rw [DependencyLists.dependents, DependencyLists.dependents, getElem?_modify]
        by_cases hj : depIdx = j
        · subst hj
          simp [getElem?_eq_getElem hlt]
        · simp [hj]
      rw [hstep]
      simp only [mem_cons, exists_eq_or_imp, hget, Option.some.injEq]
      tauto

theorem foldlM_addDependencies_eq_ok {cs : List (WorkflowComponent × ℕ)}
    {g' : DependencyLists}
    (h : cs.foldlM (fun g c => addDependencies idx c.2 c.1.name c.1.dependsOn g) g = .ok g')
    (j k : ℕ) : k ∈ g'.dependents j ↔ k ∈ g.dependents j ∨
      ∃ c, (c, k) ∈ cs ∧ ∃ dep ∈ c.dependsOn, idx.get dep = some j := by
  induction cs generalizing g with
  | nil =>
    cases h
    simp
  | cons c cs ih =>
    obtain ⟨g₁, hg₁, hrest⟩ := Fallible.bind_eq_ok.mp h
    obtain ⟨hlen, hmem⟩ := addDependencies_eq_ok hidx hg₁
    rw [ih (hlen.symm ▸ hidx) hrest, hmem]
    constructor
    · rintro ((hk | ⟨rfl, hdep⟩) | ⟨d, hd, hdep⟩)
      · exact .inl hk
      · exact .inr ⟨c.1, mem_cons_self, hdep⟩
      · exact .inr ⟨d, mem_cons_of_mem c hd, hdep⟩
    · rintro (hk | ⟨d, hd, hdep⟩)
      · exact .inl (.inl hk)
      · rcases mem_cons.mp hd with rfl | hd
        · exact .inl (.inr ⟨rfl, hdep⟩)
        · exact .inr ⟨d, hd, hdep⟩

end

theorem buildDependencyGraph_eq_ok
    (h : buildDependencyGraph components = .ok g) (i j : ℕ) :
    Edge g.dependents i j ↔ DependsOn components j i := by
  rw [Edge, foldlM_addDependencies_eq_ok _ h]
  · have hnone : j ∉ DependencyLists.dependents
        ⟨replicate components.length [], replicate components.length 0⟩ i := by
      simp only [DependencyLists.dependents, getElem?_replicate]
      split <;> simp
    simp [hnone, DependsOn, nameToIdx_get, mem_zipIdx_iff_getElem?]
  · simpa [nameToIdx_get] using fun _ _ => StandsFor.lt

theorem detectDependencyCycle_isSome_iff (h : buildDependencyGraph components = .ok g) :
    (detectDependencyCycle components g).isSome ↔
      ∃ i, Relation.TransGen (DependsOn components) i i := by
  have hedge := buildDependencyGraph_eq_ok h
  have hlt : ∀ i j, DependsOn components j i → j < components.length ∧ i < components.length := by
    rintro i j ⟨c, hc, dep, -, hdep⟩
    exact ⟨(List.getElem?_eq_some_iff.mp hc).1, hdep.lt⟩
  have hfound : (detectDependencyCycle components g).isSome ↔
      (searchAll g.dependents (range components.length).length (range components.length)
        .start).1 = true := by
    rw [detectDependencyCycle, length_range]
    split
    simp [*]
  rw [hfound, searchAll_iff_cyclic]
  · apply exists_congr
    intro i
    rw [← Relation.transGen_swap]
    have hswap : Edge g.dependents = Function.swap (DependsOn components) := by
      ext a b
      exact hedge a b
    rw [hswap]
  · intro a _ b hb
    exact mem_range.mpr (hlt a b ((hedge a b).mp hb)).1
  · exact fun _ ha => ha
  · intro a ha
    rw [eq_nil_iff_forall_not_mem]
    exact fun b hb => ha (mem_range.mpr (hlt a b ((hedge a b).mp hb)).2)

/-- The registry and the engine find a cycle exactly if there is one, and the registry names the
modules of a closed walk, all of them reached from the registered ones. -/
theorem cycle_detection_exact (range : RangeOrder) (g : Modules.DependencyGraph)
    {components : List WorkflowComponent} {lists : DependencyLists}
    (hlists : buildDependencyGraph components = .ok lists) :
    ((g.hasCycles range).1 = true ↔ ∃ m ∈ g.modules.keys, ∃ a,
        Relation.ReflTransGen (Edge g.dependencies) m a ∧
          Relation.TransGen (Edge g.dependencies) a a) ∧
      ((g.hasCycles range).1 = true → ClosedWalk g.dependencies (g.hasCycles range).2 ∧
        ∀ a ∈ (g.hasCycles range).2, ∃ m ∈ g.modules.keys,
          Relation.ReflTransGen (Edge g.dependencies) m a) ∧
      ((detectDependencyCycle components lists).isSome ↔
        ∃ i, Relation.TransGen (DependsOn components) i i) := by
  refine ⟨?_, fun hfound => ?_, detectDependencyCycle_isSome_iff hlists⟩
  · rw [g.hasCycles_iff range]
    constructor
    · rintro ⟨a, hcycle⟩
      obtain ⟨b, hedge, -⟩ := Relation.TransGen.head'_iff.mp hcycle
      exact ⟨a, g.registered_of_edge hedge, a, .refl, hcycle⟩
    · rintro ⟨-, -, a, -, hcycle⟩
      exact ⟨a, hcycle⟩
  · have hwalk := g.closedWalk_of_hasCycles range hfound
    refine ⟨hwalk, fun a ha => ?_⟩
    obtain ⟨b, hedge⟩ := hwalk.exists_edge ha
    exact ⟨a, g.registered_of_edge hedge, .refl⟩

theorem cycle_detection_exact_selfDependent :
    ∃ lists, buildDependencyGraph [⟨"fetch", []⟩, ⟨"apply", ["fetch", "apply"]⟩] = .ok lists ∧
      (detectDependencyCycle [⟨"fetch", []⟩, ⟨"apply", ["fetch", "apply"]⟩] lists).isSome := by
  refine ⟨_, rfl, ?_⟩
  rw [(cycle_detection_exact .asAdded Modules.newDependencyGraph rfl).2.2]
  refine ⟨1, .single ⟨_, rfl, "apply", ?_, ?_⟩⟩
  · decide
  · constructor
    · rfl
    · decide

end Cfgms.Workflow
