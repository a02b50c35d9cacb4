import Cfgms.Modules.Dependency

/-! # Module load order

The order lists the modules whose dependencies are all listed. Counting includes dependencies
that are not registered, and a module that has one, though it is optional, is never listed.
-/

namespace Cfgms.Modules

open Go Cfgms.Graph List StringMap

namespace ModuleRegistry

/-- Every registered module once, after the registered modules that it depends on. -/
structure IsLoadOrder (r : ModuleRegistry) (order : List String) : Prop where
  nodup : order.Nodup
  complete : ∀ m, m ∈ order ↔ m ∈ r.modules.keys
  before : ∀ l m rest, order = l ++ m :: rest →
    ∀ d ∈ r.dependencies m, d ∈ r.modules.keys → d ∈ l

theorem addModule_spec (g : DependencyGraph) {m : ModuleMetadata} (hname : m.name ≠ "")
    (hnew : g.adjacencyList.get m.name = none) :
    ∃ g', g.addModule m = .ok g' ∧
      (∀ k, g'.modules.get k = if m.name = k then some m else g.modules.get k) ∧
      ∀ k, g'.adjacencyList.get k =
        if m.name = k then some (m.moduleDependencies.map (·.name))
        else g.adjacencyList.get k := by
  unfold DependencyGraph.addModule
  rw [if_neg hname]
  simp [get_set, hnew]

theorem addAll_spec (r : ModuleRegistry) {names : List String} (hnodup : names.Nodup)
    (hnames : ∀ k ∈ names, k ∈ r.modules.keys) (g : DependencyGraph)
    (hnew : ∀ k ∈ names, g.adjacencyList.get k = none) :
    ∃ g', r.addAll names g = .ok g' ∧
      (∀ k, g'.modules.get k = if k ∈ names then r.modules.get k else g.modules.get k) ∧
      ∀ k, g'.dependencies k = if k ∈ names then r.dependencies k else g.dependencies k := by
  induction names generalizing g with
  | nil => exact ⟨g, rfl, by simp, by simp⟩
  | cons name names ih =>
    rw [nodup_cons] at hnodup
    rw [forall_mem_cons] at hnames hnew
    obtain ⟨m, hm⟩ := Option.isSome_iff_exists.mp (get_isSome_iff.mpr hnames.1)
    obtain ⟨hname, hnonempty⟩ := r.named _ (get_eq_some_iff.mp hm)
    dsimp only at hname hnonempty
    subst hname
    have hdeps : r.dependencies m.name = m.moduleDependencies.map (·.name) := by
      simp [dependencies, hm]
    obtain ⟨g₁, hok, hmodules, hadjacency⟩ := addModule_spec g hnonempty hnew.1
    rw [← hdeps] at hadjacency
    have hother : ∀ k ∈ names, m.name ≠ k := fun k hk heq => hnodup.1 (heq ▸ hk)
    obtain ⟨g', hrest, hmodules', hdeps'⟩ := ih hnodup.2 hnames.2 g₁ fun k hk => by
      rw [hadjacency, if_neg (hother k hk), hnew.2 k hk]
    refine ⟨g', ?_, fun k => ?_, fun k => ?_⟩
    · simp [addAll, hm, hok, hrest]
    · rw [hmodules', hmodules]
      by_cases hk : k ∈ names
      · simp [hk]
      by_cases heq : m.name = k
      · simp [← heq, hm]
      · simp [hk, heq, Ne.symm heq]
    · rw [hdeps', DependencyGraph.dependencies, hadjacency]
      by_cases hk : k ∈ names
      · simp [hk]
      by_cases heq : m.name = k
      · simp [← heq]
      · simp [hk, heq, Ne.symm heq, DependencyGraph.dependencies]

theorem buildGraph_eq_ok (range : RangeOrder) (r : ModuleRegistry) {g : DependencyGraph}
    (h : r.buildGraph range = .ok g) :
    (∀ k, k ∈ g.modules.keys ↔ k ∈ r.modules.keys) ∧ g.dependencies = r.dependencies := by
  have hperm := range.perm 0 r.modules.keys
  obtain ⟨g', hg', hmodules, hdeps⟩ := r.addAll_spec (hperm.nodup_iff.mpr r.modules.nodup)
    (fun k hk => hperm.mem_iff.mp hk) newDependencyGraph fun _ _ => rfl
  cases hg'.symm.trans h
  have hnone : ∀ k, k ∉ r.modules.keys → r.modules.get k = none := by
    intro k hk
    rw [← get_isSome_iff] at hk
    simpa using hk
  constructor
  · intro k
    rw [← get_isSome_iff, ← get_isSome_iff, hmodules]
    split
    · rfl
    next hk =>
    rw [hnone k fun hmem => hk (hperm.mem_iff.mpr hmem)]
    rfl
  · funext k
    rw [hdeps]
    split
    · rfl
    next hk =>
    rw [dependencies, hnone k fun hmem => hk (hperm.mem_iff.mpr hmem)]
    rfl

end ModuleRegistry

namespace DependencyGraph

variable (range : RangeOrder) (g : DependencyGraph)

theorem nodes_closed : ∀ a ∈ g.nodes, ∀ b ∈ g.dependencies a, b ∈ g.nodes := by
  intro a _ b hb
  unfold dependencies at hb
  cases hget : g.adjacencyList.get a with
  | none => simp [hget] at hb
  | some deps =>
    rw [hget, Option.getD_some] at hb
    have hmem := get_eq_some_iff.mp hget
    exact mem_append_right _ (mem_flatMap.mpr ⟨_, hmem, hb⟩)

theorem visit_subset_nodes (n : ℕ) : ∀ a ∈ range.visit n g.modules.keys, a ∈ g.nodes :=
  fun _ ha => mem_append_left _ ((range.perm n _).mem_iff.mp ha)

omit range in
theorem registered_of_edge {a b : String} (h : Edge g.dependencies a b) : a ∈ g.modules.keys := by
  by_contra ha
  rw [← g.keys_eq, ← get_isSome_iff] at ha
  simp [Edge, dependencies, Option.not_isSome_iff_eq_none.mp ha] at h

theorem hasCycles_iff : (g.hasCycles range).1 = true ↔ Cyclic g.dependencies := by
  apply searchAll_iff_cyclic g.nodes_closed (g.visit_subset_nodes range 1)
  intro a ha
  rw [(range.perm 1 _).mem_iff] at ha
  exact eq_nil_iff_forall_not_mem.mpr fun _ hb => ha (g.registered_of_edge hb)

theorem closedWalk_of_hasCycles (h : (g.hasCycles range).1 = true) :
    ClosedWalk g.dependencies (g.hasCycles range).2 := by
  have hwalk := closedWalk_of_searchAll g.nodes_closed (g.visit_subset_nodes range 1) h
  have hcycle : (g.hasCycles range).2 = _ := if_pos h
  exact hcycle ▸ hwalk

theorem acc_of_not_hasCycles (h : (g.hasCycles range).1 = false) :
    ∀ m ∈ g.modules.keys, Acc (fun a b => Edge g.dependencies b a) m := by
  intro m hm
  exact acc_of_searchAll g.nodes_closed (g.visit_subset_nodes range 1) h m
    ((range.perm 1 _).mem_iff.mpr hm)

theorem startSort_counted : Counted g.dependencies g.modules.keys (g.startSort range) := by
  have hqueue : (g.startSort range).queue.Perm ((range.visit 2 g.modules.keys).filter fun m =>
      (g.dependencies m).length = 0) := perm_insertionSort _ _
  have hmem : ∀ m, m ∈ (g.startSort range).queue ↔
      m ∈ g.modules.keys ∧ g.dependencies m = [] := by
    intro m
    rw [hqueue.mem_iff, mem_filter, (range.perm 2 _).mem_iff]
    simp
  have hresult : (g.startSort range).result = [] := rfl
  constructor
  · rw [hresult, nil_append, hqueue.nodup_iff]
    exact ((range.perm 2 _).nodup_iff.mpr g.modules.nodup).filter _
  · intro m hm
    exact ((hmem m).mp hm).1
  · intro m _
    simp [startSort]
  · intro m hm
    rw [hresult, nil_append, hmem, eq_nil_iff_forall_not_mem]
    simp [hm]
  · intro l m rest heq
    simp [hresult] at heq

theorem topologicalSort_eq_ok (h : (g.hasCycles range).1 = false) :
    ∃ k : Kahn String, g.topologicalSort range = .ok k.result ∧
      Counted g.dependencies g.modules.keys k ∧ k.queue = [] := by
  have horder : ∀ n, (range.visit (n + 3) g.adjacencyList.keys).Perm g.modules.keys := by
    intro n
    rw [g.keys_eq]
    exact range.perm _ _
  obtain ⟨hcounted, hqueue⟩ := (g.startSort_counted range).run horder g.modules.nodup (n := 0)
    (Nat.le_add_right g.modules.keys.length _)
  refine ⟨_, ?_, hcounted, hqueue⟩
  simp [topologicalSort, h]

end DependencyGraph

/-- The sort lists every module of an accepted registry without cycles, and reports cycles,
exactly if such a registry has no dependency, optional or not, that is not registered. -/
theorem load_order (isVersionCompatible : String → String → Except String Bool)
    (range : RangeOrder) {r : ModuleRegistry} {g : DependencyGraph}
    (hgraph : r.buildGraph range = .ok g) :
    ((¬ Cyclic r.dependencies → g.validateAllDependencies isVersionCompatible range = [] →
        ∃ order, g.topologicalSort range = .ok order ∧ r.IsLoadOrder order) ∧
      (Cyclic r.dependencies → ∃ err, g.topologicalSort range = .error err)) ↔
    (¬ Cyclic r.dependencies → g.validateAllDependencies isVersionCompatible range = [] →
      ∀ m ∈ r.modules.keys, ∀ d ∈ r.dependencies m, d ∈ r.modules.keys) := by
  obtain ⟨hkeys, hdeps⟩ := r.buildGraph_eq_ok range hgraph
  have hcycles := g.hasCycles_iff range
  rw [hdeps] at hcycles
  have herror : Cyclic r.dependencies → ∃ err, g.topologicalSort range = .error err := by
    intro hcyclic
    simp [DependencyGraph.topologicalSort, hcycles.mpr hcyclic]
  rw [and_iff_left herror]
  refine forall_congr' fun hacyclic => forall_congr' fun _ => ?_
  have hfalse : (g.hasCycles range).1 = false := by
    rw [Bool.eq_false_iff]
    exact fun hfound => hacyclic (hcycles.mp hfound)
  obtain ⟨k, hsort, hcounted, hqueue⟩ := g.topologicalSort_eq_ok range hfalse
  have hlisted := hcounted.listed_iff hqueue (g.acc_of_not_hasCycles range hfalse)
  have hsubset := hcounted.subset
  have hnodup := hcounted.nodup
  rw [hqueue, append_nil] at hsubset hnodup
  simp only [hkeys, hdeps] at hlisted
  constructor
  · rintro ⟨order, horder, hload⟩
    cases hsort.symm.trans horder
    exact hlisted.mp fun m hm => (hload.complete m).mpr hm
  · intro hregistered
    refine ⟨k.result, hsort, hnodup, fun m => ?_, fun l m rest heq d hd _ => ?_⟩
    · exact ⟨fun hm => (hkeys m).mp (hsubset m hm), hlisted.mpr hregistered m⟩
    · exact hcounted.before l m rest heq d (hdeps ▸ hd)

def registryOf (modules : List ModuleMetadata)
    (hnodup : ((modules.map fun m => (m.name, m)).map Prod.fst).Nodup)
    (hnamed : ∀ m ∈ modules, m.name ≠ "") : ModuleRegistry where
  modules := ⟨modules.map fun m => (m.name, m), hnodup⟩
  named := by
    intro e he
    obtain ⟨m, hm, rfl⟩ := mem_map.mp he
    exact ⟨rfl, hnamed m hm⟩

def firewallRegistry : ModuleRegistry :=
  registryOf [⟨"firewall", "1.0.0", [⟨"network", ">=1.0.0", false⟩]⟩, ⟨"network", "1.2.0", []⟩]
    (by decide) (by decide)

def optionalRegistry : ModuleRegistry :=
  registryOf [⟨"firewall", "1.0.0", [⟨"geoip", "", true⟩]⟩] (by decide) (by decide)

theorem load_order_firewall :
    ∃ g, firewallRegistry.buildGraph .asAdded = .ok g ∧
      ∃ order, g.topologicalSort .asAdded = .ok order ∧ firewallRegistry.IsLoadOrder order := by
  refine ⟨_, rfl, ?_⟩
  refine ((load_order (fun _ _ => .ok true) .asAdded (r := firewallRegistry) rfl).mpr ?_).1 ?_ rfl
  · intro _ _
    decide
  · rw [← (firewallRegistry.buildGraph_eq_ok .asAdded rfl).2,
      ← DependencyGraph.hasCycles_iff .asAdded]
    decide

/-- A module with an optional dependency that is missing is accepted and not listed. -/
theorem optional_dependency_dropped :
    ∃ g, optionalRegistry.buildGraph .asAdded = .ok g ∧
      ¬ Cyclic optionalRegistry.dependencies ∧
      g.validateAllDependencies (fun _ _ => .ok true) .asAdded = [] ∧
      ¬ ∃ order, g.topologicalSort .asAdded = .ok order ∧
        optionalRegistry.IsLoadOrder order := by
  refine ⟨_, rfl, ?_, rfl, ?_⟩
  · rw [← (optionalRegistry.buildGraph_eq_ok .asAdded rfl).2,
      ← DependencyGraph.hasCycles_iff .asAdded]
    decide
  · rintro ⟨order, horder, hload⟩
    cases horder
    have hlisted := (hload.complete "firewall").mpr (by decide)
    cases hlisted

end Cfgms.Modules
