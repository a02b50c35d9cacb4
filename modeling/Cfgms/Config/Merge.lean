import Cfgms.Config.Cascade
import Mathlib.Data.List.Induction

/-! # Merged lists

Resources and required modules are merged by name over all levels. Both merges are ordered
upserts, the one found by an index and the other by a search, and the recorded source of a
name is the last level that declares it.
-/

namespace Cfgms.Config

open Ordered EffectiveConfiguration

variable {V α : Type*}

theorem path_ne (n m : String) : "resource." ++ n ≠ "required_modules." ++ m := by
  intro h
  have hlist := congrArg String.toList h
  simp [String.toList_append] at hlist

theorem path_ne_modules (n m : String) :
    "resource." ++ n ≠ "modules." ++ m ∧ "required_modules." ++ n ≠ "modules." ++ m := by
  constructor
  all_goals
    intro h
    have hlist := congrArg String.toList h
    simp [String.toList_append] at hlist

theorem not_isSetting (n : String) :
    ¬ IsSetting ("resource." ++ n) ∧ ¬ IsSetting ("required_modules." ++ n) := by
  simp [IsSetting, String.toList_append]

theorem mem_paths {path n : String} {names : List String} :
    path ++ n ∈ names.map (path ++ ·) ↔ n ∈ names := by
  simp [String.append_right_inj]

theorem mergeResources_eq {effective : List (ResourceConfig V)}
    (h : (effective.map ResourceConfig.name).Nodup) (declared : List (ResourceConfig V)) :
    mergeResources effective declared = upsertAll ResourceConfig.name declared effective := by
  have hempty : (Indexed.empty : Indexed String (ResourceConfig V)).Faithful ResourceConfig.name :=
    .empty
  obtain ⟨hfaithful, hitems⟩ := hempty.foldl_insert effective
  have hsame : upsertAll ResourceConfig.name effective [] = effective :=
    upsertAll_append_of_nodup h
  rw [mergeResources, (hfaithful.foldl_insert declared).2, hitems]
  exact congrArg _ hsame

theorem foldl_mergeRequiredModule {required : List RequiredModule}
    (h : (required.map RequiredModule.name).Nodup) (declared : List RequiredModule) :
    declared.foldl mergeRequiredModule required =
      upsertAll RequiredModule.name declared required := by
  induction declared generalizing required with
  | nil => rfl
  | cons req declared ih =>
    have hreq : mergeRequiredModule required req = upsert RequiredModule.name req required :=
      replaceFirst_getD req h
    rw [List.foldl_cons, hreq, ih (nodup_upsert h req)]
    rfl

variable (e : EffectiveConfiguration V)
variable (l : ConfigLevel V)

theorem sources_applyRequiredModules (k : String) : (e.applyRequiredModules l).sources k =
      if k ∈ (l.config.requiredModules.map RequiredModule.name).map ("required_modules." ++ ·) then
        some l.source
      else e.sources k := by
  simp [applyRequiredModules, setSources_eq]

theorem sources_applyModules {e : EffectiveConfiguration V} {l : ConfigLevel V} {k : String}
    (h : ∀ m, k ≠ "modules." ++ m) : (e.applyModules l).sources k = e.sources k := by
  simp only [applyModules, setSources_eq]
  refine if_neg fun hmem => ?_
  obtain ⟨m, -, he⟩ := List.mem_map.mp hmem
  exact h m.1 he.symm

theorem sources_applyResources (k : String) : (e.applyResources l).sources k =
      if k ∈ (l.config.resources.map ResourceConfig.name).map ("resource." ++ ·) then
        some l.source
      else e.sources k := by
  simp [applyResources, setSources_eq]

/-- What a level does to the merged lists and to the sources of their names. -/
structure ListsAfter (e : EffectiveConfiguration V) (l : ConfigLevel V)
    (e' : EffectiveConfiguration V) : Prop where
  resources : e'.config.resources = mergeResources e.config.resources l.config.resources
  requiredModules : e'.config.requiredModules =
    l.config.requiredModules.foldl mergeRequiredModule e.config.requiredModules
  resource_source : ∀ n, e'.sources ("resource." ++ n) =
    if n ∈ l.config.resources.map ResourceConfig.name then some l.source
    else e.sources ("resource." ++ n)
  module_source : ∀ n, e'.sources ("required_modules." ++ n) =
    if n ∈ l.config.requiredModules.map RequiredModule.name then some l.source
    else e.sources ("required_modules." ++ n)

theorem listsAfter_apply : ListsAfter e l (applyConfigurationWithSource e l) := by
  have hset : SettingsOnly (e.applyResources l) ((e.applyResources l).applySteward l) :=
    .applySteward
  refine ⟨?_, ?_, fun n => ?_, fun n => ?_⟩
  · simpa [applyConfigurationWithSource, applyRequiredModules, applyModules, applyResources]
      using hset.resources
  · have hreq := hset.requiredModules
    simp only [applyResources, config_setSources] at hreq
    simp [applyConfigurationWithSource, applyRequiredModules, applyModules, applyResources, hreq]
  · have hnot : "resource." ++ n ∉
        (l.config.requiredModules.map RequiredModule.name).map ("required_modules." ++ ·) := by
      intro hmem
      obtain ⟨m, -, he⟩ := List.mem_map.mp hmem
      exact path_ne n m he.symm
    rw [applyConfigurationWithSource, sources_applyRequiredModules, if_neg hnot,
      sources_applyModules fun m => (path_ne_modules n m).1, hset.sources _ (not_isSetting n).1,
      sources_applyResources]
    simp only [mem_paths]
  · have hnot : "required_modules." ++ n ∉
        (l.config.resources.map ResourceConfig.name).map ("resource." ++ ·) := by
      intro hmem
      obtain ⟨m, -, he⟩ := List.mem_map.mp hmem
      exact path_ne m n he
    rw [applyConfigurationWithSource, sources_applyRequiredModules,
      sources_applyModules fun m => (path_ne_modules n m).2, hset.sources _ (not_isSetting n).2,
      sources_applyResources, if_neg hnot]
    simp only [mem_paths]

def lastDeclaring (names : ConfigLevel V → List String) (n : String)
    (levels : List (ConfigLevel V)) : Option (ConfigLevel V) :=
  levels.reverse.find? fun l => n ∈ names l

/-- A list merged from the declarations of all levels, and the sources of its names. -/
structure MergedFrom (name : α → String) (declared : ConfigLevel V → List α) (path : String)
    (levels : List (ConfigLevel V)) (merged : List α)
    (sources : String → Option InheritanceSource) : Prop where
  merges : Merges name (levels.flatMap declared) merged
  source : ∀ n, sources (path ++ n) =
    (lastDeclaring (fun l => (declared l).map name) n levels).map ConfigLevel.source

variable {name : α → String} {declared : ConfigLevel V → List α} {path : String}
  {levels : List (ConfigLevel V)} {merged : List α}
  {sources sources' : String → Option InheritanceSource}

theorem MergedFrom.nil : MergedFrom name declared path [] [] fun _ => none :=
  ⟨Merges.nil, fun _ => rfl⟩

theorem MergedFrom.level (h : MergedFrom name declared path levels merged sources)
    (l : ConfigLevel V)
    (hsources : ∀ n, sources' (path ++ n) =
      if n ∈ (declared l).map name then some l.source else sources (path ++ n)) :
    MergedFrom name declared path (levels ++ [l]) (upsertAll name (declared l) merged)
      sources' := by
  refine ⟨by simpa using h.merges.upsertAll (declared l), fun n => ?_⟩
  rw [hsources, h.source]
  by_cases hn : ∃ a ∈ declared l, name a = n <;> simp [lastDeclaring, hn]

/-- The cascade merges resources and required modules by name: each name once, in the order of
first declarations, with its last declaration and the level that made it. -/
theorem cascade_merges (levels : List (ConfigLevel V)) :
    MergedFrom ResourceConfig.name (fun l => l.config.resources) "resource." levels
        (cascade levels).config.resources (cascade levels).sources ∧
      MergedFrom RequiredModule.name (fun l => l.config.requiredModules) "required_modules." levels
        (cascade levels).config.requiredModules (cascade levels).sources := by
  induction levels using List.reverseRecOn with
  | nil => exact ⟨MergedFrom.nil, MergedFrom.nil⟩
  | append_singleton levels l ih =>
    obtain ⟨hres, hreq⟩ := ih
    have hlists := listsAfter_apply (cascade levels) l
    rw [cascade_concat, hlists.resources, hlists.requiredModules,
      mergeResources_eq hres.merges.nodup, foldl_mergeRequiredModule hreq.merges.nodup]
    exact ⟨hres.level l hlists.resource_source, hreq.level l hlists.module_source⟩

end Cfgms.Config
