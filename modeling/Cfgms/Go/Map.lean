import Cfgms.Ordered.Upsert

/-! # String maps

A map is a list of entries with distinct keys. A loop over a map visits its entries in some
order, and assignments under distinct keys have the same effect in every order.
-/

namespace Cfgms.Go

open Ordered List

structure StringMap (α : Type*) where
  entries : List (String × α)
  nodup : (entries.map Prod.fst).Nodup

namespace StringMap

variable {α : Type*}

def empty : StringMap α := ⟨[], nodup_nil⟩

def get (m : StringMap α) (k : String) : Option α :=
  (m.entries.find? fun e => e.1 = k).map Prod.snd

def set (m : StringMap α) (e : String × α) : StringMap α where
  entries := upsert Prod.fst e m.entries
  nodup := nodup_upsert m.nodup e

def keys (m : StringMap α) : List String := m.entries.map Prod.fst

def assignAll (m added : StringMap α) : StringMap α := added.entries.foldl set m

variable {m : StringMap α} {k : String}

theorem get_eq_some_iff {v : α} : m.get k = some v ↔ (k, v) ∈ m.entries := by
  simp only [get, Option.map_eq_some_iff]
  constructor
  · rintro ⟨e, he, rfl⟩
    have hkey : e.1 = k := by simpa using find?_some he
    exact hkey ▸ mem_of_find?_eq_some he
  · intro hmem
    cases hfind : m.entries.find? fun e => e.1 = k with
    | none => simpa using find?_eq_none.mp hfind _ hmem
    | some e =>
      have hkey : e.1 = k := by simpa using find?_some hfind
      have heq := inj_on_of_nodup_map m.nodup (mem_of_find?_eq_some hfind) hmem hkey
      exact ⟨e, rfl, by rw [heq]⟩

theorem get_isSome_iff : (m.get k).isSome ↔ k ∈ m.keys := by
  simp only [Option.isSome_iff_exists, get_eq_some_iff, keys, mem_map, Prod.exists,
    exists_and_right, exists_eq_right]

variable (m : StringMap α)

theorem keys_set (e : String × α) :
    (m.set e).keys = if e.1 ∈ m.keys then m.keys else m.keys ++ [e.1] := by
  unfold keys set upsert
  split
  · exact map_key_replace Prod.fst e m.entries
  · rw [map_append, map_singleton]

theorem any_key_iff (p : String → Bool) :
    m.entries.any (fun e => p e.1) ↔ ∃ k, p k ∧ (m.get k).isSome := by
  simp only [any_eq_true]
  constructor
  · rintro ⟨e, he, hp⟩
    refine ⟨e.1, hp, ?_⟩
    simp only [get, Option.isSome_map, find?_isSome, decide_eq_true_eq]
    exact ⟨e, he, rfl⟩
  · rintro ⟨k, hp, hk⟩
    simp only [get, Option.isSome_map, find?_isSome, decide_eq_true_eq] at hk
    obtain ⟨e, he, rfl⟩ := hk
    exact ⟨e, he, hp⟩

theorem get_set (e : String × α) (k : String) :
    (m.set e).get k = if e.1 = k then some e.2 else m.get k := by
  rw [get, set, find?_upsert, apply_ite (Option.map Prod.snd)]
  rfl

theorem get_assignAll (m added : StringMap α) (k : String) :
    (m.assignAll added).get k = (added.get k).or (m.get k) :=
  get_foldl_assign (get · k) set Prod.snd (fun m e => m.get_set e k) added.nodup m

variable {β : Type*}

def mapValues (f : α → β) (m : StringMap α) : StringMap β where
  entries := m.entries.map fun e => (e.1, f e.2)
  nodup := by
    rw [map_map]
    exact m.nodup

theorem get_mapValues (f : α → β) (m : StringMap α) (k : String) :
    (m.mapValues f).get k = (m.get k).map f := by
  simp only [get, mapValues, find?_map, Option.map_map]
  rfl

end StringMap

/-- The orders in which the loops of a run visit the keys of maps. -/
structure RangeOrder where
  visit : ℕ → List String → List String
  perm : ∀ n keys, (visit n keys).Perm keys

/-- Every loop visits the keys in the order in which they were added. -/
def RangeOrder.asAdded : RangeOrder := ⟨fun _ keys => keys, fun _ keys => List.Perm.refl keys⟩

end Cfgms.Go
