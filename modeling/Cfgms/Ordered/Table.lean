import Cfgms.Ordered.Upsert

/-! # Keyed tables

The rows of a table have distinct keys. Rows are inserted under a new key, stored over the row
with their key, or changed in place without touching the key.
-/

namespace Cfgms.Ordered

open List

structure Table {α κ : Type*} (key : α → κ) where
  rows : List α
  nodup : (rows.map key).Nodup

namespace Table

variable {α κ : Type*} {key : α → κ}

def empty : Table key := ⟨[], nodup_nil⟩

theorem map_key_ite {f : α → α} (hf : ∀ r, key (f r) = key r) (p : α → Bool) (rows : List α) :
    (rows.map fun r => if p r then f r else r).map key = rows.map key := by
  rw [map_map]
  apply map_congr_left
  intro r _
  cases hp : p r
  · simp [hp]
  · simp [hp, hf]

def update (t : Table key) (p : α → Bool) (f : α → α) (hf : ∀ r, key (f r) = key r) :
    Table key where
  rows := t.rows.map fun r => if p r then f r else r
  nodup := by rw [map_key_ite hf]; exact t.nodup

variable (t : Table key) {p : α → Bool} {f : α → α} {hf : ∀ r, key (f r) = key r}

theorem mem_update {r : α} :
    r ∈ (t.update p f hf).rows ↔ ∃ q ∈ t.rows, (if p q then f q else q) = r := by
  simp [update]

theorem filter_nodup (q : α → Bool) : ((t.rows.filter q).map key).Nodup :=
  t.nodup.sublist (filter_sublist.map key)

def filter (q : α → Bool) : Table key := ⟨t.rows.filter q, t.filter_nodup q⟩

theorem mem_filter {q : α → Bool} {r : α} : r ∈ (t.filter q).rows ↔ r ∈ t.rows ∧ q r = true :=
  List.mem_filter

variable [DecidableEq κ]

def store (r : α) : Table key where
  rows := upsert key r t.rows
  nodup := nodup_upsert t.nodup r

/-- Insert a row, unless its key is taken. -/
def insert (r : α) : Option (Table key) :=
  if h : key r ∈ t.rows.map key then none else some ⟨t.rows ++ [r], nodup_concat t.nodup h⟩

def get (k : κ) : Option α := t.rows.find? fun r => key r = k

theorem erase_nodup (k : κ) : ((t.rows.filter fun r => key r ≠ k).map key).Nodup :=
  t.filter_nodup _

def erase (k : κ) : Table key := ⟨t.rows.filter fun r => key r ≠ k, t.erase_nodup k⟩

variable {t} {r : α}

theorem mem_store {q : α} (h : q ∈ (t.store r).rows) : q = r ∨ q ∈ t.rows := by
  simp only [store, upsert] at h
  split at h
  · obtain ⟨q', hq', rfl⟩ := mem_map.mp h
    split
    · exact .inl rfl
    · exact .inr hq'
  · rcases mem_append.mp h with h | h
    · exact .inr h
    · exact .inl (mem_singleton.mp h)

theorem get_eq_some_iff {k : κ} : t.get k = some r ↔ r ∈ t.rows ∧ key r = k := by
  constructor
  · intro h
    exact ⟨mem_of_find?_eq_some h, by simpa using find?_some h⟩
  · rintro ⟨hr, rfl⟩
    cases hget : t.get (key r) with
    | none => simpa using find?_eq_none.mp hget r hr
    | some q =>
      have hkey : key q = key r := by simpa using find?_some hget
      have hq : q ∈ t.rows := mem_of_find?_eq_some hget
      exact congrArg some (inj_on_of_nodup_map t.nodup hq hr hkey)

theorem get_store (k : κ) : (t.store r).get k = if key r = k then some r else t.get k :=
  find?_upsert key r k t.rows

theorem get_foldl_store {g : α → α} (hg : ∀ r, key (g r) = key r) {rows : List α}
    (hnodup : (rows.map key).Nodup) (k : κ) :
    (rows.foldl (fun t r => t.store (g r)) t).get k =
      ((rows.find? fun r => key r = k).map g).or (t.get k) :=
  get_foldl_assign (get · k) _ g (fun t r => by rw [get_store, hg]) hnodup t

theorem mem_rows_iff : r ∈ t.rows ↔ t.get (key r) = some r := by
  simp [get_eq_some_iff]

theorem mem_store_iff {q : α} : q ∈ (t.store r).rows ↔ q = r ∨ q ∈ t.rows ∧ key q ≠ key r := by
  rw [mem_rows_iff, get_store]
  split
  · next hkey =>
    constructor
    · intro h
      exact .inl (Option.some.inj h).symm
    · rintro (rfl | ⟨-, hne⟩)
      · rfl
      · exact absurd hkey.symm hne
  · next hkey =>
    rw [← mem_rows_iff]
    constructor
    · exact fun h => .inr ⟨h, Ne.symm hkey⟩
    · rintro (rfl | ⟨h, -⟩)
      · exact absurd rfl hkey
      · exact h

theorem mem_erase {k : κ} {q : α} : q ∈ (t.erase k).rows ↔ q ∈ t.rows ∧ key q ≠ k := by
  simp [erase]

theorem get_erase_of_ne {k k' : κ} (h : k ≠ k') : (t.erase k).get k' = t.get k' := by
  rw [get, erase, find?_filter, get]
  congr 1
  funext r
  rcases eq_or_ne (key r) k' with hkey | hkey
  · simp [hkey, h.symm]
  · simp [hkey]

theorem get_erase (k k' : κ) : (t.erase k).get k' = if k = k' then none else t.get k' := by
  split
  · next h =>
    subst h
    refine find?_eq_none.mpr fun r hr => ?_
    simpa using (mem_erase.mp hr).2
  · next h => exact get_erase_of_ne h

theorem rows_store_of_new (h : key r ∉ t.rows.map key) : (t.store r).rows = t.rows ++ [r] :=
  upsert_of_new key h

theorem get_update (k : κ) :
    (t.update p f hf).get k = (t.get k).map fun r => if p r then f r else r := by
  have hkey : (fun r => decide (key r = k)) ∘ (fun r => if p r then f r else r) =
      fun r => decide (key r = k) := by
    funext r
    cases hp : p r
    · simp [hp]
    · simp [hp, hf]
  rw [get, update, find?_map, hkey, get]

end Table

end Cfgms.Ordered
