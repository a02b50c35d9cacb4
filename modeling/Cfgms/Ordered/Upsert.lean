import Mathlib.Data.List.Nodup

/-! # Ordered upserts

Declarations are merged into a list under their keys. However the place of a key is found, the
merged list has each key once, in the order of first declarations, with the last declaration
under it.
-/

namespace Cfgms.Ordered

open List

variable {α κ : Type*} [DecidableEq κ] (key : α → κ)

def upsert (x : α) (xs : List α) : List α :=
  if key x ∈ xs.map key then xs.map fun y => if key y = key x then x else y else xs ++ [x]

variable {x : α} {xs : List α}

theorem upsert_of_new (h : key x ∉ xs.map key) : upsert key x xs = xs ++ [x] := if_neg h

theorem map_key_replace (x : α) (xs : List α) :
    (xs.map fun y => if key y = key x then x else y).map key = xs.map key := by
  rw [map_map]
  refine map_congr_left fun y _ => ?_
  by_cases hy : key y = key x <;> simp [hy]

theorem find?_upsert (x : α) (k : κ) (xs : List α) : (upsert key x xs).find? (fun y => key y = k) =
      if key x = k then some x else xs.find? fun y => key y = k := by
  unfold upsert
  split
  · rename_i hx
    have hkey : (fun y => decide (key y = k)) ∘ (fun y => if key y = key x then x else y) =
        fun y => decide (key y = k) := by
      funext y
      by_cases hy : key y = key x <;> simp [hy]
    rw [find?_map, hkey]
    cases hf : xs.find? fun y => key y = k with
    | none =>
      rw [if_neg]
      · rfl
      · rintro rfl
        obtain ⟨y, hy, he⟩ := mem_map.mp hx
        simpa [he] using find?_eq_none.mp hf y hy
    | some y =>
      have hy : key y = k := by simpa using find?_some hf
      subst hy
      by_cases hk : key x = key y
      · simp [hk]
      · simp [hk, Ne.symm hk]
  · rename_i hx
    by_cases hk : key x = k
    · have hnone : xs.find? (fun y => key y = k) = none := by
        refine find?_eq_none.mpr fun y hy => ?_
        simpa using fun he : key y = k => hx (hk.trans he.symm ▸ mem_map_of_mem hy)
      simp [hk, hnone]
    · simp [hk]

variable {key} in
/-- Assignments one after the other, under distinct keys. -/
theorem get_foldl_assign {μ β : Type*} (get : μ → Option β) (set : μ → α → μ) (val : α → β) {k : κ}
    (hset : ∀ m x, get (set m x) = if key x = k then some (val x) else get m) {xs : List α}
    (hnodup : (xs.map key).Nodup) (m : μ) :
    get (xs.foldl set m) = ((xs.find? fun x => key x = k).map val).or (get m) := by
  induction xs generalizing m with
  | nil => rfl
  | cons x xs ih =>
    rw [map_cons, nodup_cons] at hnodup
    rw [foldl_cons, ih hnodup.2, hset, find?_cons]
    by_cases hk : key x = k
    · have hnone : (xs.find? fun y => key y = k) = none := by
        refine find?_eq_none.mpr fun y hy => ?_
        simpa using fun he : key y = k => hnodup.1 (hk.trans he.symm ▸ mem_map_of_mem hy)
      simp [hk, hnone]
    · simp [hk]

omit [DecidableEq κ] in
variable {key} in
theorem nodup_concat {x : α} {xs : List α} (h : (xs.map key).Nodup) (hx : key x ∉ xs.map key) :
    ((xs ++ [x]).map key).Nodup := by
  rw [map_append, map_singleton]
  refine List.Nodup.append h (nodup_singleton _) fun k hk hk' => ?_
  exact hx (mem_singleton.mp hk' ▸ hk)

variable {key} in
theorem nodup_upsert {xs : List α} (h : (xs.map key).Nodup) (x : α) :
    ((upsert key x xs).map key).Nodup := by
  unfold upsert
  split
  · rw [map_key_replace]
    exact h
  · exact nodup_concat h ‹_›

def lastDeclared (k : κ) (decls : List α) : Option α :=
  decls.reverse.find? fun x => key x = k

theorem lastDeclared_concat (k : κ) (decls : List α) (x : α) :
    lastDeclared key k (decls ++ [x]) = if key x = k then some x else lastDeclared key k decls := by
  by_cases hk : key x = k <;> simp [lastDeclared, hk]

/-- What a merged list is, in terms of the declarations that went into it. -/
structure Merges (decls merged : List α) : Prop where
  nodup : (merged.map key).Nodup
  mem_keys : ∀ k, k ∈ merged.map key ↔ k ∈ decls.map key
  last : ∀ x ∈ merged, lastDeclared key (key x) decls = some x
  order : ∀ a ∈ merged.map key, ∀ b ∈ merged.map key,
    ((merged.map key).idxOf a < (merged.map key).idxOf b ↔
      (decls.map key).idxOf a < (decls.map key).idxOf b)

variable {key} {decls merged : List α}

theorem Merges.nil : Merges key [] [] := by
  refine ⟨nodup_nil, fun k => Iff.rfl, ?_, ?_⟩
  · rintro x ⟨⟩
  · rintro a ⟨⟩

section

variable (h : Merges key decls merged)
include h

theorem Merges.redeclare (hx : key x ∈ merged.map key) :
    Merges key (decls ++ [x]) (merged.map fun y => if key y = key x then x else y) := by
  have hdecl := (h.mem_keys _).mp hx
  refine ⟨?_, fun k => ?_, fun y hy => ?_, fun a ha b hb => ?_⟩
  · rw [map_key_replace]
    exact h.nodup
  · rw [map_key_replace, h.mem_keys, map_append, mem_append]
    refine ⟨Or.inl, fun hk => hk.elim id fun hk => ?_⟩
    rwa [mem_singleton.mp hk]
  · obtain ⟨z, hz, rfl⟩ := mem_map.mp hy
    rw [lastDeclared_concat]
    by_cases hk : key z = key x
    · simp [hk]
    simp only [hk, if_false]
    rw [if_neg (Ne.symm hk)]
    exact h.last z hz
  · rw [map_key_replace] at ha hb ⊢
    rw [h.order a ha b hb, map_append, idxOf_append_of_mem ((h.mem_keys a).mp ha),
      idxOf_append_of_mem ((h.mem_keys b).mp hb)]

theorem Merges.declare (hx : key x ∉ merged.map key) :
    Merges key (decls ++ [x]) (merged ++ [x]) := by
  have hdecl := mt (h.mem_keys _).mpr hx
  -- a new key stands last in both lists
  have hlast : ∀ (ks : List κ), key x ∉ ks → (ks ++ [key x]).idxOf (key x) = ks.length := by
    intro ks hks
    rw [idxOf_append_of_notMem hks]
    simp
  have hold : ∀ (ks : List κ) a, a ∈ ks → (ks ++ [key x]).idxOf a = ks.idxOf a ∧
      ks.idxOf a < ks.length := fun ks a ha =>
    ⟨idxOf_append_of_mem ha, idxOf_lt_length_of_mem ha⟩
  refine ⟨nodup_concat h.nodup hx, fun k => ?_, fun y hy => ?_, ?_⟩
  · simp [h.mem_keys]
  · rw [lastDeclared_concat]
    rcases mem_append.mp hy with hy | hy
    · have hne : key x ≠ key y := fun he => hx (he ▸ mem_map_of_mem hy)
      rw [if_neg hne]
      exact h.last y hy
    · rw [mem_singleton.mp hy, if_pos rfl]
  · simp only [map_append, map_singleton, mem_append, mem_singleton]
    rintro a (ha | rfl) b (hb | rfl)
    · rw [(hold _ a ha).1, (hold _ b hb).1, (hold _ a ((h.mem_keys a).mp ha)).1,
        (hold _ b ((h.mem_keys b).mp hb)).1]
      exact h.order a ha b hb
    · rw [(hold _ a ha).1, hlast _ hx, (hold _ a ((h.mem_keys a).mp ha)).1, hlast _ hdecl]
      exact iff_of_true (hold _ a ha).2 (hold _ a ((h.mem_keys a).mp ha)).2
    · rw [(hold _ b hb).1, hlast _ hx, (hold _ b ((h.mem_keys b).mp hb)).1, hlast _ hdecl]
      exact iff_of_false (Nat.lt_asymm (hold _ b hb).2)
        (Nat.lt_asymm (hold _ b ((h.mem_keys b).mp hb)).2)
    · simp

theorem Merges.upsert (x : α) :
    Merges key (decls ++ [x]) (upsert key x merged) := by
  unfold Ordered.upsert
  split
  · exact h.redeclare ‹_›
  · exact h.declare ‹_›

end

variable (key) in
def upsertAll (xs : List α) (merged : List α) : List α :=
  xs.foldl (fun merged x => upsert key x merged) merged

theorem Merges.upsertAll (h : Merges key decls merged) (xs : List α) :
    Merges key (decls ++ xs) (upsertAll key xs merged) := by
  induction xs generalizing decls merged with
  | nil => simpa [Ordered.upsertAll] using h
  | cons x xs ih => simpa [Ordered.upsertAll] using ih (h.upsert x)

/-- A list under construction, with the positions of the keys it holds. -/
structure Indexed (κ α : Type*) where
  index : κ → Option ℕ
  items : List α

namespace Indexed

variable (key) in
def insert (s : Indexed κ α) (x : α) : Indexed κ α :=
  match s.index (key x) with
  | some i => { s with items := s.items.set i x }
  | none => ⟨Function.update s.index (key x) (some s.items.length), s.items ++ [x]⟩

def empty : Indexed κ α := ⟨fun _ => none, []⟩

/-- The index holds exactly the positions of the keys. -/
structure Faithful (key : α → κ) (s : Indexed κ α) : Prop where
  nodup : (s.items.map key).Nodup
  index : ∀ k i, s.index k = some i ↔ (s.items.map key)[i]? = some k

variable {s : Indexed κ α}

omit [DecidableEq κ] in
theorem Faithful.empty : Faithful key (empty : Indexed κ α) :=
  ⟨nodup_nil, by simp [Indexed.empty]⟩

omit [DecidableEq κ] in
theorem Faithful.index_eq_none (h : s.Faithful key) {k : κ} :
    s.index k = none ↔ k ∉ s.items.map key := by
  rw [Option.eq_none_iff_forall_ne_some, mem_iff_getElem?, not_exists]
  exact forall_congr' fun i => not_congr (h.index k i)

theorem set_eq_map_replace {x : α} {i : ℕ} {xs : List α} (hnodup : (xs.map key).Nodup)
    (hi : (xs.map key)[i]? = some (key x)) :
    xs.set i x = xs.map fun y => if key y = key x then x else y := by
  refine ext_getElem? fun j => ?_
  rw [getElem?_set, getElem?_map]
  obtain ⟨hlt, hki⟩ := List.getElem?_eq_some_iff.mp hi
  rw [length_map] at hlt
  by_cases hj : i = j
  · subst hj
    have hk : key xs[i] = key x := by simpa using hki
    simp [hlt, hk]
  · rw [if_neg hj]
    cases hx : xs[j]? with
    | none => rfl
    | some y =>
      have hne : key y ≠ key x := by
        intro he
        have hkj : (xs.map key)[j]? = some (key x) := by simp [hx, he]
        exact hj ((getElem?_inj (by simpa using hlt) hnodup).mp (hi.trans hkj.symm))
      simp [hne]

variable {β : Type*} {k : β} {ks : List β} {j : ℕ}

theorem getElem?_concat_self (h : k ∉ ks) : (ks ++ [k])[j]? = some k ↔ ks.length = j := by
  constructor
  · intro hj
    obtain ⟨hlt, hk⟩ := List.getElem?_eq_some_iff.mp hj
    rw [length_append, length_singleton] at hlt
    by_contra hne
    rw [getElem_append_left (by omega)] at hk
    exact h (hk ▸ getElem_mem _)
  · rintro rfl
    simp

theorem getElem?_concat_ne {k' : β} (hne : k ≠ k') :
    (ks ++ [k'])[j]? = some k ↔ ks[j]? = some k := by
  rcases Nat.lt_or_ge j ks.length with hj | hj
  · rw [getElem?_append_left hj]
  rw [getElem?_append_right hj, getElem?_eq_none hj, getElem?_singleton]
  split
  · simp [hne.symm]
  · simp

theorem Faithful.insert (h : s.Faithful key) (x : α) :
    (s.insert key x).Faithful key ∧ (s.insert key x).items = upsert key x s.items := by
  unfold Indexed.insert
  cases hi : s.index (key x) with
  | some i =>
    have hget := (h.index _ _).mp hi
    have hmem : key x ∈ s.items.map key := mem_of_getElem? hget
    have hset := set_eq_map_replace h.nodup hget
    have hkeys : (s.items.set i x).map key = s.items.map key := by rw [hset, map_key_replace]
    refine ⟨⟨?_, fun k j => ?_⟩, ?_⟩
    · rw [hkeys]
      exact h.nodup
    · rw [hkeys]
      exact h.index k j
    · rw [Ordered.upsert, if_pos hmem]
      exact hset
  | none =>
    have hnew := h.index_eq_none.mp hi
    refine ⟨⟨nodup_concat h.nodup hnew, fun k j => ?_⟩, (upsert_of_new key hnew).symm⟩
    dsimp only
    rw [Function.update_apply, map_append, map_singleton]
    have hlen : (s.items.map key).length = s.items.length := length_map key
    by_cases hk : k = key x
    · subst hk
      rw [if_pos rfl, getElem?_concat_self hnew, hlen, Option.some.injEq]
    · rw [if_neg hk, h.index, getElem?_concat_ne hk]

theorem Faithful.foldl_insert (h : s.Faithful key) (xs : List α) :
    (xs.foldl (Indexed.insert key) s).Faithful key ∧
      (xs.foldl (Indexed.insert key) s).items = upsertAll key xs s.items := by
  induction xs generalizing s with
  | nil => exact ⟨h, rfl⟩
  | cons x xs ih =>
    obtain ⟨hfaithful, hitems⟩ := h.insert x
    obtain ⟨hall, heq⟩ := ih hfaithful
    exact ⟨hall, by rw [foldl_cons, heq, hitems]; rfl⟩

end Indexed

/-- A list that already has each key once is merged as it is. -/
theorem upsertAll_append_of_nodup {ys : List α} (h : ((ys ++ xs).map key).Nodup) :
    upsertAll key xs ys = ys ++ xs := by
  induction xs generalizing ys with
  | nil => simp [upsertAll]
  | cons x xs ih =>
    have hx : key x ∉ ys.map key := by
      rw [map_append, map_cons] at h
      exact fun hmem => disjoint_of_nodup_append h hmem mem_cons_self
    have hstep : upsertAll key (x :: xs) ys = upsertAll key xs (ys ++ [x]) := by
      rw [upsertAll, foldl_cons, upsert_of_new key hx, upsertAll]
    rw [hstep, ih (by simpa using h)]
    simp

variable (key) in
def replaceFirst (x : α) : List α → Option (List α)
  | [] => none
  | y :: ys => if key y = key x then some (x :: ys) else (replaceFirst x ys).map (y :: ·)

theorem replaceFirst_eq_none (h : key x ∉ xs.map key) : replaceFirst key x xs = none := by
  induction xs with
  | nil => rfl
  | cons y ys ih =>
    rw [map_cons, mem_cons, not_or] at h
    rw [replaceFirst, if_neg (Ne.symm h.1), ih h.2, Option.map_none]

theorem replaceFirst_eq_some (hx : key x ∈ xs.map key) (h : (xs.map key).Nodup) :
    replaceFirst key x xs = some (xs.map fun y => if key y = key x then x else y) := by
  induction xs with
  | nil => cases hx
  | cons y ys ih =>
    rw [map_cons, nodup_cons] at h
    rw [replaceFirst, map_cons]
    by_cases hy : key y = key x
    · have hrest : ys.map (fun z => if key z = key x then x else z) = ys := by
        refine (map_congr_left fun z hz => if_neg fun he => ?_).trans (map_id' ys)
        exact h.1 (hy.trans he.symm ▸ mem_map_of_mem hz)
      rw [if_pos hy, if_pos hy, hrest]
    · have hx' : key x ∈ ys.map key := (mem_cons.mp hx).resolve_left (Ne.symm hy)
      rw [if_neg hy, if_neg hy, ih hx' h.2, Option.map_some]

/-- Replace where a search finds the key, and append where it does not. -/
theorem replaceFirst_getD (x : α) (h : (xs.map key).Nodup) :
    (replaceFirst key x xs).getD (xs ++ [x]) = upsert key x xs := by
  unfold upsert
  split
  · rw [replaceFirst_eq_some ‹_› h, Option.getD_some]
  · rw [replaceFirst_eq_none ‹_›, Option.getD_none]

end Cfgms.Ordered
