import Mathlib.Data.List.ReduceOption
import Cfgms.Expiring.Cache

/-! # The order of entry

While no key is entered again exactly at the retention, the cache holds the last entries made, and
the order lists each of them once.
-/

namespace Cfgms.Expiring

open Ordered List

variable {κ : Type*} [DecidableEq κ] {cutoff : ℤ} {ds : List (κ × ℤ)}

theorem sweep_order {es : Entries κ} (hnodup : (ds.map Prod.fst).Nodup) (hds : ds ⊆ es.rows) :
    (sweep cutoff es (ds.map Prod.fst)).2 = (ds.filter fun e => cutoff ≤ e.2).map Prod.fst := by
  induction ds generalizing es with
  | nil => rfl
  | cons d ds ih =>
    obtain ⟨hd, hnodup⟩ := nodup_cons.mp hnodup
    rw [cons_subset] at hds
    have hget : es.get d.1 = some d := Table.get_eq_some_iff.mpr ⟨hds.1, rfl⟩
    simp only [map_cons, sweep, hget]
    by_cases hold : d.2 < cutoff
    · have hrest : ds ⊆ (es.erase d.1).rows := fun e he =>
        Table.mem_erase.mpr ⟨hds.2 he, fun hkey => hd (hkey ▸ mem_map_of_mem he)⟩
      simp [hold, not_le.mpr hold, ih hnodup hrest]
    · simp [hold, not_lt.mp hold, ih hnodup hds.2]

omit [DecidableEq κ] in
/-- In order of time, what is older than a cutoff comes first. -/
theorem filter_append_filter (h : ds.Pairwise (·.2 ≤ ·.2)) (cutoff : ℤ) :
    (ds.filter fun e => e.2 < cutoff) ++ ds.filter (fun e => cutoff ≤ e.2) = ds := by
  induction ds with
  | nil => rfl
  | cons d ds ih =>
    rw [pairwise_cons] at h
    by_cases hold : d.2 < cutoff
    · simp [hold, not_le.mpr hold, ih h.2]
    · have hnew : ∀ e ∈ d :: ds, cutoff ≤ e.2 :=
        forall_mem_cons.mpr ⟨not_lt.mp hold, fun e he => (not_lt.mp hold).trans (h.1 e he)⟩
      rw [filter_eq_nil_iff.mpr (by simpa using hnew), filter_eq_self.mpr (by simpa using hnew),
        nil_append]

namespace Cache

/-- The order lists the keys of the entries, each once and from the oldest on. -/
def InOrder (c : Cache κ) : Prop :=
  c.order = c.entries.rows.map Prod.fst ∧ c.entries.rows.Pairwise (·.2 ≤ ·.2)

/-- Of the entries made, the last ones are held, and the others are old or there was no room. -/
structure Queued (capacity : ℕ) (ttl : ℤ) (made : List (κ × ℤ)) (now : ℤ) (c : Cache κ)
    (lost : List (κ × ℤ)) : Prop where
  order : c.order = c.entries.rows.map Prod.fst
  made_eq : made = lost ++ c.entries.rows
  sorted : made.Pairwise (·.2 ≤ ·.2)
  past : ∀ e ∈ made, e.2 ≤ now
  bound : c.entries.rows.length ≤ capacity
  gone : c.entries.rows.length < capacity → ∀ e ∈ lost, e.2 + ttl < now

variable {capacity : ℕ} {ttl now : ℤ} {made lost : List (κ × ℤ)} {c : Cache κ} {e : κ × ℤ}

theorem Queued.inOrder (h : Queued capacity ttl made now c lost) : c.InOrder :=
  ⟨h.order, (pairwise_append.mp (h.made_eq ▸ h.sorted)).2.1⟩

theorem Queued.evictExpired (h : Queued capacity ttl made now c lost) :
    ∃ lost, Queued capacity ttl made now (c.evictExpired (now - ttl)) lost := by
  have hsorted := h.sorted
  rw [h.made_eq, pairwise_append] at hsorted
  refine ⟨lost ++ c.entries.rows.filter fun e => e.2 < now - ttl, ?_, ?_, h.sorted, h.past, ?_, ?_⟩
  all_goals rw [rows_evictExpired]
  · rw [← sweep_order c.entries.nodup (Subset.refl _), ← h.order]
    rfl
  · rw [append_assoc, filter_append_filter hsorted.2.1, h.made_eq]
  · exact (length_filter_le _ _).trans h.bound
  · intro hlt e he
    rcases mem_append.mp he with hlost | he
    · -- if an entry went, the lost ones before it are older still
      by_cases hall : ∀ d ∈ c.entries.rows, now - ttl ≤ d.2
      · rw [filter_eq_self.mpr (by simpa using hall)] at hlt
        exact h.gone hlt e hlost
      · push Not at hall
        obtain ⟨d, hd, hold⟩ := hall
        have := hsorted.2.2 e hlost d hd
        omega
    · have := of_decide_eq_true (mem_filter.mp he).2
      omega

/-- At the cap one entry has to go, and it is the first one. -/
theorem makeRoom_spec (horder : c.order = c.entries.rows.map Prod.fst)
    (hbound : c.entries.rows.length ≤ capacity) (hcap : 0 < capacity) {c' : Cache κ}
    (hc' : makeRoom capacity c.entries.rows.length c = c') :
    c'.order = c'.entries.rows.map Prod.fst ∧ c'.entries.rows.length < capacity ∧
      (c' = c ∨ c.entries.rows.length = capacity ∧ ∃ e, c.entries.rows = e :: c'.entries.rows) := by
  rcases hbound.lt_or_eq with hlt | heq
  · rw [makeRoom_of_lt hlt] at hc'
    exact hc' ▸ ⟨horder, hlt, .inl rfl⟩
  obtain ⟨e, rest, hrows⟩ := exists_cons_of_length_pos (heq ▸ hcap)
  have hget : c.entries.get e.1 = some e := Table.get_eq_some_iff.mpr ⟨by simp [hrows], rfl⟩
  have hdrop : dropOldest c.entries c.order = (c.entries.erase e.1, rest.map Prod.fst) := by
    rw [horder, hrows]
    exact if_pos (by rw [hget]; rfl)
  have hnodup := c.entries.nodup
  rw [hrows, map_cons, nodup_cons] at hnodup
  have herase : (c.entries.erase e.1).rows = rest := by
    change c.entries.rows.filter _ = rest
    rw [hrows, filter_cons_of_neg (by simp), filter_eq_self]
    exact fun d hd => decide_eq_true fun hkey => hnodup.1 (hkey ▸ mem_map_of_mem hd)
  have hevicted : c.evictOldest.entries.rows = rest ∧ c.evictOldest.order = rest.map Prod.fst := by
    simp [Cache.evictOldest, hdrop, herase]
  rw [hrows, length_cons] at heq
  rw [hrows, length_cons, makeRoom, if_pos (by rw [hrows, length_cons]; omega),
    makeRoom_of_lt (by rw [hevicted.1]; omega)] at hc'
  rw [← hc', hevicted.1, hevicted.2, hrows]
  exact ⟨rfl, by omega, .inr ⟨heq, e, rfl⟩⟩

theorem Queued.store (h : Queued capacity ttl made e.2 c lost) (hcap : 0 < capacity)
    (hnew : e.1 ∉ c.entries.rows.map Prod.fst) {c' : Cache κ}
    (hc' : makeRoom capacity c.entries.rows.length c = c') :
    ∃ lost, Queued capacity ttl (made ++ [e]) e.2
      ⟨c'.entries.store e, c'.order ++ [e.1], c'.covers_store e.1 e.2⟩ lost := by
  obtain ⟨horder, hroom, hout⟩ := makeRoom_spec h.order h.bound hcap hc'
  have hsorted : (made ++ [e]).Pairwise (·.2 ≤ ·.2) :=
    pairwise_append.mpr ⟨h.sorted, pairwise_singleton _ _, by simpa using h.past⟩
  have hpast : ∀ d ∈ made ++ [e], d.2 ≤ e.2 := by simpa [or_imp, forall_and] using h.past
  have hrows : (c'.entries.store e).rows = c'.entries.rows ++ [e] := by
    apply Table.rows_store_of_new
    rcases hout with rfl | ⟨-, d, hd⟩
    · exact hnew
    · exact fun hmem => hnew (hd ▸ mem_cons_of_mem _ hmem)
  rcases hout with rfl | ⟨hfull, d, hd⟩
  · refine ⟨lost, ?_, ?_, hsorted, hpast, ?_, ?_⟩
    all_goals simp only [hrows, horder, map_append, length_append, length_singleton]
    · rfl
    · rw [h.made_eq, append_assoc]
    · exact hroom
    · exact fun hlt => h.gone (by omega)
  · refine ⟨lost ++ [d], ?_, ?_, hsorted, hpast, ?_, ?_⟩
    all_goals simp only [hrows, horder, map_append, length_append, length_singleton]
    · rfl
    · simp [h.made_eq, hd]
    · exact hroom
    · rw [hd, length_cons] at hfull
      omega

/-- No key is entered again exactly at the retention. -/
def OffRetention (ttl : ℤ) (c : Cache κ) (o : Option (κ × ℤ)) : Prop :=
  ∀ e ∈ o, c.entries.get e.1 ≠ some (e.1, e.2 - ttl)

theorem Queued.call (h : Queued capacity ttl made e.2 c lost) (hcap : 0 < capacity)
    (hoff : OffRetention ttl c (some e)) :
    ∃ lost, Queued capacity ttl (made ++ ((calls capacity ttl).step c (some e)).2.toList) e.2
      ((calls capacity ttl).step c (some e)).1 lost := by
  obtain ⟨lost, hswept⟩ := h.evictExpired
  simp only [calls, add]
  split
  · exact ⟨lost, by simpa using hswept⟩
  next hfresh =>
  refine hswept.store hcap (fun hmem => hoff e rfl ?_) rfl
  obtain ⟨d, hd, hkey⟩ := mem_map.mp hmem
  obtain ⟨hrow, hyoung⟩ := mem_evictExpired.mp hd
  simp only [Table.get_eq_some_iff.mpr ⟨hd, hkey⟩, Option.any_some, decide_eq_true_eq] at hfresh
  obtain rfl : d = (e.1, e.2 - ttl) := Prod.ext hkey (by dsimp only; omega)
  exact Table.get_eq_some_iff.mpr ⟨hrow, rfl⟩

theorem exists_queued (hcap : 0 < capacity) {cs : List (κ × ℤ)} (hsorted : cs.Pairwise (·.2 ≤ ·.2))
    (hoff : (calls capacity ttl).Along (OffRetention ttl) .empty (cs.map some))
    (hnow : ∀ e ∈ cs, e.2 ≤ now) :
    ∃ lost, Queued capacity ttl ((calls capacity ttl).outputs .empty (cs.map some)).reduceOption now
      ((calls capacity ttl).final .empty (cs.map some)) lost := by
  induction cs using reverseRecOn generalizing now with
  | nil => exact ⟨[], rfl, rfl, .nil, nofun, Nat.zero_le _, nofun⟩
  | append_singleton cs e ih =>
    obtain ⟨hsorted, -, hlast⟩ := pairwise_append.mp hsorted
    rw [map_append, Transducer.along_append] at hoff
    obtain ⟨lost, h⟩ := ih hsorted hoff.1 fun d hd => hlast d hd e mem_cons_self
    obtain ⟨lost, h⟩ := h.call hcap hoff.2.1
    have hle := hnow e (by simp)
    rw [map_append, Transducer.outputs_append, Transducer.final_append, reduceOption_append]
    rw [← reduceOption_singleton] at h
    exact ⟨lost, { h with
      past := fun d hd => (h.past d hd).trans hle
      gone := fun hlt d hd => (h.gone hlt d hd).trans_le hle }⟩

variable {k : κ}

/-- A key is refused exactly if it was last entered within the retention, and fewer entries than the
cache holds were made after that. -/
theorem Queued.add_eq_false_iff (h : Queued capacity ttl made now c lost) :
    (c.add capacity ttl k now).2 = false ↔ ∃ before t after, made = before ++ (k, t) :: after ∧
      k ∉ after.map Prod.fst ∧ now - t < ttl ∧ after.length < capacity := by
  obtain ⟨lost, hswept⟩ := h.evictExpired
  simp only [add]
  generalize c.evictExpired (now - ttl) = c at hswept
  have hrefused : (c.entries.get k).any (fun e => now - e.2 < ttl) = true ↔
      ∃ t, (k, t) ∈ c.entries.rows ∧ now - t < ttl := by
    simp only [Option.any_eq_true, Table.get_eq_some_iff, decide_eq_true_eq]
    constructor
    · rintro ⟨d, ⟨hd, rfl⟩, hage⟩
      exact ⟨d.2, hd, hage⟩
    · rintro ⟨t, ht, hage⟩
      exact ⟨_, ⟨ht, rfl⟩, hage⟩
  trans (c.entries.get k).any (fun e => now - e.2 < ttl) = true
  · split <;> simp_all
  rw [hrefused]
  constructor
  · rintro ⟨t, hmem, hage⟩
    obtain ⟨first, after, hrows⟩ := append_of_mem hmem
    have hbound := hswept.bound
    have hnodup := c.entries.nodup
    rw [hrows, length_append, length_cons] at hbound
    rw [hrows, map_append, map_cons, nodup_append, nodup_cons] at hnodup
    refine ⟨lost ++ first, t, after, ?_, hnodup.2.1.1, hage, by omega⟩
    rw [hswept.made_eq, hrows, append_assoc]
  · rintro ⟨before, t, after, hmade, -, hage, hlength⟩
    refine ⟨t, ?_, hage⟩
    rw [hswept.made_eq, append_eq_append_iff] at hmade
    obtain ⟨rest, rfl, hrows⟩ | ⟨_ | ⟨d, rest⟩, rfl, heq⟩ := hmade
    · simp [hrows]
    · rw [nil_append] at heq
      exact heq ▸ mem_cons_self
    · rw [cons_append, cons_eq_cons] at heq
      obtain ⟨rfl, rfl⟩ := heq
      rw [length_append] at hlength
      have := hswept.gone (by omega) (k, t) (by simp)
      omega

/-- What has to go at the cap is the oldest entry. -/
theorem Queued.oldest_of_not_mem (h : Queued capacity ttl made now c lost)
    (hcap : 0 < capacity) (he : e ∈ (c.evictExpired (now - ttl)).entries.rows) (hkey : e.1 ≠ k)
    (hgone : e ∉ (c.add capacity ttl k now).1.entries.rows) :
    (c.evictExpired (now - ttl)).entries.rows.length = capacity ∧
      ∀ d ∈ (c.evictExpired (now - ttl)).entries.rows, e.2 ≤ d.2 := by
  obtain ⟨lost, hswept⟩ := h.evictExpired
  simp only [add] at hgone
  generalize c.evictExpired (now - ttl) = c at *
  split at hgone
  · exact absurd he hgone
  obtain ⟨-, -, hout⟩ := makeRoom_spec hswept.order hswept.bound hcap rfl
  have hlost : e ∉ (makeRoom capacity c.entries.rows.length c).entries.rows := fun hmem =>
    hgone (Table.mem_store_iff.mpr (.inr ⟨hmem, hkey⟩))
  rcases hout with hsame | ⟨hfull, d, hd⟩
  · rw [hsame] at hlost
    exact absurd he hlost
  have hsorted := hswept.inOrder.2
  rw [hd] at he hsorted ⊢
  obtain rfl := (mem_cons.mp he).resolve_right hlost
  exact ⟨hd ▸ hfull, forall_mem_cons.mpr ⟨le_rfl, (pairwise_cons.mp hsorted).1⟩⟩

end Cache

end Cfgms.Expiring
