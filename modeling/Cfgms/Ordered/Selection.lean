import Mathlib.Data.List.Basic

/-! # Selections that survive deletions

A query returns the rows that are good and that no other row hides, such as the latest row of
each group. It returns the same after a deletion exactly if the rows it returns are kept, and the
kept rows that it hides stay hidden.
-/

namespace Cfgms.Ordered

open List

variable {σ α β : Type*}

/-- A loop that filters a list of the state filters it by all items. -/
theorem foldl_filter {f : σ → List α} {step : σ → β → σ} {q : β → α → Bool}
    (hstep : ∀ s x, f (step s x) = (f s).filter (q x)) (s : σ) (xs : List β) :
    f (xs.foldl step s) = (f s).filter fun a => xs.all fun x => q x a := by
  induction xs generalizing s with
  | nil => simp
  | cons x xs ih =>
    rw [foldl_cons, ih, hstep, filter_filter]
    exact filter_congr fun a _ => by simp [Bool.and_comm]

variable (good : α → Bool) (hides : α → α → Bool)

def unhidden (rows : List α) : List α :=
  rows.filter fun r => good r && !rows.any fun r' => hides r' r

variable {good hides} {rows : List α} {keep : α → Bool} {r : α}

theorem mem_unhidden :
    r ∈ unhidden good hides rows ↔ r ∈ rows ∧ good r ∧ ∀ r' ∈ rows, ¬ hides r' r := by
  simp [unhidden]

theorem filter_unhidden {p q : α → Bool} (h : ∀ r, q r → p r) :
    (unhidden good hides rows).filter q =
      (unhidden (fun r => good r && p r) hides rows).filter q := by
  rw [unhidden, unhidden, filter_filter, filter_filter]
  refine filter_congr fun r _ => ?_
  cases hq : q r with
  | false => rfl
  | true => simp [h r hq]

/-- What a deletion must not do to a selection. -/
structure Survives (good : α → Bool) (hides : α → α → Bool) (rows : List α) (keep : α → Bool) :
    Prop where
  returned : ∀ r ∈ unhidden good hides rows, keep r
  hidden : ∀ r ∈ rows, good r → keep r → ∀ r' ∈ rows, hides r' r → ∃ r'' ∈ rows, keep r'' ∧ hides r'' r

theorem unhidden_filter_eq_iff :
    unhidden good hides (rows.filter keep) = unhidden good hides rows ↔
      Survives good hides rows keep := by
  constructor
  · intro heq
    constructor
    · intro r hr
      rw [← heq, mem_unhidden, mem_filter] at hr
      exact hr.1.2
    · intro r hr hgood hkeep r' hr' hhides
      by_contra hnone
      have hreturned : r ∈ unhidden good hides (rows.filter keep) := by
        refine mem_unhidden.mpr ⟨mem_filter.mpr ⟨hr, hkeep⟩, hgood, fun q hq hqr => hnone ?_⟩
        obtain ⟨hq, hqkeep⟩ := mem_filter.mp hq
        exact ⟨q, hq, hqkeep, hqr⟩
      rw [heq, mem_unhidden] at hreturned
      exact hreturned.2.2 r' hr' hhides
  · intro h
    rw [unhidden, filter_filter, unhidden]
    refine filter_congr fun r hr => ?_
    rw [Bool.eq_iff_iff]
    simp only [Bool.and_eq_true, Bool.not_eq_true', any_eq_false, mem_filter]
    constructor
    · rintro ⟨⟨hgood, hfree⟩, hkeep⟩
      refine ⟨hgood, fun r' hr' hhides => ?_⟩
      obtain ⟨q, hq, hqkeep, hqr⟩ := h.hidden r hr hgood hkeep r' hr' hhides
      exact hfree q ⟨hq, hqkeep⟩ hqr
    · rintro ⟨hgood, hfree⟩
      refine ⟨⟨hgood, fun r' hr' => hfree r' hr'.1⟩, ?_⟩
      exact h.returned r (mem_unhidden.mpr ⟨hr, hgood, fun r' hr' => hfree r' hr'⟩)

end Cfgms.Ordered
