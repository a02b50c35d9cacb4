import Mathlib.Data.List.Basic

/-! # Loops that may fail

A loop over a list of items changes a state with each of them and stops at the first error. The
record of a loop pairs every item with the state in which its turn came.
-/

namespace Cfgms.Fallible

open List

variable {σ α β ε : Type}

theorem bind_eq_ok {x : Except ε α} {f : α → Except ε β} {b : β} :
    (x >>= f) = .ok b ↔ ∃ a, x = .ok a ∧ f a = .ok b := by
  cases x with
  | error | ok => simp [bind, Except.bind]

theorem mapError_eq_ok {f : ε → ε} {x : Except ε α} {a : α} : x.mapError f = .ok a ↔ x = .ok a := by
  cases x with
  | error | ok => simp [Except.mapError]

def record (f : σ → α → Except ε σ) : σ → List α → List (σ × α)
  | _, [] => []
  | s, a :: as =>
    (s, a) :: match f s a with
      | .ok s' => record f s' as
      | .error _ => []

variable {f : σ → α → Except ε σ} {P : σ → List (σ × α) → Prop} {s s' : σ}

section

variable (hstep : ∀ s h a s', P s h → f s a = .ok s' → P s' (h ++ [(s, a)]))
include hstep

theorem foldlM_record_append {h : List (σ × α)} {as : List α} (hs : P s h)
    (hrun : as.foldlM f s = .ok s') : P s' (h ++ record f s as) := by
  induction as generalizing s h with
  | nil =>
    cases hrun
    simpa [record] using hs
  | cons a as ih =>
    rw [foldlM_cons] at hrun
    obtain ⟨s₁, hfirst, hrest⟩ := bind_eq_ok.mp hrun
    have hnext := ih (hstep s h a s₁ hs hfirst) hrest
    rw [record, hfirst]
    simpa using hnext

/-- What each item keeps, for the items so far with their states, a loop without an error keeps. -/
theorem foldlM_record {as : List α} (hs : P s []) (hrun : as.foldlM f s = .ok s') :
    P s' (record f s as) :=
  foldlM_record_append hstep hs hrun

end

/-- A condition on every item of a list and the items before it. -/
theorem forall_split_concat {α : Type*} {C : List α → α → Prop} {as : List α} {b : α} :
    (∀ p a q, as ++ [b] = p ++ a :: q → C p a) ↔
      (∀ p a q, as = p ++ a :: q → C p a) ∧ C as b := by
  constructor
  · intro h
    refine ⟨?_, h as b [] rfl⟩
    rintro p a q rfl
    exact h p a (q ++ [b]) (by simp)
  · rintro ⟨hold, hlast⟩ p a q hsplit
    rcases eq_nil_or_concat q with rfl | ⟨q, c, rfl⟩
    · obtain ⟨rfl, hb⟩ := append_inj' hsplit rfl
      obtain rfl := singleton_inj.mp hb
      exact hlast
    · rw [concat_eq_append, ← cons_append, ← append_assoc] at hsplit
      exact hold p a q (append_inj' hsplit rfl).1

end Cfgms.Fallible
