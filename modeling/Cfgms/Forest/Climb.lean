import Cfgms.Forest.Outermost
import Mathlib.Data.List.Perm.Subperm

/-! # Climbing towards the root

A walk up the links of finitely many nodes keeps the nodes it has seen and stops at a root, at
a node that does not exist, or at one it has seen. It comes past every ancestor.
-/

namespace Cfgms.Forest

open List

variable {α : Type*}

inductive Stop (α : Type*) where
  | root
  | missing (n : α)
  | revisited (n : α)

/-- The parent of a node, from its link: a node that exists has a link, which is empty at a
root. -/
def parentOf (link : α → Option (Option α)) (n : α) : Option α := (link n).join

theorem parentOf_eq_some {link : α → Option (Option α)} {n p : α} :
    parentOf link n = some p ↔ link n = some (some p) := by
  simp [parentOf, Option.join_eq_some_iff]

variable [DecidableEq α] (link : α → Option (Option α))

def climb : ℕ → List α → α → List α × Stop α
  | 0, seen, n => (seen, .revisited n)
  | fuel + 1, seen, n =>
    if n ∈ seen then (seen, .revisited n)
    else
      match link n with
      | none => (seen ++ [n], .missing n)
      | some none => (seen ++ [n], .root)
      | some (some p) => climb fuel (seen ++ [n]) p

variable {link} {keys : List α}

/-- What a walk has seen at its end has the node it began with, and the parents of all that
it added. -/
theorem climb_closed (hkeys : ∀ n, (link n).isSome → n ∈ keys) {fuel : ℕ} {seen : List α} {n : α}
    (hseen : ∀ m ∈ seen, m ∈ keys) (hnodup : seen.Nodup) (hfuel : keys.length < fuel + seen.length) :
    n ∈ (climb link fuel seen n).1 ∧ (∀ m ∈ seen, m ∈ (climb link fuel seen n).1) ∧
      ∀ m ∈ (climb link fuel seen n).1, m ∉ seen → ∀ p, parentOf link m = some p →
        p ∈ (climb link fuel seen n).1 := by
  induction fuel generalizing seen n with
  | zero =>
    have hle : seen.length ≤ keys.length := (List.Nodup.subperm hnodup hseen).length_le
    omega
  | succ fuel ih =>
    unfold climb
    split
    · next hmem => exact ⟨hmem, fun _ => id, fun m hm hnot => absurd hm hnot⟩
    next hnew =>
    rcases hlink : link n with _ | _ | q
    case some.some =>
      have hn : n ∈ keys := hkeys n (by simp [hlink])
      have hall : ∀ m ∈ seen ++ [n], m ∈ keys := by
        simpa [or_imp, forall_and, hn] using hseen
      have hnodup' : (seen ++ [n]).Nodup := by
        simpa [nodup_append, hnodup] using fun a ha => ne_of_mem_of_not_mem ha hnew
      obtain ⟨hq, hsub, hclosed⟩ := ih (n := q) hall hnodup' (by simp; omega)
      refine ⟨hsub n (by simp), fun m hm => hsub m (by simp [hm]), fun m hm hnot p hp => ?_⟩
      rcases eq_or_ne m n with rfl | hne
      · obtain rfl : q = p := by simpa [parentOf, hlink] using hp
        exact hq
      · exact hclosed m hm (by simp [hnot, hne]) p hp
    all_goals
      refine ⟨by simp, fun m hm => by simp [hm], fun m hm hnot p hp => ?_⟩
      obtain rfl : m = n := by simpa [hnot] using hm
      simp [parentOf, hlink] at hp

/-- A walk with enough fuel comes past every ancestor of its start. -/
theorem mem_climb_of_above (hkeys : ∀ n, (link n).isSome → n ∈ keys) {a n : α}
    (h : Above (parentOf link) a n) : a ∈ (climb link (keys.length + 1) [] n).1 := by
  have hfuel : keys.length < keys.length + 1 + ([] : List α).length := by simp
  obtain ⟨hstart, -, hclosed⟩ := climb_closed hkeys (n := n) (fun _ hm => absurd hm not_mem_nil)
    nodup_nil hfuel
  generalize (climb link (keys.length + 1) [] n).1 = path at hstart hclosed
  induction h with
  | parent hp => exact hclosed _ hstart not_mem_nil _ hp
  | step hp _ ih => exact ih (hclosed _ hstart not_mem_nil _ hp)

end Cfgms.Forest
