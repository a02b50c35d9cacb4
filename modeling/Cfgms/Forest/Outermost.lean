import Mathlib.Order.WellFounded
import Mathlib.Tactic.Common

/-! # The outermost marked ancestor

A forest is given by its parent function. Among the marked strict ancestors of a node
at most one has no marked ancestor of its own. Marking one more node changes it only
below that node, and growing the forest under unmarked ground changes it nowhere. Cutting
subtrees off changes it for no node that is kept.
-/

namespace Cfgms.Forest

variable {α : Type*} (parent : α → Option α)

/-- The node `a` is a strict ancestor of `n`. -/
inductive Above : α → α → Prop where
  | parent {n p : α} : parent n = some p → Above p n
  | step {n p a : α} : parent n = some p → Above a p → Above a n

/-- Every chain of parents ends. -/
def Grounded : Prop := WellFounded fun p n => parent n = some p

/-- The outermost marked strict ancestor of a node, if there is one. -/
def Outermost (D : α → Prop) (n : α) : Option α → Prop
  | none => ∀ a, Above parent a n → ¬ D a
  | some a => Above parent a n ∧ D a ∧ ∀ b, Above parent b a → ¬ D b

variable {parent} {D : α → Prop} {a b n p : α}

theorem above_iff : Above parent a n ↔ ∃ p, parent n = some p ∧ (a = p ∨ Above parent a p) := by
  constructor
  · rintro (h | ⟨h, ha⟩)
    · exact ⟨_, h, .inl rfl⟩
    · exact ⟨_, h, .inr ha⟩
  · rintro ⟨p, h, rfl | ha⟩
    · exact .parent h
    · exact .step h ha

theorem above_of_parent (h : parent n = some p) : Above parent a n ↔ a = p ∨ Above parent a p := by
  rw [above_iff]
  constructor
  · rintro ⟨q, hq, hor⟩
    cases h.symm.trans hq
    exact hor
  · exact fun hor => ⟨p, h, hor⟩

theorem not_above_of_root (h : parent n = none) : ¬ Above parent a n := by
  rw [above_iff]
  rintro ⟨q, hq, -⟩
  rw [h] at hq
  cases hq

theorem Above.trans (hab : Above parent a b) (hbn : Above parent b n) : Above parent a n := by
  induction hbn with
  | parent h => exact .step h hab
  | step h _ ih => exact .step h (ih hab)

theorem Above.exists_child (h : Above parent a n) :
    ∃ c, parent c = some a ∧ (c = n ∨ Above parent c n) := by
  induction h with
  | parent h => exact ⟨_, h, .inl rfl⟩
  | step h _ ih =>
    obtain ⟨c, hc, rfl | hcp⟩ := ih
    · exact ⟨c, hc, .inr (.parent h)⟩
    · exact ⟨c, hc, .inr (.step h hcp)⟩

/-- Two strict ancestors of one node are on one chain. -/
theorem Above.chain (ha : Above parent a n) (hb : Above parent b n) :
    a = b ∨ Above parent a b ∨ Above parent b a := by
  induction ha with
  | parent h =>
    rcases (above_of_parent h).mp hb with rfl | hb
    · exact .inl rfl
    · exact .inr (.inr hb)
  | step h ha ih =>
    rcases (above_of_parent h).mp hb with rfl | hb
    · exact .inr (.inl ha)
    · exact ih hb

theorem Grounded.not_above_self (h : Grounded parent) (n : α) : ¬ Above parent n n := by
  have key : ∀ n a, Above parent a n → a ≠ n := by
    intro n
    induction n using h.induction with
    | _ n ih =>
      rintro a ha rfl
      obtain ⟨p, hp, rfl | hap⟩ := above_iff.mp ha
      · exact ih a hp a ha rfl
      · exact ih p hp p (Above.trans (.parent hp) hap) rfl
  exact fun ha => key n n ha rfl

theorem Outermost.unique {o o' : Option α} (h : Outermost parent D n o)
    (h' : Outermost parent D n o') : o = o' := by
  cases o with
  | none =>
    cases o' with
    | none => rfl
    | some b => exact absurd h'.2.1 (h b h'.1)
  | some a =>
    cases o' with
    | none => exact absurd h.2.1 (h' a h.1)
    | some b =>
      rcases h.1.chain h'.1 with rfl | hab | hba
      · rfl
      · exact absurd h.2.1 (h'.2.2 a hab)
      · exact absurd h'.2.1 (h.2.2 b hba)

theorem Outermost.ne_none_iff {o : Option α} (h : Outermost parent D n o) :
    o ≠ none ↔ ∃ a, Above parent a n ∧ D a := by
  cases o with
  | none =>
    refine ⟨fun hne => absurd rfl hne, ?_⟩
    rintro ⟨a, ha, hD⟩
    exact absurd hD (h a ha)
  | some a => exact ⟨fun _ => ⟨a, h.1, h.2.1⟩, fun _ => Option.some_ne_none a⟩

section

variable (hp : parent n = some p)
include hp

theorem Outermost.child_of_some (h : Outermost parent D p (some a)) :
    Outermost parent D n (some a) :=
  ⟨.step hp h.1, h.2⟩

theorem Outermost.child_of_marked (h : Outermost parent D p none)
    (hD : D p) : Outermost parent D n (some p) :=
  ⟨.parent hp, hD, h⟩

theorem Outermost.child_of_unmarked (h : Outermost parent D p none)
    (hD : ¬ D p) : Outermost parent D n none := by
  intro a ha
  rcases (above_of_parent hp).mp ha with rfl | ha
  · exact hD
  · exact h a ha

end

theorem exists_outermost (hg : Grounded parent) (D : α → Prop) (n : α) :
    ∃ o, Outermost parent D n o := by
  induction n using hg.induction with
  | _ n ih =>
    cases hp : parent n with
    | none => exact ⟨none, fun a ha => absurd ha (not_above_of_root hp)⟩
    | some p =>
      obtain ⟨o, ho⟩ := ih p hp
      cases o with
      | some a => exact ⟨some a, ho.child_of_some hp⟩
      | none =>
        by_cases hD : D p
        · exact ⟨some p, ho.child_of_marked hp hD⟩
        · exact ⟨none, ho.child_of_unmarked hp hD⟩

def mark (D : α → Prop) (t : α) : α → Prop := fun n => D n ∨ n = t

variable {t : α}

theorem outermost_mark_iff (h : ¬ Above parent t n) (o : Option α) :
    Outermost parent (mark D t) n o ↔ Outermost parent D n o := by
  have hne : ∀ a, Above parent a n → (mark D t a ↔ D a) := by
    intro a ha
    refine ⟨fun hm => hm.resolve_right ?_, .inl⟩
    rintro rfl
    exact h ha
  cases o with
  | none => exact forall₂_congr fun a ha => not_congr (hne a ha)
  | some a =>
    refine and_congr_right fun ha => and_congr (hne a ha) ?_
    exact forall₂_congr fun b hb => not_congr (hne b (hb.trans ha))

theorem Outermost.below (ht : Above parent t n) (h : Outermost parent D t (some a)) :
    Outermost parent D n (some a) :=
  ⟨h.1.trans ht, h.2⟩

/-- Below a node that is contained already, marking it changes nothing. -/
theorem Outermost.mark_below_some (hg : Grounded parent) (ht : Above parent t n)
    (h : Outermost parent D t (some a)) : Outermost parent (mark D t) n (some a) := by
  refine ⟨h.1.trans ht, .inl h.2.1, fun b hb => ?_⟩
  rintro (hD | rfl)
  · exact h.2.2 b hb hD
  · exact hg.not_above_self b (hb.trans h.1)

theorem Outermost.mark_below_none (hg : Grounded parent) (ht : Above parent t n)
    (h : Outermost parent D t none) : Outermost parent (mark D t) n (some t) := by
  refine ⟨ht, .inr rfl, fun b hb => ?_⟩
  rintro (hD | rfl)
  · exact h b hb hD
  · exact hg.not_above_self b hb

/-- Below a node that nothing contains, the outermost mark is the node or below it. -/
theorem Outermost.inside (ht : Above parent t n) (h : Outermost parent D t none)
    (hn : Outermost parent D n (some a)) : a = t ∨ Above parent t a := by
  rcases hn.1.chain ht with rfl | hat | hta
  · exact .inl rfl
  · exact absurd hn.2.1 (h a hat)
  · exact .inr hta

section Graft

variable {parent' : α → Option α} {c : α}

theorem Above.graft (hold : ∀ n q, parent n = some q → parent' n = some q)
    (h : Above parent a n) : Above parent' a n := by
  induction h with
  | parent h => exact .parent (hold _ _ h)
  | step h _ ih => exact .step (hold _ _ h) ih

/-- A new edge from `c` to `p` adds only `p` and what is above it. -/
theorem above_of_graft (hsame : ∀ n, n ≠ c → parent' n = parent n) (hp : parent' c = some p)
    (h : Above parent' a n) : Above parent a n ∨ a = p ∨ Above parent a p := by
  induction h with
  | @parent n q h =>
    by_cases hn : n = c
    · subst hn
      exact .inr (.inl (Option.some.inj (h.symm.trans hp)))
    · exact .inl (.parent ((hsame n hn).symm.trans h))
  | @step n q a h _ ih =>
    by_cases hn : n = c
    · subst hn
      cases h.symm.trans hp
      exact .inr (ih.elim .inr id)
    · exact ih.imp_left (.step ((hsame n hn).symm.trans h))

theorem Grounded.prune (hg : Grounded parent)
    (hsub : ∀ n p, parent' n = some p → parent n = some p) : Grounded parent' :=
  Subrelation.wf (fun {p n} hp => hsub n p hp) hg

/-- A new edge closes no cycle unless it leads back to its own node. -/
theorem Grounded.graft (hg : Grounded parent) (hsame : ∀ n, n ≠ c → parent' n = parent n)
    (hp : parent' c = some p) (hne : p ≠ c) (hfree : ¬ Above parent c p) : Grounded parent' := by
  have haside : ∀ n, n ≠ c → ¬ Above parent c n →
      Acc (fun q n => parent' n = some q) n := by
    intro n
    induction n using hg.induction with
    | _ n ih =>
      intro hn hc
      refine ⟨n, fun q hq => ?_⟩
      rw [hsame n hn] at hq
      refine ih q hq ?_ fun hcq => hc (.step hq hcq)
      rintro rfl
      exact hc (.parent hq)
  have hgraft : Acc (fun q n => parent' n = some q) c := by
    refine ⟨c, fun q hq => ?_⟩
    cases hp.symm.trans hq
    exact haside p hne hfree
  refine ⟨fun n => ?_⟩
  induction n using hg.induction with
  | _ n ih =>
    by_cases hn : n = c
    · exact hn ▸ hgraft
    · exact ⟨n, fun q hq => ih q ((hsame n hn).symm.trans hq)⟩

/-- Under unmarked ground a new node leaves every outermost mark where it was. -/
theorem outermost_graft_iff (hc : parent c = none) (hsame : ∀ n, n ≠ c → parent' n = parent n)
    (hp : parent' c = some p) (hD : ¬ D p) (hclear : Outermost parent D p none)
    (n : α) (o : Option α) : Outermost parent' D n o ↔ Outermost parent D n o := by
  have hold : ∀ n q, parent n = some q → parent' n = some q := by
    intro n q h
    rw [hsame n, h]
    rintro rfl
    rw [hc] at h
    cases h
  have hmarked : ∀ a n, D a → (Above parent' a n ↔ Above parent a n) := by
    intro a n ha
    refine ⟨fun h => ?_, Above.graft hold⟩
    rcases above_of_graft hsame hp h with h | rfl | h
    · exact h
    · exact absurd ha hD
    · exact absurd ha (hclear a h)
  cases o with
  | none =>
    exact ⟨fun h a ha hDa => h a ((hmarked a n hDa).mpr ha) hDa,
      fun h a ha hDa => h a ((hmarked a n hDa).mp ha) hDa⟩
  | some a =>
    constructor
    · rintro ⟨ha, hDa, hb⟩
      exact ⟨(hmarked a n hDa).mp ha, hDa, fun b h hDb => hb b ((hmarked b a hDb).mpr h) hDb⟩
    · rintro ⟨ha, hDa, hb⟩
      exact ⟨(hmarked a n hDa).mpr ha, hDa, fun b h hDb => hb b ((hmarked b a hDb).mp h) hDb⟩

end Graft

section Prune

variable {parent' : α → Option α} {D' : α → Prop} {K : α → Prop}
  (hkept : ∀ n, K n → parent' n = parent n) (hup : ∀ n p, K n → parent n = some p → K p)
include hkept hup

theorem above_prune_iff (hn : K n) : Above parent' a n ↔ Above parent a n := by
  constructor
  · intro ha
    induction ha with
    | parent hp => exact .parent ((hkept _ hn).symm.trans hp)
    | step hp _ ih =>
      have hp' := (hkept _ hn).symm.trans hp
      exact .step hp' (ih (hup _ _ hn hp'))
  · intro ha
    induction ha with
    | parent hp => exact .parent ((hkept _ hn).trans hp)
    | step hp _ ih => exact .step ((hkept _ hn).trans hp) (ih (hup _ _ hn hp))

/-- What is kept has its parents kept, so it keeps its outermost mark. -/
theorem outermost_prune_iff (hD : ∀ a, K a → (D' a ↔ D a)) (hn : K n) (o : Option α) :
    Outermost parent' D' n o ↔ Outermost parent D n o := by
  have habove : ∀ {a m : α}, K m → Above parent a m → K a := by
    intro a m hm ha
    induction ha with
    | parent hp => exact hup _ _ hm hp
    | step hp _ ih => exact ih (hup _ _ hm hp)
  have hclear : ∀ m, K m →
      ((∀ a, Above parent' a m → ¬ D' a) ↔ ∀ a, Above parent a m → ¬ D a) := by
    intro m hm
    simp only [above_prune_iff hkept hup hm]
    exact forall_congr' fun a => imp_congr_right fun ha => not_congr (hD a (habove hm ha))
  cases o with
  | none => exact hclear n hn
  | some a =>
    rw [Outermost, Outermost, above_prune_iff hkept hup hn]
    refine and_congr_right fun ha => ?_
    have hK := habove hn ha
    exact and_congr (hD a hK) (hclear a hK)

end Prune

end Cfgms.Forest
