import Mathlib.Data.List.Chain
import Mathlib.Data.List.TakeWhile
import Mathlib.Order.WellFounded

/-! # Search for a cycle

A depth-first search colours the nodes of a graph. A node whose successors are all finished lies
on no infinite walk, and a successor that is still being visited closes a cycle.
-/

namespace Cfgms.Graph

open List

variable {α : Type*}

/-- The edges of a graph that is given by lists of successors. -/
def Edge (next : α → List α) (a b : α) : Prop := b ∈ next a

def Cyclic (next : α → List α) : Prop := ∃ a, Relation.TransGen (Edge next) a a

/-- A walk back to its first node, with no other node twice. -/
def ClosedWalk (next : α → List α) (walk : List α) : Prop :=
  ∃ a as, walk = a :: as ++ [a] ∧ (a :: as).Nodup ∧ walk.IsChain (Edge next)

variable {next : α → List α} {walk : List α}

theorem ClosedWalk.cyclic (h : ClosedWalk next walk) :
    Cyclic next := by
  obtain ⟨a, as, rfl, -, hchain⟩ := h
  obtain ⟨b, bs, hbs⟩ := exists_cons_of_ne_nil (concat_ne_nil a as)
  rw [cons_append, hbs, isChain_cons_cons] at hchain
  refine ⟨a, Relation.TransGen.head' hchain.1 ?_⟩
  exact relationReflTransGen_of_exists_isChain_cons bs hchain.2 (by simp [← hbs])

theorem ClosedWalk.exists_edge (h : ClosedWalk next walk)
    {b : α} (hb : b ∈ walk) : ∃ c, Edge next b c := by
  obtain ⟨a, as, rfl, -, hchain⟩ := h
  have hmem : b ∈ a :: as := by simpa [or_comm] using hb
  obtain ⟨before, after, hsplit⟩ := append_of_mem hmem
  obtain ⟨c, rest, hrest⟩ := exists_cons_of_ne_nil (concat_ne_nil a after)
  rw [hsplit, append_assoc, cons_append, hrest] at hchain
  exact ⟨c, (isChain_cons_cons.mp (isChain_append.mp hchain).2.1).1⟩

variable {a : α}

theorem not_rel_self_of_acc {r : α → α → Prop} (h : Acc r a) : ¬ r a a := by
  induction h with
  | intro a _ ih => exact fun ha => ih a ha ha

inductive Color where
  | white
  | gray
  | black
  deriving DecidableEq

structure Search (α : Type*) where
  color : α → Color
  path : List α
  cycle : List α

/-- A search only finishes nodes. -/
structure Extends (s s' : Search α) : Prop where
  gray : ∀ a, s'.color a = .gray ↔ s.color a = .gray
  black : ∀ a, s.color a = .black → s'.color a = .black
  path : s'.path = s.path
  cycle : s'.cycle = s.cycle

theorem Extends.refl (s : Search α) : Extends s s := ⟨fun _ => Iff.rfl, fun _ h => h, rfl, rfl⟩

theorem Extends.trans {s₁ s₂ s₃ : Search α} (h : Extends s₁ s₂) (h' : Extends s₂ s₃) :
    Extends s₁ s₃ :=
  ⟨fun a => (h'.gray a).trans (h.gray a), fun a ha => h'.black a (h.black a ha),
    h'.path.trans h.path, h'.cycle.trans h.cycle⟩

variable {s : Search α}

theorem Extends.white {s' : Search α} (h : Extends s s')
    (ha : s'.color a = .white) : s.color a = .white := by
  cases hcolor : s.color a with
  | white => rfl
  | gray => simp [(h.gray a).mpr hcolor] at ha
  | black => simp [h.black a hcolor] at ha

variable [DecidableEq α]

namespace Search

def start : Search α := ⟨fun _ => .white, [], []⟩

def enter (s : Search α) (a : α) : Search α :=
  { s with color := Function.update s.color a .gray, path := s.path ++ [a] }

def leave (s : Search α) (a : α) : Search α :=
  { s with color := Function.update s.color a .black, path := s.path.dropLast }

/-- The part of the path from `a` on, closed by `a`. -/
def close (s : Search α) (a : α) : Search α :=
  if a ∈ s.path then { s with cycle := s.cycle ++ s.path.dropWhile (· ≠ a) ++ [a] } else s

end Search

def visitAll (visit : α → Search α → Bool × Search α) :
    List α → Search α → Bool × Search α
  | [], s => (false, s)
  | a :: as, s =>
    match s.color a with
    | .gray => (true, s.close a)
    | .black => visitAll visit as s
    | .white =>
      match visit a s with
      | (true, s) => (true, s)
      | (false, s) => visitAll visit as s

/-- The search from a node, with as much fuel as there are white nodes. -/
def visit (next : α → List α) : ℕ → α → Search α → Bool × Search α
  | 0, _, s => (false, s)
  | fuel + 1, a, s =>
    match visitAll (visit next fuel) (next a) (s.enter a) with
    | (true, s) => (true, s)
    | (false, s) => (false, s.leave a)

/-- The search from every node of a list that was not reached before. -/
def searchAll (next : α → List α) (fuel : ℕ) : List α → Search α → Bool × Search α
  | [], s => (false, s)
  | a :: as, s =>
    if s.color a = .white then
      match visit next fuel a s with
      | (true, s) => (true, s)
      | (false, s) => searchAll next fuel as s
    else searchAll next fuel as s

section Whites

variable (nodes : List α)

/-- The nodes that a search has not reached. -/
def whites (s : Search α) : List α := nodes.filter fun a => s.color a = .white

omit [DecidableEq α] in
theorem Extends.length_whites {s' : Search α} (h : Extends s s') :
    (whites nodes s').length ≤ (whites nodes s).length := by
  apply List.Sublist.length_le
  apply monotone_filter_right
  intro a ha
  exact decide_eq_true (h.white (of_decide_eq_true ha))

theorem length_whites_enter (hmem : a ∈ nodes)
    (hwhite : s.color a = .white) :
    (whites nodes (s.enter a)).length < (whites nodes s).length := by
  have hsub : (whites nodes (s.enter a)).Sublist (whites nodes s) := by
    apply monotone_filter_right
    intro b hb
    by_cases hab : b = a
    · simp [Search.enter, hab] at hb
    · simpa [Search.enter, hab] using hb
  apply lt_of_le_of_ne hsub.length_le
  intro hlength
  have ha : a ∈ whites nodes s := by simp [whites, hmem, hwhite]
  rw [← hsub.eq_of_length hlength] at ha
  simp [whites, Search.enter] at ha

end Whites

section Outcome

variable (next : α → List α)

/-- Finished nodes lie on no infinite walk. -/
def Grounds (s : Search α) : Prop :=
  ∀ a, s.color a = .black → Acc (fun a b => Edge next b a) a

/-- The nodes in progress are those of the path, which is a walk. -/
structure Stacked (s : Search α) : Prop where
  gray : ∀ a, s.color a = .gray ↔ a ∈ s.path
  nodup : s.path.Nodup
  chain : s.path.IsChain (Edge next)
  cycle : s.cycle = []

/-- The search found a cycle, or it finished the nodes it was asked for. -/
def Outcome (s : Search α) (asked : α → Prop) : Bool × Search α → Prop
  | (true, s') => ClosedWalk next s'.cycle
  | (false, s') => Extends s s' ∧ Grounds next s' ∧ ∀ a, asked a → s'.color a = .black

/-- The outcome of a search from a white node that the path leads to. -/
def Visits (nodes : List α) (fuel : ℕ) (go : α → Search α → Bool × Search α) : Prop :=
  ∀ a s, a ∈ nodes → s.color a = .white → (whites nodes s).length ≤ fuel → Grounds next s →
    Stacked next s → (∀ b ∈ s.path.getLast?, Edge next b a) → Outcome next s (· = a) (go a s)

variable {next} {nodes : List α}

omit [DecidableEq α] in
theorem Stacked.extend {s' : Search α} (h : Stacked next s) (hext : Extends s s') :
    Stacked next s' :=
  ⟨fun a => by rw [hext.gray, hext.path, h.gray], hext.path ▸ h.nodup, hext.path ▸ h.chain,
    hext.cycle.trans h.cycle⟩

theorem Stacked.enter (h : Stacked next s) (hwhite : s.color a = .white)
    (hedge : ∀ b ∈ s.path.getLast?, Edge next b a) : Stacked next (s.enter a) := by
  have hnew : a ∉ s.path := fun hmem => by simp [(h.gray a).mpr hmem] at hwhite
  refine ⟨fun b => ?_, ?_, ?_, h.cycle⟩
  · by_cases hba : b = a <;> simp [Search.enter, hba, h.gray]
  · simpa [Search.enter, nodup_append, h.nodup] using fun b hb => ne_of_mem_of_not_mem hb hnew
  · exact isChain_append.mpr ⟨h.chain, .singleton a, by simpa using hedge⟩

variable {current : α}

/-- A node in progress that the path leads to closes a walk. -/
theorem Stacked.close (h : Stacked next s)
    (hlast : s.path.getLast? = some current) (hedge : Edge next current a)
    (hgray : s.color a = .gray) : ClosedWalk next (s.close a).cycle := by
  have hmem := (h.gray a).mp hgray
  have hne : s.path.dropWhile (· ≠ a) ≠ [] := by simpa [dropWhile_eq_nil_iff] using hmem
  obtain ⟨b, as, hdrop⟩ := exists_cons_of_ne_nil hne
  obtain rfl : b = a := by
    have hhead := head_dropWhile_not (· ≠ a) hne
    simp only [hdrop, head_cons] at hhead
    simpa using hhead
  have hsuffix : b :: as <:+ s.path := hdrop ▸ dropWhile_suffix _
  have hcycle : (s.close b).cycle = b :: as ++ [b] := by
    rw [← hdrop]
    simp [Search.close, hmem, h.cycle]
  refine ⟨b, as, hcycle, h.nodup.sublist hsuffix.sublist, ?_⟩
  rw [hcycle, isChain_append]
  refine ⟨h.chain.suffix hsuffix, .singleton b, fun c hc d hd => ?_⟩
  obtain ⟨first, happend⟩ := hsuffix
  rw [← happend, getLast?_append_of_ne_nil _ (cons_ne_nil b as)] at hlast
  cases hlast.symm.trans hc
  cases hd
  exact hedge

omit [DecidableEq α] in
/-- A search goes on after a node that is finished. -/
theorem Outcome.cons {s₁ : Search α} {as : List α} {r : Bool × Search α}
    (hext : Extends s s₁) (ha : s₁.color a = .black) (h : Outcome next s₁ (· ∈ as) r) :
    Outcome next s (· ∈ a :: as) r := by
  rcases r with ⟨_ | _, s'⟩
  · obtain ⟨hext', hground, hblack⟩ := h
    exact ⟨hext.trans hext', hground, List.forall_mem_cons.mpr ⟨hext'.black _ ha, hblack⟩⟩
  · exact h

variable {fuel : ℕ} {as : List α} {s : Search α}

theorem visitAll_outcome {go : α → Search α → Bool × Search α}
    (hgo : Visits next nodes fuel go) (has : ∀ a ∈ as, Edge next current a)
    (hnodes : ∀ a ∈ as, a ∈ nodes) (hwhites : (whites nodes s).length ≤ fuel)
    (hground : Grounds next s) (hstacked : Stacked next s)
    (hlast : s.path.getLast? = some current) :
    Outcome next s (· ∈ as) (visitAll go as s) := by
  induction as generalizing s with
  | nil => exact ⟨Extends.refl s, hground, by simp⟩
  | cons a as ih =>
    rw [forall_mem_cons] at has hnodes
    unfold visitAll
    cases hcolor : s.color a with
    | gray => exact hstacked.close hlast has.1 hcolor
    | black =>
      exact Outcome.cons (Extends.refl s) hcolor (ih has.2 hnodes.2 hwhites hground hstacked hlast)
    | white =>
      have hvisit := hgo a s hnodes.1 hcolor hwhites hground hstacked
        (by simpa [hlast] using has.1)
      rcases hresult : go a s with ⟨_ | _, s₁⟩
      · rw [hresult] at hvisit
        obtain ⟨hext, hground₁, hblack⟩ := hvisit
        apply Outcome.cons hext (hblack a rfl)
        exact ih has.2 hnodes.2 ((hext.length_whites nodes).trans hwhites) hground₁
          (hstacked.extend hext) (hext.path ▸ hlast)
      · rw [hresult] at hvisit
        exact hvisit

variable (hclosed : ∀ a ∈ nodes, ∀ b ∈ next a, b ∈ nodes)
include hclosed

theorem visit_visits (fuel : ℕ) : Visits next nodes fuel (visit next fuel) := by
  induction fuel with
  | zero =>
    intro a s hmem hwhite hle
    have ha : a ∈ whites nodes s := by simp [whites, hmem, hwhite]
    rw [eq_nil_of_length_eq_zero (Nat.le_zero.mp hle)] at ha
    cases ha
  | succ fuel ih =>
    intro a s hmem hwhite hle hground hstacked hedge
    have hlt := length_whites_enter nodes hmem hwhite
    have hground' : Grounds next (s.enter a) := by
      intro b hb
      by_cases hba : b = a
      · simp [Search.enter, hba] at hb
      · exact hground b (by simpa [Search.enter, hba] using hb)
    have hall := visitAll_outcome ih (fun _ hb => hb) (hclosed a hmem) (by omega) hground'
      (hstacked.enter hwhite hedge) getLast?_concat
    unfold visit
    rcases hresult : visitAll (visit next fuel) (next a) (s.enter a) with ⟨_ | _, s'⟩
    · rw [hresult] at hall
      obtain ⟨hext, hground'', hblack⟩ := hall
      have hacc : Acc (fun a b => Edge next b a) a :=
        Acc.intro a fun b hb => hground'' b (hblack b hb)
      refine ⟨⟨fun b => ?_, fun b hb => ?_, ?_, hext.cycle⟩, fun b hb => ?_, ?_⟩
      · by_cases hba : b = a
        · simp [Search.leave, hba, hwhite]
        · simpa [Search.leave, Search.enter, hba] using hext.gray b
      · by_cases hba : b = a
        · simp [Search.leave, hba]
        · simpa [Search.leave, hba] using
            hext.black b (by simpa [Search.enter, hba] using hb)
      · simp [Search.leave, hext.path, Search.enter]
      · by_cases hba : b = a
        · exact hba ▸ hacc
        · exact hground'' b (by simpa [Search.leave, hba] using hb)
      · rintro b rfl
        simp [Search.leave]
    · rw [hresult] at hall
      exact hall

variable (hnodes : ∀ a ∈ as, a ∈ nodes)
include hnodes

theorem searchAll_outcome (hwhites : (whites nodes s).length ≤ fuel) (hground : Grounds next s)
    (hstacked : Stacked next s) (hpath : s.path = []) :
    Outcome next s (· ∈ as) (searchAll next fuel as s) := by
  induction as generalizing s with
  | nil => exact ⟨Extends.refl s, hground, by simp⟩
  | cons a as ih =>
    rw [forall_mem_cons] at hnodes
    unfold searchAll
    split
    · next hcolor =>
      have hvisit := visit_visits hclosed fuel a s hnodes.1 hcolor hwhites hground hstacked
        (by simp [hpath])
      rcases hresult : visit next fuel a s with ⟨_ | _, s₁⟩
      · rw [hresult] at hvisit
        obtain ⟨hext, hground₁, hblack⟩ := hvisit
        apply Outcome.cons hext (hblack a rfl)
        exact ih hnodes.2 ((hext.length_whites nodes).trans hwhites) hground₁
          (hstacked.extend hext) (hext.path.trans hpath)
      · rw [hresult] at hvisit
        exact hvisit
    · next hcolor =>
      have hblack : s.color a = .black := by
        cases hc : s.color a with
        | white => exact absurd hc hcolor
        | gray => simp [hstacked.gray, hpath] at hc
        | black => rfl
      exact Outcome.cons (Extends.refl s) hblack (ih hnodes.2 hwhites hground hstacked hpath)

theorem searchAll_start_outcome :
    Outcome next .start (· ∈ as) (searchAll next nodes.length as .start) := by
  apply searchAll_outcome hclosed hnodes (length_filter_le _ nodes)
  · simp [Grounds, Search.start]
  · constructor <;> simp [Search.start]
  · rfl

/-- Without a cycle every walk from the searched nodes ends. -/
theorem acc_of_searchAll (h : (searchAll next nodes.length as .start).1 = false) :
    ∀ a ∈ as, Acc (fun a b => Edge next b a) a := by
  have houtcome := searchAll_start_outcome hclosed hnodes
  rcases hresult : searchAll next nodes.length as .start with ⟨_ | _, s⟩
  · rw [hresult] at houtcome
    obtain ⟨-, hground, hblack⟩ := houtcome
    exact fun a ha => hground a (hblack a ha)
  · rw [hresult] at h
    cases h

theorem closedWalk_of_searchAll (h : (searchAll next nodes.length as .start).1 = true) :
    ClosedWalk next (searchAll next nodes.length as .start).2.cycle := by
  have houtcome := searchAll_start_outcome hclosed hnodes
  rcases hresult : searchAll next nodes.length as .start with ⟨_ | _, s⟩
  · rw [hresult] at h
    cases h
  · rw [hresult] at houtcome
    exact houtcome

/-- The search from every node finds a cycle exactly if there is one. -/
theorem searchAll_iff_cyclic (hout : ∀ a, a ∉ as → next a = []) :
    (searchAll next nodes.length as .start).1 = true ↔ Cyclic next := by
  constructor
  · exact fun hfound => (closedWalk_of_searchAll hclosed hnodes hfound).cyclic
  · rintro ⟨a, hcycle⟩
    by_contra hfound
    have ha : a ∈ as := by
      by_contra hnot
      obtain ⟨b, hb, -⟩ := Relation.TransGen.head'_iff.mp hcycle
      rw [Edge, hout a hnot] at hb
      cases hb
    have hacc := acc_of_searchAll hclosed hnodes (Bool.eq_false_iff.mpr hfound) a ha
    exact not_rel_self_of_acc hacc.transGen (Relation.transGen_swap.mpr hcycle)

end Outcome

end Cfgms.Graph
