import Cfgms.EntityGraph.Payload
import Cfgms.Ordered.Upsert

/-! # Precedence of sources

The winning source is searched for in the order of the rows, and the merge assigns the attributes
of the winning source last. Neither depends on the order of the rows where one source is ahead of
all others, and sources that tie for an attribute agree on its value.
-/

namespace Cfgms.EntityGraph

open List

def SourceEntry.attr (s : SourceEntry) (k : String) : Option Value := (s.payload.getD .empty).get k

/-- The sources that have an attribute. -/
def having (k : String) (sources : List SourceEntry) : List SourceEntry :=
  sources.filter fun s => (s.attr k).isSome

def HighestRanked (sources : List SourceEntry) (s : SourceEntry) : Prop :=
  s ∈ sources ∧ ∀ s' ∈ sources, ¬ beats s' s

/-- One source is ranked highest, and those that are for an attribute agree on it. -/
structure Decided (sources : List SourceEntry) : Prop where
  winner : ∀ s s', HighestRanked sources s → HighestRanked sources s' → s = s'
  attr : ∀ k s s', HighestRanked (having k sources) s → HighestRanked (having k sources) s' →
    s.attr k = s'.attr k

variable {s s' s'' first : SourceEntry} {sources rest : List SourceEntry} {k : String} {v : Value}

theorem beats_iff : beats s s' ↔ ¬ assignedBefore s s' := by
  simp only [beats, assignedBefore, Bool.or_eq_true, Bool.and_eq_true, decide_eq_true_eq]
  omega

theorem assignedBefore.trans (h : assignedBefore s s') (h' : assignedBefore s' s'') :
    assignedBefore s s'' := by
  unfold assignedBefore at *
  omega

theorem assignedBefore_total (s s' : SourceEntry) : assignedBefore s s' ∨ assignedBefore s' s := by
  unfold assignedBefore
  omega

theorem find?_insertEntry (e : String × Value) (es : List (String × Value)) :
    (insertEntry e es).find? (·.1 = k) = if e.1 = k then some e else es.find? (·.1 = k) := by
  fun_induction insertEntry e es with
  | case1 | case2 => by_cases hk : e.1 = k <;> simp [hk]
  | case3 d es _ hlt ih =>
    rw [find?_cons, ih, find?_cons]
    by_cases hd : d.1 = k
    · simp [hd, hd ▸ hlt.ne']
    · simp [hd]
  | case4 d es hge hle =>
    have heq : e.1 = d.1 := le_antisymm (not_lt.mp hle) (not_lt.mp hge)
    by_cases hk : e.1 = k
    · simp [hk]
    · simp [hk, ← heq]

theorem get_assign {es : List (String × Value)} (hes : SortedKeys es) (p : Payload) :
    (es.foldl Payload.set p).get k = ((es.find? (·.1 = k)).map Prod.snd).or (p.get k) := by
  refine Ordered.get_foldl_assign (Payload.get · k) Payload.set Prod.snd (fun p e => ?_)
    (hes.map _ fun _ _ => ne_of_lt) p
  rw [Payload.get, Payload.set, find?_insertEntry, apply_ite (Option.map Prod.snd)]
  rfl

/-- The last source that has the attribute gives its value. -/
theorem get_assignAll (l : List SourceEntry) (p : Payload) :
    (l.foldl (fun merged s => ((s.payload.getD .empty).entries).foldl Payload.set merged) p).get k =
      (l.reverse.findSome? (·.attr k)).or (p.get k) := by
  induction l generalizing p with
  | nil => rfl
  | cons s l ih =>
    rw [foldl_cons, ih, get_assign (s.payload.getD .empty).sorted, reverse_cons, findSome?_append,
      findSome?_singleton, Option.or_assoc]
    rfl

theorem pairwise_assigned : (sources.insertionSort assignedBefore).Pairwise assignedBefore :=
  haveI : Std.Total assignedBefore := ⟨assignedBefore_total⟩
  haveI : IsTrans SourceEntry assignedBefore := ⟨fun _ _ _ => .trans⟩
  pairwise_insertionSort _ _

theorem mem_having : s ∈ having k sources ↔ s ∈ sources ∧ (s.attr k).isSome := by
  rw [having, mem_filter]

theorem get_mergeAttributes (sources : List SourceEntry) (k : String) :
    (mergeAttributes sources).get k =
      (sources.insertionSort assignedBefore).reverse.findSome? (·.attr k) := by
  rw [mergeAttributes, get_assignAll]
  exact Option.or_none

theorem mem_ranked : s ∈ (sources.insertionSort assignedBefore).reverse ↔ s ∈ sources :=
  mem_reverse.trans (mem_insertionSort _)

/-- The attribute comes from one of the sources that are ranked highest for it. -/
theorem exists_highestRanked (h : (mergeAttributes sources).get k = some v) :
    ∃ s, HighestRanked (having k sources) s ∧ s.attr k = some v := by
  have hpair := pairwise_reverse.mpr (@pairwise_assigned sources)
  obtain ⟨before, s, after, hranked, hv, hnone⟩ :=
    findSome?_eq_some_iff.mp (get_mergeAttributes sources k ▸ h)
  have hs : s ∈ sources := mem_ranked.mp (hranked ▸ by simp)
  refine ⟨s, ⟨mem_having.mpr ⟨hs, by simp [hv]⟩, fun s' hs' => ?_⟩, hv⟩
  obtain ⟨hs', hsome⟩ := mem_having.mp hs'
  rw [beats_iff, not_not]
  rw [hranked] at hpair
  rcases mem_append.mp (hranked ▸ mem_ranked.mpr hs') with hbefore | hafter
  · simp [hnone s' hbefore] at hsome
  rcases mem_cons.mp hafter with rfl | hafter
  · exact (assignedBefore_total s' s').elim id id
  · exact rel_of_pairwise_cons (pairwise_append.mp hpair).2.1 hafter

theorem Decided.get_eq_some_iff (h : Decided sources) :
    (mergeAttributes sources).get k = some v ↔
      ∃ s, HighestRanked (having k sources) s ∧ s.attr k = some v := by
  refine ⟨exists_highestRanked, ?_⟩
  rintro ⟨s, hs, hv⟩
  cases hget : (mergeAttributes sources).get k with
  | none =>
    rw [get_mergeAttributes, findSome?_eq_none_iff] at hget
    rw [hget s (mem_ranked.mpr (mem_having.mp hs.1).1)] at hv
    cases hv
  | some w =>
    obtain ⟨s', hs', hw⟩ := exists_highestRanked hget
    rw [← hw, h.attr k s' s hs' hs, hv]

theorem HighestRanked.perm (h : HighestRanked sources s) (hperm : sources.Perm rest) :
    HighestRanked rest s :=
  ⟨hperm.mem_iff.mp h.1, fun s' hs' => h.2 s' (hperm.mem_iff.mpr hs')⟩

theorem Decided.perm (h : Decided sources) (hperm : sources.Perm rest) : Decided rest where
  winner s s' hs hs' := h.winner s s' (hs.perm hperm.symm) (hs'.perm hperm.symm)
  attr k s s' hs hs' :=
    h.attr k s s' (hs.perm (hperm.symm.filter _)) (hs'.perm (hperm.symm.filter _))

theorem assignedBefore_winningBy :
    ∀ s ∈ first :: rest, assignedBefore s (winningBy id first rest) := by
  have hrefl : ∀ s, assignedBefore s s := fun s => (assignedBefore_total s s).elim id id
  induction rest generalizing first with
  | nil => simpa [winningBy] using hrefl first
  | cons r rest ih =>
    have hbest : assignedBefore first (if beats r first then r else first) ∧
        assignedBefore r (if beats r first then r else first) := by
      split
      · next hbeats =>
        exact ⟨(assignedBefore_total r first).resolve_left (beats_iff.mp hbeats), hrefl r⟩
      · next hnot => exact ⟨hrefl first, not_not.mp (mt beats_iff.mpr hnot)⟩
    have hwin := ih _ (mem_cons_self (a := if beats r first then r else first))
    rw [winningBy, foldl_cons, forall_mem_cons, forall_mem_cons]
    exact ⟨hbest.1.trans hwin, hbest.2.trans hwin, fun s hs => ih s (mem_cons_of_mem _ hs)⟩

theorem highestRanked_winningBy : HighestRanked (first :: rest) (winningBy id first rest) :=
  ⟨winningBy_mem id first rest, fun s hs =>
    mt beats_iff.mp (not_not.mpr (assignedBefore_winningBy s hs))⟩

theorem winningBy_eq_first (h : ∀ s ∈ rest, ¬ beats s first) : winningBy id first rest = first := by
  induction rest with
  | nil => rfl
  | cons r rest ih =>
    rw [forall_mem_cons] at h
    rw [winningBy, foldl_cons, if_neg (by exact h.1)]
    exact ih h.2

/-- Attributes have the values of the highest-ranked sources, the winner's among them, and neither
depends on the order of the rows, exactly where the sources are decided. -/
theorem precedence_well_defined_iff :
    ((∀ k v, (mergeAttributes (first :: rest)).get k = some v ↔
        ∃ s, HighestRanked (having k (first :: rest)) s ∧ s.attr k = some v) ∧
      (∀ k v, (winningBy id first rest).attr k = some v →
        (mergeAttributes (first :: rest)).get k = some v) ∧
      ∀ first' rest', (first' :: rest').Perm (first :: rest) →
        (∀ k, (mergeAttributes (first' :: rest')).get k = (mergeAttributes (first :: rest)).get k) ∧
          winningBy id first' rest' = winningBy id first rest) ↔ Decided (first :: rest) := by
  constructor
  · rintro ⟨hvalue, -, horder⟩
    -- a source that none beats wins where its row is read first
    have hwinner : ∀ s, HighestRanked (first :: rest) s → s = winningBy id first rest := by
      intro s hs
      rw [← (horder s _ (perm_cons_erase hs.1).symm).2]
      exact (winningBy_eq_first fun s' hs' => hs.2 s' (mem_of_mem_erase hs')).symm
    refine ⟨fun s s' hs hs' => (hwinner s hs).trans (hwinner s' hs').symm, fun k s s' hs hs' => ?_⟩
    obtain ⟨v, hv⟩ := Option.isSome_iff_exists.mp (mem_having.mp hs.1).2
    obtain ⟨w, hw⟩ := Option.isSome_iff_exists.mp (mem_having.mp hs'.1).2
    rw [hv, hw, ← (hvalue k v).mpr ⟨s, hs, hv⟩, (hvalue k w).mpr ⟨s', hs', hw⟩]
  · intro h
    refine ⟨fun k v => h.get_eq_some_iff, fun k v hv => ?_, fun first' rest' hperm => ⟨?_, ?_⟩⟩
    · have hwin := @highestRanked_winningBy first rest
      refine h.get_eq_some_iff.mpr ⟨_, ⟨mem_having.mpr ⟨hwin.1, by simp [hv]⟩, fun s hs => ?_⟩, hv⟩
      exact hwin.2 s (mem_having.mp hs).1
    · intro k
      ext v
      rw [h.get_eq_some_iff, (h.perm hperm.symm).get_eq_some_iff]
      have hhaving : (having k (first' :: rest')).Perm (having k (first :: rest)) := hperm.filter _
      exact exists_congr fun s => and_congr_left' ⟨(·.perm hhaving), (·.perm hhaving.symm)⟩
    · exact h.winner _ _ (highestRanked_winningBy.perm hperm) highestRanked_winningBy

def reportedHost (source hostname : String) (observedAt : ℤ) : SourceEntry :=
  ⟨source, .observer, observedAt, some (.ofList [("hostname", .string hostname)])⟩

/-- Of two sources with one rank and one time the first wins, and the last is assigned. -/
theorem tied_sources_disagree :
    let a := reportedHost "observer:a" "a" 1
    let b := reportedHost "observer:b" "b" 1
    (winningBy id a [b]).attr "hostname" = some (.string "a") ∧
      (mergeAttributes [a, b]).get "hostname" = some (.string "b") ∧
      (mergeAttributes [b, a]).get "hostname" = some (.string "a") := by
  decide +kernel

end Cfgms.EntityGraph
