import Mathlib.Data.List.Count
import Mathlib.Data.List.Sort
import Cfgms.Graph.CycleSearch
import Cfgms.Machine.Fallible

/-! # Ordering by counting

Every node keeps the number of its successors that were not listed yet. A node joins the queue
when that number reaches zero, and the queue is listed from its front.
-/

namespace Cfgms.Graph

open List Function

variable {α : Type*} [LinearOrder α]

structure Kahn (α : Type*) where
  degree : α → ℤ
  queue : List α
  result : List α

/-- One waiting node after one of its successors was listed. -/
def Kahn.release (k : Kahn α) (m : α) : Kahn α :=
  let degree := update k.degree m (k.degree m - 1)
  { k with
    degree
    queue := if degree m = 0 then k.queue.orderedInsert (· ≤ ·) m else k.queue }

def Kahn.releaseAll (current m : α) (k : Kahn α) (successors : List α) : Kahn α :=
  successors.foldl (fun k a => if a = current then k.release m else k) k

/-- The front of the queue is listed, and every node that waited for it is told. -/
def Kahn.list (next : α → List α) (order : List α) (current : α) (queue : List α)
    (k : Kahn α) : Kahn α :=
  order.foldl (fun k m => k.releaseAll current m (next m))
    { k with queue, result := k.result ++ [current] }

/-- The nodes in the order in which they are listed; step `n` visits them in `order n`. -/
def Kahn.run (next : α → List α) (order : ℕ → List α) : ℕ → ℕ → Kahn α → Kahn α
  | 0, _, k => k
  | fuel + 1, n, k =>
    match k.queue with
    | [] => k
    | current :: queue => run next order fuel (n + 1) (k.list next (order n) current queue)

theorem Kahn.releaseAll_spec (k : Kahn α) (current m : α) (successors : List α)
    (hle : (successors.count current : ℤ) ≤ k.degree m) :
    (k.releaseAll current m successors).degree =
        update k.degree m (k.degree m - successors.count current) ∧
      (k.releaseAll current m successors).queue.Perm
        ((if current ∈ successors ∧ k.degree m = successors.count current then [m] else []) ++
          k.queue) := by
  induction successors generalizing k with
  | nil => simp [Kahn.releaseAll]
  | cons a successors ih =>
    by_cases ha : a = current
    · subst ha
      have hcount : ((a :: successors).count a : ℤ) = successors.count a + 1 := by simp
      have hrelease : k.releaseAll a m (a :: successors) =
          (k.release m).releaseAll a m successors := by simp [Kahn.releaseAll]
      have hdegree : (k.release m).degree m = k.degree m - 1 := by simp [Kahn.release]
      obtain ⟨hdeg, hqueue⟩ := ih (k.release m) (by rw [hdegree]; omega)
      rw [hrelease]
      refine ⟨?_, hqueue.trans ?_⟩
      · rw [hdeg, hdegree, hcount]
        simp only [Kahn.release, Function.update_idem]
        congr 1
        omega
      · rw [hdegree, hcount]
        by_cases hzero : k.degree m = 1
        · -- the last successor that the node waited for
          have hnone : successors.count a = 0 := by omega
          have hnot : a ∉ successors := count_eq_zero.mp hnone
          simpa [Kahn.release, hzero, hnot, hnone] using perm_orderedInsert _ m k.queue
        · have hne : k.degree m - 1 ≠ 0 := by omega
          have hmem : (a ∈ successors ∧ k.degree m - 1 = successors.count a) ↔
              k.degree m = successors.count a + 1 := by
            constructor
            · rintro ⟨-, h⟩
              omega
            · intro h
              refine ⟨count_pos_iff.mp ?_, by omega⟩
              omega
          simp [Kahn.release, hne, hmem]
    · have hskip : k.releaseAll current m (a :: successors) =
          k.releaseAll current m successors := by simp [Kahn.releaseAll, ha]
      have hcount : (a :: successors).count current = successors.count current :=
        count_cons_of_ne ha
      have hmem : current ∈ a :: successors ↔ current ∈ successors := by
        simp [Ne.symm ha]
      rw [hskip, hcount]
      simp only [hmem]
      exact ih k (hcount ▸ hle)

theorem Kahn.releaseAll_result (k : Kahn α) (current m : α) (successors : List α) :
    (k.releaseAll current m successors).result = k.result := by
  induction successors generalizing k with
  | nil => rfl
  | cons a successors ih =>
    rw [Kahn.releaseAll, foldl_cons]
    apply (ih _).trans
    split <;> rfl

theorem Kahn.list_result (next : α → List α) (order : List α) (current : α) (queue : List α)
    (k : Kahn α) : (k.list next order current queue).result = k.result ++ [current] := by
  have hfold : ∀ (order : List α) (k : Kahn α),
      (order.foldl (fun k m => k.releaseAll current m (next m)) k).result = k.result := by
    intro order
    induction order with
    | nil => exact fun _ => rfl
    | cons m order ih => exact fun k => (ih _).trans (Kahn.releaseAll_result _ _ _ _)
  exact hfold order _

variable (next : α → List α)
variable {order : List α}

theorem Kahn.foldl_releaseAll_spec (current : α) (hnodup : order.Nodup)
    (k : Kahn α) (hle : ∀ m ∈ order, ((next m).count current : ℤ) ≤ k.degree m) :
    let k' := order.foldl (fun k m => k.releaseAll current m (next m)) k
    (∀ m, k'.degree m =
        if m ∈ order then k.degree m - (next m).count current else k.degree m) ∧
      k'.queue.Perm ((order.filter fun m =>
        current ∈ next m ∧ k.degree m = (next m).count current) ++ k.queue) := by
  induction order generalizing k with
  | nil => simp
  | cons m order ih =>
    rw [nodup_cons] at hnodup
    rw [forall_mem_cons] at hle
    obtain ⟨hdeg, hqueue⟩ := k.releaseAll_spec current m (next m) hle.1
    have hother : ∀ m' ∈ order, (k.releaseAll current m (next m)).degree m' = k.degree m' := by
      intro m' hm'
      have hne : m' ≠ m := fun heq => hnodup.1 (heq ▸ hm')
      rw [hdeg, update_of_ne hne]
    obtain ⟨hdeg', hqueue'⟩ := ih hnodup.2 (k.releaseAll current m (next m))
      fun m' hm' => (hother m' hm').symm ▸ hle.2 m' hm'
    refine ⟨fun m' => ?_, hqueue'.trans ?_⟩
    · rw [foldl_cons, hdeg']
      by_cases hm' : m' ∈ order
      · rw [if_pos hm', if_pos (mem_cons_of_mem _ hm'), hother m' hm']
      by_cases heq : m' = m
      · subst heq
        simp [hnodup.1, hdeg]
      · simp [hm', heq, hdeg]
    · have hfilter : (order.filter fun m' => current ∈ next m' ∧
            (k.releaseAll current m (next m)).degree m' = (next m').count current) =
          order.filter fun m' => current ∈ next m' ∧ k.degree m' = (next m').count current :=
        filter_congr fun m' hm' => by rw [hother m' hm']
      rw [hfilter]
      apply (hqueue.append_left _).trans
      split
      · next hready => simp [hready, perm_middle]
      · next hready => simp [hready]

variable {next}

/-- The counts are those of the successors that are not listed, and the nodes without any are
listed or wait in the queue. -/
structure Counted (next : α → List α) (names : List α) (k : Kahn α) : Prop where
  nodup : (k.result ++ k.queue).Nodup
  subset : ∀ m ∈ k.result ++ k.queue, m ∈ names
  degree : ∀ m ∈ names, k.degree m = (next m).countP (· ∉ k.result)
  ready : ∀ m ∈ names, m ∈ k.result ++ k.queue ↔ ∀ a ∈ next m, a ∈ k.result
  before : ∀ l m r, k.result = l ++ m :: r → ∀ a ∈ next m, a ∈ l

variable {current : α}

theorem countP_notMem_append (l result : List α) (h : current ∉ result) :
    l.countP (· ∉ result) = l.countP (· ∉ result ++ [current]) + l.count current := by
  induction l with
  | nil => rfl
  | cons a l ih =>
    rw [countP_cons, countP_cons, count_cons, ih]
    by_cases ha : a = current
    · simp [ha, h]
      omega
    · simp [ha]
      omega

/-- The nodes that waited for nothing but `current`. -/
def released (next : α → List α) (order : List α) (current : α) (k : Kahn α) : List α :=
  order.filter fun m => current ∈ next m ∧ k.degree m = (next m).count current

variable {names : List α} {k : Kahn α} {queue : List α}

section

variable (h : Counted next names k)
include h

theorem Counted.current_notMem (hqueue : k.queue = current :: queue) : current ∉ k.result := by
  intro hmem
  exact disjoint_of_nodup_append h.nodup hmem (hqueue ▸ mem_cons_self)

theorem Counted.degree_eq (hqueue : k.queue = current :: queue) {m : α} (hm : m ∈ names) :
    k.degree m = (next m).countP (· ∉ k.result ++ [current]) + (next m).count current := by
  rw [h.degree m hm, countP_notMem_append _ _ (h.current_notMem hqueue)]
  push_cast
  rfl

theorem Counted.mem_released (hnames : order.Perm names)
    (hqueue : k.queue = current :: queue) {m : α} :
    m ∈ released next order current k ↔
      m ∈ names ∧ current ∈ next m ∧ ∀ a ∈ next m, a ∈ k.result ++ [current] := by
  rw [released, mem_filter, hnames.mem_iff, decide_eq_true_eq]
  refine and_congr_right fun hm => and_congr_right fun _ => ?_
  have hcount : (next m).countP (· ∉ k.result ++ [current]) = 0 ↔
      ∀ a ∈ next m, a ∈ k.result ++ [current] := by
    rw [countP_eq_zero]
    simp only [decide_eq_true_eq, not_not]
  rw [h.degree_eq hqueue hm, ← hcount]
  omega

end

theorem Counted.list (h : Counted next names k) (hnames : order.Perm names) (hnodup : names.Nodup)
    (hqueue : k.queue = current :: queue) :
    Counted next names (k.list next order current queue) := by
  have horder : order.Nodup := hnames.nodup_iff.mpr hnodup
  have hle : ∀ m ∈ order, ((next m).count current : ℤ) ≤ k.degree m := by
    intro m hm
    rw [h.degree_eq hqueue (hnames.mem_iff.mp hm)]
    omega
  obtain ⟨hdegree, hperm⟩ := Kahn.foldl_releaseAll_spec next current horder
    { k with queue, result := k.result ++ [current] } hle
  change (k.list next order current queue).queue.Perm
    (released next order current k ++ queue) at hperm
  -- the listed and waiting nodes are the old ones and the released ones
  have hall : ((k.list next order current queue).result ++
      (k.list next order current queue).queue).Perm
      ((k.result ++ k.queue) ++ released next order current k) := by
    rw [Kahn.list_result, hqueue, append_assoc, append_assoc]
    apply List.Perm.append_left
    exact (hperm.trans perm_append_comm).cons current
  have hold : ∀ m ∈ k.result ++ k.queue, ∀ a ∈ next m, a ∈ k.result :=
    fun m hm => (h.ready m (h.subset m hm)).mp hm
  constructor
  · rw [hall.nodup_iff, nodup_append']
    refine ⟨h.nodup, horder.filter _, fun m hm hreleased => ?_⟩
    have hmem := ((h.mem_released hnames hqueue).mp hreleased).2.1
    exact h.current_notMem hqueue (hold m hm current hmem)
  · intro m hm
    rcases mem_append.mp (hall.mem_iff.mp hm) with hm | hm
    · exact h.subset m hm
    · exact ((h.mem_released hnames hqueue).mp hm).1
  · intro m hm
    have hdeg := hdegree m
    rw [if_pos (hnames.mem_iff.mpr hm)] at hdeg
    change (k.list next order current queue).degree m = _ at hdeg
    rw [hdeg, Kahn.list_result, h.degree_eq hqueue hm, Int.add_sub_cancel]
  · intro m hm
    rw [hall.mem_iff, mem_append, h.mem_released hnames hqueue, h.ready m hm,
      Kahn.list_result]
    constructor
    · rintro (hready | ⟨-, -, hready⟩)
      · exact fun a ha => mem_append_left _ (hready a ha)
      · exact hready
    · intro hready
      by_cases hcurrent : current ∈ next m
      · exact .inr ⟨hm, hcurrent, hready⟩
      refine .inl fun a ha => ?_
      rcases mem_append.mp (hready a ha) with hmem | hmem
      · exact hmem
      · exact absurd (mem_singleton.mp hmem ▸ ha) hcurrent
  · rw [Kahn.list_result]
    exact Fallible.forall_split_concat.mpr ⟨h.before, hold current (by simp [hqueue])⟩

/-- A run lists until no node waits in the queue. -/
theorem Counted.run {order : ℕ → List α} (hnames : ∀ n, (order n).Perm names)
    (hnodup : names.Nodup) {fuel n : ℕ} (h : Counted next names k)
    (hfuel : names.length ≤ fuel + k.result.length) :
    Counted next names (k.run next order fuel n) ∧ (k.run next order fuel n).queue = [] := by
  induction fuel generalizing n k with
  | zero =>
    have hsub : (k.result ++ k.queue).Subperm names :=
      subperm_of_subset h.nodup h.subset
    have hlength := hsub.length_le
    rw [length_append] at hlength
    exact ⟨h, eq_nil_of_length_eq_zero (by simp only [Kahn.run]; omega)⟩
  | succ fuel ih =>
    unfold Kahn.run
    split
    · next hnil => exact ⟨h, hnil⟩
    next current queue hqueue =>
    apply ih (h.list (hnames n) hnodup hqueue)
    rw [Kahn.list_result, length_append, length_singleton]
    omega

/-- Everything is listed exactly if every successor is a node, as long as no walk is infinite. -/
theorem Counted.listed_iff (h : Counted next names k)
    (hqueue : k.queue = []) (hacc : ∀ m ∈ names, Acc (fun a b => Edge next b a) m) :
    (∀ m ∈ names, m ∈ k.result) ↔ ∀ m ∈ names, ∀ a ∈ next m, a ∈ names := by
  have hready := h.ready
  have hsubset := h.subset
  rw [hqueue, append_nil] at hready hsubset
  constructor
  · intro hall m hm a ha
    exact hsubset a ((hready m hm).mp (hall m hm) a ha)
  · intro hclosed m hm
    induction hacc m hm with
    | intro m _ ih => exact (hready m hm).mpr fun a ha => ih a ha (hclosed m hm a ha)

end Cfgms.Graph
