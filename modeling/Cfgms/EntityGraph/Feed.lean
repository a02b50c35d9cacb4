import Cfgms.EntityGraph.Watch
import Mathlib.Data.List.Flatten
import Mathlib.Data.List.Perm.Basic

/-! # Completeness of the change feed

The cursor of a watch is an id, and the watermark of a poll is a transaction. A row is passed over
if its transaction is in progress, or held back by the watermark, while the poll returns a row with
a larger id. Rows that retention has deleted are passed over as well.
-/

namespace Cfgms.EntityGraph

open List Option

namespace Feed

variable {provider : Provider} {parseTime : String → ℤ} {s : Feed} {w : Watch}

/-- All rows: committed ones, and those of transactions in progress. -/
def allRows (s : Feed) : List LogRow := s.committed ++ s.txns.flatMap Txn.rows

structure Sound (provider : Provider) (s : Feed) : Prop where
  nodup : (s.allRows.map LogRow.id).Nodup
  lt_nextID : ∀ r ∈ s.allRows, r.id < s.nextID
  xid_lt : ∀ t ∈ s.txns, t.xid < s.nextXid
  xmin_lt : ∀ r ∈ s.allRows, r.xmin < s.nextXid
  log : s.log.Sublist s.committed
  oneWriter : provider = .sqlite → s.txns.length ≤ 1 ∧
    ∀ t ∈ s.txns, ∀ r ∈ t.rows, ∀ r' ∈ s.committed, r'.id < r.id

theorem sound_empty : Sound provider empty := by
  refine ⟨nodup_nil, nofun, nofun, nofun, List.Sublist.slnil, fun _ => ⟨Nat.zero_le 1, nofun⟩⟩

variable {i : ℕ} {t : Txn} {r : LogRow} {cursor : ℤ}

theorem perm_flatMap_eraseIdx {txns : List Txn} (hi : txns[i]? = some t) :
    (txns.flatMap Txn.rows).Perm (t.rows ++ (txns.eraseIdx i).flatMap Txn.rows) := by
  obtain ⟨hlt, rfl⟩ := List.getElem?_eq_some_iff.mp hi
  exact ((getElem_cons_eraseIdx_perm hlt).flatMap_right Txn.rows).symm

theorem perm_flatMap_set {txns : List Txn} (hi : txns[i]? = some t) (t' : Txn) :
    ((txns.set i t').flatMap Txn.rows).Perm (t'.rows ++ (txns.eraseIdx i).flatMap Txn.rows) := by
  obtain ⟨hlt, -⟩ := List.getElem?_eq_some_iff.mp hi
  exact (set_perm_cons_eraseIdx hlt t').flatMap_right Txn.rows

section

variable (h : Sound provider s)
include h

theorem Sound.begin (hfree : ¬ (provider = .sqlite ∧ s.txns ≠ [])) :
    Sound provider { s with txns := s.txns ++ [⟨s.nextXid, []⟩], nextXid := s.nextXid + 1 } := by
  have hrows : (s.txns ++ [(⟨s.nextXid, []⟩ : Txn)]).flatMap Txn.rows = s.txns.flatMap Txn.rows := by simp
  refine ⟨?_, ?_, fun t ht => ?_, fun r hr => ?_, h.log, fun hsqlite => ?_⟩
  · simpa only [allRows, hrows] using h.nodup
  · simpa only [allRows, hrows] using h.lt_nextID
  · rcases mem_append.mp ht with ht | ht
    · exact Nat.lt_succ_of_lt (h.xid_lt t ht)
    · rw [mem_singleton.mp ht]
      exact Nat.lt_succ_self _
  · rw [allRows, hrows] at hr
    exact Nat.lt_succ_of_lt (h.xmin_lt r hr)
  · have hnone : s.txns = [] := by
      by_contra hne
      exact hfree ⟨hsqlite, hne⟩
    simp [hnone]

theorem Sound.insert (hi : s.txns[i]? = some t) (hr : r.id = s.nextID) (hxmin : r.xmin = t.xid) :
    Sound provider
      { s with txns := s.txns.set i ⟨t.xid, t.rows ++ [r]⟩, nextID := s.nextID + 1 } := by
  have hperm : (s.committed ++ (s.txns.set i ⟨t.xid, t.rows ++ [r]⟩).flatMap Txn.rows).Perm
      (r :: s.allRows) := by
    have hset := perm_flatMap_set hi ⟨t.xid, t.rows ++ [r]⟩
    have hmid : (t.rows ++ [r] ++ (s.txns.eraseIdx i).flatMap Txn.rows).Perm
        (r :: s.txns.flatMap Txn.rows) := by
      rw [append_assoc]
      exact perm_middle.trans ((perm_flatMap_eraseIdx hi).symm.cons r)
    exact ((hset.trans hmid).append_left s.committed).trans perm_middle
  refine ⟨?_, ?_, fun t' ht' => ?_, fun r' hr' => ?_, h.log, fun hsqlite => ?_⟩
  · refine (hperm.map LogRow.id).nodup_iff.mpr (nodup_cons.mpr ⟨?_, h.nodup⟩)
    intro hmem
    obtain ⟨r', hr', heq⟩ := mem_map.mp hmem
    have hlt := h.lt_nextID r' hr'
    omega
  · intro r' hr'
    rcases mem_cons.mp (hperm.mem_iff.mp hr') with rfl | hr'
    · exact hr ▸ Nat.lt_succ_self _
    · exact Nat.lt_succ_of_lt (h.lt_nextID r' hr')
  · rcases mem_or_eq_of_mem_set ht' with ht' | rfl
    · exact h.xid_lt t' ht'
    · exact h.xid_lt t (mem_of_getElem? hi)
  · rcases mem_cons.mp (hperm.mem_iff.mp hr') with rfl | hr'
    · exact hxmin ▸ h.xid_lt t (mem_of_getElem? hi)
    · exact h.xmin_lt r' hr'
  · refine ⟨by simpa using (h.oneWriter hsqlite).1, fun t' ht' r' hr' r'' hr'' => ?_⟩
    have hlt := h.lt_nextID r'' (mem_append_left _ hr'')
    rcases mem_or_eq_of_mem_set ht' with ht' | rfl
    · exact (h.oneWriter hsqlite).2 t' ht' r' hr' r'' hr''
    rcases mem_append.mp hr' with hr' | hr'
    · exact (h.oneWriter hsqlite).2 t (mem_of_getElem? hi) r' hr' r'' hr''
    · obtain rfl := mem_singleton.mp hr'
      omega

theorem Sound.commit (hi : s.txns[i]? = some t) : Sound provider
      { s with
        log := s.log ++ t.rows
        txns := s.txns.eraseIdx i
        committed := s.committed ++ t.rows } := by
  have hperm : (s.committed ++ t.rows ++ (s.txns.eraseIdx i).flatMap Txn.rows).Perm s.allRows := by
    rw [append_assoc]
    exact (perm_flatMap_eraseIdx hi).symm.append_left s.committed
  refine ⟨(hperm.map LogRow.id).nodup_iff.mpr h.nodup, fun r hr => ?_,
    fun t ht => h.xid_lt t (mem_of_mem_eraseIdx ht),
    fun r hr => h.xmin_lt r (hperm.mem_iff.mp hr), h.log.append_right t.rows, fun hsqlite => ?_⟩
  · exact h.lt_nextID r (hperm.mem_iff.mp hr)
  · obtain ⟨hlt, -⟩ := List.getElem?_eq_some_iff.mp hi
    have hnone : s.txns.eraseIdx i = [] := by
      have hone := (h.oneWriter hsqlite).1
      rw [← length_eq_zero_iff, length_eraseIdx_of_lt hlt]
      omega
    simp [hnone]

theorem Sound.rollback (i : ℕ) :
    Sound provider { s with txns := s.txns.eraseIdx i } := by
  have hsub : (s.committed ++ (s.txns.eraseIdx i).flatMap Txn.rows).Sublist s.allRows :=
    List.Sublist.append_left ((eraseIdx_sublist _ i).flatMap _) s.committed
  refine ⟨h.nodup.sublist (hsub.map _), fun r hr => h.lt_nextID r (hsub.subset hr),
    fun t ht => h.xid_lt t (mem_of_mem_eraseIdx ht),
    fun r hr => h.xmin_lt r (hsub.subset hr), h.log, fun hsqlite => ⟨?_, fun t ht => ?_⟩⟩
  · exact ((eraseIdx_sublist s.txns i).length_le).trans (h.oneWriter hsqlite).1
  · exact (h.oneWriter hsqlite).2 t (mem_of_mem_eraseIdx ht)

theorem Sound.delete (keep : LogRow → Bool) :
    Sound provider { s with log := s.log.filter keep } :=
  { h with log := filter_sublist.trans h.log }

theorem Sound.watcher (w : Watcher) :
    Sound provider { s with watcher := w } :=
  { h with }

end

variable (parseTime) in
/-- Where a watch stands: what it has passed it has read, and what is ahead is in the log. -/
structure OnTrack (s : Feed) (w : Watch) : Prop where
  start_le : w.start ≤ w.cursor
  cursor_lt : w.cursor = w.start ∨ w.cursor < s.nextID
  inProgress : ∀ t ∈ s.txns, ∀ r ∈ t.rows, w.start < r.id → w.cursor < r.id
  behind : ∀ r ∈ s.committed, w.start < r.id → r.id ≤ w.cursor → r ∈ w.read.map Prod.fst
  ahead : ∀ r ∈ s.committed, w.start < r.id → w.cursor < r.id → r ∈ s.log
  read : ∀ p ∈ w.read, p.1 ∈ s.committed ∧ w.start < p.1.id ∧ p.1.id ≤ w.cursor
  ascending : w.read.Pairwise fun p q => p.1.id < q.1.id
  delivered : w.delivered = w.read.filterMap (matchingEvent parseTime w.filter)

/-- Nothing that a poll leaves out, because its transaction is in progress or not older than every
one in progress, is below what it returns. -/
def Clear (provider : Provider) (s : Feed) (w : Watch) : Prop :=
  ∀ row ∈ s.pollWatchLog provider w.cursor,
    (∀ t ∈ s.txns, ∀ r ∈ t.rows, w.cursor < r.id → row.id < r.id) ∧
    ∀ r ∈ s.log, w.cursor < r.id → s.snapshotXmin ≤ r.xmin → row.id < r.id

instance (provider : Provider) (s : Feed) (w : Watch) : Decidable (Clear provider s w) := by
  unfold Clear
  infer_instance

def Permitted (provider : Provider) (s : Feed) : FeedAction → Prop
  | .begin => True
  | .insert _ _ _ _ => True
  | .commit _ => True
  | .rollback _ => True
  | .delete keep =>
    -- a sweep leaves the rows that the watch has still to read
    ∀ w, s.watcher = .running w → ∀ r ∈ s.log, keep r = false → r.id ≤ w.cursor
  | .resolve _ _ => True
  | .start =>
    -- the rows above the cursor have not been swept
    ∀ filter start, s.watcher = .resolved filter start →
      ∀ r ∈ s.committed, start < r.id → r ∈ s.log
  | .poll _ => provider = .database → ∀ w, s.watcher = .running w → Clear provider s w
  | .pollFailed => True

theorem mem_pollWatchLog (h : r ∈ s.pollWatchLog provider cursor) :
    r ∈ s.log ∧ s.visible provider cursor r = true := by
  have hsorted := mem_of_mem_take h
  rw [mem_insertionSort] at hsorted
  exact mem_filter.mp hsorted

theorem lt_of_mem_pollWatchLog (h : r ∈ s.pollWatchLog provider cursor) : cursor < r.id := by
  have hvisible := (mem_pollWatchLog h).2
  simp only [visible, Bool.and_eq_true, decide_eq_true_eq] at hvisible
  exact hvisible.1

theorem le_of_notMem_pollWatchLog {row : LogRow} (hlog : r ∈ s.log)
    (hvisible : s.visible provider cursor r = true) (hout : r ∉ s.pollWatchLog provider cursor)
    (hrow : row ∈ s.pollWatchLog provider cursor) : row.id ≤ r.id := by
  set rows := (s.log.filter (s.visible provider cursor)).insertionSort fun a b => a.id ≤ b.id
    with hrows
  have hsorted : rows.Pairwise fun a b => a.id ≤ b.id := pairwise_insertionSort _ _
  have hr : r ∈ rows := by
    rw [hrows, mem_insertionSort]
    exact mem_filter.mpr ⟨hlog, hvisible⟩
  rw [← take_append_drop watchBatchSize rows] at hsorted hr
  rcases mem_append.mp hr with hr | hr
  · exact absurd hr hout
  · exact (pairwise_append.mp hsorted).2.2 row hrow r hr

theorem Sound.log_nodup (h : Sound provider s) : (s.log.map LogRow.id).Nodup :=
  h.nodup.sublist ((h.log.trans (sublist_append_left _ _)).map _)

theorem Sound.pollWatchLog_ascending (h : Sound provider s) (cursor : ℤ) :
    (s.pollWatchLog provider cursor).Pairwise fun a b => a.id < b.id := by
  have hsorted := pairwise_insertionSort (fun a b : LogRow => a.id ≤ b.id)
    (s.log.filter (s.visible provider cursor))
  have hnodup : (((s.log.filter (s.visible provider cursor)).insertionSort
      fun a b => a.id ≤ b.id).map LogRow.id).Nodup :=
    ((perm_insertionSort _ _).map _).nodup_iff.mpr
      (h.log_nodup.sublist (filter_sublist.map _))
  refine ((hsorted.and (pairwise_map.mp hnodup)).imp ?_).sublist (take_sublist _ _)
  rintro a b ⟨hle, hne⟩
  exact lt_of_le_of_ne hle hne

variable (provider parseTime s) in
theorem polled_cursor (h : Sound provider s) (w : Watch) (tenants : String → String) :
    (∀ row ∈ s.pollWatchLog provider w.cursor,
      row.id ≤ (s.polled provider parseTime w tenants).cursor) ∧
    ((s.polled provider parseTime w tenants).cursor = w.cursor ∨
      ∃ row ∈ s.pollWatchLog provider w.cursor,
        (s.polled provider parseTime w tenants).cursor = row.id) := by
  have hasc := h.pollWatchLog_ascending w.cursor
  have hcursor : (s.polled provider parseTime w tenants).cursor =
      (((s.pollWatchLog provider w.cursor).getLast?).map fun r => (r.id : ℤ)).getD w.cursor := by
    simp only [polled, scanWatchRows, getLast?_map, Option.map_map]
    rfl
  rw [hcursor]
  rcases eq_nil_or_concat (s.pollWatchLog provider w.cursor) with hnil | ⟨rows, last, hrows⟩
  · rw [hnil]
    exact ⟨nofun, .inl rfl⟩
  rw [hrows] at hasc ⊢
  rw [concat_eq_append] at hasc ⊢
  rw [getLast?_concat, Option.map_some, Option.getD_some]
  refine ⟨fun row hrow => ?_, .inr ⟨last, by simp, rfl⟩⟩
  rcases mem_append.mp hrow with hrow | hrow
  · have hlt := (pairwise_append.mp hasc).2.2 row hrow last (mem_singleton_self _)
    omega
  · rw [mem_singleton.mp hrow]

/-- What a poll leaves out is above what it returns. -/
structure Held (provider : Provider) (s : Feed) (w : Watch) : Prop where
  inProgress : ∀ row ∈ s.pollWatchLog provider w.cursor, ∀ t ∈ s.txns, ∀ r ∈ t.rows,
    w.cursor < r.id → row.id < r.id
  hidden : ∀ row ∈ s.pollWatchLog provider w.cursor, ∀ r ∈ s.log, w.cursor < r.id →
    s.visible provider w.cursor r = false → row.id < r.id

theorem Sound.held (h : Sound provider s) {w : Watch}
    (hclear : provider = .database → Clear provider s w) : Held provider s w := by
  cases provider with
  | database =>
    refine ⟨fun row hrow => (hclear rfl row hrow).1, fun row hrow r hr hlt hhidden => ?_⟩
    apply (hclear rfl row hrow).2 r hr hlt
    simpa [visible, hlt] using hhidden
  | sqlite =>
    refine ⟨fun row hrow t ht r hr _ => ?_, fun row hrow r hr hlt hhidden => ?_⟩
    · exact (h.oneWriter rfl).2 t ht r hr row (h.log.subset (mem_pollWatchLog hrow).1)
    · simp [visible, hlt] at hhidden

theorem Sound.passed (h : Sound provider s) (hheld : Held provider s w) {row : LogRow}
    (hr : r ∈ s.log) (hlt : w.cursor < r.id) (hrow : row ∈ s.pollWatchLog provider w.cursor)
    (hle : r.id ≤ row.id) : r ∈ s.pollWatchLog provider w.cursor := by
  by_contra hout
  cases hvisible : s.visible provider w.cursor r with
  | false =>
    have hpassed := hheld.hidden row hrow r hr hlt hvisible
    omega
  | true =>
    have hid := le_of_notMem_pollWatchLog hr hvisible hout hrow
    have heq := inj_on_of_nodup_map h.log_nodup hr (mem_pollWatchLog hrow).1 (by omega)
    exact hout (heq ▸ hrow)

section

variable (h : OnTrack parseTime s w)
include h

theorem OnTrack.poll (hs : Sound provider s) (hheld : Held provider s w)
    (tenants : String → String) : OnTrack parseTime s (s.polled provider parseTime w tenants) := by
  obtain ⟨hle, hlast⟩ := polled_cursor provider parseTime s hs w tenants
  set cursor := (s.polled provider parseTime w tenants).cursor with hcursor
  have hmono : w.cursor ≤ cursor := by
    rcases hlast with hsame | ⟨row, hrow, hlast⟩
    · omega
    · have hlt := lt_of_mem_pollWatchLog hrow
      omega
  have hmem (r : LogRow) : r ∈ (s.polled provider parseTime w tenants).read.map Prod.fst ↔
      r ∈ w.read.map Prod.fst ∨ r ∈ s.pollWatchLog provider w.cursor := by
    simp [polled]
  refine ⟨h.start_le.trans hmono, ?_, ?_, ?_, ?_, ?_, ?_, ?_⟩
  · rcases hlast with hsame | ⟨row, hrow, hlast⟩
    · rw [← hcursor, hsame]
      exact h.cursor_lt
    · right
      rw [← hcursor, hlast]
      exact_mod_cast hs.lt_nextID row
        (mem_append_left _ (hs.log.subset (mem_pollWatchLog hrow).1))
  · intro t ht r hr hstart
    have hlt := h.inProgress t ht r hr hstart
    rcases hlast with hsame | ⟨row, hrow, hlast⟩
    · rw [← hcursor, hsame]
      exact hlt
    · rw [← hcursor, hlast]
      exact_mod_cast hheld.inProgress row hrow t ht r hr hlt
  · intro r hr hstart hpassed
    apply (hmem r).mpr
    by_cases hold : r.id ≤ w.cursor
    · exact .inl (h.behind r hr hstart hold)
    have hlt : w.cursor < r.id := by omega
    rcases hlast with hsame | ⟨row, hrow, hlast⟩
    · omega
    · exact .inr (hs.passed hheld (h.ahead r hr hstart hlt) hlt hrow (by omega))
  · intro r hr hstart hlt
    exact h.ahead r hr hstart (lt_of_le_of_lt hmono hlt)
  · intro p hp
    rcases mem_append.mp hp with hp | hp
    · obtain ⟨hcommitted, hstart, hread⟩ := h.read p hp
      exact ⟨hcommitted, hstart, hread.trans hmono⟩
    obtain ⟨row, hrow, rfl⟩ := mem_map.mp hp
    exact ⟨hs.log.subset (mem_pollWatchLog hrow).1,
      lt_of_le_of_lt h.start_le (lt_of_mem_pollWatchLog hrow), hle row hrow⟩
  · refine pairwise_append.mpr ⟨h.ascending, ?_, ?_⟩
    · exact pairwise_map.mpr (hs.pollWatchLog_ascending w.cursor)
    · intro p hp q hq
      obtain ⟨row, hrow, rfl⟩ := mem_map.mp hq
      have hread := (h.read p hp).2.2
      have hlt := lt_of_mem_pollWatchLog hrow
      dsimp only
      omega
  · change w.delivered ++ _ = (w.read ++ _).filterMap _
    rw [h.delivered, filterMap_append]
    rfl

theorem OnTrack.begin : OnTrack parseTime
      { s with txns := s.txns ++ [⟨s.nextXid, []⟩], nextXid := s.nextXid + 1 } w := by
  refine { h with inProgress := fun t ht r hr => ?_ }
  rcases mem_append.mp ht with ht | ht
  · exact h.inProgress t ht r hr
  · rw [mem_singleton.mp ht] at hr
    cases hr

theorem OnTrack.insert (hi : s.txns[i]? = some t) (hr : r.id = s.nextID) : OnTrack parseTime
      { s with txns := s.txns.set i ⟨t.xid, t.rows ++ [r]⟩, nextID := s.nextID + 1 } w := by
  have hcursor := h.cursor_lt
  refine { h with cursor_lt := by grind, inProgress := fun t' ht' r' hr' hstart => ?_ }
  rcases mem_or_eq_of_mem_set ht' with ht' | rfl
  · exact h.inProgress t' ht' r' hr' hstart
  rcases mem_append.mp hr' with hr' | hr'
  · exact h.inProgress t (mem_of_getElem? hi) r' hr' hstart
  · obtain rfl := mem_singleton.mp hr'
    omega

theorem OnTrack.commit (hi : s.txns[i]? = some t) : OnTrack parseTime
      { s with
        log := s.log ++ t.rows
        txns := s.txns.eraseIdx i
        committed := s.committed ++ t.rows } w := by
  have hnew := h.inProgress t (mem_of_getElem? hi)
  refine { h with
    inProgress := fun t' ht' => h.inProgress t' (mem_of_mem_eraseIdx ht')
    behind := fun r hr hstart hle => ?_
    ahead := fun r hr hstart hlt => ?_
    read := fun p hp => ⟨mem_append_left _ (h.read p hp).1, (h.read p hp).2⟩ }
  · rcases mem_append.mp hr with hr | hr
    · exact h.behind r hr hstart hle
    · exact absurd (hnew r hr hstart) (not_lt.mpr hle)
  · rcases mem_append.mp hr with hr | hr
    · exact mem_append_left _ (h.ahead r hr hstart hlt)
    · exact mem_append_right _ hr

theorem OnTrack.rollback (i : ℕ) : OnTrack parseTime { s with txns := s.txns.eraseIdx i } w :=
  { h with inProgress := fun t ht => h.inProgress t (mem_of_mem_eraseIdx ht) }

theorem OnTrack.delete {keep : LogRow → Bool}
    (hkeep : ∀ r ∈ s.log, keep r = false → r.id ≤ w.cursor) :
    OnTrack parseTime { s with log := s.log.filter keep } w := by
  refine { h with ahead := fun r hr hstart hlt => ?_ }
  have hlog := h.ahead r hr hstart hlt
  refine mem_filter.mpr ⟨hlog, ?_⟩
  by_contra hdeleted
  have hle := hkeep r hlog (by simpa using hdeleted)
  omega

theorem OnTrack.watcher (v : Watcher) : OnTrack parseTime { s with watcher := v } w :=
  { h with }

end

theorem onTrack_start {filter : WatchFilter} {start : ℤ}
    (hlog : ∀ r ∈ s.committed, start < r.id → r ∈ s.log) :
    OnTrack parseTime s ⟨filter, start, start, [], []⟩ where
  start_le := le_rfl
  cursor_lt := .inl rfl
  inProgress := fun _ _ _ _ hstart => hstart
  behind := fun _ _ hstart hle => absurd hstart (not_lt.mpr hle)
  ahead := fun r hr hstart _ => hlog r hr hstart
  read := nofun
  ascending := List.Pairwise.nil
  delivered := rfl

variable (provider parseTime) in
/-- The log is sound, and a running watch is on track. -/
def Inv (s : Feed) : Prop :=
  Sound provider s ∧ ∀ w, s.watcher = .running w → OnTrack parseTime s w

theorem Inv.step {s' : Feed} {a : FeedAction} (h : Inv provider parseTime s)
    (hperm : Permitted provider s a) (hstep : s.step provider parseTime a = some s') :
    Inv provider parseTime s' := by
  obtain ⟨hs, hw⟩ := h
  cases a with
  | begin =>
    simp only [Feed.step] at hstep
    split at hstep
    · cases hstep
    next hfree =>
    cases hstep
    exact ⟨hs.begin hfree, fun w hrun => (hw w hrun).begin⟩
  | insert i subject kind observedAt =>
    obtain ⟨t, hi, rfl⟩ := map_eq_some_iff.mp hstep
    exact ⟨hs.insert hi rfl rfl, fun w hrun => (hw w hrun).insert hi rfl⟩
  | commit i =>
    obtain ⟨t, hi, rfl⟩ := map_eq_some_iff.mp hstep
    exact ⟨hs.commit hi, fun w hrun => (hw w hrun).commit hi⟩
  | rollback i =>
    obtain ⟨t, hi, rfl⟩ := map_eq_some_iff.mp hstep
    exact ⟨hs.rollback i, fun w hrun => (hw w hrun).rollback i⟩
  | delete keep =>
    cases hstep
    exact ⟨hs.delete keep, fun w hrun => (hw w hrun).delete (hperm w hrun)⟩
  | resolve filter cursor =>
    simp only [Feed.step] at hstep
    split at hstep
    · split at hstep <;> cases hstep <;> exact ⟨hs.watcher _, nofun⟩
    · cases hstep
  | start =>
    simp only [Feed.step] at hstep
    split at hstep
    · next filter start hresolved =>
      split at hstep
      · cases hstep
        exact ⟨hs.watcher _, nofun⟩
      cases hstep
      refine ⟨hs.watcher _, fun w hrun => ?_⟩
      cases hrun
      exact (onTrack_start (hperm filter start hresolved)).watcher _
    · cases hstep
  | poll tenants =>
    simp only [Feed.step] at hstep
    split at hstep <;> cases hstep
    next w hrun =>
    refine ⟨hs.watcher _, fun w' hrun' => ?_⟩
    cases hrun'
    exact ((hw w hrun).poll hs (hs.held fun hp => hperm hp w hrun) tenants).watcher _
  | pollFailed =>
    cases hstep
    exact ⟨hs, hw⟩

theorem inv_run {as : List FeedAction}
    (hperm : (feed provider parseTime).Guarded (Permitted provider) empty as)
    (hrun : (feed provider parseTime).run empty as = some s) : Inv provider parseTime s :=
  Machine.run_invariant (feed provider parseTime) (fun _ _ _ h hc hs => h.step hc hs) as empty s
    ⟨sound_empty, nofun⟩ hperm hrun

variable (provider parseTime s) in
def pollAll (w : Watch) (polls : List (String → String)) : Watch :=
  polls.foldl (s.polled provider parseTime) w

variable (polls : List (String → String))

theorem run_polls (s : Feed) {w : Watch} (hw : s.watcher = .running w) :
    (feed provider parseTime).run s (polls.map .poll) =
      some { s with watcher := .running (s.pollAll provider parseTime w polls) } := by
  induction polls generalizing s w with
  | nil => simp [pollAll, ← hw]
  | cons tenants polls ih =>
    have hstep : (feed provider parseTime).step s (.poll tenants) =
        some { s with watcher := .running (s.polled provider parseTime w tenants) } := by
      simp [feed, step, hw]
    rw [map_cons, Machine.run, hstep, bind_some]
    exact ih _ rfl

theorem Sound.visible_of_idle (h : Sound provider s) (hidle : s.txns = [])
    (hr : r ∈ s.log) (hlt : cursor < r.id) : s.visible provider cursor r = true := by
  have hxmin := h.xmin_lt r (mem_append_left _ (h.log.subset hr))
  cases provider <;> simp [visible, hlt, snapshotXmin, hidle, hxmin]

theorem Sound.held_of_idle (h : Sound provider s) (hidle : s.txns = []) (w : Watch) :
    Held provider s w := by
  refine ⟨fun row _ t ht => ?_, fun row _ r hr hlt hhidden => ?_⟩
  · rw [hidle] at ht
    cases ht
  · rw [h.visible_of_idle hidle hr hlt] at hhidden
    cases hhidden

def Pending (s : Feed) (w : Watch) : Prop := ∃ r ∈ s.log, w.cursor < r.id

variable (parseTime) in
theorem Sound.polled_advances (h : Sound provider s) (hidle : s.txns = []) (w : Watch)
    (tenants : String → String) :
    w.cursor ≤ (s.polled provider parseTime w tenants).cursor ∧
      (Pending s w → w.cursor < (s.polled provider parseTime w tenants).cursor) := by
  obtain ⟨hle, hlast⟩ := polled_cursor provider parseTime s h w tenants
  constructor
  · rcases hlast with hsame | ⟨row, hrow, hlast⟩
    · exact hsame.ge
    · exact hlast ▸ (lt_of_mem_pollWatchLog hrow).le
  · rintro ⟨r, hr, hlt⟩
    have hmem := mem_filter.mpr ⟨hr, h.visible_of_idle hidle hr hlt⟩
    obtain ⟨row, hrow⟩ : ∃ row, row ∈ s.pollWatchLog provider w.cursor := by
      apply exists_mem_of_length_pos
      rw [pollWatchLog, length_take, length_insertionSort]
      exact lt_min (by decide) (length_pos_of_mem hmem)
    exact lt_of_lt_of_le (lt_of_mem_pollWatchLog hrow) (hle row hrow)

theorem Sound.pollAll_advances (h : Sound provider s) (hidle : s.txns = []) (w : Watch)
    (polls : List (String → String)) :
    w.cursor ≤ (s.pollAll provider parseTime w polls).cursor ∧
      (Pending s (s.pollAll provider parseTime w polls) →
        w.cursor + polls.length ≤ (s.pollAll provider parseTime w polls).cursor) := by
  induction polls generalizing w with
  | nil => exact ⟨le_rfl, fun _ => by simp [pollAll]⟩
  | cons tenants polls ih =>
    obtain ⟨hmono, hpending⟩ := h.polled_advances parseTime hidle w tenants
    obtain ⟨hmono', hpending'⟩ := ih (s.polled provider parseTime w tenants)
    refine ⟨hmono.trans hmono', fun hlast => ?_⟩
    obtain ⟨r, hr, hlt⟩ := hlast
    have hfirst := hpending ⟨r, hr, lt_of_le_of_lt (hmono.trans hmono') hlt⟩
    have hrest := hpending' ⟨r, hr, hlt⟩
    rw [length_cons]
    change _ ≤ (s.pollAll provider parseTime (s.polled provider parseTime w tenants) polls).cursor
    omega

theorem OnTrack.pollAll (h : OnTrack parseTime s w) (hs : Sound provider s) (hidle : s.txns = [])
    (polls : List (String → String)) :
    OnTrack parseTime s (s.pollAll provider parseTime w polls) := by
  induction polls generalizing w with
  | nil => exact h
  | cons tenants polls ih => exact ih (h.poll hs (hs.held_of_idle hidle w) tenants)

theorem pollAll_start : (s.pollAll provider parseTime w polls).start = w.start := by
  induction polls generalizing w with
  | nil => rfl
  | cons tenants polls ih => exact ih

theorem OnTrack.caughtUp (h : OnTrack parseTime s w) (hs : Sound provider s) (hidle : s.txns = [])
    {polls : List (String → String)} (hlength : s.nextID ≤ w.cursor + polls.length) :
    ∀ r ∈ s.committed, w.start < r.id →
      r ∈ (s.pollAll provider parseTime w polls).read.map Prod.fst := by
  intro r hr hstart
  have htrack := h.pollAll hs hidle polls
  rw [← pollAll_start polls] at hstart
  apply htrack.behind r hr hstart
  by_contra hlt
  have hlog := htrack.ahead r hr hstart (not_le.mp hlt)
  have hadvanced := (hs.pollAll_advances hidle w polls).2 ⟨r, hlog, not_le.mp hlt⟩
  have hid := hs.lt_nextID r (mem_append_left _ hr)
  omega

end Feed

/-- What a watch has to do with the rows above the cursor that it was started with. -/
structure Complete (provider : Provider) (parseTime : String → ℤ) (s : Feed) (w : Watch) : Prop where
  ascending : w.read.Pairwise fun p q => p.1.id < q.1.id
  genuine : ∀ p ∈ w.read, p.1 ∈ s.committed ∧ w.start < p.1.id
  delivered : w.delivered = w.read.filterMap (matchingEvent parseTime w.filter)
  /-- A row that was ever committed has been read, or is in the log and ahead of the cursor. -/
  lossless : ∀ r ∈ s.committed, w.start < r.id →
    r ∈ w.read.map Prod.fst ∨ r ∈ s.log ∧ w.cursor < r.id
  /-- When no transaction is in progress, all of them are read in the end. -/
  caughtUp : s.txns = [] → ∃ n, ∀ polls : List (String → String), n ≤ polls.length →
    ∃ w', (feed provider parseTime).run s (polls.map .poll) = some { s with watcher := .running w' } ∧
      ∀ r ∈ s.committed, w.start < r.id → r ∈ w'.read.map Prod.fst

/-- A watch is complete in every run in which no poll returns a row above one that it leaves out,
and no row above the cursor is swept. -/
theorem change_feed_complete {provider : Provider} {parseTime : String → ℤ}
    (as : List FeedAction) {s : Feed} {w : Watch}
    (hrun : (feed provider parseTime).run .empty as = some s)
    (hperm : (feed provider parseTime).Guarded (Feed.Permitted provider) .empty as)
    (hw : s.watcher = .running w) : Complete provider parseTime s w := by
  obtain ⟨hs, htrack⟩ := Feed.inv_run hperm hrun
  have h := htrack w hw
  refine ⟨h.ascending, fun p hp => ⟨(h.read p hp).1, (h.read p hp).2.1⟩, h.delivered,
    fun r hr hstart => ?_, fun hidle => ?_⟩
  · by_cases hle : r.id ≤ w.cursor
    · exact .inl (h.behind r hr hstart hle)
    · exact .inr ⟨h.ahead r hr hstart (not_le.mp hle), not_le.mp hle⟩
  · refine ⟨(s.nextID - w.cursor).toNat, fun polls hlength => ⟨_, Feed.run_polls polls s hw, ?_⟩⟩
    exact h.caughtUp hs hidle (by omega)

def everything : WatchFilter := ⟨[], "", [], []⟩

/-- The second of two transactions commits first. The poll in between leaves its row out, and the
next one reads both in order. -/
def interleaved : List FeedAction :=
  [.resolve everything "0", .start, .begin, .begin, .insert 0 "host:a" .state "",
    .insert 1 "host:b" .state "", .commit 1, .poll fun _ => "", .commit 0, .poll fun _ => ""]

theorem change_feed_complete_interleaved : let first : LogRow := ⟨1, 1, "host:a", .state, ""⟩
    let second : LogRow := ⟨2, 2, "host:b", .state, ""⟩
    let w : Watch := ⟨everything, 0, 2, [(first, ""), (second, "")],
      [⟨⟨"host", "a", ""⟩, .entityUpdated, 1, 0⟩, ⟨⟨"host", "b", ""⟩, .entityUpdated, 2, 0⟩]⟩
    Complete .database (fun _ => 0) ⟨[second, first], [], 3, 3, [second, first], .running w⟩ w := by
  refine change_feed_complete interleaved (by decide) ?_ rfl
  refine ⟨trivial, fun _ h => ?_⟩
  cases h
  refine ⟨fun _ _ _ => nofun, fun _ h => ?_⟩
  cases h
  iterate 5
    refine ⟨trivial, fun _ h => ?_⟩
    cases h
  refine ⟨?_, fun _ h => ?_⟩
  · rintro - w ⟨⟩
    decide
  cases h
  refine ⟨trivial, fun _ h => ?_⟩
  cases h
  refine ⟨?_, fun _ _ => trivial⟩
  rintro - w ⟨⟩
  decide

/-- Two transactions insert in the other order than that in which they began. The first commits,
and a poll takes its row; the row of the second has a smaller id and is never read. -/
theorem row_skipped : let first : LogRow := ⟨1, 2, "host:b", .state, ""⟩
    let second : LogRow := ⟨2, 1, "host:a", .state, ""⟩
    (feed .database fun _ => 0).run .empty
        [.resolve everything "0", .start, .begin, .begin, .insert 1 "host:b" .state "",
          .insert 0 "host:a" .state "", .commit 0, .poll fun _ => "", .commit 0,
          .poll fun _ => ""] =
      some ⟨[second, first], [], 3, 3, [second, first],
        .running ⟨everything, 0, 2, [(second, "")],
          [⟨⟨"host", "a", ""⟩, .entityUpdated, 2, 0⟩]⟩⟩ := by
  decide

end Cfgms.EntityGraph
