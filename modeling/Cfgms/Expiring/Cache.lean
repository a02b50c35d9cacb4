import Cfgms.Machine.Runs
import Cfgms.Ordered.Table
import Mathlib.Data.List.Perm.Subperm
import Mathlib.Data.Int.Order.Basic
import Mathlib.Data.Option.Basic

/-! # Caches that forget

A cache holds the keys that were entered lately, with the time of entry. An entry is dropped
when it is older than the retention, or when the cache is full and it is the oldest. While the
cache is never full, a key is entered a second time only after the retention.
-/

namespace Cfgms.Expiring

open Ordered List

variable {κ : Type*} [DecidableEq κ]

abbrev Entries (κ : Type*) := Table (Prod.fst : κ × ℤ → κ)

/-- Drop the entries that are older than the cutoff, along the order of entry. -/
def sweep (cutoff : ℤ) : Entries κ → List κ → Entries κ × List κ
  | es, [] => (es, [])
  | es, k :: ks =>
    match es.get k with
    | none => sweep cutoff es ks
    | some e =>
      if e.2 < cutoff then sweep cutoff (es.erase k) ks
      else ((sweep cutoff es ks).1, k :: (sweep cutoff es ks).2)

/-- Drop the entry of the first key in the order of entry that has one. -/
def dropOldest : Entries κ → List κ → Entries κ × List κ
  | es, [] => (es, [])
  | es, k :: ks => if (es.get k).isSome then (es.erase k, ks) else dropOldest es ks

def Covers (es : Entries κ) (ks : List κ) : Prop := ∀ e ∈ es.rows, e.1 ∈ ks

variable {cutoff : ℤ} {es : Entries κ} {ks : List κ} {e : κ × ℤ}

theorem rows_sweep : (sweep cutoff es ks).1.rows =
    es.rows.filter fun e => ¬ (e.2 < cutoff ∧ e.1 ∈ ks) := by
  induction ks generalizing es with
  | nil => simp [sweep]
  | cons k ks ih =>
    unfold sweep
    cases hget : es.get k with
    | none =>
      have habsent : ∀ e ∈ es.rows, e.1 ≠ k := by
        rintro e he rfl
        rw [Table.get_eq_some_iff.mpr ⟨he, rfl⟩] at hget
        cases hget
      rw [ih]
      exact filter_congr fun e he => by simp [habsent e he]
    | some d =>
      obtain ⟨hd, rfl⟩ := Table.get_eq_some_iff.mp hget
      have hsame : ∀ e ∈ es.rows, e.1 = d.1 → e = d := fun e he hk =>
        inj_on_of_nodup_map es.nodup he hd hk
      dsimp only
      split
      · rw [ih, Table.erase, filter_filter]
        exact filter_congr fun e he => by grind
      · rw [ih]
        exact filter_congr fun e he => by grind

theorem mem_sweep :
    e ∈ (sweep cutoff es ks).1.rows ↔ e ∈ es.rows ∧ ¬ (e.2 < cutoff ∧ e.1 ∈ ks) := by
  rw [rows_sweep, mem_filter, decide_eq_true_eq]

theorem Covers.sweep
    (he : e ∈ (sweep cutoff es ks).1.rows) (hk : e.1 ∈ ks) : e.1 ∈ (sweep cutoff es ks).2 := by
  fun_induction Expiring.sweep cutoff es ks with
  | case1 => cases hk
  | case2 es k ks hget ih =>
    rcases mem_cons.mp hk with rfl | hk
    · rw [Table.get_eq_some_iff.mpr ⟨(mem_sweep.mp he).1, rfl⟩] at hget
      cases hget
    · exact ih he hk
  | case3 es k ks d hget hold ih =>
    have herased := (mem_sweep.mp he).1
    simp only [Table.erase, mem_filter, decide_eq_true_eq] at herased
    exact ih he ((mem_cons.mp hk).resolve_left herased.2)
  | case4 es k ks d hget hnew ih =>
    rcases mem_cons.mp hk with hk | hk
    · exact hk ▸ mem_cons_self
    · exact mem_cons_of_mem _ (ih he hk)

theorem Covers.tail {k : κ} (h : Covers es (k :: ks))
    (habsent : ¬ (es.get k).isSome) : Covers es ks := by
  intro e he
  apply (mem_cons.mp (h e he)).resolve_left
  rintro rfl
  rw [Table.get_eq_some_iff.mpr ⟨he, rfl⟩] at habsent
  exact habsent rfl

theorem Covers.dropOldest (h : Covers es ks) :
    Covers (dropOldest es ks).1 (dropOldest es ks).2 := by
  induction ks with
  | nil => exact h
  | cons k ks ih =>
    unfold Expiring.dropOldest
    split
    · intro e he
      obtain ⟨hrow, hne⟩ := mem_filter.mp he
      exact (mem_cons.mp (h e hrow)).resolve_left (of_decide_eq_true hne)
    · exact ih (h.tail ‹_›)

structure Cache (κ : Type*) [DecidableEq κ] where
  entries : Entries κ
  order : List κ
  covered : Covers entries order

namespace Cache

def empty : Cache κ := ⟨Table.empty, [], fun _ he => absurd he not_mem_nil⟩

theorem covers_sweep (c : Cache κ) (cutoff : ℤ) :
    Covers (sweep cutoff c.entries c.order).1 (sweep cutoff c.entries c.order).2 := fun e he =>
  Covers.sweep he (c.covered e (mem_sweep.mp he).1)

def evictExpired (c : Cache κ) (cutoff : ℤ) : Cache κ :=
  ⟨(sweep cutoff c.entries c.order).1, (sweep cutoff c.entries c.order).2, c.covers_sweep cutoff⟩

def evictOldest (c : Cache κ) : Cache κ :=
  ⟨(dropOldest c.entries c.order).1, (dropOldest c.entries c.order).2, c.covered.dropOldest⟩

/-- Evict the oldest entries until there is room for one more, at most as often as said. -/
def makeRoom (capacity : ℕ) : ℕ → Cache κ → Cache κ
  | 0, c => c
  | n + 1, c => if capacity ≤ c.entries.rows.length then makeRoom capacity n c.evictOldest else c

theorem covers_store (c : Cache κ) (k : κ) (now : ℤ) :
    Covers (c.entries.store (k, now)) (c.order ++ [k]) := by
  intro e he
  rcases Table.mem_store he with rfl | he
  · simp
  · simp [c.covered e he]

/-- Enter a key, unless it was entered within the retention. -/
def add (capacity : ℕ) (ttl : ℤ) (c : Cache κ) (k : κ) (now : ℤ) : Cache κ × Bool :=
  let c := c.evictExpired (now - ttl)
  if (c.entries.get k).any fun e => now - e.2 < ttl then (c, false)
  else
    let c := makeRoom capacity c.entries.rows.length c
    (⟨c.entries.store (k, now), c.order ++ [k], c.covers_store k now⟩, true)

theorem rows_evictExpired (c : Cache κ) (cutoff : ℤ) :
    (c.evictExpired cutoff).entries.rows = c.entries.rows.filter fun e => cutoff ≤ e.2 := by
  rw [evictExpired, rows_sweep]
  exact filter_congr fun e he => by simp [c.covered e he]

variable {c : Cache κ}

theorem mem_evictExpired {cutoff : ℤ} {e : κ × ℤ} :
    e ∈ (c.evictExpired cutoff).entries.rows ↔ e ∈ c.entries.rows ∧ cutoff ≤ e.2 := by
  rw [rows_evictExpired, mem_filter, decide_eq_true_eq]

theorem makeRoom_of_lt {capacity n : ℕ} (h : c.entries.rows.length < capacity) :
    makeRoom capacity n c = c := by
  cases n with
  | zero => rfl
  | succ n => exact if_neg (not_le.mpr h)

/-- A cache that is asked to enter a key at a time, or left alone, and that answers with the
entries it makes. -/
def calls (capacity : ℕ) (ttl : ℤ) :
    Transducer (Cache κ) (Option (κ × ℤ)) (Option (κ × ℤ)) where
  step c
    | none => (c, none)
    | some e =>
      ((c.add capacity ttl e.1 e.2).1, if (c.add capacity ttl e.1 e.2).2 then some e else none)

/-- In no period of the length of the retention are there so many entries as to fill the cache. -/
def Uncrowded (capacity : ℕ) (ttl : ℤ) (made : List (Option (κ × ℤ))) : Prop :=
  ∀ t, made.countP (fun e => e.any fun e => t ≤ e.2 ∧ e.2 ≤ t + ttl) < capacity

/-- Two entries of one key are the retention apart. -/
def Apart (ttl : ℤ) (a b : Option (κ × ℤ)) : Prop :=
  ∀ x ∈ a, ∀ y ∈ b, x.1 = y.1 → x.2 + ttl ≤ y.2

/-- What a cache that was never full knows of the entries made up to now. -/
structure Remembers (ttl : ℤ) (made : List (Option (κ × ℤ))) (now : ℤ) (c : Cache κ) : Prop where
  past : ∀ e, some e ∈ made → e.2 ≤ now
  held : ∀ e ∈ c.entries.rows, some e ∈ made
  kept : ∀ e, some e ∈ made →
    (∃ t, e.2 ≤ t ∧ (e.1, t) ∈ c.entries.rows) ∨ e.2 + ttl ≤ now

section Remembers

variable {capacity : ℕ} {ttl now : ℤ} {made : List (Option (κ × ℤ))} {c : Cache κ} {e : κ × ℤ}

theorem Remembers.empty (ttl now : ℤ) : Remembers ttl [] now (empty : Cache κ) where
  past _ h := absurd h not_mem_nil
  held _ h := absurd h not_mem_nil
  kept _ h := absurd h not_mem_nil

section

variable (h : Remembers ttl made now c)
include h

theorem Remembers.skip : Remembers ttl (made ++ [none]) now c := by
  have hmade : ∀ e, some e ∈ made ++ [none] ↔ some e ∈ made := by simp
  constructor
  · exact fun e he => h.past e ((hmade e).mp he)
  · exact fun e he => (hmade e).mpr (h.held e he)
  · exact fun e he => h.kept e ((hmade e).mp he)

theorem Remembers.length_lt {t : ℤ} (ht : now ≤ t)
    (hload : Uncrowded capacity ttl made) :
    (c.evictExpired (t - ttl)).entries.rows.length < capacity := by
  refine lt_of_le_of_lt ?_ (hload (t - ttl))
  rw [countP_eq_length_filter, ← length_map some]
  refine List.Subperm.length_le (List.Nodup.subperm ?_ ?_)
  · exact (List.Nodup.of_map _ (evictExpired c (t - ttl)).entries.nodup).map
      (Option.some_injective _)
  · intro o ho
    obtain ⟨e, he, rfl⟩ := mem_map.mp ho
    obtain ⟨hrow, hnew⟩ := mem_evictExpired.mp he
    have hmade := h.held e hrow
    have hpast := h.past e hmade
    simp only [mem_filter, Option.any_some, decide_eq_true_eq]
    exact ⟨hmade, hnew, by omega⟩

theorem Remembers.evictExpired {t : ℤ} (ht : now ≤ t) :
    Remembers ttl made t (c.evictExpired (t - ttl)) := by
  constructor
  · exact fun e he => (h.past e he).trans ht
  · exact fun e he => h.held e (mem_evictExpired.mp he).1
  · intro e he
    rcases h.kept e he with ⟨u, hu, hrow⟩ | hold
    · rcases lt_or_ge u (t - ttl) with hlt | hge
      · exact .inr (by omega)
      · exact .inl ⟨u, hu, mem_evictExpired.mpr ⟨hrow, hge⟩⟩
    · exact .inr (by omega)

theorem Remembers.apart
    (hnew : ¬ (c.entries.get e.1).any fun d => now - d.2 < ttl) {d : κ × ℤ} (hd : some d ∈ made)
    (hkey : d.1 = e.1) : d.2 + ttl ≤ now := by
  rcases h.kept d hd with ⟨u, hu, hrow⟩ | hold
  · have hget : c.entries.get e.1 = some (d.1, u) := Table.get_eq_some_iff.mpr ⟨hrow, hkey⟩
    rw [hget] at hnew
    simp only [Option.any_some, decide_eq_true_eq] at hnew
    omega
  · exact hold

end

theorem Remembers.store (h : Remembers ttl made e.2 c) {order : List κ}
    {hcovers : Covers (c.entries.store e) order} :
    Remembers ttl (made ++ [some e]) e.2 ⟨c.entries.store e, order, hcovers⟩ := by
  constructor
  · intro d hd
    rcases mem_append.mp hd with hd | hd
    · exact h.past d hd
    · obtain rfl : d = e := by simpa using hd
      exact le_rfl
  · intro d hd
    rcases Table.mem_store hd with rfl | hd
    · simp
    · exact mem_append_left _ (h.held d hd)
  · have hentered : (c.entries.store e).get e.1 = some e := by simp [Table.get_store]
    intro d hd
    rcases mem_append.mp hd with hd | hd
    · by_cases hkey : d.1 = e.1
      · rw [hkey]
        exact .inl ⟨e.2, h.past d hd, (Table.get_eq_some_iff.mp hentered).1⟩
      · rcases h.kept d hd with ⟨u, hu, hrow⟩ | hold
        · refine .inl ⟨u, hu, ?_⟩
          have hget : (c.entries.store e).get d.1 = some (d.1, u) := by
            rw [Table.get_store, if_neg (Ne.symm hkey)]
            exact Table.get_eq_some_iff.mpr ⟨hrow, rfl⟩
          exact (Table.get_eq_some_iff.mp hget).1
        · exact .inr hold
    · obtain rfl : d = e := by simpa using hd
      exact .inl ⟨d.2, le_rfl, (Table.get_eq_some_iff.mp hentered).1⟩

/-- When a key is to be entered, there is room for it among the unexpired entries. -/
def HasRoom (capacity : ℕ) (ttl : ℤ) (c : Cache κ) (o : Option (κ × ℤ)) : Prop :=
  ∀ e ∈ o, (c.evictExpired (e.2 - ttl)).entries.rows.length < capacity

variable {o : Option (κ × ℤ)}

theorem Remembers.call (h : Remembers ttl made now c)
    (hnow : ∀ e ∈ o, now ≤ e.2) (hroom : HasRoom capacity ttl c o) :
    (∃ now', (now' = now ∨ ∃ e ∈ o, now' = e.2) ∧
      Remembers ttl (made ++ [((calls capacity ttl).step c o).2]) now'
        ((calls capacity ttl).step c o).1) ∧
      ∀ a ∈ made, Apart ttl a ((calls capacity ttl).step c o).2 := by
  have hnone : ∀ a : Option (κ × ℤ), Apart ttl a none := fun a x _ y hy => by cases hy
  cases o with
  | none => exact ⟨⟨now, .inl rfl, h.skip⟩, fun a _ => hnone a⟩
  | some e =>
    have hswept := h.evictExpired (hnow e rfl)
    simp only [calls, add]
    split
    · rw [if_neg Bool.false_ne_true]
      exact ⟨⟨e.2, .inr ⟨e, rfl, rfl⟩, hswept.skip⟩, fun a _ => hnone a⟩
    next hnew =>
    rw [makeRoom_of_lt (hroom e rfl), if_pos rfl]
    refine ⟨⟨e.2, .inr ⟨e, rfl, rfl⟩, hswept.store⟩, ?_⟩
    rintro a ha x rfl y hy hkey
    obtain rfl := Option.mem_some_iff.mp hy
    exact hswept.apart hnew ha hkey

omit [DecidableEq κ] in
/-- The calls are made one after the other, none of them before a time. -/
def Chronological (now : ℤ) (cs : List (Option (κ × ℤ))) : Prop :=
  (∀ o ∈ cs, ∀ e ∈ o, now ≤ e.2) ∧ cs.Pairwise fun a b => ∀ x ∈ a, ∀ y ∈ b, x.2 ≤ y.2

variable {cs : List (Option (κ × ℤ))}

omit [DecidableEq κ] in
theorem Chronological.tail {now' : ℤ} {o : Option (κ × ℤ)}
    (h : Chronological now (o :: cs)) (hnow' : now' = now ∨ ∃ e ∈ o, now' = e.2) :
    Chronological now' cs := by
  obtain ⟨hfirst, hsorted⟩ := h
  rw [pairwise_cons] at hsorted
  refine ⟨fun o' ho' e' he' => ?_, hsorted.2⟩
  rcases hnow' with rfl | ⟨e, he, rfl⟩
  · exact hfirst o' (mem_cons_of_mem _ ho') e' he'
  · exact hsorted.1 o' ho' e he e' he'

variable {cs : List (Option (κ × ℤ))}

theorem Remembers.outputs_apart (h : Remembers ttl made now c) (hchron : Chronological now cs)
    (hroom : (calls capacity ttl).Along (HasRoom capacity ttl) c cs) :
    (∀ a ∈ made, ∀ b ∈ (calls capacity ttl).outputs c cs, Apart ttl a b) ∧
      ((calls capacity ttl).outputs c cs).Pairwise (Apart ttl) := by
  induction cs generalizing made now c with
  | nil => simp
  | cons o cs ih =>
    obtain ⟨⟨now', hnow', hmemory⟩, hapart⟩ := h.call (hchron.1 o mem_cons_self) hroom.1
    obtain ⟨hbefore, hafter⟩ := ih hmemory (hchron.tail hnow') hroom.2
    rw [Transducer.outputs_cons]
    constructor
    · intro a ha b hb
      rcases mem_cons.mp hb with rfl | hb
      · exact hapart a ha
      · exact hbefore a (mem_append_left _ ha) b hb
    · rw [pairwise_cons]
      exact ⟨fun b hb => hbefore _ (by simp) b hb, hafter⟩

omit [DecidableEq κ] in
theorem Uncrowded.of_append {made rest : List (Option (κ × ℤ))}
    (h : Uncrowded capacity ttl (made ++ rest)) : Uncrowded capacity ttl made := fun t =>
  lt_of_le_of_lt (List.Sublist.countP_le (sublist_append_left made rest)) (h t)

omit [DecidableEq κ] in
theorem uncrowded_of_length_lt (h : made.length < capacity) : Uncrowded capacity ttl made :=
  fun _ => lt_of_le_of_lt countP_le_length h

theorem Remembers.along_hasRoom (h : Remembers ttl made now c) (hchron : Chronological now cs)
    (hload : Uncrowded capacity ttl (made ++ (calls capacity ttl).outputs c cs)) :
    (calls capacity ttl).Along (HasRoom capacity ttl) c cs := by
  induction cs generalizing made now c with
  | nil => trivial
  | cons o cs ih =>
    have hnow := hchron.1 o mem_cons_self
    have hroom : HasRoom capacity ttl c o := fun e he => h.length_lt (hnow e he) hload.of_append
    obtain ⟨⟨now', hnow', hmemory⟩, -⟩ := h.call hnow hroom
    refine ⟨hroom, ih hmemory (hchron.tail hnow') ?_⟩
    simpa using hload

theorem hasRoom_of_length_lt (h : c.entries.rows.length < capacity) : HasRoom capacity ttl c o := by
  intro e _
  refine lt_of_le_of_lt (List.Subperm.length_le (List.Nodup.subperm ?_ ?_)) h
  · exact List.Nodup.of_map _ (c.evictExpired (e.2 - ttl)).entries.nodup
  · exact fun d hd => (mem_evictExpired.mp hd).1

omit [DecidableEq κ] in
theorem exists_chronological
    (h : cs.Pairwise fun a b => ∀ x ∈ a, ∀ y ∈ b, x.2 ≤ y.2) :
    ∃ now, Chronological now cs := by
  have hbefore : ∃ now, ∀ o ∈ cs, ∀ e ∈ o, now ≤ e.2 := by
    clear h
    induction cs with
    | nil => exact ⟨0, fun _ h => absurd h not_mem_nil⟩
    | cons o cs ih =>
      obtain ⟨now, hnow⟩ := ih
      refine ⟨min (o.elim now Prod.snd) now, fun o' ho' e he => ?_⟩
      rcases mem_cons.mp ho' with rfl | ho'
      · obtain rfl := Option.mem_def.mp he
        exact min_le_left _ _
      · exact (min_le_right _ _).trans (hnow o' ho' e he)
  obtain ⟨now, hnow⟩ := hbefore
  exact ⟨now, hnow, h⟩

variable (hsorted : cs.Pairwise fun a b => ∀ x ∈ a, ∀ y ∈ b, x.2 ≤ y.2)
include hsorted

theorem calls_apart
    (hroom : (calls capacity ttl).Along (HasRoom capacity ttl) Cache.empty cs) :
    ((calls capacity ttl).outputs Cache.empty cs).Pairwise (Apart ttl) := by
  obtain ⟨now, hchron⟩ := exists_chronological hsorted
  exact ((Remembers.empty ttl now).outputs_apart hchron hroom).2

theorem calls_apart_of_uncrowded
    (hload : Uncrowded capacity ttl ((calls capacity ttl).outputs Cache.empty cs)) :
    ((calls capacity ttl).outputs Cache.empty cs).Pairwise (Apart ttl) := by
  obtain ⟨now, hchron⟩ := exists_chronological hsorted
  exact calls_apart hsorted ((Remembers.empty ttl now).along_hasRoom hchron hload)

end Remembers

end Cache

end Cfgms.Expiring
