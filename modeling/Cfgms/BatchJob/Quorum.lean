import Cfgms.Go.Map
import Mathlib.Data.List.Pairwise
import Mathlib.Data.List.Perm.Basic
import Mathlib.Data.PNat.Basic

/-! # Batches of a rolling update

Stewards with a cluster role are taken round by round, one from each role's group, so that no
batch has two of a role. Stewards without one fill the batches up and make the last ones.
-/

namespace Cfgms.BatchJob

open Go List

structure StewardMeta where
  id : String
  dnaAttributes : StringMap String

def StewardMeta.clusterRole (s : StewardMeta) : String :=
  (s.dnaAttributes.get "cluster_role").getD ""

/-- The stewards of a role that no round has taken yet. -/
structure Group where
  role : String
  members : List String

def addMember (role id : String) : List Group → List Group
  | [] => [⟨role, [id]⟩]
  | g :: gs =>
    if g.role = role then ⟨role, g.members ++ [id]⟩ :: gs else g :: addMember role id gs

/-- The groups in the order in which their roles appear, and the stewards without a role. -/
def separate : List StewardMeta → List Group → List String → List Group × List String
  | [], groups, plain => (groups, plain)
  | s :: rest, groups, plain =>
    if s.clusterRole = "" then separate rest groups (plain ++ [s.id])
    else separate rest (addMember s.clusterRole s.id groups) plain

/-- The batch size in force for a list of one steward and so many others. -/
def effectiveSize (batchSize : ℤ) (others : ℕ) : ℕ+ :=
  if batchSize ≤ 0 then others.succPNat else batchSize.toNat.toPNat'

def naiveBatches (size : ℕ+) (ids : List String) : List (List String) :=
  match ids with
  | [] => []
  | id :: rest => (id :: rest).take size :: naiveBatches size ((id :: rest).drop size)
termination_by ids.length
decreasing_by
  have hpos := size.pos
  simp only [length_drop, length_cons]
  omega

def naivePartition (ids : List String) (batchSize : ℤ) : List (List String) :=
  match ids with
  | [] => []
  | id :: rest => naiveBatches (effectiveSize batchSize rest.length) (id :: rest)

/-- What the rounds work on; `plain` is what is left from `plainIdx` on. -/
structure Filling where
  batches : List (List String)
  currentBatch : List String
  plain : List String
  madeProgress : Bool

def fillWithPlain (size : ℕ+) (batch : List String) : List String → List String × List String
  | [] => (batch, [])
  | id :: plain =>
    if batch.length < size then fillWithPlain size (batch ++ [id]) plain else (batch, id :: plain)

def Filling.flush (size : ℕ+) (f : Filling) : Filling :=
  let filled := fillWithPlain size f.currentBatch f.plain
  { f with batches := f.batches ++ [filled.1], currentBatch := [], plain := filled.2 }

/-- A batch that is full is flushed before the next steward is put into one. -/
def Filling.put (size : ℕ+) (f : Filling) (id : String) : Filling :=
  let f := if size ≤ f.currentBatch.length then f.flush size else f
  { f with currentBatch := f.currentBatch ++ [id], madeProgress := true }

def takeRound (size : ℕ+) : List Group → Filling → List Group × Filling
  | [], f => ([], f)
  | g :: gs, f =>
    match g.members with
    | [] =>
      let r := takeRound size gs f
      (g :: r.1, r.2)
    | id :: rest =>
      let r := takeRound size gs (f.put size id)
      (⟨g.role, rest⟩ :: r.1, r.2)

def remaining (groups : List Group) : List String := groups.flatMap (·.members)

variable {size : ℕ+} {g : Group} {gs : List Group} {f : Filling}

theorem length_remaining_takeRound (size : ℕ+) (groups : List Group) (f : Filling) :
    (remaining (takeRound size groups f).1).length +
        (if f.madeProgress = false ∧ (takeRound size groups f).2.madeProgress then 1 else 0) ≤
      (remaining groups).length := by
  fun_induction takeRound size groups f with
  | case1 => simp [remaining]
  | case2 g gs f hmembers r ih => simpa [remaining, hmembers] using ih
  | case3 g gs f id rest hmembers r ih =>
    have hprogress : (f.put size id).madeProgress = true := rfl
    simp only [hprogress, Bool.true_eq_false, false_and, if_false, remaining] at ih
    simp only [r, remaining, flatMap_cons, length_append, hmembers, length_cons]
    split <;> omega

def rounds (size : ℕ+) (groups : List Group) (f : Filling) : Filling :=
  let r := takeRound size groups { f with madeProgress := false }
  if r.2.madeProgress then rounds size r.1 (r.2.flush size) else r.2
termination_by (remaining groups).length
decreasing_by
  have hlength := length_remaining_takeRound size groups { f with madeProgress := false }
  rename_i hprogress
  rw [if_pos ⟨rfl, hprogress⟩] at hlength
  omega

def partition (stewards : List StewardMeta) (batchSize : ℤ) : List (List String) :=
  match stewards with
  | [] => []
  | s :: rest =>
    let size := effectiveSize batchSize rest.length
    match separate (s :: rest) [] [] with
    | ([], plain) => naivePartition plain size
    | (g :: gs, plain) =>
      let f := rounds size (g :: gs) ⟨[], [], plain, false⟩
      f.batches ++ naiveBatches size f.plain

section Batches

variable (role : String → String) (size : ℕ)

def Exclusive (batch : List String) : Prop :=
  batch.Pairwise fun a b => role a = role b → role a = ""

structure IsBatch (batch : List String) : Prop where
  ne_nil : batch ≠ []
  length_le : batch.length ≤ size
  exclusive : Exclusive role batch

end Batches

section Rounds

variable {role : String → String}

theorem Exclusive.append_plain {batch plain : List String} (h : Exclusive role batch)
    (hplain : ∀ id ∈ plain, role id = "") : Exclusive role (batch ++ plain) := by
  refine pairwise_append.mpr ⟨h, ?_, fun a _ b hb hab => hab.trans (hplain b hb)⟩
  exact pairwise_of_forall_mem_list fun a ha b _ _ => hplain a ha

variable (size) in
theorem naiveBatches_spec (ids : List String) (hplain : ∀ id ∈ ids, role id = "") :
    (naiveBatches size ids).flatten = ids ∧
      ∀ batch ∈ naiveBatches size ids, IsBatch role size batch := by
  induction hn : ids.length using Nat.strong_induction_on generalizing ids with
  | _ n ih =>
    cases ids with
    | nil => simp [naiveBatches]
    | cons id rest =>
      have hpos := size.pos
      have hlength : ((id :: rest).drop size).length < n := by
        simp only [length_drop, length_cons] at hn ⊢
        omega
      obtain ⟨hflatten, hbatches⟩ := ih _ hlength _
        (fun id' hid' => hplain id' (mem_of_mem_drop hid')) rfl
      rw [naiveBatches]
      constructor
      · rw [flatten_cons, hflatten, take_append_drop]
      · rw [forall_mem_cons]
        refine ⟨⟨?_, length_take_le _ _, Exclusive.append_plain .nil ?_⟩, hbatches⟩
        · simp
        · exact fun id' hid' => hplain id' (mem_of_mem_take hid')

variable (size) in
theorem fillWithPlain_spec (batch plain : List String) :
    ∃ taken, (fillWithPlain size batch plain).1 = batch ++ taken ∧
      plain = taken ++ (fillWithPlain size batch plain).2 ∧
      (batch.length ≤ size → (batch ++ taken).length ≤ size) := by
  fun_induction fillWithPlain size batch plain with
  | case1 => exact ⟨[], by simp, by simp, by simp⟩
  | case2 batch id plain hroom ih =>
    obtain ⟨taken, hbatch, hplain, hlength⟩ := ih
    refine ⟨id :: taken, by simp [hbatch], ?_, fun _ => ?_⟩
    · rw [cons_append, ← hplain]
    · have hle := hlength (by rw [length_append, length_singleton]; exact hroom)
      simpa using hle
  | case3 => exact ⟨[], by simp, by simp, by simp⟩

/-- The stewards that are in a batch or wait as plain ones. -/
def Filling.held (f : Filling) : List String := f.batches.flatten ++ f.currentBatch ++ f.plain

structure Filling.Sound (role : String → String) (size : ℕ+) (f : Filling) : Prop where
  batches : ∀ batch ∈ f.batches, IsBatch role size batch
  length_le : f.currentBatch.length ≤ size
  exclusive : Exclusive role f.currentBatch
  plain : ∀ id ∈ f.plain, role id = ""

theorem Filling.held_flush (f : Filling) : (f.flush size).held.Perm f.held := by
  obtain ⟨taken, hbatch, hplain, -⟩ := fillWithPlain_spec size f.currentBatch f.plain
  unfold held flush
  dsimp only
  rw [hbatch]
  nth_rewrite 2 [hplain]
  rw [perm_iff_count]
  intro a
  simp only [flatten_append, flatten_singleton, count_append, count_nil]
  omega

theorem Filling.Sound.flush (h : f.Sound role size) (hne : f.currentBatch ≠ []) :
    (f.flush size).Sound role size := by
  obtain ⟨taken, hbatch, hplain, hlength⟩ :=
    fillWithPlain_spec size f.currentBatch f.plain
  have htaken : ∀ id ∈ taken, role id = "" := fun id hid =>
    h.plain id (hplain ▸ mem_append_left _ hid)
  refine ⟨?_, Nat.zero_le _, .nil, fun id hid => ?_⟩
  · simp only [Filling.flush, hbatch, forall_mem_append, forall_mem_singleton]
    exact ⟨h.batches, by simp [hne], hlength h.length_le, h.exclusive.append_plain htaken⟩
  · exact h.plain id (hplain ▸ mem_append_right _ hid)

theorem Filling.held_put (f : Filling) (id : String) :
    (f.put size id).held.Perm (id :: f.held) := by
  have happend : ∀ f : Filling, ({ f with
      currentBatch := f.currentBatch ++ [id], madeProgress := true } : Filling).held.Perm
      (id :: f.held) := by
    intro f
    rw [perm_iff_count]
    intro a
    simp only [held, count_append, count_cons, count_nil]
    omega
  unfold put
  split
  · exact (happend _).trans (f.held_flush.cons id)
  · exact happend f

theorem Filling.Sound.put (h : f.Sound role size) {id : String}
    (hnew : ∀ id' ∈ f.currentBatch, role id' ≠ role id) : (f.put size id).Sound role size ∧
      ∀ id' ∈ (f.put size id).currentBatch, id' = id ∨ id' ∈ f.currentBatch := by
  unfold Filling.put
  split
  · next hfull =>
    have hpos := size.pos
    have hne : f.currentBatch ≠ [] := by
      intro hnil
      rw [hnil, length_nil] at hfull
      omega
    have hflush := h.flush hne
    constructor
    · exact ⟨hflush.batches, hpos, pairwise_singleton _ _, hflush.plain⟩
    · intro id' hid'
      exact .inl (mem_singleton.mp hid')
  · next hroom =>
    constructor
    · refine ⟨h.batches, ?_, ?_, h.plain⟩
      · simp only [length_append, length_singleton]
        omega
      · refine pairwise_append.mpr ⟨h.exclusive, pairwise_singleton _ _, ?_⟩
        intro a ha b hb hab
        obtain rfl := mem_singleton.mp hb
        exact absurd hab (hnew a ha)
    · intro id' hid'
      rcases mem_append.mp hid' with hid' | hid'
      · exact .inr hid'
      · exact .inl (mem_singleton.mp hid')

/-- Each role has one group, and its members have that role. -/
structure Grouped (role : String → String) (groups : List Group) : Prop where
  nodup : (groups.map (·.role)).Nodup
  members : ∀ g ∈ groups, ∀ id ∈ g.members, role id = g.role

theorem Grouped.tail (h : Grouped role (g :: gs)) : Grouped role gs :=
  ⟨(nodup_cons.mp h.nodup).2, fun g' hg' => h.members g' (mem_cons_of_mem _ hg')⟩

variable (groups : List Group)

theorem takeRound_roles (f : Filling) :
    (takeRound size groups f).1.map (·.role) = groups.map (·.role) := by
  fun_induction takeRound size groups f with
  | case1 => rfl
  | case2 | case3 => simpa

theorem takeRound_grouped {groups : List Group} (h : Grouped role groups) (f : Filling) :
    Grouped role (takeRound size groups f).1 := by
  refine ⟨by rw [takeRound_roles]; exact h.nodup, ?_⟩
  fun_induction takeRound size groups f with
  | case1 => simp
  | case2 g gs f hmembers r ih =>
    rw [forall_mem_cons]
    exact ⟨h.members g mem_cons_self, ih h.tail⟩
  | case3 g gs f id rest hmembers r ih =>
    rw [forall_mem_cons]
    refine ⟨fun id' hid' => ?_, ih h.tail⟩
    exact h.members g mem_cons_self id' (hmembers ▸ mem_cons_of_mem _ hid')

variable (size) in
theorem held_takeRound (groups : List Group) (f : Filling) :
    ((takeRound size groups f).2.held ++ remaining (takeRound size groups f).1).Perm
      (f.held ++ remaining groups) := by
  fun_induction takeRound size groups f with
  | case1 => rfl
  | case2 g gs f hmembers r ih => simpa [remaining, hmembers] using ih
  | case3 g gs f id rest hmembers r ih =>
    have hround := ih.trans ((f.held_put id).append_right _)
    rw [perm_iff_count] at hround ⊢
    intro a
    have hcount := hround a
    simp only [r, remaining, flatMap_cons, hmembers, count_append, count_cons] at hcount ⊢
    omega

theorem takeRound_sound {groups : List Group} (h : Grouped role groups)
    (hf : f.Sound role size) (hcurrent : ∀ id ∈ f.currentBatch, role id ∉ groups.map (·.role)) :
    (takeRound size groups f).2.Sound role size := by
  fun_induction takeRound size groups f with
  | case1 => exact hf
  | case2 g gs f hmembers r ih =>
    refine ih h.tail hf fun id hid hrole => ?_
    exact hcurrent id hid (mem_cons_of_mem _ hrole)
  | case3 g gs f id rest hmembers r ih =>
    have hid : role id = g.role :=
      h.members g mem_cons_self id (hmembers ▸ mem_cons_self)
    have hnew : ∀ id' ∈ f.currentBatch, role id' ≠ role id := fun id' hid' heq =>
      hcurrent id' hid' (heq.trans hid ▸ mem_cons_self)
    have hput := hf.put hnew
    refine ih h.tail hput.1 fun id' hid' hrole => ?_
    rcases hput.2 id' hid' with rfl | hid'
    · exact (nodup_cons.mp h.nodup).1 (show g.role ∈ _ from hid ▸ hrole)
    · exact hcurrent id' hid' (mem_cons_of_mem _ hrole)

theorem takeRound_rule {P : Filling → Prop} (hput : ∀ (f : Filling) id, P (f.put size id)) (hf : P f) :
    P (takeRound size groups f).2 := by
  fun_induction takeRound size groups f with
  | case1 => exact hf
  | case2 g gs f hmembers r ih => exact ih hf
  | case3 g gs f id rest hmembers r ih => exact ih (hput f id)

theorem takeRound_of_not_progress (f : Filling)
    (h : (takeRound size groups f).2.madeProgress = false) :
    remaining groups = [] ∧ (takeRound size groups f).2 = f := by
  fun_induction takeRound size groups f with
  | case1 => exact ⟨rfl, rfl⟩
  | case2 g gs f hmembers r ih => simpa [remaining, hmembers] using ih h
  | case3 g gs f id rest hmembers r ih =>
    have htrue : r.2.madeProgress = true :=
      takeRound_rule (P := fun f => f.madeProgress = true) gs (fun _ _ => rfl) rfl
    exact absurd (htrue.symm.trans h) (by simp)

variable (size) in
theorem rounds_spec {groups : List Group} (h : Grouped role groups) {f : Filling}
    (hf : f.Sound role size) (hcurrent : f.currentBatch = []) :
    (rounds size groups f).Sound role size ∧ (rounds size groups f).currentBatch = [] ∧
      (rounds size groups f).held.Perm (f.held ++ remaining groups) := by
  induction hn : (remaining groups).length using Nat.strong_induction_on
    generalizing groups f with
  | _ n ih =>
    have hstart : ({ f with madeProgress := false } : Filling).Sound role size := { hf with }
    have hround := takeRound_sound h hstart (by simp [hcurrent])
    rw [rounds]
    split
    · next hprogress =>
      have hlength := length_remaining_takeRound size groups { f with madeProgress := false }
      rw [if_pos ⟨rfl, hprogress⟩, hn] at hlength
      have hne : (takeRound size groups _).2.currentBatch ≠ [] := takeRound_rule groups
        (P := fun f => f.madeProgress → f.currentBatch ≠ []) (by simp [Filling.put]) (by simp) hprogress
      obtain ⟨hsound, hempty, hperm⟩ :=
        ih _ (Nat.lt_of_succ_le hlength) (takeRound_grouped h _) (hround.flush hne) rfl rfl
      refine ⟨hsound, hempty, hperm.trans ?_⟩
      exact ((Filling.held_flush _).append_right _).trans (held_takeRound size groups _)
    · next hprogress =>
      obtain ⟨hnil, heq⟩ := takeRound_of_not_progress groups _ (Bool.eq_false_iff.mpr hprogress)
      rw [heq, hnil, append_nil]
      exact ⟨hstart, hcurrent, .refl _⟩

end Rounds

theorem roles_addMember (role id : String) (groups : List Group) :
    (addMember role id groups).map (·.role) =
      if role ∈ groups.map (·.role) then groups.map (·.role)
      else groups.map (·.role) ++ [role] := by
  induction groups with
  | nil => simp [addMember]
  | cons g gs ih =>
    unfold addMember
    by_cases hrole : g.role = role
    · simp [hrole]
    rw [if_neg hrole, map_cons, ih]
    by_cases hmem : role ∈ gs.map (·.role)
    · simp [hmem]
    · simp [hmem, Ne.symm hrole]

theorem remaining_addMember (role id : String) (groups : List Group) :
    (remaining (addMember role id groups)).Perm (id :: remaining groups) := by
  fun_induction addMember role id groups with
  | case1 => exact .refl _
  | case2 g gs =>
    rw [perm_iff_count]
    intro a
    simp only [remaining, flatMap_cons, count_append, count_cons, count_nil]
    omega
  | case3 g gs _ ih =>
    rw [perm_iff_count] at ih ⊢
    intro a
    have hcount := ih a
    simp only [remaining, flatMap_cons, count_append, count_cons] at hcount ⊢
    omega

variable {roleOf : String → String} {groups : List Group}

theorem Grouped.addMember (h : Grouped roleOf groups) (id : String) :
    Grouped roleOf (addMember (roleOf id) id groups) := by
  constructor
  · rw [roles_addMember]
    split
    · exact h.nodup
    next hnew =>
    refine nodup_append.mpr ⟨h.nodup, nodup_singleton _, fun a ha b hb heq => ?_⟩
    rw [mem_singleton.mp hb] at heq
    exact hnew (heq ▸ ha)
  · have hmembers := h.members
    clear h
    induction groups with
    | nil => simp [BatchJob.addMember]
    | cons g gs ih =>
      rw [forall_mem_cons] at hmembers
      unfold BatchJob.addMember
      split
      · next hrole =>
        rw [forall_mem_cons]
        refine ⟨fun id' hid' => ?_, hmembers.2⟩
        rcases mem_append.mp hid' with hid' | hid'
        · exact (hmembers.1 id' hid').trans hrole
        · rw [mem_singleton.mp hid']
      · rw [forall_mem_cons]
        exact ⟨hmembers.1, ih hmembers.2⟩

variable (stewards : List StewardMeta)

theorem separate_spec (hrole : ∀ s ∈ stewards, roleOf s.id = s.clusterRole)
    {plain : List String} (hgroups : Grouped roleOf groups)
    (hplain : ∀ id ∈ plain, roleOf id = "") :
    Grouped roleOf (separate stewards groups plain).1 ∧
      (∀ id ∈ (separate stewards groups plain).2, roleOf id = "") ∧
      ((separate stewards groups plain).2 ++ remaining (separate stewards groups plain).1).Perm
        (stewards.map (·.id) ++ (plain ++ remaining groups)) := by
  fun_induction separate stewards groups plain with
  | case1 => exact ⟨hgroups, hplain, .refl _⟩
  | case2 s rest groups plain hempty ih =>
    rw [forall_mem_cons] at hrole
    have hadded : ∀ id ∈ plain ++ [s.id], roleOf id = "" := by
      simpa [or_imp, forall_and] using ⟨hplain, hrole.1.trans hempty⟩
    obtain ⟨h₁, h₂, hperm⟩ := ih hrole.2 hgroups hadded
    refine ⟨h₁, h₂, hperm.trans ?_⟩
    rw [perm_iff_count]
    intro a
    simp only [map_cons, count_append, count_cons, count_nil]
    omega
  | case3 s rest groups plain _ ih =>
    rw [forall_mem_cons] at hrole
    have hadded := remaining_addMember s.clusterRole s.id groups
    obtain ⟨h₁, h₂, hperm⟩ := ih hrole.2 (hrole.1 ▸ hgroups.addMember s.id) hplain
    refine ⟨h₁, h₂, hperm.trans ?_⟩
    rw [perm_iff_count] at hadded ⊢
    intro a
    have hcount := hadded a
    simp only [map_cons, count_append, count_cons] at hcount ⊢
    omega

theorem effectiveSize_of_pos {batchSize : ℤ} (h : 0 < batchSize) (others : ℕ) :
    (effectiveSize batchSize others : ℤ) = batchSize := by
  unfold effectiveSize
  rw [if_neg (by omega), Nat.toPNat'_coe, if_pos (by omega)]
  omega

theorem naivePartition_spec (size : ℕ+) {ids : List String} (hplain : ∀ id ∈ ids, roleOf id = "") :
    (naivePartition ids size).flatten = ids ∧
      ∀ batch ∈ naivePartition ids size, IsBatch roleOf size batch := by
  cases ids with
  | nil => simp [naivePartition]
  | cons id rest =>
    have heq : effectiveSize size rest.length = size := by
      have hpos : 0 < (size : ℤ) := by exact_mod_cast size.pos
      have hsize := effectiveSize_of_pos hpos rest.length
      exact PNat.eq (by exact_mod_cast hsize)
    unfold naivePartition
    dsimp only
    rw [heq]
    exact naiveBatches_spec size (id :: rest) hplain

/-- The batches of a partition, for whatever gives each steward its role. -/
theorem partition_spec (hrole : ∀ s ∈ stewards, roleOf s.id = s.clusterRole) (batchSize : ℤ) :
    (partition stewards batchSize).flatten.Perm (stewards.map (·.id)) ∧
      ∀ batch ∈ partition stewards batchSize, IsBatch roleOf
        (effectiveSize batchSize (stewards.length - 1)) batch := by
  cases stewards with
  | nil => simp [partition]
  | cons s rest =>
    have hnone : Grouped roleOf [] := ⟨nodup_nil, by simp⟩
    obtain ⟨hgrouped, hplain, hperm⟩ := separate_spec (s :: rest) hrole hnone
      (forall_mem_nil _)
    simp only [remaining, flatMap_nil, append_nil] at hperm
    rw [length_cons, Nat.add_sub_cancel]
    unfold partition
    dsimp only
    generalize effectiveSize batchSize rest.length = size
    split
    · next plain heq =>
      rw [heq] at hplain hperm
      obtain ⟨hflatten, hbatches⟩ := naivePartition_spec size hplain
      exact ⟨by rw [hflatten]; simpa using hperm, hbatches⟩
    · next g gs plain heq =>
      rw [heq] at hgrouped hplain hperm
      have hstart : Filling.Sound roleOf size ⟨[], [], plain, false⟩ :=
        ⟨by simp, by simp, .nil, hplain⟩
      obtain ⟨hsound, hempty, hheld⟩ := rounds_spec size hgrouped hstart rfl
      obtain ⟨hflatten, hbatches⟩ := naiveBatches_spec size _ hsound.plain
      rw [Filling.held, hempty, append_nil] at hheld
      constructor
      · rw [flatten_append, hflatten]
        exact hheld.trans hperm
      · rw [forall_mem_append]
        exact ⟨hsound.batches, hbatches⟩

/-- What a partition of stewards for a rolling update is to be. -/
structure IsRollout (stewards : List StewardMeta) (batchSize : ℤ)
    (batches : List (List String)) : Prop where
  ne_nil : ∀ batch ∈ batches, batch ≠ []
  length_le : 0 < batchSize → ∀ batch ∈ batches, (batch.length : ℤ) ≤ batchSize
  exclusive : ∀ batch ∈ batches, ∀ a ∈ stewards, ∀ b ∈ stewards, a.id ∈ batch → b.id ∈ batch →
    a.clusterRole = b.clusterRole → a.clusterRole ≠ "" → a = b
  perm : batches.flatten.Perm (stewards.map (·.id))

def roleIn (stewards : List StewardMeta) (id : String) : String :=
  ((stewards.find? fun s => s.id = id).map (·.clusterRole)).getD ""

variable {stewards : List StewardMeta}

theorem roleIn_eq (h : (stewards.map (·.id)).Nodup)
    {s : StewardMeta} (hs : s ∈ stewards) : roleIn stewards s.id = s.clusterRole := by
  unfold roleIn
  cases hfind : stewards.find? fun s' => s'.id = s.id with
  | none => exact absurd (find?_eq_none.mp hfind s hs) (by simp)
  | some s' =>
    have hid : s'.id = s.id := by simpa using find?_some hfind
    rw [inj_on_of_nodup_map h (mem_of_find?_eq_some hfind) hs hid]
    rfl

theorem partition_isRollout (h : (stewards.map (·.id)).Nodup)
    (batchSize : ℤ) : IsRollout stewards batchSize (partition stewards batchSize) := by
  obtain ⟨hperm, hbatches⟩ := partition_spec stewards (fun s hs => roleIn_eq h hs) batchSize
  refine ⟨fun batch hbatch => (hbatches batch hbatch).ne_nil, ?_, ?_, hperm⟩
  · intro hpos batch hbatch
    have hlength := (hbatches batch hbatch).length_le
    have hsize := effectiveSize_of_pos hpos (stewards.length - 1)
    omega
  · intro batch hbatch a ha b hb hmem hmem' hsame hne
    by_contra hab
    have hids : a.id ≠ b.id := fun hids => hab (inj_on_of_nodup_map h ha hb hids)
    have hsymm : Std.Symm fun x y =>
        roleIn stewards x = roleIn stewards y → roleIn stewards x = "" :=
      ⟨fun x y hxy hyx => hyx.trans (hxy hyx.symm)⟩
    have hpair := (hbatches batch hbatch).exclusive.forall hmem hmem' hids
    rw [roleIn_eq h ha, roleIn_eq h hb] at hpair
    exact hne (hpair hsame)

end Cfgms.BatchJob
