import Mathlib.Algebra.Order.BigOperators.Group.List
import Mathlib.Algebra.Order.Ring.Int
import Mathlib.Data.List.Sort
import Cfgms.Go.Strings
import Cfgms.Machine.Runs

/-! # Retention of steward versions

The launcher has a directory for each version and prunes them after a healthy run. The quarantine
of a version counts from the modification time of its directory, and the pruner does not know which
version a rollback would return to.
-/

namespace Cfgms.Launcher

open List

structure RetentionPolicy where
  quarantineWindow : ℤ
  maxVersions : ℤ
  maxBytes : ℤ

structure RetainedVersion where
  name : String
  size : ℕ
  modTime : ℤ
  deriving DecidableEq

inductive Reason
  | activeVersion
  | quarantine (age window : ℤ)
  | withinLimits
  | maxVersions (limit : ℤ)
  | maxBytes (limit : ℤ)

/-- Whether the action of the decision is `deleted`. -/
def Reason.deletes : Reason → Bool
  | maxVersions _ | maxBytes _ => true
  | _ => false

abbrev PruneDecision := RetainedVersion × Reason

inductive PruneError | quarantineWindow | maxVersions | maxBytes | prune (v : RetainedVersion)

/-- The loop for `MaxBytes`, which ends when what is left of the total, in 64 bits, fits. -/
def overBytes (limit : ℤ) : ℤ → List RetainedVersion → List RetainedVersion
  | _, [] => []
  | total, v :: rest =>
    if total.bmod (2 ^ 64) ≤ limit then [] else v :: overBytes limit (total - v.size) rest

def total (vs : List RetainedVersion) : ℤ := (vs.map fun v => (v.size : ℤ)).sum

namespace RetentionPolicy

variable (policy : RetentionPolicy)

def quarantines (now : ℤ) (v : RetainedVersion) : Bool :=
  0 < policy.quarantineWindow ∧ now - v.modTime < policy.quarantineWindow

/-- The decisions on the candidates, from the oldest. -/
def judge (candidates : List RetainedVersion) : List PruneDecision :=
  let overflow := if 0 < policy.maxVersions then candidates.length - policy.maxVersions else 0
  let rest := candidates.drop overflow.toNat
  let heavy := if 0 < policy.maxBytes then overBytes policy.maxBytes (total rest) rest else []
  (candidates.take overflow.toNat).map (·, .maxVersions policy.maxVersions) ++
    heavy.map (·, .maxBytes policy.maxBytes) ++ (rest.drop heavy.length).map (·, .withinLimits)

end RetentionPolicy

def others (activeVersion : String) (all : List RetainedVersion) : List RetainedVersion :=
  all.filter (·.name ≠ activeVersion)

def byAge (entries : List RetainedVersion) : List RetainedVersion :=
  entries.insertionSort (·.modTime ≤ ·.modTime)

/-- `entries` are the directories that can be read, and `removeAll` says which removals succeed. -/
def pruneVersions (removeAll : RetainedVersion → Bool) (entries : List RetainedVersion)
    (activeVersion : String) (policy : RetentionPolicy) (now : ℤ) :
    List PruneDecision × Option PruneError :=
  if policy.quarantineWindow < 0 then ([], some .quarantineWindow)
  else if policy.maxVersions < 0 then ([], some .maxVersions)
  else if policy.maxBytes < 0 then ([], some .maxBytes)
  else
    let all := byAge entries
    let kept := all.filterMap fun v =>
      if v.name = activeVersion then some (v, .activeVersion)
      else if policy.quarantines now v then
        some (v, .quarantine (now - v.modTime) policy.quarantineWindow)
      else none
    let judged :=
      policy.judge ((others activeVersion all).filter fun v => !policy.quarantines now v)
    let removes := fun d : PruneDecision => !d.2.deletes || removeAll d.1
    (kept ++ judged.takeWhile removes, (judged.dropWhile removes).head?.map fun d => .prune d.1)

structure PointerState where
  current : String := ""
  previous : String := ""
  consecutiveFailures : ℕ := 0
  knownGood : String := ""
  knownGoodHash : String := ""

def validateVersion (v : String) : Bool :=
  v ≠ "" ∧ ¬ Go.contains v.toList "..".toList ∧ '/' ∉ v.toList ∧ '\\' ∉ v.toList

namespace PointerState

variable (ps : PointerState)

def writeCurrent (version : String) : PointerState :=
  if ps.current ≠ "" ∧ ps.current ≠ version then
    { ps with current := version, previous := ps.current, knownGood := "", knownGoodHash := "" }
  else { ps with current := version }

def rollback : PointerState :=
  { current := ps.previous, previous := ps.current, consecutiveFailures := ps.consecutiveFailures }

def handleHealthy (current : String) : Option String → PointerState
  | some exeHash =>
    { ps with consecutiveFailures := 0, knownGood := current, knownGoodHash := exeHash }
  | none => { ps with consecutiveFailures := 0 }

end PointerState

structure Installation where
  versions : List RetainedVersion
  state : PointerState
  now : ℤ
  /-- When the previous version was superseded. -/
  supersededAt : ℤ

inductive Action
  | pass (d : ℕ)
  /-- A directory changes. -/
  | touch (v : RetainedVersion)
  | upgrade (v : RetainedVersion)
  | healthy (all : List RetainedVersion) (removeAll : RetainedVersion → Bool)
      (exeHash : Option String)
  | rollback

/-- The directories that a pruning finds. -/
def Action.found : Action → Option (List RetainedVersion)
  | .healthy all _ _ => some all
  | _ => none

def launcher (policy : RetentionPolicy) : Machine Installation Action where
  step s
    | .pass d => some { s with now := s.now + d }
    | .touch v =>
      some { s with versions := s.versions.map fun w => if w.name = v.name then v else w }
    | .upgrade v =>
      if validateVersion v.name = false then some s
      else some { s with
        versions := v :: others v.name s.versions
        state := s.state.writeCurrent v.name
        supersededAt := if s.state.current ≠ "" ∧ s.state.current ≠ v.name then s.now
          else s.supersededAt }
    | .healthy all removeAll exeHash =>
      -- entries that cannot be read are passed over; entries of one time come in any order
      if all ⊆ s.versions ∧ all.Nodup ∧ all.Pairwise (·.modTime ≤ ·.modTime) then
        let (decisions, _) := pruneVersions removeAll all s.state.current policy s.now
        some { s with
          state := s.state.handleHealthy s.state.current exeHash
          versions := s.versions.filter fun v =>
            !decisions.any fun d => d.2.deletes && d.1.name = v.name }
      else none
    | .rollback =>
      if s.state.previous = "" then some s
      else some { s with state := s.state.rollback, supersededAt := s.now }

theorem mem_byAge {v : RetainedVersion} {vs : List RetainedVersion} : v ∈ byAge vs ↔ v ∈ vs :=
  mem_insertionSort _

theorem total_nonneg (vs : List RetainedVersion) : 0 ≤ total vs :=
  sum_nonneg (by simp)

theorem overBytes_sublist (limit : ℤ) (vs : List RetainedVersion) (total : ℤ) :
    overBytes limit total vs <+ vs := by
  induction vs generalizing total with
  | nil => exact .slnil
  | cons v vs ih =>
    unfold overBytes
    split
    · exact nil_sublist _
    · exact (ih _).cons_cons v

section Decisions

variable {policy : RetentionPolicy} {d : PruneDecision}

theorem mem_of_mem_judge {candidates : List RetainedVersion} (hd : d ∈ policy.judge candidates) :
    d.1 ∈ candidates := by
  unfold RetentionPolicy.judge at hd
  simp only [mem_append, mem_map] at hd
  rcases hd with (⟨v, hv, rfl⟩ | ⟨v, hv, rfl⟩) | ⟨v, hv, rfl⟩
  · exact mem_of_mem_take hv
  · split at hv
    · exact mem_of_mem_drop ((overBytes_sublist _ _ _).mem hv)
    · cases hv
  · exact mem_of_mem_drop (mem_of_mem_drop hv)

/-- The versions are within both limits. -/
def RetentionPolicy.Fits (policy : RetentionPolicy) (vs : List RetainedVersion) : Prop :=
  (policy.maxVersions = 0 ∨ vs.length ≤ policy.maxVersions) ∧
    (policy.maxBytes = 0 ∨ total vs ≤ policy.maxBytes)

theorem judge_of_fits {vs : List RetainedVersion} (h : policy.Fits vs) {p : RetainedVersion → Bool}
    (hd : d ∈ policy.judge (vs.filter p)) : d.2.deletes = false := by
  have hlength := length_filter_le p vs
  have htotal : total (vs.filter p) ≤ total vs := (filter_sublist.map _).sum_le_sum (by simp)
  obtain ⟨hversions, hbytes⟩ := h
  have hoverflow : (if 0 < policy.maxVersions then ((vs.filter p).length - policy.maxVersions : ℤ)
      else 0).toNat = 0 := by
    split <;> omega
  have hheavy : (if 0 < policy.maxBytes then
      overBytes policy.maxBytes (total (vs.filter p)) (vs.filter p) else []) = [] := by
    split
    · unfold overBytes
      split
      · rfl
      · apply if_pos
        have hnonneg := total_nonneg (vs.filter p)
        unfold Int.bmod
        dsimp only
        split <;> omega
    · rfl
  simp only [RetentionPolicy.judge, hoverflow, drop_zero, hheavy, take_zero, map_nil, nil_append,
    length_nil, mem_map] at hd
  obtain ⟨v, -, rfl⟩ := hd
  rfl

variable {removeAll : RetainedVersion → Bool} {all : List RetainedVersion} {active : String}
  {now : ℤ} (hd : d ∈ (pruneVersions removeAll all active policy now).1)
  (hdeletes : d.2.deletes = true)

include hd hdeletes

theorem mem_judge_of_deletes :
    d ∈ policy.judge ((others active (byAge all)).filter fun v => !policy.quarantines now v) := by
  unfold pruneVersions at hd
  split_ifs at hd
  iterate 3 cases hd
  rcases mem_append.mp hd with hkept | hjudged
  · obtain ⟨v, -, hv⟩ := mem_filterMap.mp hkept
    split_ifs at hv <;> cases hv <;> cases hdeletes
  · exact (takeWhile_sublist _).mem hjudged

theorem deletes_spec : d.1 ∈ all ∧ d.1.name ≠ active ∧
    (0 < policy.quarantineWindow → policy.quarantineWindow ≤ now - d.1.modTime) := by
  have hcandidate := mem_of_mem_judge (mem_judge_of_deletes hd hdeletes)
  simp only [others, mem_filter, decide_eq_true_eq, RetentionPolicy.quarantines,
    Bool.not_eq_true', decide_eq_false_iff_not, not_and] at hcandidate
  exact ⟨mem_byAge.mp hcandidate.1.1, hcandidate.1.2,
    fun hpos => Int.not_lt.mp (hcandidate.2 hpos)⟩

end Decisions

namespace Installation

variable (s : Installation) (name : String)

def OnDisk : Prop := ∃ v ∈ s.versions, v.name = name

/-- The version is the current one, or the previous one since less than the window. -/
def Protects (policy : RetentionPolicy) : Prop :=
  s.state.current = name ∨
    s.state.previous = name ∧ s.now - s.supersededAt < policy.quarantineWindow

/-- Its directory has changed since the version was superseded, or nothing has to go. -/
def Spares (policy : RetentionPolicy) (all : List RetainedVersion) : Prop :=
  (∀ v ∈ s.versions, v.name = name → s.supersededAt ≤ v.modTime) ∨
    policy.Fits (others s.state.current all)

variable {s name} {policy : RetentionPolicy} {s' : Installation} {a : Action}

theorem OnDisk.step (hwindow : 0 < policy.quarantineWindow) (h : s.OnDisk name)
    (hprotected : a.found.isSome → s.Protects name policy)
    (hspared : ∀ all ∈ a.found, s.state.current ≠ name → s.Spares name policy all)
    (hs : (launcher policy).step s a = some s') : s'.OnDisk name := by
  obtain ⟨v, hv, rfl⟩ := h
  cases a with
  | pass d =>
    cases hs
    exact ⟨v, hv, rfl⟩
  | touch w =>
    cases hs
    refine ⟨_, mem_map_of_mem hv, ?_⟩
    split
    · next heq => exact heq.symm
    · rfl
  | upgrade w =>
    simp only [launcher] at hs
    split at hs <;> cases hs
    · exact ⟨v, hv, rfl⟩
    by_cases hname : v.name = w.name
    · exact ⟨w, mem_cons_self, hname.symm⟩
    · exact ⟨v, mem_cons_of_mem _ (mem_filter.mpr ⟨hv, by simpa using hname⟩), rfl⟩
  | rollback =>
    simp only [launcher] at hs
    split at hs <;> cases hs <;> exact ⟨v, hv, rfl⟩
  | healthy all removeAll exeHash =>
    simp only [launcher] at hs
    split at hs <;> cases hs
    next hall =>
    refine ⟨v, mem_filter.mpr ⟨hv, ?_⟩, rfl⟩
    simp only [Bool.not_eq_true', any_eq_false, Bool.and_eq_true, decide_eq_true_eq, not_and]
    intro d hd hdeletes hname
    obtain ⟨hmem, hactive, hold⟩ := deletes_spec hd hdeletes
    rw [hname] at hactive
    rcases hspared all rfl hactive.symm with hstamped | hfits
    · obtain ⟨-, hrecent⟩ := (hprotected rfl).resolve_left hactive.symm
      have hstamp := hstamped d.1 (hall.1 hmem) hname
      have hage := hold hwindow
      omega
    · rw [← show byAge all = all from hall.2.2.insertionSort_eq] at hfits
      rw [judge_of_fits hfits (mem_judge_of_deletes hd hdeletes)] at hdeletes
      cases hdeletes

end Installation

/-- A version that at every pruning is the current one, or the previous one since less than the
window, stays on disk, if its directory has changed since it was superseded or if the directories
other than the current one are within the limits. -/
theorem protected_version_kept {policy : RetentionPolicy} {s s' : Installation} {as : List Action}
    {name : String} (hwindow : 0 < policy.quarantineWindow)
    (hprotected : (launcher policy).Guarded
      (fun s a => a.found.isSome → s.Protects name policy) s as)
    (hspared : (launcher policy).Guarded (fun s a => ∀ all ∈ a.found,
      s.state.current ≠ name → s.Spares name policy all) s as)
    (hrun : (launcher policy).run s as = some s') (hdisk : s.OnDisk name) : s'.OnDisk name := by
  induction as generalizing s with
  | nil =>
    cases hrun
    exact hdisk
  | cons a as ih =>
    obtain ⟨s₁, hstep, hrun⟩ := (launcher policy).run_cons_iff.mp hrun
    exact ih (hprotected.2 s₁ hstep) (hspared.2 s₁ hstep) hrun
      (hdisk.step hwindow hprotected.1 hspared.1 hstep)

def upgraded : Installation :=
  ⟨[⟨"1", 200, 10000⟩, ⟨"2", 200, 10000⟩], { current := "2", previous := "1" }, 10060, 10000⟩

theorem protected_version_kept_stamped : ∃ s', (launcher ⟨3600, 3, 100⟩).run upgraded
    [.healthy upgraded.versions (fun _ => true) none] = some s' ∧ s'.OnDisk "1" :=
  ⟨_, rfl, @protected_version_kept ⟨3600, 3, 100⟩ upgraded _
    [.healthy upgraded.versions (fun _ => true) none] "1" (by decide)
    ⟨fun _ => .inr ⟨rfl, by decide⟩, fun _ _ => trivial⟩
    ⟨fun _ _ _ => .inl (by simp [upgraded]), fun _ _ => trivial⟩ rfl
    ⟨_, mem_cons_self, rfl⟩⟩

/-- Version 1 has run for long and is larger than the limit: the first healthy run of the upgrade
deletes it a minute after it was superseded. -/
theorem rollback_target_deleted :
    ∃ s', (launcher ⟨3600, 3, 100⟩).run ⟨[⟨"1", 200, 0⟩], { current := "1" }, 10000, 0⟩
      [.upgrade ⟨"2", 200, 10000⟩, .pass 60,
        .healthy [⟨"1", 200, 0⟩, ⟨"2", 200, 10000⟩] (fun _ => true) none] = some s' ∧
      s'.state.previous = "1" ∧ s'.now - s'.supersededAt < 3600 ∧ ¬ s'.OnDisk "1" :=
  ⟨_, rfl, rfl, by decide, by unfold Installation.OnDisk; decide⟩

theorem overBytes_spec {limit : ℤ} (hlimit : 0 ≤ limit) {vs : List RetainedVersion}
    (hsize : total vs < 2 ^ 63) :
    overBytes limit (total vs) vs <+: vs ∧
      total (vs.drop (overBytes limit (total vs) vs).length) ≤ limit ∧
      ∀ i < (overBytes limit (total vs) vs).length, limit < total (vs.drop i) := by
  induction vs with
  | nil => simpa [overBytes, total] using hlimit
  | cons v vs ih =>
    have hnonneg := total_nonneg (v :: vs)
    have hrest : total (v :: vs) - v.size = total vs := by simp [total]
    obtain ⟨hpre, hfits, hover⟩ := ih (by omega)
    unfold overBytes
    rw [Int.bmod_eq_of_le (by omega) (by omega), hrest]
    split
    · next hle => exact ⟨ nil_prefix, hle, by simp⟩
    · next hgt =>
      refine ⟨(prefix_cons_inj v).mpr hpre, hfits, fun i hi => ?_⟩
      cases i with
      | zero => exact not_le.mp hgt
      | succ i => exact hover i (Nat.lt_of_succ_lt_succ hi)

namespace RetentionPolicy

variable (policy : RetentionPolicy)

def candidates (activeVersion : String) (now : ℤ) (all : List RetainedVersion) :
    List RetainedVersion :=
  (others activeVersion all).filter fun v => !policy.quarantines now v

/-- The limits that pruning accepts. -/
def Accepted : Prop := 0 ≤ policy.quarantineWindow ∧ 0 ≤ policy.maxVersions ∧ 0 ≤ policy.maxBytes

/-- The shortest prefix of the candidates without which they are within the limits. -/
structure Shortest (candidates pruned : List RetainedVersion) : Prop where
  isPrefix : pruned <+: candidates
  fits : policy.Fits (candidates.drop pruned.length)
  shortest : ∀ i < pruned.length, ¬ policy.Fits (candidates.drop i)

end RetentionPolicy

def deleted (decisions : List PruneDecision) : List RetainedVersion :=
  (decisions.filter (·.2.deletes)).map (·.1)

/-- Each pass only goes on while its own limit is exceeded. -/
theorem exists_judge {policy : RetentionPolicy} (hversions : 0 ≤ policy.maxVersions)
    (hbytes : 0 ≤ policy.maxBytes) {vs : List RetainedVersion} (hsize : total vs < 2 ^ 63) :
    ∃ excess under, policy.judge vs = excess ++ under ∧ (∀ d ∈ excess, d.2.deletes = true) ∧
      (∀ d ∈ under, d.2.deletes = false) ∧ policy.Shortest vs (excess.map (·.1)) := by
  unfold RetentionPolicy.judge
  set overflow := (if 0 < policy.maxVersions then (vs.length - policy.maxVersions : ℤ) else 0).toNat
    with hoverflow
  set rest := vs.drop overflow with hrest
  set heavy := if 0 < policy.maxBytes then overBytes policy.maxBytes (total rest) rest else []
    with hheavy
  have hlength : overflow ≤ vs.length := by split at hoverflow <;> omega
  obtain ⟨hpre, hfits, hover⟩ : heavy <+: rest ∧ (policy.maxBytes = 0 ∨
      total (rest.drop heavy.length) ≤ policy.maxBytes) ∧
      ∀ i < heavy.length, policy.maxBytes ≠ 0 ∧ policy.maxBytes < total (rest.drop i) := by
    have hle : total rest ≤ total vs := ((drop_sublist _ _).map _).sum_le_sum (by simp)
    obtain ⟨hpre, hfits, hover⟩ := overBytes_spec hbytes (hle.trans_lt hsize)
    split at hheavy
    · rw [hheavy]
      exact ⟨hpre, .inr hfits, fun i hi => ⟨by omega, hover i hi⟩⟩
    · rw [hheavy]
      exact ⟨ nil_prefix, .inl (by omega), by simp⟩
  refine ⟨_, _, rfl, ?_, ?_, ?_⟩
  · simp only [mem_append, mem_map]
    rintro _ (⟨v, -, rfl⟩ | ⟨v, -, rfl⟩) <;> rfl
  · simp only [mem_map]
    rintro _ ⟨v, -, rfl⟩
    rfl
  simp only [map_append, map_map, Function.comp_def, map_id']
  have hcount : (vs.take overflow ++ heavy).length = overflow + heavy.length := by simp [hlength]
  constructor
  · have happend := (prefix_append_right_inj (vs.take overflow)).mpr hpre
    rwa [hrest, take_append_drop] at happend
  · rw [hcount, ← drop_drop]
    refine ⟨?_, hfits⟩
    simp only [length_drop]
    split at hoverflow <;> omega
  · rintro i hi ⟨hfew, hlight⟩
    rw [hcount] at hi
    rw [length_drop] at hfew
    rcases lt_or_ge i overflow with hshort | hlong
    · split at hoverflow <;> omega
    · have hgt := hover (i - overflow) (by omega)
      rw [hrest, drop_drop, Nat.add_sub_cancel' hlong] at hgt
      omega

theorem deleted_takeWhile {excess under : List PruneDecision} (removeAll : RetainedVersion → Bool)
    (hover : ∀ d ∈ excess, d.2.deletes = true) (hunder : ∀ d ∈ under, d.2.deletes = false) :
    deleted ((excess ++ under).takeWhile fun d => !d.2.deletes || removeAll d.1) =
      (excess.map (·.1)).takeWhile removeAll := by
  induction excess with
  | nil =>
    have hnone : ∀ ds, (∀ d ∈ ds, d ∈ under) → deleted ds = [] := fun ds hds => by
      simpa [deleted] using fun d hd => hunder d (hds d hd)
    exact hnone _ fun d hd => (takeWhile_sublist _).mem hd
  | cons d excess ih =>
    rw [forall_mem_cons] at hover
    simp only [cons_append, takeWhile_cons, hover.1, Bool.not_true, Bool.false_or, map_cons]
    split
    · simp [← ih hover.2, deleted, hover.1]
    · rfl

theorem deleted_pruneVersions {policy : RetentionPolicy} (hpolicy : policy.Accepted)
    (removeAll : RetainedVersion → Bool) (entries : List RetainedVersion) (active : String) (now : ℤ) :
    deleted (pruneVersions removeAll entries active policy now).1 =
      deleted ((policy.judge (policy.candidates active now (byAge entries))).takeWhile
        fun d => !d.2.deletes || removeAll d.1) := by
  obtain ⟨hwindow, hversions, hbytes⟩ := hpolicy
  unfold pruneVersions
  rw [if_neg (by omega), if_neg (by omega), if_neg (by omega)]
  change deleted (_ ++ takeWhile _ (policy.judge (policy.candidates active now (byAge entries)))) = _
  have hnone : filter (fun d : PruneDecision => d.2.deletes) ((byAge entries).filterMap fun v =>
      if v.name = active then some (v, Reason.activeVersion)
      else if policy.quarantines now v then
        some (v, .quarantine (now - v.modTime) policy.quarantineWindow)
      else none) = [] := by
    rw [filter_eq_nil_iff]
    intro d hd
    obtain ⟨v, -, hv⟩ := mem_filterMap.mp hd
    split_ifs at hv <;> cases hv <;> exact Bool.false_ne_true
  rw [deleted, filter_append, map_append, hnone]
  rfl

theorem byAge_pairwise {entries : List RetainedVersion}
    (hdistinct : (entries.map (·.modTime)).Nodup) :
    (byAge entries).Pairwise (·.modTime < ·.modTime) := by
  have : Std.Total fun v w : RetainedVersion => v.modTime ≤ w.modTime :=
    ⟨fun v w => le_total v.modTime w.modTime⟩
  have : IsTrans RetainedVersion fun v w => v.modTime ≤ w.modTime := ⟨fun _ _ _ => le_trans⟩
  have hperm : (byAge entries).Perm entries := perm_insertionSort _ _
  have hne := pairwise_map.mp ((hperm.map _).nodup_iff.mpr hdistinct)
  exact ((pairwise_insertionSort _ entries).and hne).imp fun h => lt_of_le_of_ne h.1 h.2

/-- The deleted versions are the shortest prefix of the candidates, from the oldest, that brings the
others within the limits, up to the first one whose removal fails. A policy with a negative limit
deletes none. -/
theorem pruneVersions_minimal {policy : RetentionPolicy} {entries : List RetainedVersion}
    {active : String} {now : ℤ} (hsize : total (policy.candidates active now (byAge entries)) < 2 ^ 63)
    (hdistinct : (entries.map (·.modTime)).Nodup) (removeAll : RetainedVersion → Bool) :
    (policy.Accepted → ∃ pruned,
      policy.Shortest (policy.candidates active now (byAge entries)) pruned ∧
        (∀ v ∈ pruned, ∀ w ∈ policy.candidates active now entries, w ∉ pruned →
          v.modTime < w.modTime) ∧
        deleted (pruneVersions removeAll entries active policy now).1 = pruned.takeWhile removeAll) ∧
      (¬ policy.Accepted → deleted (pruneVersions removeAll entries active policy now).1 = []) := by
  constructor
  · intro hpolicy
    obtain ⟨excess, under, hjudge, hover, hunder, hshortest⟩ :=
      exists_judge hpolicy.2.1 hpolicy.2.2 hsize
    refine ⟨_, hshortest, fun v hv w hw hkept => ?_, ?_⟩
    · obtain ⟨rest, happend⟩ := hshortest.isPrefix
      have hcandidates : (policy.candidates active now (byAge entries)).Pairwise
          (·.modTime < ·.modTime) :=
        (byAge_pairwise hdistinct).sublist (filter_sublist.trans filter_sublist)
      have hw' : w ∈ policy.candidates active now (byAge entries) := by
        simpa only [RetentionPolicy.candidates, others, mem_filter, mem_byAge] using hw
      rw [← happend] at hcandidates hw'
      exact (pairwise_append.mp hcandidates).2.2 v hv w ((mem_append.mp hw').resolve_left hkept)
    · rw [deleted_pruneVersions hpolicy, hjudge, deleted_takeWhile removeAll hover hunder]
  · intro hrefused
    unfold pruneVersions
    split_ifs with hwindow hversions hbytes
    iterate 3 rfl
    exact absurd ⟨not_lt.mp hwindow, not_lt.mp hversions, not_lt.mp hbytes⟩ hrefused

/-- Six directories in the order of their names. Two go for the number and one for the size. -/
def six : List RetainedVersion :=
  [⟨"1.1", 100, 50⟩, ⟨"1.2", 100, 10⟩, ⟨"1.3", 100, 40⟩, ⟨"1.4", 100, 20⟩, ⟨"1.5", 100, 30⟩,
    ⟨"2.0", 900, 60⟩]

theorem pruneVersions_minimal_six :
    RetentionPolicy.Shortest ⟨5, 3, 250⟩ (RetentionPolicy.candidates ⟨5, 3, 250⟩ "2.0" 70 (byAge six))
      [⟨"1.2", 100, 10⟩, ⟨"1.4", 100, 20⟩, ⟨"1.5", 100, 30⟩] := by
  obtain ⟨pruned, hshortest, -, hdeleted⟩ := (@pruneVersions_minimal ⟨5, 3, 250⟩ six "2.0" 70
    (by decide) (by decide) fun _ => true).1 (by unfold RetentionPolicy.Accepted; decide)
  rw [takeWhile_eq_self_iff.mpr fun _ _ => rfl] at hdeleted
  obtain rfl : [⟨"1.2", 100, 10⟩, ⟨"1.4", 100, 20⟩, ⟨"1.5", 100, 30⟩] = pruned :=
    .trans (by decide +kernel) hdeleted
  exact hshortest

/-- Nothing is deleted under a policy that is refused, nor if the total of the sizes overflows. -/
theorem pruneVersions_exceeds :
    (¬ RetentionPolicy.Shortest ⟨0, -1, 100⟩ [⟨"1", 200, 0⟩] (deleted
      (pruneVersions (fun _ => true) [⟨"1", 200, 0⟩] "2" ⟨0, -1, 100⟩ 0).1)) ∧
    ¬ RetentionPolicy.Shortest ⟨0, 0, 1⟩ [⟨"1", 2 ^ 62, 0⟩, ⟨"2", 2 ^ 62, 1⟩] (deleted
      (pruneVersions (fun _ => true) [⟨"1", 2 ^ 62, 0⟩, ⟨"2", 2 ^ 62, 1⟩] "3" ⟨0, 0, 1⟩ 2).1) :=
  ⟨fun h => absurd h.fits (by unfold RetentionPolicy.Fits; decide),
    fun h => absurd h.fits (by unfold RetentionPolicy.Fits; decide)⟩

end Cfgms.Launcher
