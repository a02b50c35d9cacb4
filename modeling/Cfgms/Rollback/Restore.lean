import Cfgms.Go.Map
import Mathlib.Data.List.Sort

/-! # What a configuration rollback restores

A rollback branches off an earlier commit, copies each changed file on that branch and merges the
branch into main. Each read and each write pulls first, which forwards the checked-out branch to
main. A file is copied only if the branch moves between its read and its write, so that a rollback
applies at most one change. The comparison names no path for a deleted file.
-/

namespace Cfgms.Rollback

open List Go

abbrev Tree := StringMap String

inductive Action where
  | added
  | deleted
  | renamed
  | modified
  deriving DecidableEq

structure FileChange where
  path : String
  oldPath : String
  action : Action
  deriving DecidableEq

/-- `LocalRepositoryStore.GetDiff`: the path is that of the newer file, empty when there is none.
A renamed file is one change, which stands under its new path. -/
def fileChange (renames : List (String × String)) (older newer : Tree) (p : String) :
    Option FileChange :=
  match older.get p, newer.get p with
  | none, _ =>
    match renames.find? fun r => r.2 = p with
    | some r => some ⟨p, r.1, .renamed⟩
    | none => some ⟨p, "", .added⟩
  | some _, none => if p ∈ renames.map Prod.fst then none else some ⟨"", p, .deleted⟩
  | some _, some _ => some ⟨p, p, .modified⟩

def changedPaths (older newer : Tree) : List String :=
  (older.keys ++ newer.keys.filter fun p => p ∉ older.keys).filter fun p => older.get p ≠ newer.get p

/-- A file that was deleted and one that was added. -/
def Pairs (older newer : Tree) (r : String × String) : Prop :=
  (older.get r.1).isSome ∧ newer.get r.1 = none ∧ older.get r.2 = none ∧ (newer.get r.2).isSome

instance (older newer : Tree) : DecidablePred (Pairs older newer) :=
  fun _ => inferInstanceAs (Decidable (_ ∧ _))

/-- `detect` lists the renames that are found, from the old path to the new one. -/
def getDiff (rank : String → ℕ) (detect : Tree → Tree → List (String × String))
    (older newer : Tree) : List FileChange :=
  ((changedPaths older newer).insertionSort fun p p' => rank p ≤ rank p').filterMap
    (fileChange ((detect older newer).filter (Pairs older newer)) older newer)

inductive RollbackType where
  | full
  | partly (configurations : List String)
  | module (modules : List String)
  | emergency

structure RollbackRequest where
  type : RollbackType
  force : Bool

def extractModuleFromPath (path : String) : String :=
  match path.toList.splitOn '/' with
  | root :: module :: _ => if String.ofList root = "modules" then String.ofList module else ""
  | _ => ""

def RollbackType.selects : RollbackType → String → Bool
  | .full, _ | .emergency, _ => true
  | .partly configurations, p => p ∈ configurations
  | .module modules, p => extractModuleFromPath p ∈ modules

def filterChanges (diffs : List FileChange) (type : RollbackType) : List String :=
  (diffs.filter fun d => type.selects d.path).map FileChange.path

inductive ApplyError where
  | branchNotFound
  | notFound
  | hook
  | noChanges
  | push

/-- A state of the rollback branch, and whether it has been forwarded to main. -/
structure Version where
  tree : Tree
  onMain : Bool

/-- The rollback branch in the clone, once it is checked out there, and in the remote. -/
structure Branch where
  clone : Option Version
  remote : Version

/-- `ensureRepository` for a clone that is there. Pulling forwards the checked-out branch to main,
which succeeds while the branch has no commit of its own. A pull that fails is only logged. -/
def ensureRepository (main : Tree) (fetched : Bool) (branch : Branch) : Branch :=
  match branch.clone with
  | none => branch
  | some v => if fetched ∧ ¬ v.onMain then { branch with clone := some ⟨main, true⟩ } else branch

/-- The clone has the branch of the remote only after a fetch. -/
def checkoutBranch (fetched : Bool) (branch : Branch) : Except ApplyError Version :=
  match branch.clone with
  | some v => .ok v
  | none => if fetched then .ok branch.remote else .error .branchNotFound

/-- How the calls for one change end: whether the pull before the read and the one before the write
reach the remote, whether the hooks pass, and whether the commit can be pushed. -/
structure Answers where
  readFetched : Bool
  writeFetched : Bool
  hooks : Bool
  pushed : Bool

/-- The branch is checked out, so that the commit of the reference is not looked at. -/
def getConfiguration (main : Tree) (a : Answers) (branch : Branch) (path : String) :
    Branch × Except ApplyError String :=
  let branch := ensureRepository main a.readFetched branch
  match checkoutBranch a.readFetched branch with
  | .error e => (branch, .error e)
  | .ok v =>
    match v.tree.get path with
    | none => ({ branch with clone := some v }, .error .notFound)
    | some content => ({ branch with clone := some v }, .ok content)

/-- A clean work tree is not committed. -/
def saveConfiguration (main : Tree) (a : Answers) (branch : Branch) (path content : String) :
    Branch × Except ApplyError Unit :=
  let branch := ensureRepository main a.writeFetched branch
  match checkoutBranch a.writeFetched branch with
  | .error e => (branch, .error e)
  | .ok v =>
    if ¬ a.hooks then ({ branch with clone := some v }, .error .hook)
    else if v.tree.get path = some content then ({ branch with clone := some v }, .error .noChanges)
    else
      let v := { v with tree := v.tree.set (path, content) }
      if a.pushed then (⟨some v, v⟩, .ok ()) else ({ branch with clone := some v }, .error .push)

def applyChange (main : Tree) (a : Answers) (branch : Branch) (path : String) :
    Branch × Except ApplyError Unit :=
  match getConfiguration main a branch path with
  | (branch, .error e) => (branch, .error e)
  | (branch, .ok content) => saveConfiguration main a branch path content

/-- The loop over the changes, numbered from `i`. Unless the rollback is forced, the first failure
ends it. -/
def applyChanges (main : Tree) (answers : ℕ → Answers) (force : Bool) (i : ℕ) (branch : Branch) :
    List String → Except (String × ApplyError) (Branch × List (String × ApplyError))
  | [] => .ok (branch, [])
  | p :: ps =>
    match applyChange main (answers i) branch p with
    | (branch, .ok ()) => applyChanges main answers force (i + 1) branch ps
    | (branch, .error e) =>
      if force then
        (applyChanges main answers force (i + 1) branch ps).map fun r => (r.1, (p, e) :: r.2)
      else .error (p, e)

/-- A three-way merge of one file. `mergeText` merges texts that differ on both sides. -/
def mergeFile (mergeText : String → String → String → Option String)
    (base ours theirs : Option String) : Option (Option String) :=
  if theirs = base then some ours
  else if ours = base then some theirs
  else if ours = theirs then some ours
  else
    match base, ours, theirs with
    | some b, some o, some t => (mergeText b o t).map some
    | _, _, _ => none

def mergeBranch (mergeText : String → String → String → Option String) (base main branch : Tree) :
    Option (String → Option String) :=
  let merged p := mergeFile mergeText (base.get p) (main.get p) (branch.get p)
  if (base.keys ++ main.keys ++ branch.keys).all fun p => (merged p).isSome then
    some fun p => (merged p).join
  else none

/-- What the environment decides: whether the request is valid, whether the provider creates and
merges the branch, how the calls for each change end, the order and the renames of a difference,
and how texts are merged. -/
structure Env where
  passed : Bool
  created : Bool
  merged : Bool
  answers : ℕ → Answers
  rank : String → ℕ
  detect : Tree → Tree → List (String × String)
  mergeText : String → String → String → Option String

inductive Failure where
  | validation
  | createBranch
  | apply (path : String) (cause : ApplyError)
  | merge

inductive Outcome where
  | failed (cause : Failure)
  | completed (failures : List (String × ApplyError))

def Outcome.succeeded : Outcome → Bool
  | .failed _ => false
  | .completed failures => failures.isEmpty

/-- The commits of a rollback: the one rolled back to, the one that the clone has checked out
when the changes are previewed, and the head of main. -/
structure Commits where
  target : Tree
  head : Tree
  main : Tree

def previewChanges (env : Env) (c : Commits) (request : RollbackRequest) : List String :=
  filterChanges (getDiff env.rank env.detect c.target c.head) request.type

def Commits.branch (c : Commits) : Branch := ⟨none, ⟨c.target, false⟩⟩

/-- The commit at which a state of the rollback branch left main. -/
def Commits.mergeBase (c : Commits) (v : Version) : Tree := if v.onMain then c.main else c.target

/-- `executeRollbackAsync`: how it ends, and main. -/
def executeRollback (env : Env) (c : Commits) (request : RollbackRequest) :
    Outcome × (String → Option String) :=
  if ¬ env.passed ∧ ¬ request.force then (.failed .validation, c.main.get)
  else if ¬ env.created then (.failed .createBranch, c.main.get)
  else
    match applyChanges c.main env.answers request.force 0 c.branch
      (previewChanges env c request) with
    | .error (p, e) => (.failed (.apply p e), c.main.get)
    | .ok (branch, failures) =>
      match env.merged, mergeBranch env.mergeText (c.mergeBase branch.remote) c.main
        branch.remote.tree with
      | true, some main => (.completed failures, main)
      | _, _ => (.failed .merge, c.main.get)

/-- The selected paths are as they were, and the others as they are. -/
def Restored (c : Commits) (type : RollbackType) (main : String → Option String) : Prop :=
  ∀ p, main p = if type.selects p then c.target.get p else c.main.get p

def Unmodified (c : Commits) : Prop :=
  ∀ p, c.target.get p ≠ c.main.get p → c.target.get p = none ∨ c.main.get p = none

/-- A success restores what was asked for, and a full rollback does not fail for a change where
files were only added and deleted. -/
def Correct (env : Env) (c : Commits) (request : RollbackRequest) : Prop :=
  ((executeRollback env c request).1.succeeded →
    Restored c request.type (executeRollback env c request).2) ∧
  (request.type = .full → Unmodified c →
    ∀ p e, (executeRollback env c request).1 ≠ .failed (.apply p e))

def Starts (env : Env) (request : RollbackRequest) : Prop :=
  (env.passed ∨ request.force) ∧ env.created

/-- What a change needs to be applied: both pulls, the hooks and the push go through, and the file
is at the target and another in main. -/
def Applies (env : Env) (c : Commits) (p : String) : Prop :=
  (env.answers 0 = ⟨true, true, true, true⟩) ∧ c.target.get p ≠ none ∧
    c.target.get p ≠ c.main.get p

/-- There is no change, or a single one that is applied. -/
def Settles (env : Env) (c : Commits) : List String → Prop
  | [] => True
  | [p] => Applies env c p
  | _ => False

section Changes

variable {main : Tree} {a : Answers} {answers : ℕ → Answers} {branch : Branch} {v : Version}

/-- On a branch that is on main a file is written back as it was read. -/
theorem applyChange_onMain (hclone : branch.clone = some v) (hmain : v.onMain) (p : String) :
    ∃ e, applyChange main a branch p = (branch, .error e) := by
  have hensure : ∀ fetched, ensureRepository main fetched branch = branch := by
    simp [ensureRepository, hclone, hmain]
  have hcheckout : ∀ fetched, checkoutBranch fetched branch = .ok v := by
    simp [checkoutBranch, hclone]
  have hbranch : { branch with clone := some v } = branch := by rw [← hclone]
  cases hfile : v.tree.get p with
  | none =>
    exact ⟨.notFound, by
      simp [applyChange, getConfiguration, hensure, hcheckout, hfile, hbranch]⟩
  | some content =>
    cases hhooks : a.hooks with
    | false =>
      exact ⟨.hook, by
        simp [applyChange, getConfiguration, saveConfiguration, hensure, hcheckout, hfile, hbranch,
          hhooks]⟩
    | true =>
      exact ⟨.noChanges, by
        simp [applyChange, getConfiguration, saveConfiguration, hensure, hcheckout, hfile, hbranch,
          hhooks]⟩

theorem applyChanges_forced (i : ℕ) (branch : Branch) (ps : List String) :
    ∃ r, applyChanges main answers true i branch ps = .ok r := by
  induction ps generalizing i branch with
  | nil => exact ⟨_, rfl⟩
  | cons p ps ih =>
    rw [applyChanges]
    split
    · exact ih _ _
    · next branch' e _ =>
      obtain ⟨r, hr⟩ := ih (i + 1) branch'
      exact ⟨_, by rw [if_pos rfl, hr]; rfl⟩

/-- A change that fails fails an operation that is not forced, and is listed by one that is. -/
theorem applyChanges_error {force : Bool} {i : ℕ} {p : String} {branch' : Branch} {e : ApplyError}
    (h : applyChange main (answers i) branch p = (branch', .error e)) (ps : List String) :
    (force = false ∧ applyChanges main answers force i branch (p :: ps) = .error (p, e)) ∨
    (force = true ∧ ∃ branch'' failures, failures ≠ [] ∧
      applyChanges main answers force i branch (p :: ps) = .ok (branch'', failures)) := by
  cases force with
  | false => exact .inl ⟨rfl, by simp [applyChanges, h]⟩
  | true =>
    obtain ⟨r, hr⟩ : ∃ r, applyChanges main answers true (i + 1) branch' ps = .ok r :=
      applyChanges_forced _ _ _
    exact .inr ⟨rfl, r.1, (p, e) :: r.2, by simp, by simp [applyChanges, h, hr, Except.map]⟩

end Changes

variable {env : Env} {c : Commits} {request : RollbackRequest} {p : String} {ps : List String}

/-- The first change is read at the target and written on main. -/
theorem applyChange_applies (h : Applies env c p) :
    ∃ content v, c.target.get p = some content ∧ v = ⟨c.main.set (p, content), true⟩ ∧
      applyChange c.main (env.answers 0) c.branch p = (⟨some v, v⟩, .ok ()) := by
  obtain ⟨hanswers, htarget, hmain⟩ := h
  obtain ⟨content, hcontent⟩ := Option.ne_none_iff_exists'.mp htarget
  rw [hcontent] at hmain
  refine ⟨content, _, hcontent, rfl, ?_⟩
  simp [applyChange, getConfiguration, saveConfiguration, ensureRepository, checkoutBranch,
    Commits.branch, hanswers, hcontent, hmain.symm]

theorem applyChange_not_applies (h : ¬ Applies env c p) :
    ∃ branch e, applyChange c.main (env.answers 0) c.branch p = (branch, .error e) := by
  unfold Applies at h
  unfold applyChange getConfiguration saveConfiguration ensureRepository checkoutBranch
    Commits.branch
  generalize env.answers 0 = a at h ⊢
  obtain ⟨readFetched, writeFetched, hooks, pushed⟩ := a
  cases hcontent : c.target.get p with
  | none => cases readFetched <;> simp [hcontent]
  | some content =>
    by_cases hmain : c.main.get p = some content
    · cases readFetched <;> cases writeFetched <;> cases hooks <;> simp [hcontent, hmain]
    · have hanswers : ¬ (readFetched ∧ writeFetched ∧ hooks ∧ pushed) := by
        simpa [hcontent, Ne.symm hmain] using h
      cases readFetched <;> cases writeFetched <;> cases hooks <;> cases pushed <;>
        simp [hcontent, hmain] at hanswers ⊢

theorem mergeBranch_base (mergeText : String → String → String → Option String)
    (base main : Tree) : mergeBranch mergeText base main base = some main.get := by
  simp [mergeBranch, mergeFile]

theorem mergeBranch_main (mergeText : String → String → String → Option String)
    (main branch : Tree) : mergeBranch mergeText main main branch = some branch.get := by
  have hmerge : ∀ q, mergeFile mergeText (main.get q) (main.get q) (branch.get q) =
      some (branch.get q) := by
    intro q
    unfold mergeFile
    split
    · next h => rw [h]
    · rw [if_pos rfl]
  simp [mergeBranch, hmerge]

/-- The branch is merged as main with the files of the changes as they were. -/
theorem applyChanges_settles (h : Settles env c ps) (force : Bool) :
    ∃ branch, applyChanges c.main env.answers force 0 c.branch ps = .ok (branch, []) ∧
      mergeBranch env.mergeText (c.mergeBase branch.remote) c.main branch.remote.tree =
        some fun q => if q ∈ ps then c.target.get q else c.main.get q := by
  match ps, h with
  | [], _ =>
    have hmerge := mergeBranch_base env.mergeText c.target c.main
    exact ⟨c.branch, rfl, by simpa [Commits.mergeBase, Commits.branch] using hmerge⟩
  | [p], happlies =>
    obtain ⟨content, v, hcontent, rfl, happly⟩ := applyChange_applies happlies
    refine ⟨_, by rw [applyChanges, happly]; rfl, ?_⟩
    simp only [Commits.mergeBase, if_true, mergeBranch_main, Option.some.injEq, mem_singleton]
    funext q
    rw [StringMap.get_set]
    by_cases hq : q = p
    · simp [hq, hcontent]
    · simp [hq, Ne.symm hq]

/-- A change that is not the first finds the branch on main. -/
theorem applyChanges_not_settles (h : ¬ Settles env c ps) (force : Bool) :
    (force = false ∧
      ∃ p e, applyChanges c.main env.answers force 0 c.branch ps = .error (p, e)) ∨
    (force = true ∧ ∃ branch failures, failures ≠ [] ∧
      applyChanges c.main env.answers force 0 c.branch ps = .ok (branch, failures)) := by
  match ps with
  | [] => exact absurd trivial h
  | p :: ps =>
    by_cases happlies : Applies env c p
    · obtain ⟨content, v, -, hv, happly⟩ := applyChange_applies happlies
      match ps with
      | [] => exact absurd happlies h
      | q :: qs =>
        have hmain : v.onMain = true := by rw [hv]
        obtain ⟨e, he⟩ : ∃ e, applyChange c.main (env.answers 1) ⟨some v, v⟩ q =
            (⟨some v, v⟩, .error e) := applyChange_onMain rfl hmain q
        have hfirst : applyChanges c.main env.answers force 0 c.branch (p :: q :: qs) =
            applyChanges c.main env.answers force 1 ⟨some v, v⟩ (q :: qs) := by
          rw [applyChanges, happly]
        rw [hfirst]
        exact (applyChanges_error he qs).imp_left fun h => ⟨h.1, q, e, h.2⟩
    · obtain ⟨branch, e, he⟩ := applyChange_not_applies happlies
      exact (applyChanges_error he ps).imp_left fun h => ⟨h.1, p, e, h.2⟩

/-- The operation succeeds where the changes settle, and main then has their files as they were.
Otherwise it fails for a change, unless it is forced. -/
theorem executeRollback_cases (env : Env) (c : Commits) (request : RollbackRequest) :
    ((executeRollback env c request).1.succeeded ↔
      Starts env request ∧ env.merged ∧ Settles env c (previewChanges env c request)) ∧
    ((executeRollback env c request).1.succeeded → ∀ p, (executeRollback env c request).2 p =
      if p ∈ previewChanges env c request then c.target.get p else c.main.get p) ∧
    ((∃ p e, (executeRollback env c request).1 = .failed (.apply p e)) ↔
      Starts env request ∧ request.force = false ∧
        ¬ Settles env c (previewChanges env c request)) := by
  unfold executeRollback Starts
  split
  · next hinvalid => simp [Outcome.succeeded, hinvalid]
  split
  · next hvalid hcreated => simp [Outcome.succeeded, hcreated]
  next hvalid hcreated =>
  have hvalid : env.passed = true ∨ request.force = true := by
    simpa [or_iff_not_imp_left] using hvalid
  rw [not_not] at hcreated
  by_cases hsettles : Settles env c (previewChanges env c request)
  · obtain ⟨branch, happly, hmerge⟩ := applyChanges_settles hsettles request.force
    cases hmerged : env.merged <;>
      simp [happly, hmerge, Outcome.succeeded, hcreated, hvalid, hsettles]
  · rcases applyChanges_not_settles hsettles request.force with
      ⟨hforce, p, e, happly⟩ | ⟨hforce, branch, failures, hfailures, happly⟩
    · have hpassed : env.passed = true := hvalid.resolve_right (by simp [hforce])
      rw [happly]
      simp [Outcome.succeeded, hcreated, hforce, hpassed, hsettles]
    · rw [happly]
      cases hmerged : env.merged <;>
        cases hmerge : mergeBranch env.mergeText (c.mergeBase branch.remote) c.main
          branch.remote.tree <;>
        simp [hmerge, Outcome.succeeded, hforce, hsettles, hfailures]

theorem selects_of_mem_previewChanges (h : p ∈ previewChanges env c request) :
    request.type.selects p := by
  simp only [previewChanges, filterChanges, mem_map, mem_filter] at h
  obtain ⟨d, ⟨-, hselects⟩, rfl⟩ := h
  exact hselects

def smooth : Env :=
  ⟨true, true, true, fun _ => ⟨true, true, true, true⟩, fun _ => 0, fun _ _ => [],
    fun _ _ _ => none⟩

/-- Two files at the target, of which main has changed one and deleted the other. -/
def oneDeleted : Commits :=
  let main : Tree := StringMap.empty.set ("a.yaml", "2")
  ⟨(StringMap.empty.set ("a.yaml", "1")).set ("b.yaml", "1"), main, main⟩

/-- One file at the target, another in main. -/
def replaced : Commits :=
  let main : Tree := StringMap.empty.set ("b.yaml", "2")
  ⟨StringMap.empty.set ("a.yaml", "1"), main, main⟩

end Cfgms.Rollback
