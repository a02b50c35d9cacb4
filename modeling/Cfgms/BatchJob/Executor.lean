import Cfgms.BatchJob.Quorum
import Mathlib.Data.List.Induction
import Mathlib.Data.List.Sort

/-! # Rolling batch executor

The targets of a job are partitioned and updated batch by batch. When a steward of a batch fails,
the batches completed before it are sent the previous configuration.
-/

namespace Cfgms.BatchJob

open Go List

def dedupeIDs (ids : List String) : List String :=
  ids.foldl (fun out id => if id = "" ∨ id ∈ out then out else out ++ [id]) []

/-- One record per ID; an ID for which none was found gets a bare one. -/
def orderedMeta (ids : List String) (found : List StewardMeta) : List StewardMeta :=
  let byID := found.foldl (fun (m : StringMap StewardMeta) s => m.set (s.id, s)) .empty
  ids.map fun id => (byID.get id).getD ⟨id, .empty⟩

/-- `partitionTargets`, with the fleet's answer to `Lookup` and a flag for the quorum checker. -/
def partitionTargets (quorumCheck : Bool) (lookup : List String → Except String (List StewardMeta))
    (targets : List String) (batchSize : ℤ) : Except String (List (List String)) :=
  match dedupeIDs targets with
  | [] => .ok []
  | id :: ids =>
    if quorumCheck then
      match lookup (id :: ids) with
      | .error err => .error ("executor: fleet lookup: " ++ err)
      | .ok found => .ok (partition (orderedMeta (id :: ids) found) batchSize)
    else .ok (naivePartition (id :: ids) batchSize)

theorem dedupeIDs_spec (ids : List String) :
    (dedupeIDs ids).Nodup ∧ ∀ id, id ∈ dedupeIDs ids ↔ id ∈ ids ∧ id ≠ "" := by
  induction ids using List.reverseRecOn with
  | nil => simp [dedupeIDs]
  | append_singleton ids x ih =>
    obtain ⟨hnodup, hmem⟩ := ih
    have hstep : dedupeIDs (ids ++ [x]) = if x = "" ∨ x ∈ dedupeIDs ids then dedupeIDs ids
        else dedupeIDs ids ++ [x] := foldl_concat ..
    rw [hstep]
    split
    · next hskip =>
      rw [hmem x] at hskip
      exact ⟨hnodup, by grind⟩
    · next hnew =>
      rw [not_or] at hnew
      refine ⟨?_, by grind⟩
      rw [← concat_eq_append, nodup_concat]
      exact ⟨hnew.2, hnodup⟩

theorem orderedMeta_ids (ids : List String) (found : List StewardMeta) :
    (orderedMeta ids found).map (·.id) = ids := by
  unfold orderedMeta
  dsimp only
  generalize hfold : found.foldl (fun (m : StringMap StewardMeta) s => m.set (s.id, s)) .empty = byID
  have hbyID : ∀ id s, byID.get id = some s → s.id = id := by
    rw [← hfold]
    refine found.foldlRecOn (motive := fun m : StringMap StewardMeta =>
      ∀ id s, m.get id = some s → s.id = id) _ ?_ ?_
    · simp [StringMap.get, StringMap.empty]
    · intro m hm s' _ id s hs
      rw [StringMap.get_set] at hs
      split at hs
      · next heq =>
        cases hs
        exact heq
      · exact hm id s hs
  rw [map_map]
  refine (map_congr_left fun id _ => ?_).trans (map_id ids)
  rw [Function.comp_apply]
  cases hget : byID.get id with
  | none => rfl
  | some s => exact hbyID id s hget

theorem partitionTargets_perm {quorumCheck : Bool}
    {lookup : List String → Except String (List StewardMeta)} {targets : List String}
    {batchSize : ℤ} {batches : List (List String)}
    (h : partitionTargets quorumCheck lookup targets batchSize = .ok batches) :
    batches.flatten.Perm (dedupeIDs targets) := by
  revert h
  fun_cases partitionTargets quorumCheck lookup targets batchSize <;> rintro ⟨⟩
  · next hnil =>
    rw [hnil]
    exact .refl _
  · next id ids heq _ found _ =>
    rw [heq]
    have hids := orderedMeta_ids (id :: ids) found
    have hnodup := (dedupeIDs_spec targets).1
    rw [heq, ← hids] at hnodup
    exact (partition_isRollout hnodup batchSize).perm.trans (by rw [hids])
  · next id ids heq _ =>
    rw [heq, naivePartition]
    have hplain : ∀ id' ∈ id :: ids, (fun _ : String => "") id' = "" := fun _ _ => rfl
    rw [(naiveBatches_spec _ (id :: ids) hplain).1]

/-- Every partition is a proper rollout of its stewards, and the batches of a job are its targets,
each once; there are none only if the fleet does not answer. -/
theorem rolling_update_batches :
    (∀ (stewards : List StewardMeta) (batchSize : ℤ), (stewards.map (·.id)).Nodup →
      IsRollout stewards batchSize (partition stewards batchSize) ∧
        (partition stewards batchSize).flatten.Nodup) ∧
    (∀ quorumCheck lookup targets batchSize batches,
      partitionTargets quorumCheck lookup targets batchSize = .ok batches →
        batches.flatten.Nodup ∧ ∀ id, id ∈ batches.flatten ↔ id ∈ targets ∧ id ≠ "") ∧
    ∀ quorumCheck lookup targets batchSize err,
      partitionTargets quorumCheck lookup targets batchSize = .error err →
        quorumCheck = true ∧ ∃ reason, lookup (dedupeIDs targets) = .error reason := by
  refine ⟨?_, ?_, ?_⟩
  · intro stewards batchSize hdistinct
    have hrollout := partition_isRollout hdistinct batchSize
    exact ⟨hrollout, hrollout.perm.nodup_iff.mpr hdistinct⟩
  · intro quorumCheck lookup targets batchSize batches h
    have hperm := partitionTargets_perm h
    obtain ⟨hnodup, hmem⟩ := dedupeIDs_spec targets
    exact ⟨hperm.nodup_iff.mpr hnodup, fun id => hperm.mem_iff.trans (hmem id)⟩
  · intro quorumCheck lookup targets batchSize err
    fun_cases partitionTargets quorumCheck lookup targets batchSize <;> rintro ⟨⟩
    next hids hquorum reason hlookup => exact ⟨hquorum, reason, hids ▸ hlookup⟩

/-- Two nodes of a cluster and a plain steward, in batches of two. -/
def clusterNodes : List StewardMeta :=
  [⟨"node-a", StringMap.empty.set ("cluster_role", "hyperv")⟩,
    ⟨"node-b", StringMap.empty.set ("cluster_role", "hyperv")⟩, ⟨"laptop", .empty⟩]

theorem rolling_update_batches_cluster :
    IsRollout clusterNodes 2 (partition clusterNodes 2) ∧
      (partition clusterNodes 2).flatten.Nodup :=
  rolling_update_batches.1 clusterNodes 2 (by decide)

inductive BatchJobStatus where
  | pending
  | running
  | paused
  | completed
  | failed
  | rolledBack
deriving DecidableEq

inductive BatchStepStatus where
  | pending
  | running
  | completed
  | failed
  | rolledBack
deriving DecidableEq

structure BatchStep where
  index : ℕ
  stewardIDs : List String
  status : BatchStepStatus
  failedIDs : List String
deriving DecidableEq

/-- How a dispatch ends: by an event of the steward, by the timer, or by an error of the
publisher. -/
inductive Outcome where
  | completed
  | failed
  | timedOut
  | refused
  | publishError
deriving DecidableEq

/-- A refusal by the lockdown gate counts as a success. -/
def Outcome.success : Outcome → Bool
  | .completed => true
  | .refused => true
  | .failed => false
  | .timedOut => false
  | .publishError => false

/-- A `CommandSyncConfig` for a steward; without a reference it is for the new configuration. -/
structure Dispatch where
  stewardID : String
  step : ℕ
  configRef : Option String
  outcome : Outcome
deriving DecidableEq

/-- What is beyond the executor: how the dispatches end, by their number, and whether the context
is done before a batch and while the results of the last dispatches are awaited. -/
structure Env where
  outcome : ℕ → Outcome
  done : ℕ → Bool
  interrupted : ℕ → Bool

/-- The job as it is stored, and what has been sent. -/
structure Execution where
  status : BatchJobStatus
  steps : List BatchStep
  sent : List Dispatch

variable (env : Env)

def dispatches (step : ℕ) (configRef : Option String) (n : ℕ) : List String → List Dispatch
  | [] => []
  | id :: ids => ⟨id, step, configRef, env.outcome n⟩ :: dispatches step configRef (n + 1) ids

/-- Sends to all and waits for all results. The IDs of the failed ones are given, unless the
context is done first. -/
def dispatchAll (step : ℕ) (configRef : Option String) (ids : List String) (x : Execution) :
    Execution × Option (List String) :=
  let sent := dispatches env step configRef x.sent.length ids
  let x := { x with sent := x.sent ++ sent }
  if ids ≠ [] ∧ env.interrupted x.sent.length then (x, none)
  else (x, some ((sent.filter fun d => !d.outcome.success).map (·.stewardID)))

def dispatchBatch (step : ℕ) (batch : List String) (x : Execution) :
    Execution × Option (List String) :=
  dispatchAll env step none batch x

def dispatchRollbackBatch (previousConfigRef : String) (step : ℕ) (stewardIDs : List String)
    (x : Execution) : Execution × Option (List String) :=
  dispatchAll env step (some previousConfigRef) stewardIDs x

/-- The steps are kept under their indexes and read in that order. -/
def Execution.updateBatchStep (x : Execution) (step : BatchStep) : Execution :=
  let others := x.steps.filter (·.index ≠ step.index)
  { x with steps := others.orderedInsert (fun a b => a.index ≤ b.index) step }

def completedStepsOf (steps : List BatchStep) : List BatchStep :=
  steps.filter (·.status = .completed)

def rollbackSteps (previousConfigRef : String) : List BatchStep → Execution → Execution × Bool
  | [], x => (x, true)
  | step :: rest, x =>
    match dispatchRollbackBatch env previousConfigRef step.index step.stewardIDs x with
    | (x, none) => (x, false)
    | (x, some []) =>
      rollbackSteps previousConfigRef rest (x.updateBatchStep { step with status := .rolledBack })
    | (x, some (_ :: _)) => ((rollbackSteps previousConfigRef rest x).1, false)

def rollbackAppliedSteps (previousConfigRef : String) (x : Execution) : Execution :=
  match completedStepsOf x.steps with
  | [] => { x with status := .paused }
  | step :: rest =>
    let r := rollbackSteps env previousConfigRef (step :: rest) x
    { r.1 with status := if r.2 then .rolledBack else .failed }

def handleFailedStep (previousConfigRef : String) (step : BatchStep) (failedIDs : List String)
    (x : Execution) : Execution :=
  let x := x.updateBatchStep { step with status := .failed, failedIDs := failedIDs }
  if previousConfigRef ≠ "" then rollbackAppliedSteps env previousConfigRef x
  else { x with status := .paused }

/-- Runs a batch, and gives whether the next one is to follow. -/
def runBatchStep (previousConfigRef : String) (i : ℕ) (batch : List String) (x : Execution) :
    Execution × Bool :=
  let step : BatchStep := ⟨i, batch, .running, []⟩
  match dispatchBatch env i batch (x.updateBatchStep step) with
  | (x, none) => (x, false)
  | (x, some []) => (x.updateBatchStep { step with status := .completed }, true)
  | (x, some (id :: ids)) => (handleFailedStep env previousConfigRef step (id :: ids) x, false)

def runBatches (previousConfigRef : String) : ℕ → List (List String) → Execution → Execution
  | _, [], x => { x with status := .completed }
  | i, batch :: rest, x =>
    if env.done i then x
    else
      match runBatchStep env previousConfigRef i batch x with
      | (x, false) => x
      | (x, true) => runBatches previousConfigRef (i + 1) rest x

/-- `Execute` for a job with these batches and with whatever steps are stored before. -/
def execute (previousConfigRef : String) (steps : List BatchStep) (batches : List (List String)) :
    Execution :=
  runBatches env previousConfigRef 0 batches ⟨.running, steps, []⟩

end Cfgms.BatchJob
