import Cfgms.Ordered.Table
import Mathlib.Data.List.Sort

/-! # Runs and their jobs

The run store has one row for each run and one for each job of a run. Some updates of a job
are compare-and-set and report whether the row changed; others write whatever the row holds.
-/

namespace Cfgms.Run

open Ordered List Table

inductive RunStatus where
  | pending
  | running
  | completed
  | failed
  | cancelled
  deriving DecidableEq

def RunStatus.isTerminal : RunStatus → Bool
  | .completed | .failed | .cancelled => true
  | .pending | .running => false

inductive JobStatus where
  | pending
  | running
  | completed
  | failed
  | cancelled
  | dispatched
  | expired
  | noResult
  deriving DecidableEq

namespace JobStatus

def isTerminal : JobStatus → Bool
  | .completed | .failed | .cancelled | .expired | .noResult => true
  | .pending | .running | .dispatched => false

def isFailure : JobStatus → Bool
  | .failed | .expired | .noResult => true
  | .pending | .running | .completed | .cancelled | .dispatched => false

def text : JobStatus → String
  | .pending => "pending"
  | .running => "running"
  | .completed => "completed"
  | .failed => "failed"
  | .cancelled => "cancelled"
  | .dispatched => "dispatched"
  | .expired => "expired"
  | .noResult => "no_result"

end JobStatus

inductive RunKind where
  | script
  | stewardAction
  deriving DecidableEq

structure RunRecord where
  runID : String
  tenantID : String
  createdBy : String
  createdAt : ℤ
  status : RunStatus
  scriptRef : String
  inlineContent : String
  shell : String
  jobCount : ℕ
  completedJobs : ℕ
  failedJobs : ℕ
  kind : RunKind
  deriving DecidableEq

structure JobRecord where
  jobID : String
  runID : String
  deviceID : String
  executionID : String
  status : JobStatus
  createdAt : ℤ
  completedAt : Option ℤ
  output : String
  stderr : String
  exitCode : ℤ
  resultCode : String
  dispatchedAt : Option ℤ
  deriving DecidableEq

namespace JobRecord

def isStale (pendingBefore dispatchedBefore : ℤ) (j : JobRecord) : Bool :=
  match j.status with
  | .pending => j.createdAt < pendingBefore
  | .dispatched => j.dispatchedAt.any fun t => t < dispatchedBefore
  | _ => false

/-- The job with the id, and what the update asks of its status. -/
def isAt (jobID : String) (allowed : JobStatus → Bool) (j : JobRecord) : Bool :=
  j.jobID = jobID && allowed j.status

/-- A terminal status stamps the completion time, and an empty execution id keeps the old. -/
def withStatus (status : JobStatus) (executionID : String) (now : ℤ) (j : JobRecord) :
    JobRecord :=
  { j with
    status := status
    executionID := if executionID = "" then j.executionID else executionID
    completedAt := if status.isTerminal then some now else j.completedAt }

def withResult (status : JobStatus) (executionID output stderr : String)
    (exitCode now : ℤ) (j : JobRecord) : JobRecord :=
  { withStatus status executionID now j with
    output := output, stderr := stderr, exitCode := exitCode }

end JobRecord

def completedCount (jobs : List JobRecord) : ℕ := jobs.countP fun j => j.status = .completed

def failedCount (jobs : List JobRecord) : ℕ := jobs.countP fun j => j.status.isFailure

/-- `RunStoreSQL`. The ids are primary keys. -/
structure RunStore where
  runs : Table RunRecord.runID
  jobs : Table JobRecord.jobID

namespace RunStore

variable (s : RunStore)

def getRun (runID : String) : Option RunRecord := s.runs.get runID

/-- The jobs of one run are created at one time, so that their order is that of the rows. -/
def listRunJobs (runID : String) : List JobRecord := s.jobs.rows.filter fun j => j.runID = runID

def listStaleActionJobs (pendingBefore dispatchedBefore : ℤ) : List JobRecord :=
  (s.jobs.rows.filter fun j =>
    (s.getRun j.runID).any (fun r => r.kind = .stewardAction) && j.completedAt.isNone &&
      j.resultCode = "" && j.isStale pendingBefore dispatchedBefore).insertionSort
    fun j j' => j.createdAt ≤ j'.createdAt

theorem mem_listStaleActionJobs {pendingBefore dispatchedBefore : ℤ} {j : JobRecord}
    (h : j ∈ s.listStaleActionJobs pendingBefore dispatchedBefore) :
    j ∈ s.jobs.rows ∧ j.status.isTerminal = false := by
  obtain ⟨hrow, hstale⟩ := mem_filter.mp ((mem_insertionSort _).mp h)
  refine ⟨hrow, ?_⟩
  have hstale := ((Bool.and_eq_true _ _).mp hstale).2
  unfold JobRecord.isStale at hstale
  split at hstale
  · next hstatus => rw [hstatus, JobStatus.isTerminal]
  · next hstatus => rw [hstatus, JobStatus.isTerminal]
  · cases hstale

/-- A conditional update of one job, and whether a row changed. -/
def casJob (jobID : String) (allowed : JobStatus → Bool) (f : JobRecord → JobRecord)
    (hf : ∀ j, (f j).jobID = j.jobID) : RunStore × Bool :=
  ({ s with jobs := s.jobs.update (JobRecord.isAt jobID allowed) f hf },
    s.jobs.rows.any (JobRecord.isAt jobID allowed))

def createRun (r : RunRecord) : Option RunStore :=
  (s.runs.insert r).map fun runs => { s with runs := runs }

def createJob (j : JobRecord) : Option RunStore :=
  (s.jobs.insert j).map fun jobs => { s with jobs := jobs }

variable {s} in
theorem createRun_eq_some {r : RunRecord} {s' : RunStore} (h : s.createRun r = some s') :
    s'.jobs = s.jobs := by
  obtain ⟨runs, _, rfl⟩ := Option.map_eq_some_iff.mp h
  rfl

variable {s} in
theorem createJob_eq_some {j : JobRecord} {s' : RunStore} (h : s.createJob j = some s') :
    s'.jobs.rows = s.jobs.rows ++ [j] := by
  obtain ⟨jobs, hjobs, rfl⟩ := Option.map_eq_some_iff.mp h
  unfold Table.insert at hjobs
  split at hjobs <;> cases hjobs
  rfl

/-- `UpdateJobStatus` writes whatever the row holds. -/
def updateJobStatus (jobID : String) (status : JobStatus) (executionID : String) (now : ℤ) :
    RunStore :=
  (s.casJob jobID (fun _ => true) (JobRecord.withStatus status executionID now)
    fun _ => rfl).1

def updateJobResult (jobID : String) (status : JobStatus) (executionID output stderr : String)
    (exitCode now : ℤ) : RunStore × Bool :=
  s.casJob jobID (fun st => !st.isTerminal)
    (JobRecord.withResult status executionID output stderr exitCode now) fun _ => rfl

def updateJobResultCode (jobID code : String) : RunStore × Bool :=
  s.casJob jobID (fun st => !st.isTerminal) (fun j => { j with resultCode := code }) fun _ => rfl

def markJobDispatched (jobID : String) (time : ℤ) : RunStore × Bool :=
  s.casJob jobID (fun st => st = .pending)
    (fun j => { j with status := .dispatched, dispatchedAt := some time }) fun _ => rfl

/-- The result code doubles as the text of the new status. -/
def expireJobIfStatus (jobID : String) (fromStatus newStatus : JobStatus) (time : ℤ) :
    RunStore × Bool :=
  s.casJob jobID (fun st => st = fromStatus)
    (fun j =>
      { j with status := newStatus, resultCode := newStatus.text, completedAt := some time })
    fun _ => rfl

def onRun (runID : String) (f : RunRecord → RunRecord) (hf : ∀ r, (f r).runID = r.runID) :
    RunStore :=
  { s with runs := s.runs.update (fun r => r.runID = runID) f hf }

def updateRunStatus (runID : String) (status : RunStatus) : RunStore :=
  s.onRun runID (fun r => { r with status := status }) fun _ => rfl

def updateRunCounts (runID : String) (completed failed : ℕ) : RunStore :=
  s.onRun runID (fun r => { r with completedJobs := completed, failedJobs := failed })
    fun _ => rfl

/-- Every job and run that has ended is still there with its status. -/
structure Final (s s' : RunStore) : Prop where
  jobs : ∀ id j, s.jobs.get id = some j → j.status.isTerminal →
    ∃ j', s'.jobs.get id = some j' ∧ j'.status = j.status
  runs : ∀ id r, s.runs.get id = some r → r.status.isTerminal →
    ∃ r', s'.runs.get id = some r' ∧ r'.status = r.status

variable {s}

theorem Final.refl : Final s s := ⟨fun _ j h _ => ⟨j, h, rfl⟩, fun _ r h _ => ⟨r, h, rfl⟩⟩

theorem Final.trans {s' s'' : RunStore} (h : Final s s') (h' : Final s' s'') : Final s s'' := by
  constructor
  · intro id j hj hterminal
    obtain ⟨j', hj', hstatus⟩ := h.jobs id j hj hterminal
    obtain ⟨j'', hj'', hstatus'⟩ := h'.jobs id j' hj' (hstatus ▸ hterminal)
    exact ⟨j'', hj'', hstatus'.trans hstatus⟩
  · intro id r hr hterminal
    obtain ⟨r', hr', hstatus⟩ := h.runs id r hr hterminal
    obtain ⟨r'', hr'', hstatus'⟩ := h'.runs id r' hr' (hstatus ▸ hterminal)
    exact ⟨r'', hr'', hstatus'.trans hstatus⟩

section Jobs

variable {jobID : String} {allowed : JobStatus → Bool} {f : JobRecord → JobRecord}
  {hf : ∀ j, (f j).jobID = j.jobID}

theorem casJob_final (h : ∀ j ∈ s.jobs.rows, j.isAt jobID allowed → j.status.isTerminal →
    (f j).status = j.status) : Final s (s.casJob jobID allowed f hf).1 := by
  constructor
  · intro id j hj hterminal
    refine ⟨if j.isAt jobID allowed then f j else j, ?_, ?_⟩
    · simp [casJob, get_update, hj]
    · split
      · next hat => exact h j (get_eq_some_iff.mp hj).1 hat hterminal
      · rfl
  · intro id r hr _
    exact ⟨r, hr, rfl⟩

theorem listRunJobs_casJob (hrun : ∀ j, (f j).runID = j.runID) (runID : String) :
    (s.casJob jobID allowed f hf).1.listRunJobs runID =
      (s.listRunJobs runID).map fun j => if j.isAt jobID allowed then f j else j := by
  have hkey : (fun j : JobRecord => decide (j.runID = runID)) ∘
      (fun j => if j.isAt jobID allowed then f j else j) =
      fun j => decide (j.runID = runID) := by
    funext j
    cases hat : j.isAt jobID allowed
    · simp [hat]
    · simp [hat, hrun]
  simp only [listRunJobs, casJob, Table.update, filter_map, hkey]

theorem listRunJobs_casJob_of_ne (hrun : ∀ j, (f j).runID = j.runID) {runID : String}
    (hne : ∀ j ∈ s.jobs.rows, j.jobID = jobID → j.runID ≠ runID) :
    (s.casJob jobID allowed f hf).1.listRunJobs runID = s.listRunJobs runID := by
  rw [listRunJobs_casJob hrun]
  apply (map_congr_left _).trans (map_id _)
  intro j hj
  obtain ⟨hj, hrunID⟩ := mem_filter.mp hj
  have hat : j.isAt jobID allowed = false := by
    have hid : j.jobID ≠ jobID := fun hid => hne j hj hid (by simpa using hrunID)
    simp [JobRecord.isAt, hid]
  simp [hat]

end Jobs

theorem onRun_final {runID : String} {f : RunRecord → RunRecord} {hf : ∀ r, (f r).runID = r.runID}
    (h : ∀ r ∈ s.runs.rows, r.runID = runID → r.status.isTerminal → (f r).status = r.status) :
    Final s (s.onRun runID f hf) := by
  constructor
  · intro id j hj _
    exact ⟨j, hj, rfl⟩
  · intro id r hr hterminal
    refine ⟨if r.runID = runID then f r else r, ?_, ?_⟩
    · simp [onRun, get_update, hr]
    · split
      · next hid => exact h r (get_eq_some_iff.mp hr).1 hid hterminal
      · rfl

/-- The counts of a run differ from those of its job rows. -/
def Miscounted (s : RunStore) (runID : String) : Prop :=
  ∃ r, s.getRun runID = some r ∧ ¬ (r.completedJobs = completedCount (s.listRunJobs runID) ∧
    r.failedJobs = failedCount (s.listRunJobs runID))

/-- A run has not ended and all its jobs have. -/
def Unclosed (s : RunStore) (runID : String) : Prop :=
  ∃ r, s.getRun runID = some r ∧ r.status.isTerminal = false ∧
    ∀ j ∈ s.listRunJobs runID, j.status.isTerminal

instance (s : RunStore) (runID : String) : Decidable (s.Miscounted runID) :=
  inferInstanceAs (Decidable (∃ r ∈ s.getRun runID, ¬ (_ ∧ _)))

instance (s : RunStore) (runID : String) : Decidable (s.Unclosed runID) :=
  inferInstanceAs (Decidable (∃ r ∈ s.getRun runID, _ = false ∧ ∀ j ∈ _, _ = true))

section Jobs

variable {jobID : String} {allowed : JobStatus → Bool} {f : JobRecord → JobRecord}
  {hf : ∀ j, (f j).jobID = j.jobID} (hrun : ∀ j, (f j).runID = j.runID)

include hrun

theorem miscounted_casJob_iff (runID : String) (hcount : ∀ j ∈ s.jobs.rows, j.isAt jobID allowed →
      ((f j).status = .completed ↔ j.status = .completed) ∧
      (f j).status.isFailure = j.status.isFailure) :
    (s.casJob jobID allowed f hf).1.Miscounted runID ↔ s.Miscounted runID := by
  have hcompleted : completedCount ((s.casJob jobID allowed f hf).1.listRunJobs runID) =
      completedCount (s.listRunJobs runID) := by
    rw [listRunJobs_casJob hrun, completedCount, countP_map]
    apply countP_congr
    intro j hj
    cases hat : j.isAt jobID allowed
    · simp [hat]
    · simpa [hat] using (hcount j (mem_filter.mp hj).1 hat).1
  have hfailed : failedCount ((s.casJob jobID allowed f hf).1.listRunJobs runID) =
      failedCount (s.listRunJobs runID) := by
    rw [listRunJobs_casJob hrun, failedCount, countP_map]
    apply countP_congr
    intro j hj
    cases hat : j.isAt jobID allowed
    · simp [hat]
    · simp [hat, (hcount j (mem_filter.mp hj).1 hat).2]
  simp only [Miscounted, hcompleted, hfailed]
  rfl

theorem unclosed_casJob_iff (runID : String) (hterminal : ∀ j ∈ s.jobs.rows, j.isAt jobID allowed →
      (f j).status.isTerminal = j.status.isTerminal) :
    (s.casJob jobID allowed f hf).1.Unclosed runID ↔ s.Unclosed runID := by
  have hall : (∀ j ∈ (s.casJob jobID allowed f hf).1.listRunJobs runID, j.status.isTerminal) ↔
      ∀ j ∈ s.listRunJobs runID, j.status.isTerminal := by
    rw [listRunJobs_casJob hrun, forall_mem_map]
    apply forall₂_congr
    intro j hj
    cases hat : j.isAt jobID allowed
    · simp
    · simp [hterminal j (mem_filter.mp hj).1 hat]
  simp only [Unclosed, hall]
  rfl

variable {runID : String}

theorem casJob_changes
    (h : (s.casJob jobID allowed f hf).1.listRunJobs runID ≠ s.listRunJobs runID) :
    (s.casJob jobID allowed f hf).2 = true ∧
      ∃ j ∈ s.jobs.rows, j.jobID = jobID ∧ j.runID = runID := by
  constructor
  · by_contra hchanged
    refine h ((listRunJobs_casJob hrun runID).trans ?_)
    refine (map_congr_left fun j hj => if_neg fun hat => ?_).trans (map_id _)
    exact hchanged (any_eq_true.mpr ⟨j, (mem_filter.mp hj).1, hat⟩)
  · by_contra hnone
    push Not at hnone
    exact h (listRunJobs_casJob_of_ne hrun hnone)

end Jobs

section Runs

variable {runID : String} {f : RunRecord → RunRecord} {hf : ∀ r, (f r).runID = r.runID}

theorem getRun_onRun (id : String) : (s.onRun runID f hf).getRun id =
    (s.getRun id).map fun r => if r.runID = runID then f r else r := by
  simp [getRun, onRun, get_update]

theorem getRun_onRun_of_ne {id : String} (hne : id ≠ runID) :
    (s.onRun runID f hf).getRun id = s.getRun id := by
  rw [getRun_onRun]
  cases hget : s.getRun id with
  | none => rfl
  | some r =>
    have hid : r.runID = id := (get_eq_some_iff.mp hget).2
    simp [hid, hne]

theorem getRun_onRun_self : (s.onRun runID f hf).getRun runID = (s.getRun runID).map f := by
  rw [getRun_onRun]
  cases hget : s.getRun runID with
  | none => rfl
  | some r =>
    have hid : r.runID = runID := (get_eq_some_iff.mp hget).2
    simp [hid]

end Runs

end RunStore

end Cfgms.Run
