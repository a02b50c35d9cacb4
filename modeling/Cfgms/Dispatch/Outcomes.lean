import Cfgms.Dispatch.Manager

/-! # Outcomes are final and consistent

What has ended stays as it is, and once every call has finished, the counts of a run are those of
its job rows and the run has ended if its jobs have, provided that no unconditional write lands on
a row that has ended, no count is written from a stale listing, and no store call fails.
-/

namespace Cfgms.Dispatch

open Script Run Program List RunStore

/-- The calls that decide how jobs and runs end. -/
inductive OutcomeCall where
  | cancelRun (runID : String)
  | recordJobResult (runID jobID executionID : String) (failed : Bool) (output stderr : String)
      (exitCode : ℤ)
  | recordActionResult (runID jobID executionID resultCode : String)
  | recordJobRefused (runID jobID executionID : String)
  | claimActionDispatch (runID jobID : String) (time : ℤ) (entry : QueueEntry)
  | expireActionJobs (now : ℤ)

namespace OutcomeCall

def code : OutcomeCall → Call Unit
  | .cancelRun runID => do
    let _ ← Dispatch.cancelRun runID
  | .recordJobResult runID jobID executionID failed output stderr exitCode => do
    let _ ← Dispatch.recordJobResult runID jobID executionID failed output stderr exitCode
  | .recordActionResult runID jobID executionID resultCode => do
    let _ ← Dispatch.recordActionResult runID jobID executionID resultCode
  | .recordJobRefused runID jobID executionID => do
    let _ ← Dispatch.recordJobRefused runID jobID executionID
  | .claimActionDispatch runID jobID time entry => do
    let _ ← Dispatch.claimActionDispatch runID jobID time entry
  | .expireActionJobs now => Dispatch.expireActionJobs now

/-- A result names the run of its job, as the metadata of every queue entry does. -/
def Addressed (s : System) : OutcomeCall → Prop
  | .recordJobResult runID jobID _ _ _ _ _ | .recordActionResult runID jobID _ _
  | .recordJobRefused runID jobID _ => ∀ j ∈ s.store.jobs.rows, j.jobID = jobID → j.runID = runID
  | .cancelRun _ | .claimActionDispatch _ _ _ _ | .expireActionJobs _ => True

instance (s : System) (c : OutcomeCall) : Decidable (c.Addressed s) := by
  unfold Addressed
  split <;> infer_instance

end OutcomeCall

def statuses (jobs : List JobRecord) : List (String × JobStatus) :=
  jobs.map fun j => (j.jobID, j.status)

/-- No store call fails, an unconditional write finds a row that has not ended, and counts are
written from a listing that still holds. -/
def Undisturbed : {β : Type} → System → ℕ → Op β → Env → Prop
  | _, s, _, .updateJobStatus jobID _ _, env => env.fails = false ∧
    ∀ j ∈ s.store.jobs.rows, j.jobID = jobID → j.status.isTerminal = false
  | _, s, _, .updateRunStatus runID _, env => env.fails = false ∧
    ∀ r ∈ s.store.runs.rows, r.runID = runID → r.status.isTerminal = false
  | _, s, _, .updateRunCounts runID _ _ listed, env => env.fails = false ∧
    statuses listed = statuses (s.store.listRunJobs runID)
  | _, _, _, _, env => env.fails = false

instance {β : Type} (s : System) (tid : ℕ) (o : Op β) (env : Env) :
    Decidable (Undisturbed s tid o env) := by
  unfold Undisturbed
  split <;> infer_instance

variable {s : System}

theorem Undisturbed.fails {β : Type} {tid : ℕ} {o : Op β} {env : Env}
    (h : Undisturbed s tid o env) : env.fails = false := by
  unfold Undisturbed at h
  split at h
  · exact h.1
  · exact h.1
  · exact h.1
  · exact h

def jobKeys (s : System) : List (String × String) :=
  s.store.jobs.rows.map fun j => (j.jobID, j.runID)

/-- No job is created, and only an open job expires. -/
def OutcomePre : {β : Type} → Op β → Prop
  | _, .createRun _ | _, .createJob _ => False
  | _, .expireJobIfStatus _ fromStatus _ _ => fromStatus.isTerminal = false
  | _, _ => True

/-- What a permitted call does to the run store. -/
inductive OutcomeStep (s : RunStore) : RunStore → Prop where
  | keep : OutcomeStep s s
  | job (jobID : String) (allowed : JobStatus → Bool) (f : JobRecord → JobRecord)
      (hf : ∀ j, (f j).jobID = j.jobID) (hrun : ∀ j, (f j).runID = j.runID)
      (hopen : ∀ j ∈ s.jobs.rows, j.isAt jobID allowed → j.status.isTerminal →
        (f j).status = j.status) : OutcomeStep s (s.casJob jobID allowed f hf).1
  | run (runID : String) (f : RunRecord → RunRecord) (hf : ∀ r, (f r).runID = r.runID)
      (hopen : ∀ r ∈ s.runs.rows, r.runID = runID → r.status.isTerminal →
        (f r).status = r.status) : OutcomeStep s (s.onRun runID f hf)

namespace OutcomeStep

variable {s s' : RunStore}

/-- A compare-and-set that only an open job passes. -/
theorem cas {jobID : String} {allowed : JobStatus → Bool} {f : JobRecord → JobRecord}
    {hf : ∀ j, (f j).jobID = j.jobID} (hallowed : ∀ st, allowed st → st.isTerminal = false)
    (hrun : ∀ j, (f j).runID = j.runID) : OutcomeStep s (s.casJob jobID allowed f hf).1 := by
  refine .job jobID allowed f hf hrun fun j _ hat hterminal => ?_
  have hopen := hallowed j.status (by simpa using (Bool.and_eq_true_iff.mp hat).2)
  rw [hopen] at hterminal
  cases hterminal

theorem final (h : OutcomeStep s s') : s.Final s' := by
  cases h with
  | keep => exact .refl
  | job _ _ _ _ _ hopen => exact casJob_final hopen
  | run _ _ _ hopen => exact onRun_final hopen

theorem keys_eq (h : OutcomeStep s s') : s'.jobs.rows.map (fun j => (j.jobID, j.runID)) =
      s.jobs.rows.map fun j => (j.jobID, j.runID) := by
  cases h with
  | keep => rfl
  | job jobID allowed f hf hrun _ =>
    simp only [RunStore.casJob, Ordered.Table.update, map_map]
    apply map_congr_left
    intro j _
    cases hat : j.isAt jobID allowed
    · simp [hat]
    · simp [hat, hf, hrun]
  | run => rfl

end OutcomeStep

variable {β : Type} {tid : ℕ} {o : Op β} {env : Env}

theorem exec_outcomeStep (hpre : OutcomePre o) (hguard : Undisturbed s tid o env) :
    OutcomeStep s.store (exec o tid s env).1.store := by
  have hok := hguard.fails
  cases o with
  | createRun | createJob => cases hpre
  | updateJobStatus jobID status executionID =>
    simp only [exec, System.write_store _ hok, Option.getD_some]
    apply OutcomeStep.job
    · exact fun _ => rfl
    · intro j hj hat hterminal
      have hid : j.jobID = jobID := by simpa [JobRecord.isAt] using hat
      simp [hguard.2 j hj hid] at hterminal
  | updateJobResult | updateJobResultCode | markJobDispatched | expireJobIfStatus =>
    simp only [exec, System.compareAndSet_store _ hok]
    exact .cas (by simp_all [OutcomePre, JobStatus.isTerminal]) fun _ => rfl
  | updateRunStatus runID status =>
    simp only [exec, System.write_store _ hok, Option.getD_some]
    apply OutcomeStep.run
    intro r hr hid hterminal
    simp [hguard.2 r hr hid] at hterminal
  | updateRunCounts =>
    simp only [exec, System.write_store _ hok, Option.getD_some]
    apply OutcomeStep.run
    intro r _ _ _
    rfl
  | _ =>
    rw [(exec_frame _ _ _ _).store rfl]
    exact .keep

/-- Along the calls, the jobs stay those that there are. -/
def outcomes (keys : List (String × String)) : Discipline api where
  Inv s := jobKeys s = keys
  Guard := Undisturbed
  Pre _ _ o := OutcomePre o
  Rely _ _ _ := True
  rely_refl _ _ := trivial
  rely_trans _ _ := trivial
  exec_inv hinv hpre hguard := (exec_outcomeStep hpre hguard).keys_eq.trans hinv
  exec_rely _ _ _ _ := trivial

def Answered : {β : Type} → Op β → β → Prop
  | _, .listRunJobs _, r => ∃ jobs, r = .ok jobs
  | _, .updateJobStatus _ _ _, r => r = .ok ()
  | _, .updateRunStatus _ _, r => r = .ok ()
  | _, .updateRunCounts _ _ _ _, r => r = .ok ()
  | _, .cancel _ _, r => r = .ok () ∨ ∃ d x, r = .error (.notFound d x)
  | _, _, _ => True

def WritesCounts (runID : String) : {β : Type} → Op β → Prop
  | _, .updateRunCounts id completed failed listed =>
    id = runID ∧ completed = completedCount listed ∧ failed = failedCount listed
  | _, _ => False

/-- The counts of a run are to be written from a listing. -/
def countsDebt (runID : String) : Debt api where
  Due s := s.store.Miscounted runID
  Pays := WritesCounts runID
  Answers := Answered

/-- An answer that agrees with the jobs of a run having ended and the run not. -/
def AnsweredOpen (runID : String) : {β : Type} → Op β → β → Prop
  | _, .listRunJobs id, r => ∃ jobs, r = .ok jobs ∧
    (id = runID → ∀ j ∈ jobs, j.status.isTerminal)
  | _, .getRun id, r => id = runID → ∃ run, r = .ok run ∧ run.status.isTerminal = false
  | _, o, r => Answered o r

def EndsRun (runID : String) : {β : Type} → Op β → Prop
  | _, .updateRunStatus id status => id = runID ∧ status.isTerminal
  | _, _ => False

/-- A run whose jobs have ended is to be ended. -/
def statusDebt (runID : String) : Debt api where
  Due s := s.store.Unclosed runID
  Pays := EndsRun runID
  Answers := AnsweredOpen runID

theorem refreshRun_owes_counts (runID : String) :
    (countsDebt runID).Owes (fun _ => False) (refreshRun runID) := by
  right
  rintro _ ⟨jobs, rfl⟩
  exact .inl ⟨rfl, rfl, rfl⟩

theorem refreshRun_owes_status (runID : String) :
    (statusDebt runID).Owes (fun _ => False) (refreshRun runID) := by
  right
  rintro _ ⟨jobs, rfl, hjobs⟩
  right
  rintro _ rfl
  have hall : jobs.all (fun j => j.status.isTerminal) = true := by simpa using hjobs rfl
  simp only [hall, if_true]
  refine .inr fun r hr => ?_
  obtain ⟨run, rfl, hopen⟩ := hr rfl
  change (statusDebt runID).Owes _ (if run.status.isTerminal then _ else _)
  rw [hopen, if_neg Bool.false_ne_true]
  refine .inl ⟨rfl, ?_⟩
  split <;> rfl

/-- Leaves the statuses of jobs alone, and writes no counts but those of a listing. -/
def Harmless : {β : Type} → Op β → Prop
  | _, .createRun _ | _, .createJob _ | _, .updateJobStatus _ _ _ | _, .updateJobResult _ _ _ _ _ _
  | _, .expireJobIfStatus _ _ _ _ => False
  | _, .updateRunCounts _ completed failed listed =>
    completed = completedCount listed ∧ failed = failedCount listed
  | _, _ => True

theorem Harmless.outcomePre (h : Harmless o) : OutcomePre o := by
  cases o with
  | createRun | createJob | expireJobIfStatus => cases h
  | _ => trivial

theorem refreshRun_harmless (runID : String) : (refreshRun runID).All Harmless := by
  simp [refreshRun, forall_except, Harmless]

theorem alreadyTerminal_harmless (runID jobID : String) :
    (alreadyTerminal runID jobID).All Harmless := by
  simp [alreadyTerminal, forall_except, Harmless]

theorem releaseDeviceIfExecution_harmless (deviceID executionID : String) :
    (releaseDeviceIfExecution deviceID executionID).All Harmless := by
  simp [releaseDeviceIfExecution, Harmless]

variable (job : JobRecord)

theorem tearDown_harmless : (tearDown job).All Harmless := by
  simp [tearDown, Harmless, All.bind, releaseDeviceIfExecution_harmless]

theorem releaseCancelled_harmless : (releaseCancelled job).All Harmless := by
  simp [releaseCancelled, All.bind, releaseDeviceIfExecution_harmless]

theorem cancelQueued_harmless : (cancelQueued job).All Harmless := by
  simp [cancelQueued, Harmless]

theorem claimActionDispatch_harmless (runID jobID : String) (time : ℤ) (entry : QueueEntry) :
    (claimActionDispatch runID jobID time entry).All Harmless := by
  simp [claimActionDispatch, forall_except, Harmless]

variable (jobs : List JobRecord)

theorem completedCount_eq_countP :
    completedCount jobs = (statuses jobs).countP fun x => x.2 = .completed := by
  simp [completedCount, statuses, countP_map, Function.comp_def]

theorem failedCount_eq_countP :
    failedCount jobs = (statuses jobs).countP fun x => x.2.isFailure := by
  simp [failedCount, statuses, countP_map, Function.comp_def]

variable {runID : String}

theorem not_miscounted_updateRunCounts {st : RunStore} {listed : List JobRecord}
    (hlisted : statuses listed = statuses (st.listRunJobs runID)) :
    ¬ (st.updateRunCounts runID (completedCount listed) (failedCount listed)).Miscounted
      runID := by
  rintro ⟨r, hr, hcounts⟩
  rw [RunStore.updateRunCounts, getRun_onRun_self] at hr
  obtain ⟨r, _, rfl⟩ := Option.map_eq_some_iff.mp hr
  apply hcounts
  constructor
  · rw [completedCount_eq_countP, hlisted, ← completedCount_eq_countP]
    rfl
  · rw [failedCount_eq_countP, hlisted, ← failedCount_eq_countP]
    rfl

/-- A harmless call brings about neither debt. -/
theorem exec_harmless (hharmless : Harmless o) (hguard : Undisturbed s tid o env) :
    ((exec o tid s env).1.store.Miscounted runID → s.store.Miscounted runID) ∧
      ((exec o tid s env).1.store.Unclosed runID → s.store.Unclosed runID) := by
  have hok := hguard.fails
  cases o with
  | createRun | createJob | updateJobStatus | updateJobResult | expireJobIfStatus =>
    cases hharmless
  | updateJobResultCode | markJobDispatched =>
    simp only [exec, System.compareAndSet_store _ hok]
    constructor
    · refine (miscounted_casJob_iff ?_ runID fun j _ hat => ?_).mp
      · exact fun _ => rfl
      · simp_all [JobRecord.isAt, JobStatus.isFailure]
    · refine (unclosed_casJob_iff ?_ runID fun j _ hat => ?_).mp
      · exact fun _ => rfl
      · simp_all [JobRecord.isAt, JobStatus.isTerminal]
  | updateRunStatus id status =>
    simp only [exec, System.write_store _ hok, Option.getD_some]
    constructor <;> rintro ⟨r, hr, hrest⟩ <;> rw [RunStore.updateRunStatus, getRun_onRun] at hr <;>
      obtain ⟨r, hget, rfl⟩ := Option.map_eq_some_iff.mp hr
    · refine ⟨r, hget, fun hr => hrest ?_⟩
      split <;> exact hr
    · refine ⟨r, hget, ?_, hrest.2⟩
      have hopen := hrest.1
      split at hopen
      · next hid => exact hguard.2 r (Ordered.Table.get_eq_some_iff.mp hget).1 hid
      · exact hopen
  | updateRunCounts id completed failed listed =>
    simp only [exec, System.write_store _ hok, Option.getD_some]
    constructor
    · intro h
      obtain ⟨rfl, rfl⟩ := hharmless
      rcases eq_or_ne runID id with rfl | hne
      · exact absurd h (not_miscounted_updateRunCounts hguard.2)
      obtain ⟨r, hr, hcounts⟩ := h
      rw [RunStore.updateRunCounts, getRun_onRun_of_ne hne] at hr
      exact ⟨r, hr, hcounts⟩
    · rintro ⟨r, hr, hopen, hjobs⟩
      rw [RunStore.updateRunCounts, getRun_onRun] at hr
      obtain ⟨r, hget, rfl⟩ := Option.map_eq_some_iff.mp hr
      refine ⟨r, hget, ?_, hjobs⟩
      split at hopen <;> exact hopen
  | _ =>
    rw [(exec_frame _ _ _ _).store rfl]
    exact ⟨id, id⟩

theorem exec_answered (hguard : Undisturbed s tid o env) : Answered o (exec o tid s env).2 := by
  have hok := hguard.fails
  cases o with
  | listRunJobs runID => exact ⟨_, by simp only [exec, System.read, hok]; rfl⟩
  | updateJobStatus | updateRunStatus | updateRunCounts =>
    simp [Answered, exec, System.write, hok]
  | cancel deviceID executionID =>
    simp only [Answered, exec, System.onQueue, hok]
    cases hcancel : QueueStore.cancel s.queue deviceID executionID with
    | ok q => exact .inl rfl
    | error e =>
      obtain rfl := QueueStore.cancel_eq_error s.queue hcancel
      exact .inr ⟨_, _, rfl⟩
  | _ => trivial

variable {keys : List (String × String)}

theorem countsDebt_lawful : (countsDebt runID).Lawful (outcomes keys) := by
  constructor
  · intro β s tid o env _ _ hguard hpays
    have hok := Undisturbed.fails hguard
    cases o with
    | updateRunCounts id completed failed listed =>
      obtain ⟨rfl, rfl, rfl⟩ := hpays
      simp only [countsDebt, exec, System.write_store _ hok, Option.getD_some]
      exact not_miscounted_updateRunCounts hguard.2
    | _ => cases hpays
  · intro β s tid o env _ _ hguard _ _
    exact exec_answered hguard

theorem statusDebt_lawful : (statusDebt runID).Lawful (outcomes keys) := by
  constructor
  · intro β s tid o env _ _ hguard hpays
    have hok := Undisturbed.fails hguard
    cases o with
    | updateRunStatus id status =>
      obtain ⟨rfl, hterminal⟩ := hpays
      simp only [statusDebt, exec, System.write_store _ hok, Option.getD_some]
      rintro ⟨r, hr, hopen, _⟩
      rw [RunStore.updateRunStatus, getRun_onRun_self] at hr
      obtain ⟨r, _, rfl⟩ := Option.map_eq_some_iff.mp hr
      rw [hterminal] at hopen
      cases hopen
    | _ => cases hpays
  · intro β s tid o env _ _ hguard hdue _
    change Undisturbed s tid o env at hguard
    have hok := hguard.fails
    cases o with
    | listRunJobs id =>
      refine ⟨s.store.listRunJobs id, by simp only [exec, System.read, hok]; rfl, ?_⟩
      rintro rfl
      exact hdue.choose_spec.2.2
    | getRun id =>
      rintro rfl
      obtain ⟨r, hr, hopen, _⟩ := hdue
      exact ⟨r, by simp [exec, hok, hr], hopen⟩
    | _ => exact exec_answered hguard

/-- A debt of one run: a change of one of its jobs brings it about, and a refresh pays it. -/
structure IsRunDebt (B : Debt api) (keys : List (String × String)) (runID : String) : Prop where
  lawful : B.Lawful (outcomes keys)
  harmless : ∀ {β : Type} {s tid} {o : Op β} {env}, Harmless o → Undisturbed s tid o env →
    ¬ B.Due s → ¬ B.Due (exec o tid s env).1
  changed : ∀ {s s' : System} {jobID allowed f hf}, (∀ j, (f j).runID = j.runID) →
    s'.store = (s.store.casJob jobID allowed f hf).1 → ¬ B.Due s → B.Due s' →
    (s.store.casJob jobID allowed f hf).2 = true ∧
      ∃ j ∈ s.store.jobs.rows, j.jobID = jobID ∧ j.runID = runID
  cancelled : ∀ {s tid jobID env}, Undisturbed s tid (.updateJobStatus jobID .cancelled "") env →
    ¬ B.Due s → B.Due (exec (.updateJobStatus jobID .cancelled "") tid s env).1 →
    B.Pays (.updateRunStatus runID .cancelled : Op _)
  refresh : B.Owes (fun _ => False) (refreshRun runID)
  answered : ∀ {β : Type} {o : Op β} {r : β}, B.Answers o r → Answered o r

theorem countsDebt_isRunDebt : IsRunDebt (countsDebt runID) keys runID where
  lawful := countsDebt_lawful
  harmless hharmless hguard hbefore h := hbefore ((exec_harmless hharmless hguard).1 h)
  changed hrun hstore hbefore hafter := by
    refine casJob_changes hrun fun hsame => hbefore ?_
    simp only [countsDebt, hstore] at hafter
    rwa [Miscounted, hsame] at hafter
  cancelled {s tid jobID env} hguard hbefore hafter := by
    -- Neither an open job nor a cancelled one counts.
    refine absurd ?_ hbefore
    simp only [countsDebt, exec, System.write_store _ hguard.1, Option.getD_some] at hafter
    refine (miscounted_casJob_iff ?_ runID fun j hj hat => ?_).mp hafter
    · exact fun _ => rfl
    · have hid : j.jobID = jobID := by simpa [JobRecord.isAt] using hat
      have hopen := hguard.2 j hj hid
      cases hstatus : j.status <;>
        simp_all [JobRecord.withStatus, JobStatus.isTerminal, JobStatus.isFailure]
  refresh := refreshRun_owes_counts runID
  answered h := h

theorem statusDebt_isRunDebt : IsRunDebt (statusDebt runID) keys runID where
  lawful := statusDebt_lawful
  harmless hharmless hguard hbefore h := hbefore ((exec_harmless hharmless hguard).2 h)
  changed hrun hstore hbefore hafter := by
    refine casJob_changes hrun fun hsame => hbefore ?_
    simp only [statusDebt, hstore] at hafter
    rwa [Unclosed, hsame] at hafter
  cancelled _ _ _ := ⟨rfl, rfl⟩
  refresh := refreshRun_owes_status runID
  answered {β o r} h := by
    cases o with
    | listRunJobs =>
      obtain ⟨jobs, rfl, _⟩ := h
      exact ⟨jobs, rfl⟩
    | getRun => trivial
    | _ => exact h

/-- Whatever job there is with the id, it is a job of the run. -/
def Belongs (keys : List (String × String)) (jobID runID : String) : Prop :=
  ∀ k ∈ keys, k.1 = jobID → k.2 = runID

variable {jobID : String} {j : JobRecord}

theorem Belongs.runID_eq (h : Belongs keys jobID runID)
    (hkeys : jobKeys s = keys) (hj : j ∈ s.store.jobs.rows)
    (hid : j.jobID = jobID) : j.runID = runID := by
  subst hkeys
  exact h _ (mem_map_of_mem hj) hid

theorem belongs_of_mem (hj : j ∈ s.store.jobs.rows) : Belongs (jobKeys s) j.jobID j.runID := by
  intro k hk hid
  obtain ⟨j', hj', rfl⟩ := mem_map.mp hk
  exact congrArg JobRecord.runID (inj_on_of_nodup_map s.store.jobs.nodup hj' hj hid)

/-- A compare-and-set of one job that answers whether the row changed. -/
def ChangesJob (o : Op (Except StoreError Bool)) (jobID : String) : Prop :=
  ∀ s tid env, env.fails = false → ∃ allowed f hf, (∀ j, (f j).runID = j.runID) ∧
    (exec o tid s env).1.store = (s.store.casJob jobID allowed f hf).1 ∧
    (exec o tid s env).2 = .ok (s.store.casJob jobID allowed f hf).2

theorem changesJob_of_casJob {o : Op (Except StoreError Bool)}
    (h : ∀ s tid env, ∃ allowed f hf, exec o tid s env =
      s.compareAndSet env (s.store.casJob jobID allowed f hf) ∧ ∀ j, (f j).runID = j.runID) :
    ChangesJob o jobID := by
  intro s tid env hok
  obtain ⟨allowed, f, hf, hexec, hrun⟩ := h s tid env
  rw [hexec]
  exact ⟨allowed, f, hf, hrun, System.compareAndSet_store _ hok, by
    simp [System.compareAndSet, hok]⟩

section Accountable

variable {B : Debt api} (hB : IsRunDebt B keys runID)

include hB

variable {α : Type} {promised : α → Prop}

theorem accountable_of_harmless {p : Call α}
    (hp : p.All Harmless) : B.Accountable (outcomes keys) promised p :=
  .of_all hp fun hharmless _ _ hguard hbefore => hB.harmless hharmless hguard hbefore

variable {id : String} {job : JobRecord}

theorem accountable_of_changesJob {o : Op (Except StoreError Bool)}
    {f : Except StoreError Bool → Call α} (ho : ChangesJob o jobID)
    (hid : Belongs keys jobID id) (hf : ∀ r, B.Accountable (outcomes keys) promised (f r))
    (howes : id = runID → B.Owes promised (f (.ok true))) :
    B.Accountable (outcomes keys) promised (call o >>= f) := by
  refine Debt.accountable_op_bind.mpr fun s tid env hkeys _ hguard => ⟨fun hbefore hafter => ?_, hf _⟩
  obtain ⟨allowed, g, hg, hrun, hstore, hres⟩ :=
    ho s tid env (Undisturbed.fails (o := o) hguard)
  obtain ⟨hchanged, j, hj, hjob, hjrun⟩ := hB.changed hrun hstore hbefore hafter
  rw [hres, hchanged]
  exact howes ((hid.runID_eq hkeys hj hjob).symm.trans hjrun)

theorem recordJobResult_accountable (hid : Belongs keys jobID id)
    (executionID : String) (failed : Bool) (output stderr : String) (exitCode : ℤ) :
    B.Settles (outcomes keys)
      (recordJobResult id jobID executionID failed output stderr exitCode) := by
  apply accountable_of_changesJob hB (changesJob_of_casJob fun _ _ _ => ⟨_, _, _, rfl, by intro; rfl⟩) hid
  · rintro (_ | _ | _)
    · trivial
    · exact accountable_of_harmless hB (alreadyTerminal_harmless id jobID)
    · exact accountable_of_harmless hB (refreshRun_harmless id)
  · rintro rfl
    exact hB.refresh

theorem accountable_bind_harmless {γ : Type} {p : Call γ} {f : γ → Call α} (hp : p.All Harmless)
    (hf : ∀ a, B.Accountable (outcomes keys) promised (f a)) :
    B.Accountable (outcomes keys) promised (p >>= f) := by
  have hp' : B.Settles (outcomes keys) p := accountable_of_harmless hB hp
  exact hp'.bind hf fun _ h => h.elim

theorem accountable_of_coded (hid : Belongs keys jobID id) {code executionID output stderr : String}
    {failed : Bool} {exitCode : ℤ} {err : RunError} :
    B.Settles (outcomes keys) (call (.updateJobResultCode jobID code) >>= fun
      | .error _ => pure (.error err)
      | .ok false => alreadyTerminal id jobID
      | .ok true => recordJobResult id jobID executionID failed output stderr exitCode) := by
  apply accountable_bind_harmless hB (by simp [Harmless])
  rintro (_ | _ | _)
  · trivial
  · exact accountable_of_harmless hB (alreadyTerminal_harmless id jobID)
  · exact recordJobResult_accountable hB hid _ _ _ _ _

variable (now : ℤ)

theorem expireActionJob_accountable (hjob : Belongs keys job.jobID job.runID) :
    B.Settles (outcomes keys) (expireActionJob now job) := by
  apply accountable_of_changesJob hB
    (changesJob_of_casJob fun _ _ _ => ⟨_, _, _, rfl, by intro; rfl⟩) hjob
  · rintro (_ | _ | _)
    · trivial
    · trivial
    · apply accountable_of_harmless hB
      simp [Harmless, All.bind, refreshRun_harmless, tearDown_harmless]
  · rintro rfl
    apply Debt.Owes.skip
    intro _
    exact hB.refresh.bind fun _ h => h.elim

variable {jobs : List JobRecord}

theorem expireAll_accountable (hjobs : ∀ job ∈ jobs, Belongs keys job.jobID job.runID) :
    B.Settles (outcomes keys) (expireAll now jobs) := by
  induction jobs with
  | nil => trivial
  | cons job jobs ih =>
    rw [forall_mem_cons] at hjobs
    exact (expireActionJob_accountable hB now hjobs.1).bind (fun _ => ih hjobs.2)
      fun _ h => h.elim

theorem expireActionJobs_accountable :
    B.Settles (outcomes keys) (expireActionJobs now) := by
  refine Debt.accountable_op_bind.mpr fun s tid env hkeys _ hguard => ⟨fun hbefore hafter => ?_, ?_⟩
  · exact absurd hafter (hB.harmless trivial hguard hbefore)
  · have hok : env.fails = false := hguard
    simp only [exec, System.read, hok]
    apply expireAll_accountable hB
    intro job hjob
    exact hkeys ▸ belongs_of_mem (mem_listStaleActionJobs _ hjob).1

/-! ### Cancellation -/

variable {pays : Prop}

theorem cancelQueued_owes (hpays : pays) :
    B.Owes (fun a => a = .ok () ∧ pays) (cancelQueued job) := by
  unfold cancelQueued
  split
  · exact ⟨rfl, hpays⟩
  refine .inr fun r hr => ?_
  rcases hB.answered hr with rfl | ⟨_, _, rfl⟩ <;> exact ⟨rfl, hpays⟩

theorem cancelJob_owes (hpays : pays) : B.Owes (fun a => a = .ok () ∧ pays) (cancelJob job) := by
  apply (cancelQueued_owes hB hpays).bind
  rintro _ ⟨rfl, _⟩
  apply Debt.Owes.skip
  intro _
  refine .inr fun r hr => ?_
  obtain rfl : r = .ok () := hB.answered hr
  exact ⟨rfl, hpays⟩

theorem cancelJobs_owes (hpays : pays) : B.Owes (fun a => a = .ok () ∧ pays) (cancelJobs jobs) := by
  induction jobs with
  | nil => exact ⟨rfl, hpays⟩
  | cons job jobs ih =>
    unfold cancelJobs
    split
    · exact ih
    apply (cancelJob_owes hB hpays).bind
    rintro _ ⟨rfl, _⟩
    exact ih

theorem cancelJob_accountable (hjob : Belongs keys job.jobID id) : B.Accountable (outcomes keys)
      (fun a => a = .ok () ∧ B.Pays (.updateRunStatus id .cancelled : Op _)) (cancelJob job) := by
  apply accountable_bind_harmless hB (cancelQueued_harmless job)
  rintro (_ | _)
  · trivial
  apply accountable_bind_harmless hB (releaseCancelled_harmless job)
  intro _
  refine Debt.accountable_op_bind.mpr fun s tid env hkeys _ hguard => ?_
  change Undisturbed s tid (.updateJobStatus job.jobID .cancelled "") env at hguard
  have hok : env.fails = false := hguard.1
  constructor
  · intro hbefore hafter
    obtain ⟨_, j, hj, hid, hrun⟩ :=
      hB.changed (f := JobRecord.withStatus .cancelled "" s.now) (fun _ => rfl)
        (System.write_store _ hok) hbefore hafter
    obtain rfl : id = runID := (hjob.runID_eq hkeys hj hid).symm.trans hrun
    simp only [exec, System.write, hok]
    exact ⟨rfl, hB.cancelled hguard hbefore hafter⟩
  · simp only [exec, System.write, hok]
    trivial

theorem cancelJobs_accountable (hjobs : ∀ job ∈ jobs, Belongs keys job.jobID id) :
    B.Accountable (outcomes keys)
      (fun a => a = .ok () ∧ B.Pays (.updateRunStatus id .cancelled : Op _)) (cancelJobs jobs) := by
  induction jobs with
  | nil => trivial
  | cons job jobs ih =>
    rw [forall_mem_cons] at hjobs
    unfold cancelJobs
    split
    · exact ih hjobs.2
    apply (cancelJob_accountable hB hjobs.1).bind
    · rintro (_ | _)
      · trivial
      · exact ih hjobs.2
    · rintro _ ⟨rfl, hpays⟩
      exact cancelJobs_owes hB hpays

theorem cancelRun_accountable (id : String) :
    B.Settles (outcomes keys) (cancelRun id) := by
  apply accountable_bind_harmless hB (by simp [Harmless])
  rintro ((_ | _) | run)
  · trivial
  · trivial
  dsimp only
  split
  · trivial
  refine Debt.accountable_op_bind.mpr fun s tid env hkeys _ hguard =>
    ⟨fun hbefore hafter => absurd hafter (hB.harmless trivial hguard hbefore), ?_⟩
  have hok : env.fails = false := hguard
  have hjobs : ∀ job ∈ s.store.listRunJobs id, Belongs keys job.jobID id := by
    intro job hjob
    obtain ⟨hrow, hrun⟩ := mem_filter.mp hjob
    obtain rfl : job.runID = id := by simpa using hrun
    exact hkeys ▸ belongs_of_mem hrow
  simp only [exec, System.read, hok]
  apply (cancelJobs_accountable hB hjobs).bind
  · rintro (_ | _)
    · trivial
    · exact accountable_of_harmless hB (by simp [forall_except, Harmless])
  · rintro _ ⟨rfl, hpays⟩
    exact .inl hpays

theorem code_accountable {s : System} (hkeys : jobKeys s = keys) {c : OutcomeCall}
    (hc : c.Addressed s) : B.Settles (outcomes keys) c.code := by
  subst hkeys
  have hbelongs : ∀ {jobID runID}, (∀ j ∈ s.store.jobs.rows, j.jobID = jobID → j.runID = runID) →
      Belongs (jobKeys s) jobID runID := by
    intro jobID runID h k hk hid
    obtain ⟨j, hj, rfl⟩ := mem_map.mp hk
    exact h j hj hid
  cases c with
  | cancelRun =>
    exact (cancelRun_accountable hB _).bind (fun _ => trivial) fun _ h => h.elim
  | recordJobResult =>
    exact (recordJobResult_accountable hB (hbelongs hc) _ _ _ _ _).bind (fun _ => trivial)
      fun _ h => h.elim
  | recordActionResult | recordJobRefused =>
    exact (accountable_of_coded hB (hbelongs hc)).bind (fun _ => trivial)
      fun _ h => h.elim
  | claimActionDispatch =>
    exact accountable_bind_harmless hB (claimActionDispatch_harmless _ _ _ _) fun _ => trivial
  | expireActionJobs => exact expireActionJobs_accountable hB _

end Accountable

variable {α : Type} {p : Call α}

theorem safe_of_all (hp : p.All OutcomePre) : (outcomes keys).Runs tid s p :=
  .of_all (K := fun _ => True) hp (fun hpre _ _ => hpre) (fun _ _ => trivial)
    (fun _ _ _ _ => trivial) trivial

theorem recordJobResult_pre (runID jobID executionID : String) (failed : Bool)
    (output stderr : String) (exitCode : ℤ) :
    (recordJobResult runID jobID executionID failed output stderr exitCode).All OutcomePre := by
  have halready := (alreadyTerminal_harmless runID jobID).mono Harmless.outcomePre
  have hrefresh := (refreshRun_harmless runID).mono Harmless.outcomePre
  simp [recordJobResult, forall_except, OutcomePre, halready, hrefresh]

theorem recordActionResult_pre (runID jobID executionID resultCode : String) :
    (recordActionResult runID jobID executionID resultCode).All OutcomePre := by
  have halready := (alreadyTerminal_harmless runID jobID).mono Harmless.outcomePre
  simp [recordActionResult, forall_except, OutcomePre, halready, recordJobResult_pre]

theorem recordJobRefused_pre (runID jobID executionID : String) :
    (recordJobRefused runID jobID executionID).All OutcomePre := by
  have halready := (alreadyTerminal_harmless runID jobID).mono Harmless.outcomePre
  simp [recordJobRefused, forall_except, OutcomePre, halready, recordJobResult_pre]

theorem cancelJob_pre : (cancelJob job).All OutcomePre := by
  apply ((cancelQueued_harmless job).mono Harmless.outcomePre).bind
  have hrelease := (releaseCancelled_harmless job).mono Harmless.outcomePre
  simp [forall_except, OutcomePre, hrelease.bind]

theorem cancelJobs_pre : (cancelJobs jobs).All OutcomePre := by
  induction jobs with
  | nil => trivial
  | cons job jobs ih => simp [cancelJobs, (cancelJob_pre job).bind, forall_except, ih]

theorem cancelRun_pre (runID : String) : (cancelRun runID).All OutcomePre := by
  have hjobs := cancelJobs_pre
  simp only [cancelRun, op_bind, all_call, forall_except, OutcomePre, true_and]
  refine ⟨by rintro (_ | _) <;> trivial, fun run => ?_⟩
  simp [forall_except, OutcomePre, (hjobs _).bind]

variable (now : ℤ)

theorem expireActionJob_pre {job : JobRecord} (hjob : job.status.isTerminal = false) :
    (expireActionJob now job).All OutcomePre := by
  have htear := (tearDown_harmless job).mono Harmless.outcomePre
  have hrefresh := (refreshRun_harmless job.runID).mono Harmless.outcomePre
  simp [expireActionJob, forall_except, OutcomePre, hjob, htear.bind, hrefresh.bind]

theorem expireAll_pre {jobs : List JobRecord}
    (hjobs : ∀ job ∈ jobs, job.status.isTerminal = false) :
    (expireAll now jobs).All OutcomePre := by
  induction jobs with
  | nil => trivial
  | cons job jobs ih =>
    rw [forall_mem_cons] at hjobs
    exact (expireActionJob_pre now hjobs.1).bind fun _ => ih hjobs.2

theorem expireActionJobs_safe :
    (outcomes keys).Runs tid s (expireActionJobs now) := by
  refine Discipline.safe_call.mpr fun s' _ _ => ⟨trivial, fun env hguard => ?_⟩
  have hok : env.fails = false := hguard
  simp only [exec, System.read, hok]
  apply safe_of_all
  apply expireAll_pre
  intro job hjob
  exact (mem_listStaleActionJobs _ hjob).2

theorem code_safe (c : OutcomeCall) : (outcomes keys).Runs tid s c.code := by
  cases c with
  | cancelRun => exact safe_of_all ((cancelRun_pre _).bind fun _ => trivial)
  | recordJobResult =>
    exact safe_of_all ((recordJobResult_pre _ _ _ _ _ _ _).bind fun _ => trivial)
  | recordActionResult =>
    exact safe_of_all ((recordActionResult_pre _ _ _ _).bind fun _ => trivial)
  | recordJobRefused => exact safe_of_all ((recordJobRefused_pre _ _ _).bind fun _ => trivial)
  | claimActionDispatch =>
    exact safe_of_all (((claimActionDispatch_harmless _ _ _ _).mono Harmless.outcomePre).bind
      fun _ => trivial)
  | expireActionJobs => exact expireActionJobs_safe _

/-- The calls that begin are addressed and their operations are undisturbed. -/
def OutcomeCall.Permitted (p : Pool api) (a : PoolAction OutcomeCall Env) : Prop :=
  Pool.Permitted (fun s c => c.Addressed s) Undisturbed p a

instance (p : Pool api) (a : PoolAction OutcomeCall Env) : Decidable (OutcomeCall.Permitted p a) :=
  inferInstanceAs (Decidable (Pool.Permitted _ _ _ _))

theorem sound_of_start (s : System) : (outcomes (jobKeys s)).Sound ⟨s, []⟩ := by
  constructor
  · rfl
  · intro tid q hq
    cases hq

theorem run_not_due {B : Debt api} {p : Pool api} {as : List (PoolAction OutcomeCall Env)}
    (hB : IsRunDebt B (jobKeys s) runID) (hstart : ¬ B.Due s)
    (hguarded : (Pool.machine OutcomeCall.code).Guarded OutcomeCall.Permitted ⟨s, []⟩ as)
    (hrun : (Pool.machine OutcomeCall.code).run ⟨s, []⟩ as = some p) (hidle : p.Idle) :
    ¬ B.Due p.state := by
  have hcovered : B.Covered (outcomes (jobKeys s)) ⟨s, []⟩ := by
    constructor
    · exact sound_of_start s
    · exact fun hdue => absurd hdue hstart
    · intro q hq
      cases hq
  exact (Debt.run_covered hB.lawful (fun _ c _ _ _ => code_safe c)
    (fun _ _ hkeys hc => code_accountable hB hkeys hc) hcovered hguarded hrun).not_due hidle

/-- What has ended never changes, and a run that is consistent at the start is consistent
whenever no call is under way. -/
theorem outcomes_final_and_consistent {p p' : Pool api} {as bs : List (PoolAction OutcomeCall Env)}
    (hcounts : ¬ s.store.Miscounted runID) (hclosed : ¬ s.store.Unclosed runID)
    (hguarded : (Pool.machine OutcomeCall.code).Guarded OutcomeCall.Permitted ⟨s, []⟩ (as ++ bs))
    (hrun : (Pool.machine OutcomeCall.code).run ⟨s, []⟩ as = some p)
    (hrun' : (Pool.machine OutcomeCall.code).run p bs = some p') :
    p.state.store.Final p'.state.store ∧
      (p'.Idle → ¬ p'.state.store.Miscounted runID ∧ ¬ p'.state.store.Unclosed runID) := by
  have hboth : (Pool.machine OutcomeCall.code).run ⟨s, []⟩ (as ++ bs) = some p' := by
    rw [Machine.run_append, hrun, Option.bind_some, hrun']
  constructor
  · obtain ⟨hg, hg'⟩ := Machine.guarded_append _ hguarded hrun
    have hsound : (outcomes (jobKeys s)).Sound p :=
      Discipline.run_sound (fun _ c _ _ _ => code_safe c) (sound_of_start s) hg hrun
    exact Discipline.run_rel (R := fun s s' => s.store.Final s'.store) (fun _ => .refl)
      (fun _ _ _ => .trans) (fun _ hpre hguard => (exec_outcomeStep hpre hguard).final)
      (fun _ c _ _ _ => code_safe c) hsound hg' hrun'
  · intro hidle
    exact ⟨run_not_due countsDebt_isRunDebt hcounts hguarded hboth hidle,
      run_not_due statusDebt_isRunDebt hclosed hguarded hboth hidle⟩

def pendingJob (jobID deviceID executionID : String) : JobRecord where
  jobID := jobID
  runID := "run-1"
  deviceID := deviceID
  executionID := executionID
  status := .pending
  createdAt := 0
  completedAt := none
  output := ""
  stderr := ""
  exitCode := 0
  resultCode := ""
  dispatchedAt := none

def startedRun : RunRecord where
  runID := "run-1"
  tenantID := "acme"
  createdBy := "operator"
  createdAt := 0
  status := .running
  scriptRef := "cleanup"
  inlineContent := ""
  shell := "bash"
  jobCount := 2
  completedJobs := 0
  failedJobs := 0
  kind := .script

theorem startedJobs_nodup : ([pendingJob "job-1" "dev-1" "exec-1",
    pendingJob "job-2" "dev-2" "exec-2"].map JobRecord.jobID).Nodup := by decide

/-- A run of two pending jobs, as synthesis leaves it. -/
def startedSystem : System where
  now := 0
  store := ⟨⟨[startedRun], nodup_singleton _⟩, ⟨_, startedJobs_nodup⟩⟩
  queue := .empty
  full := []
  lockMeta := .empty
  history := .empty

def calm : Env := ⟨false, fun _ => 0, "", 0, true, .sent⟩

def ticks (tid n : ℕ) : List (PoolAction OutcomeCall Env) := List.replicate n (.tick tid calm)

def firstResult : OutcomeCall := .recordJobResult "run-1" "job-1" "exec-1" false "done" "" 0

theorem outcomes_final_and_consistent_cancelAfterResult :
    ∃ p p', (Pool.machine OutcomeCall.code).run ⟨startedSystem, []⟩
        (.start firstResult :: ticks 0 3) = some p ∧
      (Pool.machine OutcomeCall.code).run p (.start (.cancelRun "run-1") :: ticks 1 6) = some p' ∧
      p.state.store.Final p'.state.store ∧ ¬ p'.state.store.Miscounted "run-1" ∧
      ¬ p'.state.store.Unclosed "run-1" := by
  have hrun : ((Pool.machine OutcomeCall.code).run ⟨startedSystem, []⟩
      (.start firstResult :: ticks 0 3)).any fun p =>
      ((Pool.machine OutcomeCall.code).run p (.start (.cancelRun "run-1") :: ticks 1 6)).any
        fun p' => p'.Idle := by decide +kernel
  obtain ⟨p, hp, hrun'⟩ := (Option.any_eq_true _ _).mp hrun
  obtain ⟨p', hp', hidle⟩ := (Option.any_eq_true _ _).mp hrun'
  have hcounts : ¬ startedSystem.store.Miscounted "run-1" := by decide +kernel
  have hclosed : ¬ startedSystem.store.Unclosed "run-1" := by decide +kernel
  obtain ⟨hfinal, hconsistent⟩ :=
    outcomes_final_and_consistent hcounts hclosed (by decide +kernel) hp hp'
  exact ⟨p, p', hp, hp', hfinal, hconsistent (by simpa using hidle)⟩

/-- The cancellation lists the jobs, the first job completes, and the cancellation overwrites it
and leaves the count of completed jobs as it is. -/
theorem completed_job_cancelled :
    ¬ startedSystem.store.Miscounted "run-1" ∧ ¬ startedSystem.store.Unclosed "run-1" ∧
    ∃ p p', (Pool.machine OutcomeCall.code).run ⟨startedSystem, []⟩
        (.start (.cancelRun "run-1") :: .start firstResult :: (ticks 0 2 ++ ticks 1 1)) = some p ∧
      (Pool.machine OutcomeCall.code).run p (ticks 1 2 ++ ticks 0 7) = some p' ∧ p'.Idle ∧
      ¬ p.state.store.Final p'.state.store ∧ p'.state.store.Miscounted "run-1" := by
  refine ⟨by decide +kernel, by decide +kernel, ?_⟩
  have hrun : ((Pool.machine OutcomeCall.code).run ⟨startedSystem, []⟩
      (.start (.cancelRun "run-1") :: .start firstResult :: (ticks 0 2 ++ ticks 1 1))).any fun p =>
      decide ((p.state.store.jobs.get "job-1").map (·.status) = some .completed) &&
      ((Pool.machine OutcomeCall.code).run p (ticks 1 2 ++ ticks 0 7)).any
        fun p' => p'.Idle ∧ p'.state.store.Miscounted "run-1" ∧
          (p'.state.store.jobs.get "job-1").map (·.status) = some .cancelled := by decide +kernel
  obtain ⟨p, hp, hrun'⟩ := (Option.any_eq_true _ _).mp hrun
  obtain ⟨hcompleted, hrun'⟩ := (Bool.and_eq_true _ _).mp hrun'
  obtain ⟨p', hp', h⟩ := (Option.any_eq_true _ _).mp hrun'
  obtain ⟨hidle, hcounts, hcancelled⟩ := of_decide_eq_true h
  refine ⟨p, p', hp, hp', hidle, fun hfinal => ?_, hcounts⟩
  obtain ⟨j, hj, hstatus⟩ := Option.map_eq_some_iff.mp (of_decide_eq_true hcompleted)
  obtain ⟨j', hj', hstatus'⟩ := hfinal.jobs "job-1" j hj (by rw [hstatus]; rfl)
  rw [hj', Option.map_some, hstatus', hstatus] at hcancelled
  cases hcancelled

end Cfgms.Dispatch
