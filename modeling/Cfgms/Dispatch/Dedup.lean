import Cfgms.Dispatch.Synthesis
import Cfgms.Script.Dedup

/-! # Synthesized runs and de-duplication

A synthesis that succeeds has created one job for each device. A job has an active entry in
the queue exactly if the queue did not refuse it as a duplicate.
-/

namespace Cfgms.Dispatch

open Ordered Script Run Program List Table

def isFresh : {β : Type} → System → ℕ → Op β → Env → Bool
  | _, s, _, .newID, env => env.uuid ∉ s.history.issued ∧
    (∀ e ∈ s.queue.rows, e.executionID ≠ env.uuid) ∧ ∀ j ∈ s.store.jobs.rows, j.runID ≠ env.uuid
  | _, _, _, _, _ => true

def Fresh {β : Type} (s : System) (tid : ℕ) (o : Op β) (env : Env) : Prop := isFresh s tid o env

instance {β : Type} (s : System) (tid : ℕ) (o : Op β) (env : Env) :
    Decidable (Fresh s tid o env) := inferInstanceAs (Decidable (_ = true))

/-- Every job has an active entry under its own execution id. -/
def Served (q : QueueStore) (jobs : List JobRecord) : Prop :=
  ∀ j ∈ jobs, ∃ e ∈ q.rows, e.executionID = j.executionID ∧ e.state.active

/-- The executions of a plan get a key that depends on the device alone. -/
structure SynthesisPlan.Keyed (plan : SynthesisPlan) (cfg : Config) (key : String → String) :
    Prop where
  executionID : ∀ runID jobID executionID device now,
    (plan.execution runID jobID executionID device now).executionID = executionID
  paramHash : ∀ runID jobID executionID device now,
    (plan.execution runID jobID executionID device now).paramHash cfg.hash device.id =
      key device.id

variable {cfg : Config} {tid : ℕ} {s s' : System}

variable {q : QueueStore} {deviceID : String} {x : QueuedExecution} {now : ℤ}

variable {e : QueueEntry}

theorem duplicates_store (hnew : e.executionID ∉ q.rows.map QueueEntry.executionID)
    (hqueued : e.state = .queued) (deviceID key : String) :
    QueueStore.duplicates (q.store e) deviceID key = true ↔
      QueueStore.duplicates q deviceID key = true ∨ e.deviceID = deviceID ∧ e.paramHash = key := by
  simp [QueueStore.duplicates, rows_store_of_new hnew, hqueued]

theorem queueExecution_ends {r : Except QueueError Unit}
    (h : Ends Fresh tid s (queueExecution cfg deviceID x) s' r) :
    s'.store = s.store ∧ s'.history = s.history ∧
      ((r = .ok () ∧ QueueStore.queueExecution cfg.hash cfg.maxAge s.queue deviceID s.now x =
          .ok s'.queue) ∨
        s'.queue = s.queue ∧ (r = .error .storage ∨ ∃ e, r = .error e ∧
          QueueStore.queueExecution cfg.hash cfg.maxAge s.queue deviceID s.now x = .error e)) := by
  obtain ⟨env, -, h⟩ := h
  simp only [exec, QueueStore.queueExecution] at h ⊢
  cases hmetadata : x.metadataWithReserved with
  | error e =>
    rw [hmetadata] at h
    obtain ⟨rfl, rfl⟩ := ends_done.mp h
    exact ⟨rfl, rfl, .inr ⟨rfl, .inr ⟨e, rfl, rfl⟩⟩⟩
  | ok metadata =>
    rw [hmetadata] at h
    obtain ⟨env', -, h⟩ := h
    simp only [exec, System.onQueue] at h
    split at h
    · obtain ⟨rfl, rfl⟩ := ends_done.mp h
      exact ⟨rfl, rfl, .inr ⟨rfl, .inl rfl⟩⟩
    · next e _ henqueue =>
      obtain ⟨rfl, rfl⟩ := ends_done.mp h
      exact ⟨rfl, rfl, .inr ⟨rfl, .inr ⟨e, rfl, henqueue⟩⟩⟩
    · next q _ henqueue =>
      obtain ⟨rfl, rfl⟩ := ends_done.mp h
      exact ⟨rfl, rfl, .inl ⟨rfl, henqueue⟩⟩

variable {K : HashConfig} {maxAge : ℤ}

theorem queueExecution_eq_ok {q' : QueueStore}
    (h : QueueStore.queueExecution K maxAge q deviceID now x = .ok q') :
    QueueStore.duplicates q deviceID (x.paramHash K deviceID) = false ∧
      ∃ metadata, q' = q.store (x.entry K maxAge deviceID now metadata) := by
  unfold QueueStore.queueExecution QueueStore.enqueue at h
  split at h
  · cases h
  next metadata _ =>
  split at h
  · cases h
  · next hnew => exact ⟨eq_false_of_ne_true hnew, metadata, (Except.ok.inj h).symm⟩

theorem queueExecution_eq_duplicate
    (h : QueueStore.queueExecution K maxAge q deviceID now x = .error .duplicateExecution) :
    QueueStore.duplicates q deviceID (x.paramHash K deviceID) = true := by
  unfold QueueStore.queueExecution QueueStore.enqueue at h
  split at h
  · next e hmetadata =>
    cases h
    exact absurd hmetadata (Backlog.metadataWithReserved_ne_duplicate x)
  · split at h
    · next hold => exact hold
    · cases h

/-- Where the queue takes an execution, its entry is stored, and where it does not, a queued
entry has its key. -/
def Enqueues (deviceID key executionID : String) (q q' : QueueStore) : Prop :=
  QueueStore.duplicates q deviceID key = true ∧ q' = q ∨
    QueueStore.duplicates q deviceID key = false ∧ ∃ e, e.executionID = executionID ∧
      e.deviceID = deviceID ∧ e.paramHash = key ∧ e.state = .queued ∧ q' = q.store e

variable {p p' : SynthesisProgress} {keyOf : String → String}

theorem enqueue_ends (h : Ends Fresh tid s (p.enqueue cfg deviceID x) s' (.ok p')) :
    s'.store = s.store ∧ s'.history = s.history ∧
      Enqueues deviceID (x.paramHash cfg.hash deviceID) x.executionID s.queue s'.queue := by
  obtain ⟨s₁, r, hqueue, hrest⟩ := ends_bind.mp h
  obtain ⟨hstore, hhistory, hcases⟩ := queueExecution_ends hqueue
  rcases hcases with ⟨rfl, hok⟩ | ⟨hkept, hfailed⟩
  · obtain ⟨rfl, _⟩ := ends_done.mp hrest
    obtain ⟨hnew, metadata, hqueue'⟩ := queueExecution_eq_ok hok
    exact ⟨hstore, hhistory, .inr ⟨hnew, _, rfl, rfl, rfl, rfl, hqueue'⟩⟩
  · have hrefused : r = .error .duplicateExecution ∧ s' = s₁ := by
      rcases hfailed with rfl | ⟨e, rfl, _⟩
      · cases (ends_done.mp hrest).2
      cases e with
      | duplicateExecution => exact ⟨rfl, (ends_done.mp hrest).1⟩
      | _ => cases (ends_done.mp hrest).2
    obtain ⟨rfl, rfl⟩ := hrefused
    rcases hfailed with hstorage | ⟨e, he, herror⟩
    · cases hstorage
    · cases he
      exact ⟨hstore, hhistory, .inl ⟨queueExecution_eq_duplicate herror, hkept⟩⟩

/-- The ids that no later draw gives again. -/
def System.Knows (s : System) (id : String) : Prop :=
  id ∈ s.history.issued ∨ id ∈ s.queue.rows.map QueueEntry.executionID

variable {runID : String} {plan : SynthesisPlan}

/-- What one round of the loop does: a job with a new execution id, and its entry unless a
queued one has its key. -/
theorem round_ends (hplan : plan.Keyed cfg keyOf) {device : StewardResult}
    {devices : List StewardResult}
    (h : Ends Fresh tid s (synthesizeJobs cfg plan runID now (device :: devices) p) s' (.ok p')) :
    ∃ s₁ p₁ job, Ends Fresh tid s₁ (synthesizeJobs cfg plan runID now devices p₁) s' (.ok p') ∧
      job.runID = runID ∧ ¬ s.Knows job.executionID ∧ s₁.Knows job.executionID ∧
      (∀ id, s.Knows id → s₁.Knows id) ∧ s₁.store.jobs.rows = s.store.jobs.rows ++ [job] ∧
      Enqueues device.id (keyOf device.id) job.executionID s.queue s₁.queue := by
  obtain ⟨env, -, h⟩ := ends_op_bind.mp h
  obtain ⟨env₁, hfresh, h⟩ := ends_op_bind.mp h
  obtain ⟨hissued, hqueue, -⟩ := of_decide_eq_true hfresh
  obtain ⟨env₂, -, h⟩ := ends_op_bind.mp h
  simp only [exec] at h
  generalize hs₂ : (s.issue env.uuid).issue env₁.uuid = s₂ at h
  have hnew : ¬ s.Knows env₁.uuid := by
    rintro (hold | hold)
    · exact hissued (mem_cons_of_mem _ hold)
    · obtain ⟨e, he, hid⟩ := mem_map.mp hold
      exact hqueue e he hid
  split at h
  · -- A failure is rolled back and reported.
    obtain ⟨_, _, _, hfailed⟩ := ends_bind.mp h
    cases (ends_done.mp hfailed).2
  · next u hcreated =>
    obtain ⟨store, hstore, hafter⟩ := System.write_eq_ok hcreated
    rw [hafter] at h
    obtain ⟨s₄, r, henqueue, hrest⟩ := ends_bind.mp h
    cases r with
    | error e =>
      obtain ⟨_, _, _, hfailed⟩ := ends_bind.mp hrest
      cases (ends_done.mp hfailed).2
    | ok p₁ =>
      obtain ⟨hstore₄, hhistory₄, hcases⟩ := enqueue_ends henqueue
      rw [hplan.paramHash, hplan.executionID] at hcases
      have hissued₄ : s₄.history.issued = env₁.uuid :: env.uuid :: s.history.issued := by
        rw [hhistory₄, ← hs₂]
        rfl
      have hrows : s₄.store.jobs.rows = s.store.jobs.rows ++
          [newJob runID env.uuid env₁.uuid device.id now] := by
        rw [hstore₄, RunStore.createJob_eq_some hstore, ← hs₂]
        rfl
      subst hs₂
      refine ⟨s₄, p₁, _, hrest, rfl, hnew, .inl (hissued₄ ▸ mem_cons_self), ?_, hrows, hcases⟩
      rintro id (hold | hold)
      · rw [System.Knows, hissued₄]
        exact .inl (mem_cons_of_mem _ (mem_cons_of_mem _ hold))
      right
      rcases hcases with ⟨_, hkept⟩ | ⟨_, e, hid, _, _, _, hstored⟩
      · rw [hkept]
        exact hold
      have he : e.executionID ∉ s.queue.rows.map QueueEntry.executionID :=
        fun h => hnew (.inr (hid ▸ h))
      have hrows₄ : s₄.queue.rows = s.queue.rows ++ [e] := hstored ▸ rows_store_of_new he
      rw [hrows₄, map_append]
      exact mem_append_left _ hold

theorem served_cons_iff {job : JobRecord} {jobs : List JobRecord} :
    Served q (job :: jobs) ↔
      (∃ e, q.get job.executionID = some e ∧ e.state.active) ∧ Served q jobs := by
  rw [Served, forall_mem_cons]
  apply and_congr_left'
  constructor
  · rintro ⟨e, he, hid, hactive⟩
    exact ⟨e, get_eq_some_iff.mpr ⟨he, hid⟩, hactive⟩
  · rintro ⟨e, hget, hactive⟩
    obtain ⟨he, hid⟩ := get_eq_some_iff.mp hget
    exact ⟨e, he, hid, hactive⟩

theorem free_store_iff (hnew : e.executionID ∉ q.rows.map QueueEntry.executionID)
    (hqueued : e.state = .queued) (hkey : e.paramHash = keyOf e.deviceID) (devices : List StewardResult) :
    (∀ d ∈ devices, QueueStore.duplicates (q.store e) d.id (keyOf d.id) = false) ↔
      e.deviceID ∉ devices.map StewardResult.id ∧
        ∀ d ∈ devices, QueueStore.duplicates q d.id (keyOf d.id) = false := by
  simp only [← Bool.not_eq_true, duplicates_store hnew hqueued, not_or]
  constructor
  · intro h
    refine ⟨fun hmem => ?_, fun d hd => (h d hd).1⟩
    obtain ⟨d, hd, hid⟩ := mem_map.mp hmem
    exact (h d hd).2 ⟨hid.symm, hid ▸ hkey⟩
  · rintro ⟨hmem, h⟩ d hd
    exact ⟨h d hd, fun hsame => hmem (hsame.1 ▸ mem_map_of_mem hd)⟩

/-- After the loop, the new jobs are served exactly if no device came twice and none had an
entry queued with its key. -/
theorem synthesizeJobs_ends (hplan : plan.Keyed cfg keyOf) {devices : List StewardResult}
    (h : Ends Fresh tid s (synthesizeJobs cfg plan runID now devices p) s' (.ok p')) :
    ∃ jobs, s'.store.jobs.rows = s.store.jobs.rows ++ jobs ∧ (∀ j ∈ jobs, j.runID = runID) ∧
      (∀ id, s.Knows id → s'.queue.get id = s.queue.get id) ∧
      (Served s'.queue jobs ↔ (devices.map StewardResult.id).Nodup ∧
        ∀ d ∈ devices, QueueStore.duplicates s.queue d.id (keyOf d.id) = false) := by
  induction devices generalizing s p with
  | nil =>
    obtain ⟨rfl, _⟩ := ends_done.mp h
    exact ⟨[], by simp, by simp, fun _ _ => rfl, by simp [Served]⟩
  | cons device devices ih =>
    obtain ⟨s₁, p₁, job, hrest, hrun, hnew, hknown, hknows, hrows, hround⟩ := round_ends hplan h
    obtain ⟨jobs, hrows', hruns, hkept, hserved⟩ := ih hrest
    refine ⟨job :: jobs, by simp [hrows', hrows], forall_mem_cons.mpr ⟨hrun, hruns⟩, ?_, ?_⟩
    · intro id hid
      rw [hkept id (hknows id hid)]
      rcases hround with ⟨_, hqueue⟩ | ⟨_, e, he, _, _, _, hqueue⟩
      · rw [hqueue]
      · have hne : e.executionID ≠ id := fun heq => hnew (he ▸ heq ▸ hid)
        rw [hqueue, get_store, if_neg hne]
    · rw [served_cons_iff, hserved, hkept _ hknown, map_cons, nodup_cons,
        forall_mem_cons]
      rcases hround with ⟨hold, hqueue⟩ | ⟨hfree, e, he, hdevice, hkey, hqueued, hqueue⟩
      · -- The queue holds an entry with the key: the job has none under its own id.
        have hnone : ¬ ∃ e, s.queue.get job.executionID = some e ∧ e.state.active := by
          rintro ⟨e, hget, _⟩
          obtain ⟨he, hid⟩ := get_eq_some_iff.mp hget
          exact hnew (.inr (hid ▸ mem_map_of_mem he))
        rw [hqueue]
        simp [hnone, hold]
      · have hid : e.executionID ∉ s.queue.rows.map QueueEntry.executionID :=
          fun h => hnew (.inr (he ▸ h))
        have hget : s₁.queue.get job.executionID = some e := by
          rw [hqueue, get_store, if_pos he]
        have hactive : ∃ e', s₁.queue.get job.executionID = some e' ∧ e'.state.active :=
          ⟨e, hget, by rw [hqueued]; rfl⟩
        rw [hqueue, free_store_iff hid hqueued (hdevice ▸ hkey), ← hqueue, hdevice]
        tauto

/-- The jobs of a new run are served exactly if no device came twice and none had an entry
queued with its key. -/
theorem synthesizeRun_ends (hplan : plan.Keyed cfg keyOf)
    (h : Ends Fresh tid s (synthesizeRun cfg plan) s' (.ok runID)) :
    Served s'.queue (s'.store.listRunJobs runID) ↔
      (plan.devices.map StewardResult.id).Nodup ∧
        ∀ d ∈ plan.devices, QueueStore.duplicates s.queue d.id (keyOf d.id) = false := by
  obtain ⟨env, hfresh, h⟩ := ends_op_bind.mp h
  obtain ⟨-, -, hjobs⟩ := of_decide_eq_true hfresh
  obtain ⟨_, -, h⟩ := ends_op_bind.mp h
  obtain ⟨env₂, -, h⟩ := ends_op_bind.mp h
  simp only [exec] at h
  split at h
  · cases (ends_done.mp h).2
  next u hcreated =>
  obtain ⟨store, hstore, hafter⟩ := System.write_eq_ok hcreated
  rw [hafter] at h
  obtain ⟨s₁, r, hloop, h⟩ := ends_bind.mp h
  cases r with
  | error e => cases (ends_done.mp h).2
  | ok p =>
    obtain ⟨jobs, hrows, hruns, -, hserved⟩ := synthesizeJobs_ends hplan hloop
    rw [RunStore.createRun_eq_some hstore] at hrows
    obtain ⟨env₃, -, h⟩ := ends_op_bind.mp h
    simp only [exec] at h
    split at h
    · obtain ⟨_, _, _, hfailed⟩ := ends_bind.mp h
      cases (ends_done.mp hfailed).2
    next u hupdated =>
    obtain ⟨rfl, hrunID⟩ := ends_done.mp h
    cases hrunID
    obtain ⟨store', hstore', hafter'⟩ := System.write_eq_ok hupdated
    cases hstore'
    -- No job that was there before is one of the new run.
    have hlist : (s₁.store.updateRunStatus env.uuid .running).listRunJobs env.uuid = jobs := by
      have hold : s.store.jobs.rows.filter (fun j => j.runID = env.uuid) = [] := by
        simpa using hjobs
      have hnew : jobs.filter (fun j => j.runID = env.uuid) = jobs := by
        simpa using hruns
      change s₁.store.jobs.rows.filter _ = jobs
      rw [hrows, filter_append, hnew]
      exact congrArg (· ++ jobs) hold
    rw [hafter', hlist]
    exact hserved

/-- A call that creates a run over given devices. -/
inductive RunRequest where
  | script (q : ScriptRunRequest)
  | command (q : CommandRunRequest)
  | action (q : ActionRunRequest)

namespace RunRequest

def synthesize (cfg : Config) : RunRequest → Call (Except RunError String)
  | .script q => synthesizeScriptRunForDevices cfg q
  | .command q => synthesizeCommandRunForDevices cfg q
  | .action q => synthesizeActionRunForDevices cfg q

def devices : RunRequest → List StewardResult
  | .script q => q.devices
  | .command q => q.devices
  | .action q => q.devices

/-- The key that the request's execution gets on a device. -/
def key (cfg : Config) : RunRequest → String → String
  | .script q, deviceID =>
    match q.resolveAll q.devices .empty with
    | .error _ => ""
    | .ok resolved => computeParamHash cfg.hash q.scriptRef deviceID
        ((resolved.get deviceID).getD .empty) .script none
  | .command q, deviceID => computeParamHash cfg.hash "" deviceID q.params .script none
  | .action q, deviceID =>
    computeParamHash cfg.hash "" deviceID .empty .stewardAction (some q.action)

end RunRequest

theorem scriptPlan_keyed (q : ScriptRunRequest) (resolved : Go.StringMap (Go.StringMap String)) :
    (q.plan resolved).Keyed cfg fun deviceID => computeParamHash cfg.hash q.scriptRef deviceID
      ((resolved.get deviceID).getD .empty) .script none := by
  constructor
  · exact fun _ _ _ _ _ => rfl
  · intro runID jobID executionID device now
    have href : ((q.plan resolved).execution runID jobID executionID device now).reference =
        q.scriptRef := by
      exact ite_eq_right_iff.mpr fun hempty => hempty.symm
    rw [QueuedExecution.paramHash, href]
    rfl

theorem request_ends {q : RunRequest}
    (h : Ends Fresh tid s (q.synthesize cfg) s' (.ok runID)) :
    Served s'.queue (s'.store.listRunJobs runID) ↔
      (q.devices.map StewardResult.id).Nodup ∧
        ∀ d ∈ q.devices, QueueStore.duplicates s.queue d.id (q.key cfg d.id) = false := by
  cases q with
  | script q =>
    simp only [RunRequest.synthesize, synthesizeScriptRunForDevices] at h
    cases hresolved : q.resolveAll q.devices .empty with
    | error e =>
      rw [hresolved] at h
      cases (ends_done.mp h).2
    | ok resolved =>
      rw [hresolved] at h
      simp only [RunRequest.devices, RunRequest.key, hresolved]
      exact synthesizeRun_ends (scriptPlan_keyed q resolved) h
  | command q =>
    simp only [RunRequest.synthesize, synthesizeCommandRunForDevices] at h
    split at h
    · cases (ends_done.mp h).2
    · exact synthesizeRun_ends ⟨fun _ _ _ _ _ => rfl, fun _ _ _ _ _ => rfl⟩ h
  | action q =>
    simp only [RunRequest.synthesize, synthesizeActionRunForDevices] at h
    split at h
    · exact synthesizeRun_ends ⟨fun _ _ _ _ _ => rfl, fun _ _ _ _ _ => rfl⟩ h
    · cases (ends_done.mp h).2

/-- A refusal is backed by a queued request for the same thing, and every job of a new run can
run, exactly where equal keys mean equal requests and no key of the run is queued already. Keys
are equal where the references, the parameters and the actions are. -/
theorem no_work_lost_iff (history : List (ℤ × QueueCall)) (now : ℤ) (deviceID : String)
    (x : QueuedExecution) {q : RunRequest} {runID : String}
    (h : Ends Fresh tid s (q.synthesize cfg) s' (.ok runID)) :
    (((Backlog.step cfg.hash cfg.maxAge (.after cfg.hash cfg.maxAge history)
          (now, .queueExecution deviceID x)).2 = .error .duplicateExecution →
        ∃ y, (Backlog.after cfg.hash cfg.maxAge history).Queued deviceID y ∧ y.RunsSame x) ↔
      (x.metadataWithReserved.isOk →
        (∃ y, (Backlog.after cfg.hash cfg.maxAge history).Queued deviceID y ∧
          y.paramHash cfg.hash deviceID = x.paramHash cfg.hash deviceID) →
        ∃ y, (Backlog.after cfg.hash cfg.maxAge history).Queued deviceID y ∧ y.RunsSame x)) ∧
    ((∀ j ∈ s'.store.listRunJobs runID, ∃ e ∈ s'.queue.rows,
        e.executionID = j.executionID ∧ e.state.active) ↔
      (q.devices.map StewardResult.id).Nodup ∧
        ∀ d ∈ q.devices, QueueStore.duplicates s.queue d.id (q.key cfg d.id) = false) ∧
    (cfg.hash.Faithful → '|' ∉ x.reference.toList →
      (∀ y, (Backlog.after cfg.hash cfg.maxAge history).Queued deviceID y →
        '|' ∉ y.reference.toList) →
      ((∃ y, (Backlog.after cfg.hash cfg.maxAge history).Queued deviceID y ∧
          y.paramHash cfg.hash deviceID = x.paramHash cfg.hash deviceID) ↔
        ∃ y, (Backlog.after cfg.hash cfg.maxAge history).Queued deviceID y ∧ y.SameKey x)) := by
  refine ⟨?_, request_ends h, fun hfaithful hx hqueued => ?_⟩
  · rw [Backlog.step_eq_duplicate_iff (Backlog.derived_after history), and_imp]
  · exact exists_congr fun y => and_congr_right fun hy =>
      paramHash_eq_iff hfaithful (hqueued y hy) hx deviceID

/-- An inline command for one device, without parameters. -/
def inlineCommand (content : String) : CommandRunRequest where
  devices := [⟨"dev-1", .empty⟩]
  tenantID := "acme"
  createdBy := "operator"
  inlineContent := content
  shell := "powershell"
  params := .empty
  commandSignature := none
  manifests := .empty
  targets := []
  nonce := ""
  expiresAt := ""
  timeout := 0

/-- The choices of the environment at the calls of a synthesis, with the ids of the jobs. -/
def choices (runID : String) (jobs : List (String × String)) : List Env :=
  ([runID, "", ""] ++ (jobs.flatMap fun (jobID, executionID) => [jobID, executionID, "", "", ""]) ++
    [""]).map fun id => ⟨false, fun _ => 0, id, 0, true, .sent⟩

def firstRequest : QueuedExecution :=
  (inlineCommand "Get-Service").plan.execution "run-1" "job-1" "exec-1" ⟨"dev-1", .empty⟩ 0

def secondRequest : QueuedExecution :=
  (inlineCommand "Stop-Service").plan.execution "run-2" "job-2" "exec-2" ⟨"dev-1", .empty⟩ 0

/-- A command with a parameter, for the device and another one. -/
def restartCommand : CommandRunRequest :=
  { inlineCommand "Restart-Service" with
    devices := [⟨"dev-1", .empty⟩, ⟨"dev-2", .empty⟩]
    params := Go.StringMap.empty.set ("name", "spooler") }

def repeatedRequest : QueuedExecution :=
  (inlineCommand "Get-Service").plan.execution "run-3" "job-4" "exec-4" ⟨"dev-1", .empty⟩ 0

/-- A command that is requested after the first one. -/
theorem ends_second (q : CommandRunRequest) (envs : List Env) (runID : String)
    {P : System → System → Prop} [∀ s s', Decidable (P s s')]
    (hrun : (eval Fresh 0 (choices "run-1" [("job-1", "exec-1")]) emptySystem
      ((RunRequest.command (inlineCommand "Get-Service")).synthesize plainConfig)).any fun r =>
      (eval Fresh 0 envs r.1 ((RunRequest.command q).synthesize plainConfig)).any fun r' =>
        r'.2.toOption = some runID ∧ P r.1 r'.1) :
    ∃ s s', Ends Fresh 0 s ((RunRequest.command q).synthesize plainConfig) s' (.ok runID) ∧
      P s s' := by
  obtain ⟨⟨s, _⟩, -, hrun⟩ := (Option.any_eq_true _ _).mp hrun
  obtain ⟨⟨s', result⟩, heval, hr⟩ := (Option.any_eq_true _ _).mp hrun
  obtain ⟨hok, hP⟩ := of_decide_eq_true hr
  cases result with
  | error e => cases hok
  | ok _ =>
    cases hok
    exact ⟨s, s', ends_of_eval heval, hP⟩

/-- Where a command is queued, its repetition is refused, and another one gets its jobs. -/
theorem no_work_lost_iff_restart :
    ∃ s s', Ends Fresh 0 s ((RunRequest.command restartCommand).synthesize plainConfig) s'
        (.ok "run-2") ∧
      s.queue.rows.map QueueEntry.executionID = ["exec-1"] ∧
      (s'.store.listRunJobs "run-2").map JobRecord.jobID = ["job-2", "job-3"] ∧
      (∀ j ∈ s'.store.listRunJobs "run-2", ∃ e ∈ s'.queue.rows,
        e.executionID = j.executionID ∧ e.state.active) ∧
      ∃ y, (Backlog.after plainConfig.hash plainConfig.maxAge
        [(0, .queueExecution "dev-1" firstRequest)]).Queued "dev-1" y ∧ y.RunsSame repeatedRequest := by
  obtain ⟨s, s', hends, hqueue, hjobs, hfree⟩ := ends_second restartCommand
    (choices "run-2" [("job-2", "exec-2"), ("job-3", "exec-3")]) "run-2"
    (P := fun s s' => s.queue.rows.map QueueEntry.executionID = ["exec-1"] ∧
      (s'.store.listRunJobs "run-2").map JobRecord.jobID = ["job-2", "job-3"] ∧
      ∀ d ∈ restartCommand.devices, QueueStore.duplicates s.queue d.id
        ((RunRequest.command restartCommand).key plainConfig d.id) = false) (by decide +kernel)
  obtain ⟨hrefused, hserved, -⟩ := no_work_lost_iff [(0, .queueExecution "dev-1" firstRequest)] 0
    "dev-1" repeatedRequest hends
  refine ⟨s, s', hends, hqueue, hjobs, hserved.mpr ⟨by decide, hfree⟩, ?_⟩
  refine hrefused.mpr (fun _ _ => ⟨firstRequest, ?_, ?_⟩) (by decide +kernel)
  · exact ⟨_, mem_cons_self, rfl, rfl, rfl⟩
  · exact ⟨rfl, rfl, by decide +kernel, rfl, rfl, rfl, rfl, rfl, .none⟩

/-- A second command for the device, with other content, gets the key of the first. -/
theorem second_command_lost :
    (Backlog.step plainConfig.hash plainConfig.maxAge
        (.after plainConfig.hash plainConfig.maxAge [(0, .queueExecution "dev-1" firstRequest)])
        (0, .queueExecution "dev-1" secondRequest)).2 = .error .duplicateExecution ∧
    (¬ ∃ y, (Backlog.after plainConfig.hash plainConfig.maxAge
        [(0, .queueExecution "dev-1" firstRequest)]).Queued "dev-1" y ∧ y.RunsSame secondRequest) ∧
    ∃ s s', Ends Fresh 0 s
        ((RunRequest.command (inlineCommand "Stop-Service")).synthesize plainConfig) s' (.ok "run-2") ∧
      ∃ j ∈ s'.store.listRunJobs "run-2", ∀ e ∈ s'.queue.rows, e.executionID ≠ j.executionID := by
  refine ⟨by decide +kernel, ?_, ?_⟩
  · rintro ⟨y, ⟨e, he, -, -, hy⟩, hsame⟩
    have hother : ∀ e ∈ (Backlog.after plainConfig.hash plainConfig.maxAge
        [(0, .queueExecution "dev-1" firstRequest)]).queue.rows,
        ((Backlog.after plainConfig.hash plainConfig.maxAge
          [(0, .queueExecution "dev-1" firstRequest)]).requests e.executionID).map
          QueuedExecution.inlineContent ≠ some secondRequest.inlineContent := by decide +kernel
    apply hother e he
    rw [hy, Option.map_some, hsame.inlineContent]
  · exact ends_second (inlineCommand "Stop-Service") (choices "run-2" [("job-2", "exec-2")]) "run-2"
      (P := fun _ s' => ∃ j ∈ s'.store.listRunJobs "run-2", ∀ e ∈ s'.queue.rows,
        e.executionID ≠ j.executionID) (by decide +kernel)

end Cfgms.Dispatch
