import Cfgms.Dispatch.Routine

/-! # Terminal events close jobs

A terminal event ends an execution. Its job ends with the reported outcome, unless the execution
is tried once more; then the job is left to the retry. The retry is decided on before it is
queued, and where the queue refuses it nothing is left that could end the job.
-/

namespace Cfgms.Dispatch

open Go Ordered Script Run Program List Table

/-- What an event says of the job of an entry. -/
def TerminalEvent.reported (ev : TerminalEvent) (e : QueueEntry) : JobStatus :=
  match e.kind with
  | .script => if ev.state = .failed then .failed else .completed
  | .stewardAction =>
    if normalizeResultCode ev.actionResultCode ≠ "ok" then .failed else .completed

/-- An active entry that tries the job of another entry once more. -/
def isRetryOf (e r : QueueEntry) : Bool :=
  r.state.active ∧ r.jobID = e.jobID ∧ r.metaInt "retry_count" = e.metaInt "retry_count" + 1

def retryCount (q : QueueStore) (e : QueueEntry) : ℕ := q.rows.countP (isRetryOf e)

def System.jobStatus (s : System) (jobID : String) : Option JobStatus :=
  (s.store.jobs.get jobID).map JobRecord.status

/-- The job has ended as reported, or exactly one retry of it is in the queue. -/
def Closes (ev : TerminalEvent) (e : QueueEntry) (s : System) : Prop :=
  s.jobStatus e.jobID = some (ev.reported e) ∨
    QueueEntry.retries e ev.state ∧ retryCount s.queue e = 1

def retryEntry (cfg : Config) (e : QueueEntry) (executionID : String) (now : ℤ) : QueueEntry :=
  (retryOf e executionID).entry cfg.hash cfg.maxAge e.deviceID now (retryOf e executionID).metadata

/-- The queue takes the retry: no key of its metadata is reserved, and nothing alike is queued. -/
def takesRetry (q : QueueStore) (r : QueueEntry) : Bool :=
  ((r.metadata.getD .empty).entries.all fun kv => !isReserved kv.1) &&
    !QueueStore.duplicates q r.deviceID r.paramHash

section Queue

variable {q q' : QueueStore} {e : QueueEntry}

theorem not_isRetryOf {r : QueueEntry} (h : r.metadata = e.metadata) : isRetryOf e r = false := by
  have hcount : r.metaInt "retry_count" = e.metaInt "retry_count" := by
    simp [QueueEntry.metaInt, QueueEntry.metaValue, h]
  have hne : r.metaInt "retry_count" ≠ e.metaInt "retry_count" + 1 := by omega
  simp [isRetryOf, hne]

/-- An acknowledgement ends the entry and nothing else. -/
theorem acknowledgeCompletion_keeps (he : e ∈ q.rows) {deviceID : String} {state : QueueState}
    (hstate : state ≠ .queued) {now : ℤ}
    (h : QueueStore.acknowledgeCompletion q e.executionID deviceID state now = .ok q') :
    retryCount q' e = retryCount q e ∧ QueueStore.duplicates q' = QueueStore.duplicates q ∧
      q'.rows.map QueueEntry.executionID = q.rows.map QueueEntry.executionID := by
  have hget : q.get e.executionID = some e := get_eq_some_iff.mpr ⟨he, rfl⟩
  simp only [QueueStore.acknowledgeCompletion, hget] at h
  split at h
  · cases h
  split at h
  · cases h
  next hdispatched =>
  cases h
  have hself {r : QueueEntry} (hr : r ∈ q.rows) (hid : decide (r.executionID = e.executionID)) :
      r = e := inj_on_of_nodup_map q.nodup hr he (of_decide_eq_true hid)
  refine ⟨?_, ?_, map_key_ite (f := QueueStore.finish state now) (fun _ => rfl) _ _⟩
  · simp only [retryCount, Table.update, countP_map]
    refine countP_congr fun r hr => ?_
    dsimp
    split
    · next hid =>
      obtain rfl := hself hr hid
      rw [not_isRetryOf rfl, not_isRetryOf (e := r) (r := QueueStore.finish state now r) rfl]
    · rfl
  · ext device hash
    rw [Bool.eq_iff_iff]
    simp only [QueueStore.duplicates, Table.update, any_map, any_eq_true]
    refine exists_congr fun r => and_congr_right fun hr => ?_
    dsimp
    split
    · next hid =>
      -- The entry was dispatched, and now has ended.
      obtain rfl := hself hr hid
      simp [QueueStore.finish, hstate, not_not.mp hdispatched]
    · rfl

theorem metadataWithReserved_retryOf {cfg : Config} {executionID : String} {now : ℤ} {b : Bool}
    (h : ((retryEntry cfg e executionID now).metadata.getD .empty).entries.all
      (fun kv => !isReserved kv.1) = b) :
    (retryOf e executionID).metadataWithReserved =
      if b then .ok (retryEntry cfg e executionID now).metadata else .error .reservedMetadataKey := by
  rw [← not_any_eq_all_not] at h
  have hany : ((retryOf e executionID).metadata.getD .empty).entries.any
      (fun kv => isReserved kv.1) = !b := by
    rw [← h, Bool.not_not]
    rfl
  rw [QueuedExecution.metadataWithReserved, hany]
  cases b <;> rfl

theorem exists_metadata (htracked : isTracked e) : ∃ m, e.metadata = some m := by
  have hjob : e.jobID ≠ "" := (of_decide_eq_true htracked).2
  cases hm : e.metadata with
  | none => simp [QueueEntry.jobID, QueueEntry.metaString, QueueEntry.metaValue, hm] at hjob
  | some m => exact ⟨m, rfl⟩

theorem isRetryOf_retryEntry (cfg : Config) (htracked : isTracked e) (executionID : String)
    (now : ℤ) : isRetryOf e (retryEntry cfg e executionID now) := by
  obtain ⟨m, hm⟩ := exists_metadata htracked
  simp [isRetryOf, retryEntry, retryOf, QueuedExecution.entry, QueueState.active,
    QueueEntry.jobID, QueueEntry.metaString, QueueEntry.metaInt, QueueEntry.metaValue, hm,
    StringMap.get_set]

end Queue

/-- The operations of the handler that change neither the jobs nor the queue. -/
@[simp] def Op.aside : {β : Type} → Op β → Bool
  | _, .getRun _ | _, .listRunJobs _ | _, .updateRunStatus _ _ | _, .updateRunCounts _ _ _ _
  | _, .drain _ | _, .clearLock _ => true
  | _, _ => false

theorem exec_aside {β : Type} {o : Op β} (h : o.aside) (tid : ℕ) (s : System) (env : Env) :
    ((exec o tid s env).1.store.jobs, (exec o tid s env).1.queue) = (s.store.jobs, s.queue) := by
  cases o with
  | getRun | listRunJobs | drain | clearLock => rfl
  | updateRunStatus | updateRunCounts =>
    simp only [exec, System.write]
    split
    · next hstore => rw [← Option.some.inj hstore]; rfl
    · rfl
  | _ => cases h

section Handler

variable {cfg : Config} {ev : TerminalEvent} {e : QueueEntry} {tid : ℕ} {s : System}
  {choose : ∀ {β : Type}, Op β → Env}
variable {α : Type} {p : Call α}

abbrev Aside (p : Call α) : Prop := p.All fun o => Op.aside o = true

theorem outcome_aside (h : Aside p) (s : System) :
    ((p.outcome tid choose s).1.store.jobs, (p.outcome tid choose s).1.queue) =
      (s.store.jobs, s.queue) :=
  outcome_keeps (fun s : System => (s.store.jobs, s.queue))
    (h.mono fun ho s env => exec_aside ho _ s env) s

theorem jobStatus_aside (h : Aside p) (s : System) (jobID : String) :
    (p.outcome tid choose s).1.jobStatus jobID = s.jobStatus jobID :=
  congrArg (fun v => (v.1.get jobID).map JobRecord.status) (outcome_aside h s)

theorem refreshRun_aside (runID : String) : Aside (refreshRun runID) := by
  simp [refreshRun, forall_except]

theorem alreadyTerminal_aside (runID jobID : String) : Aside (alreadyTerminal runID jobID) := by
  simp [alreadyTerminal, forall_except]

theorem releaseDevice_aside (deviceID : String) : Aside (releaseDevice deviceID) := by
  simp [releaseDevice]

theorem get_casJob {t : RunStore} {j : JobRecord} {allowed : JobStatus → Bool}
    {f : JobRecord → JobRecord} {hf : ∀ j, (f j).jobID = j.jobID}
    (hj : t.jobs.get j.jobID = some j) : (t.casJob j.jobID allowed f hf).1.jobs.get j.jobID =
        some (if allowed j.status then f j else j) ∧
      (t.casJob j.jobID allowed f hf).2 = allowed j.status := by
  constructor
  · simp [RunStore.casJob, get_update, hj, JobRecord.isAt]
  · obtain ⟨hrow, _⟩ := get_eq_some_iff.mp hj
    rw [RunStore.casJob, Bool.eq_iff_iff, any_eq_true]
    constructor
    · rintro ⟨j', hrow', hat⟩
      obtain ⟨hid, hallowed⟩ := (Bool.and_eq_true _ _).mp hat
      obtain rfl := inj_on_of_nodup_map t.jobs.nodup hrow' hrow (of_decide_eq_true hid)
      exact hallowed
    · intro hallowed
      exact ⟨j, hrow, by simp [JobRecord.isAt, hallowed]⟩

variable {runID jobID executionID : String} {status : JobStatus}

/-- A result takes a job that is open to the reported status. -/
theorem recordJobResult_status {output stderr : String} {failed : Bool}
    {exitCode : ℤ} (hj : s.jobStatus jobID = some status)
    (hok : (choose (.updateJobResult jobID (if failed then .failed else .completed) executionID
      output stderr exitCode)).fails = false) :
    ((recordJobResult runID jobID executionID failed output stderr exitCode).outcome tid
        choose s).1.jobStatus jobID =
      some (if status.isTerminal then status else if failed then .failed else .completed) := by
  obtain ⟨j, hget, rfl⟩ := Option.map_eq_some_iff.mp hj
  obtain rfl : j.jobID = jobID := (get_eq_some_iff.mp hget).2
  simp only [recordJobResult, op_bind, outcome, exec]
  generalize (if failed then JobStatus.failed else .completed) = reported at hok ⊢
  have hstatus : ({ s with store := (s.store.updateJobResult j.jobID reported executionID output
      stderr exitCode s.now).1 } : System).jobStatus j.jobID =
      some (if j.status.isTerminal then j.status else reported) := by
    apply (congrArg (Option.map JobRecord.status) (get_casJob hget).1).trans
    cases j.status.isTerminal <;> rfl
  simp only [System.compareAndSet, hok, Bool.false_eq_true, if_false]
  split
  · next heq => cases heq
  · rw [jobStatus_aside (alreadyTerminal_aside runID j.jobID), hstatus]
  · rw [jobStatus_aside (refreshRun_aside runID), hstatus]

/-- The result of an action does the same, after its code. -/
theorem recordActionResult_status {code : String} (hj : s.jobStatus jobID = some status)
    (hcode : (choose (.updateJobResultCode jobID (normalizeResultCode code))).fails = false)
    (hok : ∀ status exitCode, (choose
      (.updateJobResult jobID status executionID "" "" exitCode)).fails = false) :
    ((recordActionResult runID jobID executionID code).outcome tid choose s).1.jobStatus jobID =
      some (if status.isTerminal then status
        else if normalizeResultCode code ≠ "ok" then .failed else .completed) := by
  obtain ⟨j, hget, rfl⟩ := Option.map_eq_some_iff.mp hj
  obtain rfl : j.jobID = jobID := (get_eq_some_iff.mp hget).2
  have hchanged : (s.store.updateJobResultCode j.jobID (normalizeResultCode code)).2 = _ :=
    (get_casJob hget).2
  have hstatus : ({ s with store := (s.store.updateJobResultCode j.jobID
      (normalizeResultCode code)).1 } : System).jobStatus j.jobID = some j.status := by
    apply (congrArg (Option.map JobRecord.status) (get_casJob hget).1).trans
    cases j.status.isTerminal <;> rfl
  simp only [recordActionResult, op_bind, outcome, exec, System.compareAndSet, hcode,
    Bool.false_eq_true, if_false]
  split
  · next heq => cases heq
  · next heq =>
    have hterminal : j.status.isTerminal := by simpa [hchanged] using heq
    rw [jobStatus_aside (alreadyTerminal_aside runID j.jobID), hstatus, if_pos hterminal]
  · rw [recordJobResult_status hstatus (hok _ _)]
    simp

/-- Whether a retry is queued: the call succeeds, and the queue takes the entry. -/
def retryQueued (cfg : Config) (choose : ∀ {β : Type}, Op β → Env) (s : System) (e : QueueEntry) :
    Bool :=
  let r := retryEntry cfg e (choose .newID).uuid s.now
  !(choose (.enqueue r)).fails && takesRetry s.queue r

theorem requeueIdempotent_outcome : ((requeueIdempotent cfg e.deviceID e).outcome tid choose s).1 =
      { s.issue (choose .newID).uuid with
        queue := if retryQueued cfg choose s e then
            s.queue.store (retryEntry cfg e (choose .newID).uuid s.now)
          else s.queue } := by
  cases hkeys : ((retryEntry cfg e (choose .newID).uuid s.now).metadata.getD .empty).entries.all
      fun kv => !isReserved kv.1
  all_goals
    simp only [requeueIdempotent, queueExecution, op_bind, outcome, outcome_bind, exec,
      metadataWithReserved_retryOf hkeys, retryQueued, takesRetry, hkeys, Bool.false_and,
      Bool.and_false, Bool.true_and]
  · rfl
  · change ((s.issue _).onQueue (choose (.enqueue (retryEntry cfg e (choose .newID).uuid s.now)))
      (QueueStore.enqueue s.queue (retryEntry cfg e _ s.now))).1 = _
    generalize retryEntry cfg e (choose .newID).uuid s.now = r
    unfold System.onQueue QueueStore.enqueue
    cases (choose (.enqueue r)).fails with
    | true => rfl
    | false => cases QueueStore.duplicates s.queue r.deviceID r.paramHash <;> rfl

theorem requeueIdempotent_retryCount (htracked : isTracked e)
    (hfresh : (choose .newID).uuid ∉ s.queue.rows.map QueueEntry.executionID) :
    retryCount ((requeueIdempotent cfg e.deviceID e).outcome tid choose s).1.queue e =
      retryCount s.queue e + (retryQueued cfg choose s e).toNat := by
  rw [requeueIdempotent_outcome]
  split
  · next hqueued =>
    rw [retryCount, rows_store_of_new hfresh, countP_append, retryCount,
      countP_singleton, if_pos (isRetryOf_retryEntry cfg htracked _ _), hqueued]
    rfl
  · next hrefused =>
    rw [Bool.not_eq_true] at hrefused
    rw [hrefused]
    rfl

theorem exec_acknowledge (he : e ∈ s.queue.rows) (tid : ℕ) (deviceID : String) {state : QueueState}
    (hstate : state ≠ .queued) (env : Env) :
    ∃ q, (exec (.acknowledge e.executionID deviceID state) tid s env).1 = { s with queue := q } ∧
      retryCount q e = retryCount s.queue e ∧
      QueueStore.duplicates q = QueueStore.duplicates s.queue ∧
      q.rows.map QueueEntry.executionID = s.queue.rows.map QueueEntry.executionID := by
  obtain ⟨q, hq, rfl | hok⟩ : ∃ q, (exec (.acknowledge e.executionID deviceID state) tid s env).1 =
      { s with queue := q } ∧ _ := System.onQueue_eq _
  · exact ⟨_, hq, rfl, rfl, rfl⟩
  · exact ⟨q, hq, acknowledgeCompletion_keeps he hstate hok⟩

structure Finishes (ev : TerminalEvent) (e : QueueEntry) (s : System) : Prop where
  mem : e ∈ s.queue.rows
  active : e.state.active
  device : ev.stewardID = e.deviceID
  execution : ev.executionID = e.executionID
  named : e.deviceID ≠ "" ∧ e.executionID ≠ ""
  tracked : isTracked e

theorem captureEntry_outcome (h : Finishes ev e s) :
    (captureEntry ev.stewardID ev.executionID).outcome tid choose s =
      (s, if (choose (.list ev.stewardID)).fails then none else some e) := by
  have hmeta : e.metadata.isSome := Option.isSome_iff_exists.mpr (exists_metadata h.tracked)
  have hfind : ((QueueStore.list s.queue ev.stewardID).find? fun r =>
      r.executionID = ev.executionID ∧ r.metadata.isSome) = some e := by
    have hlisted : e ∈ QueueStore.list s.queue ev.stewardID :=
      mem_filter.mpr ⟨h.mem, by simp [h.device, h.active]⟩
    cases hfind : (QueueStore.list s.queue ev.stewardID).find? _ with
    | none => exact absurd (by simp [h.execution, hmeta]) (find?_eq_none.mp hfind e hlisted)
    | some r =>
      have hmatch := find?_some hfind
      have hid : r.executionID = ev.executionID := (of_decide_eq_true hmatch).1
      have hr : r ∈ s.queue.rows := mem_of_mem_filter (mem_of_find?_eq_some hfind)
      rw [inj_on_of_nodup_map s.queue.nodup hr h.mem (hid.trans h.execution)]
  simp only [captureEntry, op_bind, outcome, exec]
  cases (choose (.list ev.stewardID)).fails with
  | true => rfl
  | false => exact congrArg (Prod.mk s) hfind

def Op.recordsResult : {β : Type} → Op β → Bool
  | _, .updateJobResult _ _ _ _ _ _ | _, .updateJobResultCode _ _ => true
  | _, _ => false

/-- When a terminal event closes its job. The entry is found, no retry is decided on and the job
is still open; or the retry gets into the queue. -/
def ClosesWhen (cfg : Config) (choose : ∀ {β : Type}, Op β → Env) (ev : TerminalEvent)
    (e : QueueEntry) (status : JobStatus) (s : System) : Prop :=
  let found := (choose (.list ev.stewardID)).fails = false
  status = ev.reported e ∨
    found ∧ QueueEntry.retries e ev.state = false ∧ status.isTerminal = false ∨
    QueueEntry.retries e ev.state ∧
      retryCount s.queue e + (if found then (retryQueued cfg choose s e).toNat else 0) = 1

theorem closes_iff {n : ℕ} (hstatus : s.jobStatus e.jobID = some status)
    (hcount : retryCount s.queue e = n) :
    Closes ev e s ↔ status = ev.reported e ∨ QueueEntry.retries e ev.state ∧ n = 1 := by
  simp [Closes, hstatus, hcount]

theorem closes_aside (h : Aside p) (s : System) :
    Closes ev e (p.outcome tid choose s).1 ↔ Closes ev e s := by
  have hqueue : (p.outcome tid choose s).1.queue = s.queue := congrArg Prod.snd (outcome_aside h s)
  rw [Closes, jobStatus_aside h, hqueue, Closes]

theorem state_ne_queued (ev : TerminalEvent) : ev.state ≠ .queued := by
  unfold TerminalEvent.state
  split <;> decide

theorem closes_of_recorded (status : JobStatus) (hretries : QueueEntry.retries e ev.state = false)
    (hstatus : s.jobStatus e.jobID = some (if status.isTerminal then status else ev.reported e)) :
    Closes ev e s ↔ status = ev.reported e ∨ status.isTerminal = false := by
  rw [closes_iff hstatus rfl, hretries]
  cases status.isTerminal <;> simp

section Closing

variable (h : Finishes ev e s) (hstatus : s.jobStatus e.jobID = some status)
  (hrecord : ∀ {β : Type} (o : Op β), o.recordsResult → (choose o).fails = false)
include h hstatus hrecord

theorem completeScript_closes (hkind : e.kind = .script)
    (hfresh : (choose .newID).uuid ∉ s.queue.rows.map QueueEntry.executionID) :
    Closes ev e ((completeScript cfg ev e).outcome tid choose s).1 ↔
      status = ev.reported e ∨
        QueueEntry.retries e ev.state = false ∧ status.isTerminal = false ∨
        QueueEntry.retries e ev.state ∧
          retryCount s.queue e + (retryQueued cfg choose s e).toNat = 1 := by
  obtain ⟨q, hq, hcount, hduplicates, hkeys⟩ := exec_acknowledge h.mem tid e.deviceID
    (state_ne_queued ev) (choose (.acknowledge e.executionID e.deviceID ev.state))
  simp only [completeScript, h.execution, h.device, op_bind, outcome, hq]
  cases hretries : QueueEntry.retries e ev.state with
  | true =>
    rw [if_pos rfl]
    have hqueued : retryQueued cfg choose { s with queue := q } e = retryQueued cfg choose s e := by
      simp [retryQueued, takesRetry, hduplicates]
    have hjob : ((requeueIdempotent cfg e.deviceID e).outcome tid choose
        { s with queue := q }).1.jobStatus e.jobID = some status := by
      rw [requeueIdempotent_outcome]
      exact hstatus
    rw [closes_iff hjob (requeueIdempotent_retryCount h.tracked (hkeys ▸ hfresh)), hqueued,
      hretries, hcount]
    simp
  | false =>
    rw [if_neg Bool.false_ne_true, if_pos h.tracked, outcome_bind]
    have hreported : ev.reported e =
        if decide (ev.state = .failed) then JobStatus.failed else .completed := by
      simp [TerminalEvent.reported, hkind]
    refine (closes_of_recorded status hretries ?_).trans ?_
    · rw [hreported]
      exact recordJobResult_status hstatus (hrecord _ rfl)
    · simp

theorem completeAction_closes (hkind : e.kind = .stewardAction) :
    Closes ev e ((completeAction ev e).outcome tid choose s).1 ↔
      status = ev.reported e ∨ status.isTerminal = false := by
  have hstate : (if ev.actionResultCode = "ok" then QueueState.completed else .failed) ≠ .queued := by
    split <;> decide
  simp only [completeAction, h.execution, h.device, op_bind, outcome]
  generalize (if ev.actionResultCode = "ok" then QueueState.completed else .failed) = state at *
  obtain ⟨q, hq, _⟩ := exec_acknowledge h.mem tid e.deviceID hstate
    (choose (.acknowledge e.executionID e.deviceID state))
  rw [if_pos h.tracked, outcome_bind, hq]
  have hreported : ev.reported e =
      if normalizeResultCode ev.actionResultCode ≠ "ok" then JobStatus.failed else .completed := by
    simp [TerminalEvent.reported, hkind]
  apply closes_of_recorded
  · simp [QueueEntry.retries, hkind]
  · rw [hreported]
    exact recordActionResult_status hstatus (hrecord _ rfl) fun _ _ => hrecord _ rfl

theorem completeEntry_closes
    (hfresh : (choose .newID).uuid ∉ s.queue.rows.map QueueEntry.executionID) :
    Closes ev e ((completeEntry cfg ev (if (choose (.list ev.stewardID)).fails then none
      else some e)).outcome tid choose s).1 ↔ ClosesWhen cfg choose ev e status s := by
  rw [ClosesWhen]
  cases (choose (.list ev.stewardID)).fails with
  | true =>
    obtain ⟨q, hq, hcount, _⟩ := exec_acknowledge h.mem tid e.deviceID
      (state_ne_queued ev) (choose (.acknowledge e.executionID e.deviceID ev.state))
    simp only [if_true, completeEntry, h.execution, h.device, op_bind, outcome, hq]
    apply (closes_iff (s := { s with queue := q }) hstatus hcount).trans
    simp
  | false =>
    simp only [Bool.false_eq_true, if_false, completeEntry]
    cases hkind : e.kind with
    | script =>
      simpa using completeScript_closes h hstatus hrecord hkind hfresh
    | stewardAction =>
      have hretries : QueueEntry.retries e ev.state = false := by simp [QueueEntry.retries, hkind]
      simpa [hretries] using completeAction_closes h hstatus hrecord hkind

end Closing

/-- A terminal event of a tracked execution closes its job when the entry is found and nothing
is retried, or when the retry gets into the queue, and only then. -/
theorem handleCompletionEvent_closes (h : Finishes ev e s)
    (hstatus : s.jobStatus e.jobID = some status)
    (hrecord : ∀ {β : Type} (o : Op β), o.recordsResult → (choose o).fails = false)
    (hfresh : (choose .newID).uuid ∉ s.queue.rows.map QueueEntry.executionID) :
    Closes ev e ((handleCompletionEvent cfg ev).outcome tid choose s).1 ↔
      ClosesWhen cfg choose ev e status s := by
  have hids : ¬ (ev.stewardID = "" ∨ ev.executionID = "") := by
    rw [h.device, h.execution]
    exact not_or.mpr h.named
  -- The report of the end changes neither the queue nor the jobs.
  have hreport : Finishes ev e (s.withHistory fun g => g.ends ev.stewardID ev.executionID) :=
    { h with }
  rw [handleCompletionEvent, if_neg hids, op_bind, outcome, outcome_bind, outcome_bind,
    closes_aside (releaseDevice_aside _)]
  simp only [exec]
  rw [captureEntry_outcome hreport]
  exact completeEntry_closes hreport hstatus hrecord hfresh

end Handler

instance (ev : TerminalEvent) (e : QueueEntry) (s : System) : Decidable (Closes ev e s) :=
  inferInstanceAs (Decidable (_ ∨ _))

/-! ## Two runs of one script

The script of the first run was dispatched, and that of the second waits. The first fails. -/

def idempotentEntry (executionID jobID : String) (state : QueueState) : QueueEntry :=
  let x : QueuedExecution := { retryOf ⟨executionID, "device", "script", "bash", .empty, .empty, 0,
      0, 0, none, none, state, "", false, 0, [], "", none, .script, none⟩ executionID with
    metadata := some (((StringMap.empty.set ("workflow_run_id", .str "run")).set
      ("job_id", .str jobID)).set ("idempotent", .bool true)) }
  { x.entry plainConfig.hash plainConfig.maxAge "device" 0 x.metadata with state := state }

def openJob (jobID : String) : JobRecord :=
  ⟨jobID, "run", "device", "", .pending, 0, none, "", "", 0, "", none⟩

def runningSystem (entries : List QueueEntry) : System :=
  { emptySystem with
    store := ⟨.empty, (Table.empty.store (openJob "job-1")).store (openJob "job-2")⟩
    queue := entries.foldl (fun q e => q.store e) .empty }

def failedEvent : TerminalEvent :=
  ⟨"device", "exec-1", true, ⟨none, none, none, none, none, none, ""⟩⟩

/-- By itself the script is tried once more. -/
theorem handleCompletionEvent_closes_alone :
    Closes failedEvent (idempotentEntry "exec-1" "job-1" .dispatched)
      ((handleCompletionEvent plainConfig failedEvent).outcome 0 (fun _ => steady "retry" 0)
        (runningSystem [idempotentEntry "exec-1" "job-1" .dispatched])).1 := by
  have hfinishes : Finishes failedEvent (idempotentEntry "exec-1" "job-1" .dispatched)
      (runningSystem [idempotentEntry "exec-1" "job-1" .dispatched]) := by
    constructor
    · exact mem_singleton_self _
    all_goals decide +kernel
  refine (handleCompletionEvent_closes hfinishes rfl (fun _ _ => rfl) (by decide +kernel)).mpr ?_
  exact .inr (.inr (by decide +kernel))

/-- No call fails. The queue takes the retry for the script of the second run, and the first job
stays open. -/
theorem duplicate_retry_lost : Finishes failedEvent (idempotentEntry "exec-1" "job-1" .dispatched)
      (runningSystem [idempotentEntry "exec-1" "job-1" .dispatched,
        idempotentEntry "exec-2" "job-2" .queued]) ∧
    ¬ Closes failedEvent (idempotentEntry "exec-1" "job-1" .dispatched)
      ((handleCompletionEvent plainConfig failedEvent).outcome 0 (fun _ => steady "retry" 0)
        (runningSystem [idempotentEntry "exec-1" "job-1" .dispatched,
          idempotentEntry "exec-2" "job-2" .queued])).1 := by
  constructor
  · constructor
    · exact mem_cons_self
    all_goals decide +kernel
  · decide +kernel

end Cfgms.Dispatch
