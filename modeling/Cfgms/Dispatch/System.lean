import Cfgms.Machine.Threads
import Cfgms.Run.Store
import Cfgms.Script.Queue

/-! # The dispatch system

The controller's goroutines share the run store, the execution queue and the device slots.
A slot is a channel of capacity one with a separate map of lock records. Each store call,
queue call, channel operation and section under the map's mutex is one atomic operation.
-/

namespace Cfgms.Dispatch

open Go Ordered Script Run

/-- `lockMetaEntry`. A zero `lockTTL` stands for the default. -/
structure LockMeta where
  deviceID : String
  acquiredAt : ℤ
  executionID : String
  lockTTL : ℤ

/-- `setLockExecutionTTL` keeps the TTL unless it is given one. -/
def LockMeta.withExecution (executionID : String) (ttl : ℤ) (m : LockMeta) : LockMeta :=
  { m with executionID := executionID, lockTTL := if 0 < ttl then ttl else m.lockTTL }

/-- An execution that was sent and has not ended. -/
structure InFlight where
  deviceID : String
  executionID : String
  deadline : ℤ
  deriving DecidableEq

structure Sent where
  kind : QueueKind
  deviceID : String
  executionID : String
  runID : String
  jobID : String
  /-- The runs whose cancellation had returned when the dispatch began. -/
  cancelledBefore : List String
  /-- The executions in flight on the device when it was sent. -/
  others : List InFlight
  deriving DecidableEq

structure Claim where
  jobID : String
  queuedAt : ℤ
  claimedAt : ℤ
  deriving DecidableEq

/-- What has happened so far, for stating properties. No decision of a call depends on it. -/
structure History where
  issued : List String
  closing : List String
  /-- The runs whose cancellation returned without an error. -/
  cancelled : List String
  /-- The devices whose slot a dispatch has taken and neither used nor released. -/
  holders : List (String × ℕ)
  inFlight : List InFlight
  sent : List Sent
  /-- The entries that a dequeue handed to a dispatch, until it takes one up or lets the slot go. -/
  handed : List (ℕ × QueueEntry)
  /-- The jobs that a dispatch has claimed and not sent. -/
  licences : List (ℕ × String)
  claims : List Claim

def History.empty : History := ⟨[], [], [], [], [], [], [], [], []⟩

structure System where
  now : ℤ
  store : RunStore
  queue : QueueStore
  full : List String
  lockMeta : Table LockMeta.deviceID
  history : History

/-- How the control plane takes a command. -/
inductive SendOutcome where
  | sent
  | lockedDown
  | failed
  deriving DecidableEq

/-- What the environment decides at an operation: whether a store call fails, the order in
which a map is read, a fresh id, how far the clock moves, the answer of a check, and the fate
of a command. -/
structure Env where
  fails : Bool
  rank : String → ℕ
  uuid : String
  elapsed : ℕ
  holds : Bool
  outcome : SendOutcome

inductive StoreError where
  | notFound
  | failed
  deriving DecidableEq

inductive Op : Type → Type where
  | now : Op ℤ
  | advance : Op Unit
  | newID : Op String
  | createRun (r : RunRecord) : Op (Except StoreError Unit)
  | createJob (j : JobRecord) : Op (Except StoreError Unit)
  | getRun (runID : String) : Op (Except StoreError RunRecord)
  | listRunJobs (runID : String) : Op (Except StoreError (List JobRecord))
  | listJobsToCancel (runID : String) : Op (Except StoreError (List JobRecord))
  | listStaleActionJobs (pendingBefore dispatchedBefore : ℤ) :
      Op (Except StoreError (List JobRecord))
  | updateJobStatus (jobID : String) (status : JobStatus) (executionID : String) :
      Op (Except StoreError Unit)
  | updateJobResult (jobID : String) (status : JobStatus) (executionID output stderr : String)
      (exitCode : ℤ) : Op (Except StoreError Bool)
  | updateJobResultCode (jobID code : String) : Op (Except StoreError Bool)
  | markJobDispatched (jobID : String) (time : ℤ) (entry : QueueEntry) :
      Op (Except StoreError Bool)
  | expireJobIfStatus (jobID : String) (fromStatus newStatus : JobStatus) (time : ℤ) :
      Op (Except StoreError Bool)
  | updateRunStatus (runID : String) (status : RunStatus) : Op (Except StoreError Unit)
  | updateRunCounts (runID : String) (completed failed : ℕ) (listed : List JobRecord) :
      Op (Except StoreError Unit)
  | enqueue (entry : QueueEntry) : Op (Except QueueError Unit)
  | dequeue (deviceID : String) : Op (Except QueueError (List QueueEntry))
  | acknowledge (executionID deviceID : String) (state : QueueState) : Op (Except QueueError Unit)
  | cancel (deviceID executionID : String) : Op (Except QueueError Unit)
  | list (deviceID : String) : Op (Except QueueError (List QueueEntry))
  | requeueStale (dispatchTimeout : ℤ) : Op Unit
  | cleanupExpired : Op Unit
  | fill (deviceID : String) : Op Bool
  /-- A non-blocking receive. -/
  | drain (deviceID : String) : Op Unit
  | recordLock (deviceID : String) : Op ℤ
  | setLock (deviceID executionID : String) (ttl : ℤ) : Op Unit
  | clearLock (deviceID : String) : Op Unit
  | takeLock (deviceID executionID : String) : Op Bool
  | expiredLocks (defaultTTL : ℤ) : Op (List LockMeta)
  | resolveGuard (runID grantID : String) : Op Bool
  | isLockedDown (deviceID : String) : Op Bool
  | prepare (executionID : String) : Op Bool
  | send (entry : QueueEntry) (deadline : ℤ) (cancelledBefore : List String) : Op SendOutcome
  | beginDispatch : Op (List String)
  | reportEnd (deviceID executionID : String) : Op Unit
  | returnCancelled (runID : String) : Op Unit

namespace System

variable (s : System)

def read {α : Type} (env : Env) (a : α) : System × Except StoreError α :=
  (s, if env.fails then .error .failed else .ok a)

def write (env : Env) (store : Option RunStore) : System × Except StoreError Unit :=
  match env.fails, store with
  | false, some store => ({ s with store := store }, .ok ())
  | _, _ => (s, .error .failed)

def compareAndSet (env : Env) (r : RunStore × Bool) : System × Except StoreError Bool :=
  if env.fails then (s, .error .failed) else ({ s with store := r.1 }, .ok r.2)

def onQueue (env : Env) (r : Except QueueError QueueStore) : System × Except QueueError Unit :=
  match env.fails, r with
  | true, _ => (s, .error .storage)
  | false, .error e => (s, .error e)
  | false, .ok q => ({ s with queue := q }, .ok ())

def withHistory (f : History → History) : System := { s with history := f s.history }

def issue (id : String) : System := s.withHistory fun h => { h with issued := id :: h.issued }

/-- The executions in flight on a device: sent, not ended, and within their lock's TTL. -/
def inFlightOn (deviceID : String) : List InFlight :=
  s.history.inFlight.filter fun x => x.deviceID = deviceID ∧ s.now ≤ x.deadline

end System

namespace History

variable (h : History)

/-- An execution ends: its own terminal event or its own cancellation. -/
def ends (deviceID executionID : String) : History :=
  { h with inFlight := h.inFlight.filter fun x =>
      ¬ (x.deviceID = deviceID ∧ x.executionID = executionID) }

def letsGo (deviceID : String) (tid : ℕ) : History :=
  { h with
    holders := h.holders.filter fun x => x ≠ (deviceID, tid)
    handed := h.handed.filter fun x => x.1 ≠ tid }

def takesUp (tid : ℕ) (executionID : String) : History :=
  { h with handed := h.handed.filter fun x => x.1 ≠ tid ∨ x.2.executionID = executionID }

def sends (tid : ℕ) (entry : QueueEntry) (deadline : ℤ) (cancelledBefore : List String)
    (others : List InFlight) : History :=
  { h.letsGo entry.deviceID tid with
    inFlight := h.inFlight ++ [⟨entry.deviceID, entry.executionID, deadline⟩]
    sent := h.sent ++ [⟨entry.kind, entry.deviceID, entry.executionID, entry.runID,
      entry.jobID, cancelledBefore, others⟩]
    licences := h.licences.erase (tid, entry.jobID) }

def claimsJob (tid : ℕ) (jobID : String) (entry : QueueEntry) (now : ℤ) (changed : Bool) :
    History :=
  { h with
    handed := h.handed.filter fun x => x.1 ≠ tid
    licences := if changed then (tid, jobID) :: h.licences else h.licences
    claims := if changed then h.claims ++ [⟨jobID, entry.queuedAt, now⟩] else h.claims }

end History

def exec : {β : Type} → Op β → ℕ → System → Env → System × β
  | _, .now, _, s, _ => (s, s.now)
  | _, .advance, _, s, env => ({ s with now := s.now + env.elapsed }, ())
  | _, .newID, _, s, env => (s.issue env.uuid, env.uuid)
  | _, .createRun r, _, s, env => s.write env (s.store.createRun r)
  | _, .createJob j, _, s, env => s.write env (s.store.createJob j)
  | _, .getRun runID, _, s, env =>
    (s, if env.fails then .error .failed
      else match s.store.getRun runID with
        | none => .error .notFound
        | some r => .ok r)
  | _, .listRunJobs runID, _, s, env => s.read env (s.store.listRunJobs runID)
  | _, .listJobsToCancel runID, _, s, env =>
    (s.withHistory fun h => { h with closing := runID :: h.closing }).read env
      (s.store.listRunJobs runID)
  | _, .listStaleActionJobs pendingBefore dispatchedBefore, _, s, env =>
    s.read env (s.store.listStaleActionJobs pendingBefore dispatchedBefore)
  | _, .updateJobStatus jobID status executionID, _, s, env =>
    s.write env (s.store.updateJobStatus jobID status executionID s.now)
  | _, .updateJobResult jobID status executionID output stderr exitCode, _, s, env =>
    s.compareAndSet env
      (s.store.updateJobResult jobID status executionID output stderr exitCode s.now)
  | _, .updateJobResultCode jobID code, _, s, env =>
    s.compareAndSet env (s.store.updateJobResultCode jobID code)
  | _, .markJobDispatched jobID time entry, tid, s, env =>
    let r := s.store.markJobDispatched jobID time
    (s.withHistory fun h => h.claimsJob tid jobID entry s.now (!env.fails && r.2)).compareAndSet
      env r
  | _, .expireJobIfStatus jobID fromStatus newStatus time, _, s, env =>
    s.compareAndSet env (s.store.expireJobIfStatus jobID fromStatus newStatus time)
  | _, .updateRunStatus runID status, _, s, env =>
    s.write env (s.store.updateRunStatus runID status)
  | _, .updateRunCounts runID completed failed _, _, s, env =>
    s.write env (s.store.updateRunCounts runID completed failed)
  | _, .enqueue entry, _, s, env => s.onQueue env (QueueStore.enqueue s.queue entry)
  | _, .dequeue deviceID, tid, s, env =>
    if env.fails then (s, .error .storage)
    else
      let r := QueueStore.dequeue s.queue env.rank deviceID s.now
      ({ s.withHistory (fun h => { h with handed := h.handed ++ r.2.map fun e => (tid, e) }) with
          queue := r.1 }, .ok r.2)
  | _, .acknowledge executionID deviceID state, _, s, env =>
    s.onQueue env (QueueStore.acknowledgeCompletion s.queue executionID deviceID state s.now)
  | _, .cancel deviceID executionID, _, s, env =>
    (s.withHistory fun h => if env.fails then h else h.ends deviceID executionID).onQueue env
      (QueueStore.cancel s.queue deviceID executionID)
  | _, .list deviceID, _, s, env =>
    (s, if env.fails then .error .storage else .ok (QueueStore.list s.queue deviceID))
  | _, .requeueStale dispatchTimeout, _, s, env =>
    (if env.fails then s
      else { s with queue := QueueStore.requeueStale s.queue dispatchTimeout s.now }, ())
  | _, .cleanupExpired, _, s, env =>
    (if env.fails then s else { s with queue := QueueStore.cleanupExpired s.queue s.now }, ())
  | _, .fill deviceID, tid, s, _ =>
    if deviceID ∈ s.full then (s, false)
    else
      ({ s.withHistory (fun h => { h with holders := (deviceID, tid) :: h.holders }) with
          full := deviceID :: s.full }, true)
  | _, .drain deviceID, tid, s, _ =>
    ({ s.withHistory (fun h => h.letsGo deviceID tid) with
        full := s.full.filter fun d => d ≠ deviceID }, ())
  | _, .recordLock deviceID, _, s, _ =>
    ({ s with lockMeta := s.lockMeta.store ⟨deviceID, s.now, "", 0⟩ }, s.now)
  | _, .setLock deviceID executionID ttl, tid, s, _ =>
    ({ s.withHistory (fun h => h.takesUp tid executionID) with
        lockMeta := s.lockMeta.update (·.deviceID = deviceID)
          (LockMeta.withExecution executionID ttl) fun _ => rfl }, ())
  | _, .clearLock deviceID, _, s, _ => ({ s with lockMeta := s.lockMeta.erase deviceID }, ())
  | _, .takeLock deviceID executionID, _, s, _ =>
    match s.lockMeta.get deviceID with
    | none => (s, false)
    | some m =>
      if m.executionID ≠ executionID then (s, false)
      else ({ s with lockMeta := s.lockMeta.erase deviceID }, true)
  | _, .expiredLocks defaultTTL, _, s, _ =>
    (s, s.lockMeta.rows.filter fun m =>
      (if m.lockTTL = 0 then defaultTTL else m.lockTTL) < s.now - m.acquiredAt)
  | _, .resolveGuard _ _, _, s, env => (s, env.holds)
  | _, .isLockedDown _, _, s, env => (s, env.holds)
  | _, .prepare _, _, s, env => (s, env.holds)
  | _, .send entry deadline cancelledBefore, tid, s, env =>
    match env.outcome with
    | .sent =>
      (s.withHistory fun h => h.sends tid entry deadline cancelledBefore
        (s.inFlightOn entry.deviceID), .sent)
    | .lockedDown => (s, .lockedDown)
    | .failed => (s, .failed)
  | _, .beginDispatch, _, s, _ => (s, s.history.cancelled)
  | _, .reportEnd deviceID executionID, _, s, _ =>
    (s.withHistory fun h => h.ends deviceID executionID, ())
  | _, .returnCancelled runID, _, s, _ =>
    (s.withHistory fun h => { h with cancelled := runID :: h.cancelled }, ())

namespace System

variable {s : System} {env : Env}

@[simp] theorem write_store (r : Option RunStore) (hok : env.fails = false) :
    (s.write env r).1.store = r.getD s.store := by
  cases r with
  | none => simp [write]
  | some store => simp [write, hok]

theorem write_eq_ok {r : Option RunStore} {u : Unit} (h : (s.write env r).2 = .ok u) :
    ∃ store, r = some store ∧ (s.write env r).1 = { s with store := store } := by
  cases r with
  | none => simp [write] at h
  | some store =>
    cases hfails : env.fails
    · exact ⟨store, rfl, by simp [write, hfails]⟩
    · simp [write, hfails] at h

@[simp] theorem compareAndSet_store (r : RunStore × Bool) (hok : env.fails = false) :
    (s.compareAndSet env r).1.store = r.1 := by
  simp [compareAndSet, hok]

theorem write_rule {P : RunStore → Prop} {r : Option RunStore} (hs : P s.store)
    (hr : ∀ store, r = some store → P store) : P (s.write env r).1.store := by
  unfold write
  split
  · exact hr _ rfl
  · exact hs

theorem compareAndSet_rule {P : RunStore → Prop} {r : RunStore × Bool} (hs : P s.store)
    (hr : P r.1) : P (s.compareAndSet env r).1.store := by
  unfold compareAndSet
  split
  · exact hs
  · exact hr

theorem onQueue_eq (r : Except QueueError QueueStore) :
    ∃ q, (s.onQueue env r).1 = { s with queue := q } ∧ (q = s.queue ∨ r = .ok q) := by
  unfold onQueue
  split
  · exact ⟨_, rfl, .inl rfl⟩
  · exact ⟨_, rfl, .inl rfl⟩
  · exact ⟨_, rfl, .inr rfl⟩

end System

inductive Part where
  | now
  | store
  | queue
  | full
  | lockMeta
  | closing
  | cancelled
  | holders
  | inFlight
  | sent
  | handed
  | licences
  | claims
  deriving DecidableEq

/-- The parts of the system that an operation can change. -/
def Op.changes : {β : Type} → Op β → List Part
  | _, .advance => [.now]
  | _, .createRun _ | _, .createJob _ | _, .updateJobStatus _ _ _ | _, .updateJobResult _ _ _ _ _ _
  | _, .updateJobResultCode _ _ | _, .expireJobIfStatus _ _ _ _ | _, .updateRunStatus _ _
  | _, .updateRunCounts _ _ _ _ => [.store]
  | _, .markJobDispatched _ _ _ => [.store, .handed, .licences, .claims]
  | _, .enqueue _ | _, .acknowledge _ _ _ | _, .requeueStale _ | _, .cleanupExpired => [.queue]
  | _, .dequeue _ => [.queue, .handed]
  | _, .cancel _ _ => [.queue, .inFlight]
  | _, .fill _ => [.full, .holders]
  | _, .drain _ => [.full, .holders, .handed]
  | _, .recordLock _ | _, .clearLock _ | _, .takeLock _ _ => [.lockMeta]
  | _, .setLock _ _ _ => [.lockMeta, .handed]
  | _, .send _ _ _ => [.holders, .inFlight, .sent, .handed, .licences]
  | _, .listJobsToCancel _ => [.closing]
  | _, .reportEnd _ _ => [.inFlight]
  | _, .returnCancelled _ => [.cancelled]
  | _, _ => []

/-- The two systems differ at most in the given parts. -/
structure Frame (c : List Part) (s s' : System) : Prop where
  now : c.contains .now = false → s'.now = s.now
  store : c.contains .store = false → s'.store = s.store
  queue : c.contains .queue = false → s'.queue = s.queue
  full : c.contains .full = false → s'.full = s.full
  lockMeta : c.contains .lockMeta = false → s'.lockMeta = s.lockMeta
  closing : c.contains .closing = false → s'.history.closing = s.history.closing
  cancelled : c.contains .cancelled = false → s'.history.cancelled = s.history.cancelled
  holders : c.contains .holders = false → s'.history.holders = s.history.holders
  inFlight : c.contains .inFlight = false → s'.history.inFlight = s.history.inFlight
  sent : c.contains .sent = false → s'.history.sent = s.history.sent
  handed : c.contains .handed = false → s'.history.handed = s.history.handed
  licences : c.contains .licences = false → s'.history.licences = s.history.licences
  claims : c.contains .claims = false → s'.history.claims = s.history.claims

section Frame

variable {β : Type} {o : Op β} {tid : ℕ} {s : System} {env : Env}

theorem exec_frame (o : Op β) (tid : ℕ) (s : System) (env : Env) :
    Frame o.changes s (exec o tid s env).1 := by
  cases o with
  | cancel =>
    cases hfails : env.fails <;> simp only [exec, System.onQueue, System.withHistory, hfails]
    · split <;> constructor <;> first | exact fun _ => rfl | simp [Op.changes]
    · constructor <;> exact fun _ => rfl
  | takeLock =>
    simp only [exec]
    split
    · constructor <;> exact fun _ => rfl
    · split <;> constructor <;> first | exact fun _ => rfl | simp [Op.changes]
  | createRun | createJob | updateJobStatus | updateRunStatus | updateRunCounts | updateJobResult
  | updateJobResultCode | markJobDispatched | expireJobIfStatus | enqueue | acknowledge | dequeue
  | requeueStale | cleanupExpired | fill | send =>
    simp only [exec, System.write, System.compareAndSet, System.onQueue]
    split <;> constructor <;> first | exact fun _ => rfl | simp [Op.changes]
  | _ => constructor <;> first | exact fun _ => rfl | simp [Op.changes]

theorem exec_markJobDispatched (tid : ℕ) (s : System) (env : Env) (jobID : String) (time : ℤ)
    (entry : QueueEntry) : ∃ store changed, (exec (.markJobDispatched jobID time entry) tid s env).1 =
        { s with store := store, history := s.history.claimsJob tid jobID entry s.now changed } ∧
      ((exec (.markJobDispatched jobID time entry) tid s env).2 = .ok true ↔ changed = true) ∧
      (changed = true → (s.store.markJobDispatched jobID time).2 = true ∧
        store = (s.store.markJobDispatched jobID time).1) := by
  cases hfails : env.fails with
  | true => exact ⟨s.store, false, by simp [exec, System.compareAndSet, hfails, System.withHistory]⟩
  | false =>
    refine ⟨_, (s.store.markJobDispatched jobID time).2, ?_, ?_, fun h => ⟨h, rfl⟩⟩
    · simp [exec, System.compareAndSet, hfails, System.withHistory]
    · simp [exec, System.compareAndSet, hfails]

theorem mem_of_exec_enqueue {e entry : QueueEntry}
    (he : e ∈ (exec (.enqueue entry) tid s env).1.queue.rows) : e = entry ∨ e ∈ s.queue.rows := by
  obtain ⟨q, hq, hold | hnew⟩ : ∃ q, (s.onQueue env (QueueStore.enqueue s.queue entry)).1 =
      { s with queue := q } ∧ _ := System.onQueue_eq _
  · simp only [exec, hq, hold] at he
    exact .inr he
  · simp only [exec, hq] at he
    unfold QueueStore.enqueue at hnew
    split at hnew <;> cases hnew
    exact Table.mem_store he

def Op.enqueues : {β : Type} → Op β → Bool
  | _, .enqueue _ => true
  | _, _ => false

theorem onQueue_evolves {r : Except QueueError QueueStore}
    (hr : ∀ q, r = .ok q → QueueStore.Evolves s.queue q) :
    QueueStore.Evolves s.queue (s.onQueue env r).1.queue := by
  unfold System.onQueue
  split
  · exact .refl _
  · exact .refl _
  · exact hr _ rfl

/-- Only an enqueue makes an entry active. -/
theorem exec_evolves (h : o.enqueues = false) :
    QueueStore.Evolves s.queue (exec o tid s env).1.queue := by
  cases o with
  | enqueue => cases h
  | acknowledge => exact onQueue_evolves fun q => QueueStore.evolves_acknowledgeCompletion
  | cancel => exact onQueue_evolves (s := s.withHistory _) fun q => QueueStore.evolves_cancel
  | requeueStale dispatchTimeout =>
    simp only [exec]
    split
    · exact .refl _
    · exact QueueStore.evolves_requeueStale dispatchTimeout s.now
  | cleanupExpired =>
    simp only [exec]
    split
    · exact .refl _
    · exact QueueStore.evolves_cleanupExpired s.now
  | dequeue deviceID =>
    simp only [exec]
    split
    · exact .refl _
    · exact QueueStore.evolves_dequeue env.rank deviceID s.now
  | _ =>
    rw [(exec_frame _ _ _ _).queue rfl]
    exact .refl _

end Frame

abbrev api : Interface System Env := ⟨Op, exec⟩

end Cfgms.Dispatch
