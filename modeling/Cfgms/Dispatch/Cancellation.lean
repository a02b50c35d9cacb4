import Cfgms.Dispatch.Routine

/-! # Cancelling a run

`CancelRun` cancels the queue entries that the jobs of the run name. A run that was cancelled
stays so if the jobs name every active entry of the run when they are listed and no entry of
the run is queued from then on. A retry breaks the first, as its id is not on the job.
-/

namespace Cfgms.Dispatch

open Ordered Script Run List Discipline

def ActiveFor (runID : String) (e : QueueEntry) : Prop := e.runID = runID ∧ e.state.active

instance (runID : String) (e : QueueEntry) : Decidable (ActiveFor runID e) :=
  inferInstanceAs (Decidable (_ ∧ _))

def NamedBy (jobs : List JobRecord) (e : QueueEntry) : Prop :=
  ∃ j ∈ jobs, j.status.isTerminal = false ∧ j.executionID ≠ "" ∧ j.deviceID = e.deviceID ∧
    j.executionID = e.executionID

instance (jobs : List JobRecord) (e : QueueEntry) : Decidable (NamedBy jobs e) :=
  inferInstanceAs (Decidable (∃ j ∈ jobs, _))

/-- When the jobs of a run are listed to be cancelled they name its active entries, and no
entry of the run is queued afterwards. -/
def isOrderly : {β : Type} → System → ℕ → Op β → Env → Bool
  | _, s, _, .listJobsToCancel runID, _ => ∀ e ∈ s.queue.rows, ActiveFor runID e →
    NamedBy (s.store.listRunJobs runID) e
  | _, s, _, .enqueue entry, _ => entry.runID ∉ s.history.closing
  | _, _, _, _, _ => true

def Orderly {β : Type} (s : System) (tid : ℕ) (o : Op β) (env : Env) : Prop := isOrderly s tid o env

instance {β : Type} (s : System) (tid : ℕ) (o : Op β) (env : Env) :
    Decidable (Orderly s tid o env) := inferInstanceAs (Decidable (_ = true))

structure CancelInv (s : System) : Prop where
  closing : s.history.cancelled ⊆ s.history.closing
  gone : ∀ runID ∈ s.history.cancelled, ∀ e ∈ s.queue.rows, ¬ ActiveFor runID e
  sent : ∀ x ∈ s.history.sent, x.runID ∉ x.cancelledBefore

/-- What a call needs no knowledge for. -/
def Unwitting : {β : Type} → Op β → Prop
  | _, .returnCancelled _ => False
  | _, .send entry _ cancelledBefore => entry.runID ∉ cancelledBefore
  | _, _ => True

/-- A cancellation returns when nothing is left of the run, and what is sent belongs to no run
that was cancelled before. -/
def CancelPre : {β : Type} → System → ℕ → Op β → Prop
  | _, s, _, .returnCancelled runID =>
    runID ∈ s.history.closing ∧ ∀ e ∈ s.queue.rows, ¬ ActiveFor runID e
  | _, _, _, o => Unwitting o

variable {β : Type} {s s' : System} {tid : ℕ} {o : Op β} {env : Env}

/-- Runs are listed and cancelled for good, and a run that was listed gets no new entry. -/
structure Shrinks (s s' : System) : Prop where
  closing : s.history.closing ⊆ s'.history.closing
  cancelled : s.history.cancelled ⊆ s'.history.cancelled
  entries : ∀ runID ∈ s.history.closing, ∀ e' ∈ s'.queue.rows, ActiveFor runID e' →
    ∃ e ∈ s.queue.rows, ActiveFor runID e ∧ e'.asQueued = e.asQueued

theorem Shrinks.refl (s : System) : Shrinks s s :=
  ⟨List.Subset.refl _, List.Subset.refl _, fun _ _ e he hactive => ⟨e, he, hactive, rfl⟩⟩

theorem Shrinks.trans {s'' : System} (h : Shrinks s s') (h' : Shrinks s' s'') : Shrinks s s'' := by
  refine ⟨List.Subset.trans h.closing h'.closing, List.Subset.trans h.cancelled h'.cancelled, ?_⟩
  intro runID hclosing e'' he'' hactive
  obtain ⟨e', he', hactive', hsame'⟩ := h'.entries runID (h.closing hclosing) e'' he'' hactive
  obtain ⟨e, he, hactive, hsame⟩ := h.entries runID hclosing e' he' hactive'
  exact ⟨e, he, hactive, hsame'.trans hsame⟩

variable {runID : String} {jobs : List JobRecord}

theorem active_of_evolves {q q' : QueueStore} (h : QueueStore.Evolves q q')
    {e' : QueueEntry} (he' : e' ∈ q'.rows) (hactive : ActiveFor runID e') :
    ∃ e ∈ q.rows, ActiveFor runID e ∧ e'.asQueued = e.asQueued := by
  obtain ⟨e, he, hsame, hstate⟩ := h e' he'
  refine ⟨e, he, ⟨?_, hstate hactive.2⟩, hsame⟩
  exact (congrArg QueueEntry.runID hsame).symm.trans hactive.1

theorem exec_entries (hguard : Orderly s tid o env)
    (hclosing : runID ∈ s.history.closing) {e' : QueueEntry}
    (he' : e' ∈ (exec o tid s env).1.queue.rows) (hactive : ActiveFor runID e') :
    ∃ e ∈ s.queue.rows, ActiveFor runID e ∧ e'.asQueued = e.asQueued := by
  cases o with
  | enqueue entry =>
    rcases mem_of_exec_enqueue he' with rfl | he
    · exact absurd (hactive.1 ▸ hclosing) (of_decide_eq_true hguard)
    · exact ⟨e', he, hactive, rfl⟩
  | _ => exact active_of_evolves (exec_evolves rfl) he' hactive

theorem exec_shrinks (hguard : Orderly s tid o env) : Shrinks s (exec o tid s env).1 := by
  have hlog : s.history.closing ⊆ (exec o tid s env).1.history.closing ∧
      s.history.cancelled ⊆ (exec o tid s env).1.history.cancelled := by
    cases o with
    | listJobsToCancel => exact ⟨subset_cons_self _ _, List.Subset.refl _⟩
    | returnCancelled => exact ⟨List.Subset.refl _, subset_cons_self _ _⟩
    | _ =>
      rw [(exec_frame _ _ _ _).closing rfl, (exec_frame _ _ _ _).cancelled rfl]
      exact ⟨List.Subset.refl _, List.Subset.refl _⟩
  exact ⟨hlog.1, hlog.2, fun _ hclosing _ he' hactive => exec_entries hguard hclosing he' hactive⟩

theorem CancelInv.gone_of_shrinks (h : CancelInv s) (hshrinks : Shrinks s s') :
    ∀ runID ∈ s.history.cancelled, ∀ e ∈ s'.queue.rows, ¬ ActiveFor runID e := by
  intro runID hcancelled e' he' hactive
  obtain ⟨e, he, hactive, _⟩ := hshrinks.entries runID (h.closing hcancelled) e' he' hactive
  exact h.gone runID hcancelled e he hactive

theorem CancelInv.of_log (h : CancelInv s) (hclosing : s'.history.closing = s.history.closing)
    (hcancelled : s'.history.cancelled = s.history.cancelled)
    (hgone : ∀ runID ∈ s.history.cancelled, ∀ e ∈ s'.queue.rows, ¬ ActiveFor runID e)
    (hsent : ∀ x ∈ s'.history.sent, x.runID ∉ x.cancelledBefore) : CancelInv s' := by
  constructor
  · rw [hcancelled, hclosing]
    exact h.closing
  · rw [hcancelled]
    exact hgone
  · exact hsent

theorem exec_cancelInv (h : CancelInv s) (hpre : CancelPre s tid o) (hguard : Orderly s tid o env) :
    CancelInv (exec o tid s env).1 := by
  have hgone := h.gone_of_shrinks (exec_shrinks hguard)
  have hframe := exec_frame o tid s env
  cases o with
  | listJobsToCancel runID =>
    exact ⟨List.Subset.trans h.closing (subset_cons_self _ _), h.gone, h.sent⟩
  | returnCancelled runID =>
    exact ⟨cons_subset.mpr ⟨hpre.1, h.closing⟩, forall_mem_cons.mpr ⟨hpre.2, h.gone⟩, h.sent⟩
  | send entry deadline cancelledBefore =>
    refine h.of_log (hframe.closing rfl) (hframe.cancelled rfl) hgone ?_
    simp only [exec]
    split
    · exact forall_mem_append.mpr ⟨h.sent, forall_mem_singleton.mpr hpre⟩
    all_goals exact h.sent
  | _ =>
    refine h.of_log (hframe.closing rfl) (hframe.cancelled rfl) hgone ?_
    rw [hframe.sent rfl]
    exact h.sent

def cancellation : Discipline api where
  Inv := CancelInv
  Guard := Orderly
  Pre := CancelPre
  Rely _ := Shrinks
  rely_refl _ := .refl
  rely_trans := .trans
  exec_inv := exec_cancelInv
  exec_rely _ _ hguard _ := exec_shrinks hguard

theorem Unwitting.pre (h : Unwitting o) : CancelPre s tid o := by
  cases o with
  | returnCancelled => cases h
  | _ => exact h

theorem Routine.unwitting {E : QueueEntry → Prop} {L : Prop} (h : Routine E L o) : Unwitting o := by
  cases o with
  | returnCancelled | send => cases h
  | _ => trivial

variable {α : Type} {p : Call α}

theorem safe_of_unwitting {K : System → Prop} (hp : p.All Unwitting)
    (hK : ∀ {s s'}, K s → Shrinks s s' → K s') (hs : K s) :
    cancellation.Safe tid (fun s _ => K s) s p :=
  Discipline.Safe.of_all (K := K) hp (fun h _ _ => h.pre) hK
    (fun _ _ hguard h => hK h (exec_shrinks hguard)) hs

theorem safe_unwitting (hp : p.All Unwitting) : cancellation.Runs tid s p :=
  safe_of_unwitting (K := fun _ => True) hp (fun _ _ => trivial) trivial

theorem unwitting_of_routine (hp : p.All (Routine (fun _ => True) True)) :
    p.All Unwitting := hp.mono Routine.unwitting

/-- The run was listed, and the jobs name what is left of it. -/
def Left (runID : String) (jobs : List JobRecord) (s : System) : Prop :=
  runID ∈ s.history.closing ∧ ∀ e ∈ s.queue.rows, ActiveFor runID e → NamedBy jobs e

theorem Left.shrinks (h : Left runID jobs s) (hshrinks : Shrinks s s') : Left runID jobs s' := by
  refine ⟨hshrinks.closing h.1, fun e' he' hactive => ?_⟩
  obtain ⟨e, he, hactive, hsame⟩ := hshrinks.entries runID h.1 e' he' hactive
  obtain ⟨j, hj, hopen, hid, hdevice, hexecution⟩ := h.2 e he hactive
  refine ⟨j, hj, hopen, hid, ?_, ?_⟩
  · exact hdevice.trans (congrArg QueueEntry.deviceID hsame).symm
  · exact hexecution.trans (congrArg QueueEntry.executionID hsame).symm

variable {job : JobRecord}

theorem Left.tail (h : Left runID (job :: jobs) s)
    (hjob : job.status.isTerminal = false → job.executionID ≠ "" → ∀ e ∈ s.queue.rows,
      e.deviceID = job.deviceID → e.executionID = job.executionID → e.state.active = false) :
    Left runID jobs s := by
  refine ⟨h.1, fun e he hactive => ?_⟩
  obtain ⟨j, hj, hopen, hid, hdevice, hexecution⟩ := h.2 e he hactive
  rcases mem_cons.mp hj with rfl | hj
  · have := hjob hopen hid e he hdevice.symm hexecution.symm
    rw [hactive.2] at this
    cases this
  · exact ⟨j, hj, hopen, hid, hdevice, hexecution⟩

theorem exec_cancel_inactive {deviceID executionID : String} {u : Unit}
    (h : orAbsent (exec (.cancel deviceID executionID) tid s env).2 = .ok u) :
    ∀ e ∈ (exec (.cancel deviceID executionID) tid s env).1.queue.rows,
      e.deviceID = deviceID → e.executionID = executionID → e.state.active = false := by
  cases hfails : env.fails with
  | true => simp [exec, System.onQueue, hfails, orAbsent] at h
  | false =>
    intro e he hdevice hid
    apply QueueStore.not_active_cancel s.queue _ hdevice hid
    simp only [exec, System.onQueue, hfails] at he
    generalize QueueStore.cancel s.queue deviceID executionID = r at he ⊢
    cases r <;> exact he

theorem cancelQueued_safe (h : Left runID (job :: jobs) s) :
    cancellation.Safe tid (fun s r => r = .ok () → Left runID jobs s) s (cancelQueued job) := by
  unfold cancelQueued
  split
  · next hid => exact fun _ => h.tail fun _ hne => absurd hid hne
  refine safe_op_bind.mpr fun s' hrely _ => ⟨trivial, fun env hguard => ?_⟩
  intro hok
  apply (h.shrinks (hrely.trans (exec_shrinks hguard))).tail
  exact fun _ _ => exec_cancel_inactive hok

theorem releaseCancelled_unwitting (job : JobRecord) : (releaseCancelled job).All Unwitting :=
  unwitting_of_routine (releaseCancelled_routine trivial job)

theorem cancelJob_safe (h : Left runID (job :: jobs) s) :
    cancellation.Safe tid (fun s r => r = .ok () → Left runID jobs s) s (cancelJob job) := by
  apply (cancelQueued_safe h).bind
  rintro s (e | ⟨⟩) hleft
  · rintro ⟨⟩
  refine (safe_of_unwitting ?_ (fun h => h.shrinks) (hleft rfl)).mono fun _ _ h _ => h
  apply (releaseCancelled_unwitting job).bind
  intro _
  refine ⟨trivial, ?_⟩
  rintro (_ | _) <;> trivial

theorem cancelJobs_safe (h : Left runID jobs s) :
    cancellation.Safe tid (fun s r => r = .ok () → Left runID [] s) s (cancelJobs jobs) := by
  induction jobs generalizing s with
  | nil => exact fun _ => h
  | cons job jobs ih =>
    unfold cancelJobs
    split
    · next hterminal =>
      apply ih
      apply h.tail
      intro hopen
      rw [hterminal] at hopen
      cases hopen
    · apply (cancelJob_safe h).bind
      rintro s (e | ⟨⟩) hleft
      · rintro ⟨⟩
      · exact ih (hleft rfl)

theorem cancelRun_safe (runID : String) :
    cancellation.Safe tid (fun s r => r = .ok () → Left runID [] s) s (cancelRun runID) := by
  refine safe_op_bind.mpr fun s _ _ => ⟨trivial, fun env _ => ?_⟩
  generalize (exec (.getRun runID) tid s env).2 = r
  rcases r with (_ | _) | run
  · rintro ⟨⟩
  · rintro ⟨⟩
  dsimp only
  split
  · rintro ⟨⟩
  refine safe_op_bind.mpr fun s _ _ => ⟨trivial, fun env hnamed => ?_⟩
  have hlisted : Left runID (s.store.listRunJobs runID)
      (exec (.listJobsToCancel runID) tid s env).1 :=
    ⟨mem_cons_self, of_decide_eq_true hnamed⟩
  cases hfails : env.fails with
  | true =>
    simp only [exec, System.read, hfails]
    rintro ⟨⟩
  | false =>
    simp only [exec, System.read, hfails] at hlisted ⊢
    apply (cancelJobs_safe hlisted).bind
    rintro s (e | ⟨⟩) hleft
    · rintro ⟨⟩
    refine (safe_of_unwitting ?_ (fun h => h.shrinks) (hleft rfl)).mono fun _ _ h _ => h
    refine ⟨trivial, ?_⟩
    rintro (_ | _) <;> trivial

theorem cancelRunRequest_safe (runID : String) :
    cancellation.Runs tid s (cancelRunRequest runID) := by
  apply (cancelRun_safe runID).bind
  rintro s (e | ⟨⟩) hleft
  · trivial
  refine fun s' hrely _ => ⟨?_, fun _ _ => trivial⟩
  obtain ⟨hclosing, hnamed⟩ := (hleft rfl).shrinks hrely
  refine ⟨hclosing, fun e he hactive => ?_⟩
  obtain ⟨j, hj, _⟩ := hnamed e he hactive
  cases hj

theorem dequeue_runID (h : CancelInv s) {rank : String → ℕ} {deviceID : String} {e : QueueEntry}
    (he : e ∈ (QueueStore.dequeue s.queue rank deviceID s.now).2) :
    e.runID ∉ s.history.cancelled := by
  intro hcancelled
  obtain ⟨_, _, e₀, he₀, hsame, hstate⟩ := QueueStore.mem_dequeue _ he
  apply h.gone _ hcancelled e₀ he₀
  refine ⟨(congrArg QueueEntry.runID hsame).symm, ?_⟩
  rcases hstate with ⟨hqueued, _⟩ | hdispatched
  · simp [hqueued, QueueState.active]
  · simp [hdispatched, QueueState.active]

variable (cfg : Config)

theorem dispatchHeld_cancellation_safe (deviceID : String) {cancelledBefore : List String}
    (h : cancelledBefore ⊆ s.history.cancelled) :
    cancellation.Runs tid s (dispatchHeld cfg deviceID cancelledBefore) := by
  have hrelease := unwitting_of_routine (releaseDevice_routine deviceID)
  refine safe_op_bind.mpr fun s₁ hrely₁ _ => ⟨trivial, fun env₁ hguard₁ => ?_⟩
  refine safe_op_bind.mpr fun s₂ hrely₂ hinv₂ => ⟨trivial, fun env₂ _ => ?_⟩
  have hcancelled :=
    List.Subset.trans h ((hrely₁.trans (exec_shrinks hguard₁)).trans hrely₂).cancelled
  simp only [exec]
  split
  · exact safe_unwitting hrelease
  apply safe_unwitting
  have hentries : ∀ e ∈ (QueueStore.dequeue s₂.queue env₂.rank deviceID s₂.now).2,
      e.runID ∉ cancelledBefore :=
    fun e he hmem => dequeue_runID hinv₂ he (hcancelled hmem)
  apply (unwitting_of_routine (checkGuards_routine _ _)).bind_returns (checkGuards_returns _ _)
  rintro (_ | ⟨e, es⟩) hkept
  · exact hrelease
  have he : e.runID ∉ cancelledBefore := hentries e (hkept mem_cons_self)
  apply dispatchExecution_all Routine.unwitting
  · exact fun _ => he
  · exact fun _ _ => trivial
  · exact fun _ => trivial

theorem dispatchForDevice_cancellation_safe (deviceID : String) :
    cancellation.Runs tid s (dispatchForDevice cfg deviceID) := by
  refine safe_op_bind.mpr fun s₁ _ _ => ⟨trivial, fun env₁ _ => ?_⟩
  refine safe_op_bind.mpr fun s₂ hrely₂ _ => ⟨trivial, fun env₂ hguard₂ => ?_⟩
  cases (exec (.fill deviceID) tid s₂ env₂).2 with
  | false => trivial
  | true =>
    apply dispatchHeld_cancellation_safe
    exact (Shrinks.trans hrely₂ (exec_shrinks hguard₂)).cancelled

theorem code_cancellation_safe (c : Request) :
    cancellation.Runs tid s (c.code cfg) := by
  have hplain : c.Plain cfg (fun _ => True) True →
      cancellation.Runs tid s (c.code cfg) :=
    fun h => safe_unwitting (unwitting_of_routine (code_routine (fun _ _ => trivial) h))
  cases c with
  | cancelRun runID => exact cancelRunRequest_safe runID
  | dispatchForDevice deviceID => exact dispatchForDevice_cancellation_safe cfg deviceID
  | queueExecution deviceID x => exact hplain fun _ _ => trivial
  | actionRun q => exact hplain fun _ _ _ _ _ _ _ => trivial
  | _ => exact hplain trivial

def Request.OrderlyPermitted (p : Pool api) (a : PoolAction Request Env) : Prop :=
  Pool.Permitted (fun _ _ => True) Orderly p a

instance (p : Pool api) (a : PoolAction Request Env) : Decidable (Request.OrderlyPermitted p a) :=
  inferInstanceAs (Decidable (Pool.Permitted _ _ _ _))

/-- Where cancellations find the entries of their runs and nothing of a run is queued later,
nothing of a cancelled run is active, or sent by a dispatch that began after the cancellation. -/
theorem cancelled_run_inactive {cfg : Config} {s : System} {p : Pool api}
    {as : List (PoolAction Request Env)} (hhistory : s.history = .empty)
    (hguarded : (Pool.machine (Request.code cfg)).Guarded Request.OrderlyPermitted ⟨s, []⟩ as)
    (hrun : (Pool.machine (Request.code cfg)).run ⟨s, []⟩ as = some p) :
    (∀ runID ∈ p.state.history.cancelled, ∀ e ∈ p.state.queue.rows, e.runID = runID →
      e.state.active = false) ∧
    ∀ x ∈ p.state.history.sent, x.runID ∉ x.cancelledBefore := by
  have hstart : CancelInv s := by
    constructor <;> simp [hhistory, History.empty]
  have hsound : cancellation.Sound p := by
    apply run_sound (S := fun _ _ => True)
      (fun _ c _ _ _ => code_cancellation_safe cfg c) _ hguarded hrun
    constructor
    · exact hstart
    · intro tid q hq
      cases hq
  have hinv : CancelInv p.state := hsound.1
  refine ⟨fun runID hcancelled e he hrunID => ?_, hinv.sent⟩
  exact Bool.eq_false_iff.mpr fun hactive => hinv.gone runID hcancelled e he ⟨hrunID, hactive⟩

def idempotentScript : ScriptRunRequest where
  devices := [⟨"dev-1", .empty⟩]
  tenantID := "acme"
  createdBy := "operator"
  scriptRef := "cleanup"
  scriptVersion := "1"
  shell := "bash"
  runtimeParams := .empty
  scriptMeta := some ⟨[], true⟩
  paramPlatformBindings := .empty
  requiredAPIScope := []

def firstFails : TerminalEvent where
  stewardID := "dev-1"
  executionID := "exec-1"
  commandFailed := true
  details := ⟨none, none, none, none, none, none, ""⟩

def scriptSent : List (PoolAction Request Env) :=
  .start (.scriptRun idempotentScript) ::
    drawing 0 ["run-1", "", "", "job-1", "exec-1", "", "", "", ""] ++
  .start (.dispatchForDevice "dev-1") :: calls 1 8

theorem cancelled_run_inactive_sent :
    ∃ p, (Pool.machine (Request.code plainConfig)).run ⟨emptySystem, []⟩
        (scriptSent ++ .start (.cancelRun "run-1") :: calls 2 8) = some p ∧
      "run-1" ∈ p.state.history.cancelled ∧
      ∀ e ∈ p.state.queue.rows, e.runID = "run-1" → e.state.active = false := by
  refine exists_some_of_any (P := fun p => "run-1" ∈ p.state.history.cancelled)
    (by decide +kernel) fun p hp hcancelled => ⟨hcancelled, ?_⟩
  exact (cancelled_run_inactive rfl (by decide +kernel) hp).1 _ hcancelled

/-- The execution fails and is queued again under a new id, the run is cancelled, and the next
dispatch sends the retry. -/
theorem retry_of_cancelled_run_sent :
    ∃ p p', (Pool.machine (Request.code plainConfig)).run ⟨emptySystem, []⟩
        (scriptSent ++ .start (.completionEvent firstFails) ::
          drawing 2 ["", "", "", "exec-2", "", "", "", ""] ++
          .start (.cancelRun "run-1") :: calls 3 7) = some p ∧
      "run-1" ∈ p.state.history.cancelled ∧ p.Idle ∧
      (∃ e ∈ p.state.queue.rows, e.runID = "run-1" ∧ e.state.active) ∧
      (Pool.machine (Request.code plainConfig)).run p
        (.start (.dispatchForDevice "dev-1") :: calls 4 8) = some p' ∧
      ∃ x ∈ p'.state.history.sent, x.runID ∈ x.cancelledBefore := by
  have hrun : ((Pool.machine (Request.code plainConfig)).run ⟨emptySystem, []⟩
      (scriptSent ++ .start (.completionEvent firstFails) ::
        drawing 2 ["", "", "", "exec-2", "", "", "", ""] ++
        .start (.cancelRun "run-1") :: calls 3 7)).any fun p =>
      decide ("run-1" ∈ p.state.history.cancelled ∧ p.Idle ∧
        ∃ e ∈ p.state.queue.rows, e.runID = "run-1" ∧ e.state.active) &&
      ((Pool.machine (Request.code plainConfig)).run p
        (.start (.dispatchForDevice "dev-1") :: calls 4 8)).any fun p' =>
          ∃ x ∈ p'.state.history.sent, x.runID ∈ x.cancelledBefore := by decide +kernel
  obtain ⟨p, hp, hrun'⟩ := (Option.any_eq_true _ _).mp hrun
  obtain ⟨hleft, hrun'⟩ := (Bool.and_eq_true _ _).mp hrun'
  obtain ⟨p', hp', hsent⟩ := (Option.any_eq_true _ _).mp hrun'
  obtain ⟨hcancelled, hidle, hactive⟩ := of_decide_eq_true hleft
  exact ⟨p, p', hp, hcancelled, hidle, hactive, hp', of_decide_eq_true hsent⟩

end Cfgms.Dispatch
