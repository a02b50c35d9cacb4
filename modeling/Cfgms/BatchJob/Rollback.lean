import Cfgms.BatchJob.Executor

/-! # What a finished job has done

A job that completed has updated every steward that was not refused, and one that was rolled back
has sent the previous configuration to every batch that had completed. The batch that failed is
not among these.
-/

namespace Cfgms.BatchJob

open List

variable (env : Env) (previousConfigRef : String)

theorem Outcome.success_iff {o : Outcome} : o.success ↔ o = .completed ∨ o = .refused := by
  cases o <;> simp [Outcome.success]

theorem dispatches_spec (step : ℕ) (configRef : Option String) (n : ℕ) (ids : List String) :
    (∀ d ∈ dispatches env step configRef n ids,
      d.stewardID ∈ ids ∧ d.step = step ∧ d.configRef = configRef) ∧
    ∀ id ∈ ids, ∃ d ∈ dispatches env step configRef n ids, d.stewardID = id := by
  induction ids generalizing n with
  | nil => simp [dispatches]
  | cons id ids ih =>
    obtain ⟨hsent, hall⟩ := ih (n + 1)
    unfold dispatches
    rw [forall_mem_cons, forall_mem_cons]
    refine ⟨⟨⟨mem_cons_self, rfl, rfl⟩, fun d hd => ?_⟩, ⟨_, mem_cons_self, rfl⟩,
      fun id' hid' => ?_⟩
    · obtain ⟨hid, hrest⟩ := hsent d hd
      exact ⟨mem_cons_of_mem _ hid, hrest⟩
    · obtain ⟨d, hd, heq⟩ := hall id' hid'
      exact ⟨d, mem_cons_of_mem _ hd, heq⟩

/-- What one round of dispatches does: it sends to each steward of the step, and reports no
failure exactly if all succeed. -/
theorem dispatchAll_spec (step : ℕ) (configRef : Option String) (ids : List String)
    (x : Execution) :
    ∃ sent, (dispatchAll env step configRef ids x).1 = { x with sent := x.sent ++ sent } ∧
      (∀ d ∈ sent, d.stewardID ∈ ids ∧ d.step = step ∧ d.configRef = configRef) ∧
      (∀ id ∈ ids, ∃ d ∈ sent, d.stewardID = id) ∧
      ((dispatchAll env step configRef ids x).2 = some [] → ∀ d ∈ sent, d.outcome.success) ∧
      ∀ id failed, (dispatchAll env step configRef ids x).2 = some (id :: failed) →
        ∃ d ∈ sent, ¬ d.outcome.success := by
  obtain ⟨hsent, hall⟩ := dispatches_spec env step configRef x.sent.length ids
  unfold dispatchAll
  dsimp only
  split
  · exact ⟨_, rfl, hsent, hall, by simp, by simp⟩
  refine ⟨_, rfl, hsent, hall, fun hnone d hd => ?_, fun id failed hfailed => ?_⟩
  · simp only [Option.some.injEq, map_eq_nil_iff, filter_eq_nil_iff] at hnone
    simpa using hnone d hd
  · simp only [Option.some.injEq] at hfailed
    have hmem : id ∈ ((dispatches env step configRef x.sent.length ids).filter
        fun d => !d.outcome.success).map (·.stewardID) := by simp [hfailed]
    obtain ⟨d, hd, -⟩ := mem_map.mp hmem
    obtain ⟨hd, hfail⟩ := mem_filter.mp hd
    exact ⟨d, hd, by simpa using hfail⟩

theorem mem_updateBatchStep {x : Execution} {step step' : BatchStep} :
    step' ∈ (x.updateBatchStep step).steps ↔
      step' = step ∨ step' ∈ x.steps ∧ step'.index ≠ step.index := by
  simp [Execution.updateBatchStep, mem_orderedInsert]

@[simp] theorem updateBatchStep_sent (x : Execution) (step : BatchStep) :
    (x.updateBatchStep step).sent = x.sent := rfl

@[simp] theorem updateBatchStep_status (x : Execution) (step : BatchStep) :
    (x.updateBatchStep step).status = x.status := rfl

/-- A rollback sends the previous configuration only, and if it succeeds then to every steward of
its steps. -/
theorem rollbackSteps_spec (steps : List BatchStep) (x : Execution) :
    ∃ sent, (rollbackSteps env previousConfigRef steps x).1.sent = x.sent ++ sent ∧
      (∀ d ∈ sent, d.configRef = some previousConfigRef) ∧
      ((rollbackSteps env previousConfigRef steps x).2 → ∀ step ∈ steps,
        ∀ id ∈ step.stewardIDs, ∃ d ∈ sent, d.stewardID = id ∧ d.outcome.success) := by
  induction steps generalizing x with
  | nil => exact ⟨[], by simp [rollbackSteps], by simp, by simp⟩
  | cons step rest ih =>
    obtain ⟨sent, hx, hsent, hall, hsuccess, -⟩ := dispatchAll_spec env step.index
      (some previousConfigRef) step.stewardIDs x
    unfold rollbackSteps dispatchRollbackBatch
    generalize dispatchAll env step.index (some previousConfigRef) step.stewardIDs x = r at *
    obtain ⟨x', failed⟩ := r
    subst hx
    match failed with
    | none => exact ⟨sent, rfl, fun d hd => (hsent d hd).2.2, by simp⟩
    | some [] =>
      obtain ⟨sent', hx', hsent', hall'⟩ := ih
        ({ x with sent := x.sent ++ sent }.updateBatchStep { step with status := .rolledBack })
      refine ⟨sent ++ sent', by simp [hx'], ?_, fun hok => ?_⟩
      · rw [forall_mem_append]
        exact ⟨fun d hd => (hsent d hd).2.2, hsent'⟩
      · rw [forall_mem_cons]
        refine ⟨fun id hid => ?_, fun step' hstep' id hid => ?_⟩
        · obtain ⟨d, hd, heq⟩ := hall id hid
          exact ⟨d, mem_append_left _ hd, heq, hsuccess rfl d hd⟩
        · obtain ⟨d, hd, heq⟩ := hall' hok step' hstep' id hid
          exact ⟨d, mem_append_right _ hd, heq⟩
    | some (id :: ids) =>
      obtain ⟨sent', hx', hsent', -⟩ := ih { x with sent := x.sent ++ sent }
      refine ⟨sent ++ sent', by simp [hx'], ?_, by simp⟩
      rw [forall_mem_append]
      exact ⟨fun d hd => (hsent d hd).2.2, hsent'⟩

/-- A steward of the next batch is contacted only after every steward of the one before has
acknowledged the new configuration or was refused. -/
def InOrder (batches : List (List String)) (sent : List Dispatch) : Prop :=
  ∀ before d after, sent = before ++ d :: after → d.configRef = none →
    ∀ i, d.step = i + 1 → ∀ batch, batches[i]? = some batch → ∀ id ∈ batch,
      ∃ d' ∈ before, d'.stewardID = id ∧ d'.step = i ∧ d'.configRef = none ∧
        (d'.outcome = .completed ∨ d'.outcome = .refused)

structure Advanced (batches : List (List String)) (i : ℕ) (x : Execution) : Prop where
  status : x.status = .running
  sent : ∀ d ∈ x.sent, d.configRef = none ∧ d.step < i ∧ d.outcome.success ∧
    ∃ batch, batches[d.step]? = some batch ∧ d.stewardID ∈ batch
  covered : ∀ j < i, ∀ batch, batches[j]? = some batch → ∀ id ∈ batch,
    ∃ d ∈ x.sent, d.stewardID = id ∧ d.step = j
  steps : ∀ j < i, ∀ batch, batches[j]? = some batch →
    ∃ step ∈ x.steps, step.index = j ∧ step.stewardIDs = batch ∧ step.status = .completed
  inOrder : InOrder batches x.sent

section Batches

variable {batches : List (List String)} {i : ℕ} {x : Execution}

theorem split_append {α : Type*} {l l' before after : List α} {a : α}
    (h : l ++ l' = before ++ a :: after) :
    (∃ rest, l = before ++ a :: rest ∧ after = rest ++ l') ∨
      ∃ rest, before = l ++ rest ∧ l' = rest ++ a :: after := by
  rcases append_eq_append_iff.mp h with ⟨rest, hbefore, hl'⟩ | ⟨rest, hl, hrest⟩
  · exact .inr ⟨rest, hbefore, hl'⟩
  cases rest with
  | nil => exact .inr ⟨[], by simpa using hl.symm, by simpa using hrest.symm⟩
  | cons b rest =>
    obtain ⟨rfl, rfl⟩ := List.cons.inj hrest
    exact .inl ⟨rest, hl, rfl⟩

variable {sent : List Dispatch}

variable (h : Advanced batches i x)
include h

theorem Advanced.inOrder_append (hsent : ∀ d ∈ sent, d.configRef = none → d.step = i) :
    InOrder batches (x.sent ++ sent) := by
  intro before d after heq hforward j hj batch hbatch id hid
  rcases split_append heq with ⟨rest, hx, -⟩ | ⟨rest, rfl, hrest⟩
  · exact h.inOrder before d rest hx hforward j hj batch hbatch id hid
  have hstep := hsent d (hrest ▸ mem_append_right _ mem_cons_self) hforward
  obtain ⟨d', hd', hid', hj'⟩ := h.covered j (by omega) batch hbatch id hid
  obtain ⟨hnew, -, hsuccess, -⟩ := h.sent d' hd'
  exact ⟨d', mem_append_left _ hd', hid', hj', hnew, Outcome.success_iff.mp hsuccess⟩

variable {batch : List String} {steps : List BatchStep}

theorem Advanced.next (hbatch : batches[i]? = some batch)
    (hsent : ∀ d ∈ sent, d.stewardID ∈ batch ∧ d.step = i ∧ d.configRef = none)
    (hall : ∀ id ∈ batch, ∃ d ∈ sent, d.stewardID = id)
    (hsuccess : ∀ d ∈ sent, d.outcome.success)
    (hsteps : ∀ step, step.index < i → step ∈ x.steps → step ∈ steps)
    (hstep : ⟨i, batch, .completed, []⟩ ∈ steps) :
    Advanced batches (i + 1) ⟨.running, steps, x.sent ++ sent⟩ where
  status := rfl
  sent := by
    rw [forall_mem_append]
    constructor
    · intro d hd
      obtain ⟨hnew, hlt, hrest⟩ := h.sent d hd
      exact ⟨hnew, by omega, hrest⟩
    · intro d hd
      obtain ⟨hid, rfl, hnew⟩ := hsent d hd
      exact ⟨hnew, by omega, hsuccess d hd, batch, hbatch, hid⟩
  covered := by
    intro j hj batch' hbatch' id hid
    rcases Nat.lt_succ_iff_lt_or_eq.mp hj with hlt | rfl
    · obtain ⟨d, hd, hrest⟩ := h.covered j hlt batch' hbatch' id hid
      exact ⟨d, mem_append_left _ hd, hrest⟩
    cases hbatch.symm.trans hbatch'
    obtain ⟨d, hd, heq⟩ := hall id hid
    exact ⟨d, mem_append_right _ hd, heq, (hsent d hd).2.1⟩
  steps := by
    intro j hj batch' hbatch'
    rcases Nat.lt_succ_iff_lt_or_eq.mp hj with hlt | rfl
    · obtain ⟨step, hstep, hindex, hrest⟩ := h.steps j hlt batch' hbatch'
      exact ⟨step, hsteps step (by omega) hstep, hindex, hrest⟩
    · cases hbatch.symm.trans hbatch'
      exact ⟨_, hstep, rfl, rfl, rfl⟩
  inOrder := h.inOrder_append fun d hd _ => (hsent d hd).2.1

structure Ended (previousConfigRef : String) (batches : List (List String)) (x : Execution) :
    Prop where
  rolledBack : x.status = .rolledBack → ∀ before d after, x.sent = before ++ d :: after →
    d.configRef = none → d.outcome = .completed →
    (∀ d' ∈ x.sent, d'.configRef = none → d'.step = d.step →
      d'.outcome = .completed ∨ d'.outcome = .refused) →
    ∃ d' ∈ after, d'.stewardID = d.stewardID ∧ d'.configRef = some previousConfigRef ∧
      (d'.outcome = .completed ∨ d'.outcome = .refused)
  completed : x.status = .completed → ∀ batch ∈ batches, ∀ id ∈ batch,
    ∃ d ∈ x.sent, d.stewardID = id ∧ d.configRef = none ∧
      (d.outcome = .completed ∨ d.outcome = .refused)
  inOrder : InOrder batches x.sent

omit h in
theorem Ended.of_inOrder (h : InOrder batches x.sent) (hrolled : x.status ≠ .rolledBack)
    (hcompleted : x.status ≠ .completed) : Ended previousConfigRef batches x :=
  ⟨fun hstatus => absurd hstatus hrolled, fun hstatus => absurd hstatus hcompleted, h⟩

/-- A batch with a failure ends the job, and the batches before it are rolled back. -/
theorem Advanced.rollback (hsent : ∀ d ∈ sent, d.step = i ∧ d.configRef = none)
    (hfailed : ∃ d ∈ sent, ¬ d.outcome.success)
    (hsteps : ∀ step, step.index < i → step ∈ x.steps → step ∈ steps) :
    Ended previousConfigRef batches
      (rollbackAppliedSteps env previousConfigRef ⟨.running, steps, x.sent ++ sent⟩) := by
  unfold rollbackAppliedSteps
  split
  · refine .of_inOrder _ (h.inOrder_append fun d hd _ => (hsent d hd).1) ?_ ?_ <;> simp
  next step rest hcompleted =>
  obtain ⟨undone, hundone, hprevious, hall⟩ := rollbackSteps_spec env
    previousConfigRef (step :: rest) ⟨.running, steps, x.sent ++ sent⟩
  rw [append_assoc] at hundone
  have hinOrder : InOrder batches (x.sent ++ (sent ++ undone)) := by
    refine h.inOrder_append fun d hd hforward => ?_
    rcases mem_append.mp hd with hd | hd
    · exact (hsent d hd).1
    · rw [hprevious d hd] at hforward
      cases hforward
  refine ⟨fun hstatus before d after heq hforward hdone hstep => ?_, fun hstatus => ?_, ?_⟩
  · dsimp only at hstatus heq hstep
    rw [hundone] at heq hstep
    have hok : (rollbackSteps env previousConfigRef (step :: rest)
        ⟨.running, steps, x.sent ++ sent⟩).2 := by
      by_contra hnot
      simp [hnot] at hstatus
    rcases split_append heq with ⟨before', hx, rfl⟩ | ⟨before', -, hlater⟩
    · -- the steward is of a batch that completed, and the step of that batch is undone
      have hd : d ∈ x.sent := hx ▸ mem_append_right _ mem_cons_self
      obtain ⟨-, hlt, -, batch, hbatch, hid⟩ := h.sent d hd
      obtain ⟨done, hmem, hindex, rfl, hcomplete⟩ := h.steps d.step hlt batch hbatch
      have hdone : done ∈ completedStepsOf steps :=
        mem_filter.mpr ⟨hsteps done (by omega) hmem, decide_eq_true hcomplete⟩
      rw [hcompleted] at hdone
      obtain ⟨d', hd', heq', hsuccess⟩ := hall hok done hdone d.stewardID hid
      refine ⟨d', ?_, heq', hprevious d' hd', Outcome.success_iff.mp hsuccess⟩
      exact mem_append_right _ (mem_append_right _ hd')
    · -- the batch of this steward has a failure
      have hd : d ∈ sent ++ undone := hlater ▸ mem_append_right _ mem_cons_self
      rcases mem_append.mp hd with hd | hd
      · obtain ⟨d', hd', hfail⟩ := hfailed
        have hsame : d'.step = d.step := (hsent d' hd').1.trans (hsent d hd).1.symm
        have hmem : d' ∈ x.sent ++ (sent ++ undone) :=
          mem_append_right _ (mem_append_left _ hd')
        exact absurd (Outcome.success_iff.mpr (hstep d' hmem (hsent d' hd').2 hsame)) hfail
      · rw [hprevious d hd] at hforward
        cases hforward
  · dsimp only at hstatus
    split at hstatus <;> cases hstatus
  · dsimp only
    rw [hundone]
    exact hinOrder

/-- A batch completes, or the job has ended with it. -/
theorem Advanced.runBatchStep (hbatch : batches[i]? = some batch) :
    if (runBatchStep env previousConfigRef i batch x).2 then
      Advanced batches (i + 1) (runBatchStep env previousConfigRef i batch x).1
    else Ended previousConfigRef batches (runBatchStep env previousConfigRef i batch x).1 := by
  obtain ⟨sent, hx, hsent, hall, hsuccess, hfailed⟩ := dispatchAll_spec env i none batch
    (x.updateBatchStep ⟨i, batch, .running, []⟩)
  have hkept : ∀ step : BatchStep, step.index < i → step ∈ x.steps →
      step ∈ (x.updateBatchStep ⟨i, batch, .running, []⟩).steps := by
    intro step hlt hstep
    exact mem_updateBatchStep.mpr (.inr ⟨hstep, by dsimp only; omega⟩)
  have hagain : ∀ (step : BatchStep) (sent : List Dispatch), step.index = i →
      ∀ step' : BatchStep, step'.index < i → step' ∈ x.steps →
      step' ∈ (({ x.updateBatchStep ⟨i, batch, .running, []⟩ with
        sent := sent } : Execution).updateBatchStep step).steps := by
    intro step sent hindex step' hlt hstep'
    exact mem_updateBatchStep.mpr (.inr ⟨hkept step' hlt hstep', by omega⟩)
  rcases hr : dispatchAll env i none batch (x.updateBatchStep ⟨i, batch, .running, []⟩) with
    ⟨x', failed⟩
  rw [hr] at hx hsuccess hfailed
  subst hx
  match failed with
  | none =>
    simp only [BatchJob.runBatchStep, dispatchBatch, hr, Bool.false_eq_true, if_false]
    refine .of_inOrder _ (h.inOrder_append fun d hd _ => (hsent d hd).2.1) ?_ ?_ <;>
      simp [h.status]
  | some [] =>
    simp only [BatchJob.runBatchStep, dispatchBatch, hr, if_true]
    have hnext := h.next hbatch hsent hall (hsuccess rfl)
      (hagain ⟨i, batch, .completed, []⟩ (x.sent ++ sent) rfl) (mem_updateBatchStep.mpr (.inl rfl))
    rw [← h.status] at hnext
    exact hnext
  | some (id :: ids) =>
    simp only [BatchJob.runBatchStep, dispatchBatch, hr, Bool.false_eq_true, if_false,
      handleFailedStep]
    split
    · have hrollback := h.rollback env previousConfigRef
        (fun d hd => (hsent d hd).2) (hfailed id ids rfl)
        (hagain ⟨i, batch, .failed, id :: ids⟩ (x.sent ++ sent) rfl)
      rw [← h.status] at hrollback
      exact hrollback
    · refine .of_inOrder _ (h.inOrder_append fun d hd _ => (hsent d hd).2.1) ?_ ?_ <;> simp

theorem Advanced.runBatches {rest : List (List String)} (hrest : batches.drop i = rest) :
    Ended previousConfigRef batches (runBatches env previousConfigRef i rest x) := by
  induction rest generalizing i x with
  | nil =>
    refine ⟨by simp [BatchJob.runBatches], fun _ batch hbatch id hid => ?_, h.inOrder⟩
    obtain ⟨j, hj, rfl⟩ := mem_iff_getElem.mp hbatch
    have hlength : batches.length ≤ i := drop_eq_nil_iff.mp hrest
    obtain ⟨d, hd, hid', -⟩ := h.covered j (by omega) _ (getElem?_eq_getElem hj) id hid
    obtain ⟨hnew, -, hsuccess, -⟩ := h.sent d hd
    exact ⟨d, hd, hid', hnew, Outcome.success_iff.mp hsuccess⟩
  | cons batch rest ih =>
    have hbatch : batches[i]? = some batch := by
      rw [← head?_drop, hrest]
      rfl
    unfold BatchJob.runBatches
    split
    · exact .of_inOrder _ h.inOrder (by simp [h.status]) (by simp [h.status])
    have hstep := h.runBatchStep env previousConfigRef hbatch
    split
    · next heq =>
      rw [heq] at hstep
      simpa using hstep
    · next heq =>
      rw [heq] at hstep
      apply ih (by simpa using hstep)
      rw [← drop_drop, hrest]
      rfl

end Batches

/-- When a job has ended rolled back, every steward that acknowledged the new configuration in a
batch that completed was sent the previous one afterwards, and acknowledged it or was refused.
When it has ended completed, every steward acknowledged the new configuration or was refused. And
the batches were contacted in order. -/
theorem job_ended (env : Env) (previousConfigRef : String) (steps : List BatchStep)
    (batches : List (List String)) :
    Ended previousConfigRef batches (execute env previousConfigRef steps batches) := by
  have hstart : Advanced batches 0 ⟨.running, steps, []⟩ :=
    ⟨rfl, by simp, by simp, by simp, fun _ _ _ heq => by simp at heq⟩
  exact hstart.runBatches env previousConfigRef rfl

def thirdFails : Env :=
  ⟨fun n => if n = 2 then .failed else .completed, fun _ => false, fun _ => false⟩

def refusedBack : Env :=
  ⟨fun n => if n = 1 then .failed else if n = 2 then .refused else .completed, fun _ => false,
    fun _ => false⟩

/-- Both jobs are rolled back. In the first the steward that completed in the failed batch keeps
the new configuration, in the second one that is refused on the way back does. -/
theorem new_configuration_kept :
    ((execute thirdFails "v1" [] [["a"], ["b", "c"]]).status = .rolledBack ∧
      (execute thirdFails "v1" [] [["a"], ["b", "c"]]).sent =
        [⟨"a", 0, none, .completed⟩, ⟨"b", 1, none, .completed⟩, ⟨"c", 1, none, .failed⟩,
          ⟨"a", 0, some "v1", .completed⟩]) ∧
    (execute refusedBack "v1" [] [["a"], ["b"]]).status = .rolledBack ∧
      (execute refusedBack "v1" [] [["a"], ["b"]]).sent =
        [⟨"a", 0, none, .completed⟩, ⟨"b", 1, none, .failed⟩, ⟨"a", 0, some "v1", .refused⟩] := by
  decide

end Cfgms.BatchJob
