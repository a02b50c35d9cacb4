import Cfgms.Tenant.Service

/-! # What an approved deletion removes

The record of a request outlives the tenants that it pins. As long as no tenant is created
under a pinned ID, an approval removes tenants that have existed, as one and the same subtree,
since the request.
-/

namespace Cfgms.Tenant

open Forest List Transducer

variable {s s' : Store} {n : String}

theorem SuspendWalk.step_table (t : TenantTable) (w : SuspendWalk) :
    (step t w).1 = t ∨ ∃ td, t.updateTenant td = .ok (step t w).1 := by
  fun_cases step t w
  all_goals first | exact .inl rfl | exact .inr ⟨_, ‹_›⟩

theorem RestoreWalk.step_table (t : TenantTable) (w : RestoreWalk) :
    (step t w).1 = t ∨ ∃ td, t.updateTenant td = .ok (step t w).1 := by
  fun_cases step t w
  all_goals first | exact .inl rfl | exact .inr ⟨_, ‹_›⟩

theorem runWalk_absent {ω ρ : Type*} {step : TenantTable → ω → TenantTable × Progress ω ρ}
    (hstep : ∀ t w, (step t w).1 = t ∨ ∃ td, t.updateTenant td = .ok (step t w).1)
    (fuel : ℕ) (t : TenantTable) (w : ω) (h : t.find n = none) :
    (runWalk step fuel t w).1.find n = none := by
  induction fuel generalizing t w with
  | zero => exact h
  | succ fuel ih =>
    have hnext : (step t w).1.find n = none := by
      rcases hstep t w with he | ⟨td, hok⟩
      · rw [he, h]
      obtain ⟨⟨r, hr⟩, he⟩ := TenantTable.updateTenant_eq_ok.mp hok
      rw [he, TenantTable.find_replace hr, if_neg, h]
      rintro rfl
      rw [h] at hr
      cases hr
    rw [runWalk]
    rcases hs : step t w with ⟨t', w' | result⟩ <;> rw [hs] at hnext
    · exact ih t' w' hnext
    · exact hnext

variable {validator : MountPointValidator}

/-- The call asks for a new tenant with the given ID. -/
def AsksFor (validator : MountPointValidator) (n : String) (op : Op) : Prop :=
  ∃ inputs req, op = .create inputs req ∧ checkCreate validator inputs.timestamp req = .ok n

/-- Only a create brings a tenant into being. A record that is there after a call was there
before, or the call requested it. -/
theorem service_effect (validator : MountPointValidator) (s : Store) (op : Op) :
    (∀ n, s.tenants.find n = none → ¬ AsksFor validator n op →
      ((service validator).step s op).1.tenants.find n = none) ∧
    ∀ p ∈ ((service validator).step s op).1.pending,
      (p ∈ s.pending ∧ (p.subtreeRootID ≠ "" → op ≠ .cancelDeletion p.subtreeRootID)) ∨
      ∃ now holdPeriod,
        op = .requestDeletion p.subtreeRootID p.requestedBy now holdPeriod ∧
        ((service validator).step s op).2 = some (.ok (.pending p)) ∧
        p.eligibleAt = now + holdPeriod ∧
        ((service validator).step s op).1.tenants = s.tenants ∧
        RequestWalk.Collected s.tenants p.subtreeRootID (.ok p.pinnedMemberIDs) := by
  cases op with
  | create inputs req =>
    obtain ⟨s', result, hrun, hcreated⟩ := createTenant_spec validator inputs req s
    simp only [service, hrun]
    cases result with
    | error e =>
      obtain rfl := hcreated
      exact ⟨fun n h _ => h, fun p h => .inl ⟨h, by simp⟩⟩
    | ok td =>
      refine ⟨fun n h hc => ?_, fun p h => .inl ⟨hcreated.1.pending ▸ h, by simp⟩⟩
      rw [hcreated.1.find, if_neg, h]
      rintro rfl
      exact hc ⟨inputs, req, rfl, (createTenant_row hrun).1⟩
  | update tenantID req =>
    obtain ⟨s', result, hrun, hsame, hpending⟩ := updateTenant_spec validator tenantID req s
    simp only [service, hrun, hpending]
    exact ⟨fun n h _ => hsame.find_eq_none.mpr h, fun p h => .inl ⟨h, by simp⟩⟩
  | suspend tenantID =>
    refine ⟨fun n h _ => ?_, fun p h => .inl ⟨h, by simp⟩⟩
    simp only [service, suspendTenant, suspendTenantWithin]
    split
    · exact h
    · exact runWalk_absent SuspendWalk.step_table _ _ _ h
  | restore tenantID =>
    refine ⟨fun n h _ => ?_, fun p h => .inl ⟨h, by simp⟩⟩
    simp only [service, restoreTenant, restoreTenantWithin]
    exact runWalk_absent RestoreWalk.step_table _ _ _ h
  | delete tenantID =>
    simp only [service]
    rcases deleteTenant_cases s tenantID with he | ⟨he, -⟩ <;> rw [he] <;>
      refine ⟨fun n h _ => ?_, fun p h => .inl ⟨h, by simp⟩⟩
    · exact h
    · rw [TenantTable.find_remove, h, ite_self]
  | requestDeletion tenantID requesterID now holdPeriod =>
    obtain ⟨s', result, hrun, hreq⟩ :=
      requestTenantDeletion_spec s tenantID requesterID now holdPeriod
    simp only [service, hrun]
    cases result with
    | error e =>
      obtain rfl := hreq
      exact ⟨fun n h _ => h, fun p h => .inl ⟨h, by simp⟩⟩
    | ok q =>
      obtain ⟨rfl, rfl, hel, rfl, hcol⟩ := hreq
      refine ⟨fun n h _ => h, fun p h => ?_⟩
      rcases mem_append.mp h with h | h
      · exact .inl ⟨h, by simp⟩
      · obtain rfl := mem_singleton.mp h
        exact .inr ⟨now, holdPeriod, rfl, rfl, hel, rfl, hcol⟩
  | cancelDeletion tenantID =>
    simp only [service]
    rcases cancelTenantDeletion_cases s tenantID with ⟨he, hnone⟩ | he
    all_goals
      rw [he]
      refine ⟨fun n h _ => h, fun p h => .inl ?_⟩
    · refine ⟨h, fun hne heq => ?_⟩
      obtain rfl := Op.cancelDeletion.inj heq
      exact hnone hne p h rfl
    · obtain ⟨hmem, hne⟩ := mem_filter.mp h
      refine ⟨hmem, fun _ heq => ?_⟩
      obtain rfl := Op.cancelDeletion.inj heq
      simp at hne
  | approveDeletion tenantID approverID requireDualControl now =>
    simp only [service]
    rcases approveTenantDeletion_cases s tenantID approverID requireDualControl now with
      he | ⟨s', ids, he⟩
    · rw [he]
      exact ⟨fun n h _ => h, fun p h => .inl ⟨h, by simp⟩⟩
    · obtain ⟨q, happ⟩ := approveTenantDeletion_ok he
      rw [he, happ.effect]
      refine ⟨fun n h _ => ?_, fun p h => .inl ⟨(mem_filter.mp h).1, by simp⟩⟩
      simp [Store.withoutPending, TenantTable.find_remove, h]

variable {p : PendingDeletion}

/-- The call asks for a tenant under an ID that a pending deletion has pinned and that has
come free. -/
def ReusesPinned (validator : MountPointValidator) (s : Store) (op : Op) : Prop :=
  ∃ p ∈ s.pending, ∃ n ∈ p.pinnedMemberIDs, s.tenants.find n = none ∧ AsksFor validator n op

abbrev afterRequest (validator : MountPointValidator) (s₀ : Store) (before : List Op)
    (request : Op) (after : List Op) : Store :=
  (service validator).final s₀ (before ++ request :: after)

/-- The record goes back to a request in the run that has not been cancelled since. Each
tenant that it pins has been there ever since, or is gone. -/
structure Traced (validator : MountPointValidator) (s₀ : Store) (before : List Op)
    (now holdPeriod : ℤ) (after : List Op) (p : PendingDeletion) : Prop where
  answered : ((service validator).step ((service validator).final s₀ before)
    (.requestDeletion p.subtreeRootID p.requestedBy now holdPeriod)).2 = some (.ok (.pending p))
  eligible : p.eligibleAt = now + holdPeriod
  collected : RequestWalk.Collected ((service validator).final s₀ before).tenants
    p.subtreeRootID (.ok p.pinnedMemberIDs)
  uncancelled : .cancelDeletion p.subtreeRootID ∉ after
  present : ∀ n ∈ p.pinnedMemberIDs,
    (∀ mid, mid <+: after → (afterRequest validator s₀ before
        (.requestDeletion p.subtreeRootID p.requestedBy now holdPeriod) mid).tenants.find n ≠
          none) ∨
      (afterRequest validator s₀ before
        (.requestDeletion p.subtreeRootID p.requestedBy now holdPeriod) after).tenants.find n =
          none

def TracedIn (validator : MountPointValidator) (s₀ : Store) (ops : List Op)
    (p : PendingDeletion) : Prop :=
  ∃ before now holdPeriod after,
    ops = before ++ .requestDeletion p.subtreeRootID p.requestedBy now holdPeriod :: after ∧
      Traced validator s₀ before now holdPeriod after p

variable {s₀ : Store}

theorem Traced.root_ne {before after : List Op} {holdPeriod : ℤ}
    (h : Traced validator s₀ before now holdPeriod after p) : p.subtreeRootID ≠ "" := by
  obtain ⟨r, hr, -⟩ := h.collected.2 _ ((h.collected.1 _).mpr (.inl rfl))
  exact TenantTable.find_ne hr

theorem TracedIn.step {ops : List Op} {op : Op} (h : TracedIn validator s₀ ops p)
    (hop : p.subtreeRootID ≠ "" → op ≠ .cancelDeletion p.subtreeRootID)
    (hcreate : ∀ n ∈ p.pinnedMemberIDs,
      ((service validator).final s₀ ops).tenants.find n = none → ¬ AsksFor validator n op) :
    TracedIn validator s₀ (ops ++ [op]) p := by
  obtain ⟨before, now, holdPeriod, after, rfl, htr⟩ := h
  refine ⟨before, now, holdPeriod, after ++ [op], by simp, htr.answered, htr.eligible,
    htr.collected, ?_, fun n hn => ?_⟩
  · rw [mem_append, mem_singleton, not_or]
    exact ⟨htr.uncancelled, (hop htr.root_ne).symm⟩
  · rcases htr.present n hn with hall | hgone
    · refine or_iff_not_imp_right.mpr fun hnow mid hmid => ?_
      rcases prefix_concat_iff.mp hmid with rfl | hmid
      · exact hnow
      · exact hall mid hmid
    · right
      rw [afterRequest, ← cons_append, ← append_assoc, final_append]
      exact (service_effect validator _ op).1 n hgone (hcreate n hn hgone)

theorem tracedIn_of_along (hs₀ : s₀.pending = []) (ops : List Op)
    (hops : (service validator).Along (fun s op => ¬ ReusesPinned validator s op) s₀ ops) :
    ∀ p ∈ ((service validator).final s₀ ops).pending, TracedIn validator s₀ ops p := by
  induction ops using List.reverseRecOn with
  | nil =>
    intro p hp
    rw [final_nil, hs₀] at hp
    exact absurd hp not_mem_nil
  | append_singleton ops op ih =>
    intro p hp
    obtain ⟨hbefore, hop, -⟩ := (along_append _ _ _ _ _).mp hops
    rw [final_append] at hp
    rcases (service_effect validator _ op).2 p hp with
      ⟨hold, hcancel⟩ | ⟨now, holdPeriod, rfl, hans, hel, ht, hcol⟩
    · exact (ih hbefore p hold).step hcancel fun n hn hgone hasks =>
        hop ⟨p, hold, n, hn, hgone, hasks⟩
    refine ⟨ops, now, holdPeriod, [], rfl, hans, hel, hcol, not_mem_nil, fun n hn => ?_⟩
    refine .inl fun mid hmid => ?_
    obtain rfl := prefix_nil.mp hmid
    obtain ⟨r, hr, -⟩ := hcol.2 n hn
    rw [afterRequest, final_append]
    simp only [final_cons, final_nil, ht, hr]
    simp

def IsSuspended (t : TenantTable) (n : String) : Prop :=
  ∃ r, t.find n = some r ∧ r.status = .suspended

theorem answer_eq_deleted {ω : Type*} {p : Progress ω (List String)}
    (h : p.answer .deleted = some (.ok (.deleted ids))) : p = .returned (.ok ids) := by
  cases p with
  | running w => cases h
  | returned result =>
    cases result with
    | error e => cases h
    | ok ids' =>
      cases h
      rfl

/-- In a run that creates no tenant under a pinned ID, an approval under dual control removes
exactly the subtree that another principal requested to delete, a hold period ago, without
cancelling it since, and that has been there, suspended, from that request on. -/
theorem approved_deletion (validator : MountPointValidator) (s₀ : Store) (ops : List Op)
    (root approver : String) (now : ℤ) (ids : List String) (hs₀ : s₀.pending = [])
    (hops : (service validator).Along (fun s op => ¬ ReusesPinned validator s op) s₀ ops)
    (happroved : ((service validator).step ((service validator).final s₀ ops)
      (.approveDeletion root approver true now)).2 = some (.ok (.deleted ids))) :
    (∀ n, ((service validator).step ((service validator).final s₀ ops)
        (.approveDeletion root approver true now)).1.tenants.find n =
      if n ∈ ids then none else ((service validator).final s₀ ops).tenants.find n) ∧
    ∃ before requester requestedAt holdPeriod after p,
      ops = before ++ .requestDeletion root requester requestedAt holdPeriod :: after ∧
      ((service validator).step ((service validator).final s₀ before)
        (.requestDeletion root requester requestedAt holdPeriod)).2 = some (.ok (.pending p)) ∧
      requester ≠ approver ∧ requestedAt + holdPeriod ≤ now ∧ .cancelDeletion root ∉ after ∧
      (∀ n, n ∈ ids ↔ InSubtree ((service validator).final s₀ before).tenants root n) ∧
      (∀ n, n ∈ ids ↔ InSubtree ((service validator).final s₀ ops).tenants root n) ∧
      ∀ n ∈ ids, IsSuspended ((service validator).final s₀ before).tenants n ∧
        IsSuspended ((service validator).final s₀ ops).tenants n ∧
        ∀ mid, mid <+: after → (afterRequest validator s₀ before
          (.requestDeletion root requester requestedAt holdPeriod) mid).tenants.find n ≠ none := by
  obtain ⟨p, happ⟩ := approveTenantDeletion_ok (Prod.ext rfl (answer_eq_deleted happroved))
  obtain ⟨hmem, rfl⟩ := happ.record
  obtain rfl := happ.pinned
  obtain ⟨before, requestedAt, holdPeriod, after, hsplit, htr⟩ :=
    tracedIn_of_along hs₀ ops hops p hmem
  have hroot := ((happ.members _).mp ((htr.collected.1 _).mpr (.inl rfl))).1
  refine ⟨fun n => ?_, before, p.requestedBy, requestedAt, holdPeriod, after, p, hsplit,
    htr.answered, (happ.dual rfl).symm, htr.eligible ▸ happ.held, htr.uncancelled,
    htr.collected.1, fun n => ?_, fun n hn => ⟨htr.collected.2 n hn, happ.suspended n hn, ?_⟩⟩
  · have hfind := congrArg (fun s : Store => s.tenants.find n) happ.effect
    exact hfind.trans (TenantTable.find_remove n)
  · rw [happ.members, and_iff_right hroot]
  · refine (htr.present n hn).resolve_right fun hgone => ?_
    obtain ⟨r, hr, -⟩ := happ.suspended n hn
    rw [hsplit, hgone] at hr
    cases hr

/-- A leaf is suspended and its deletion requested. -/
def plainRequest : List Op := [.suspend "rab", .requestDeletion "rab" "alice" 0 100]

theorem approved_deletion_plainRequest : ((service fun _ => .ok ()).step
        ((service fun _ => .ok ()).final ⟨threeLevels, []⟩ plainRequest)
        (.approveDeletion "rab" "bob" true 100)).2 = some (.ok (.deleted ["rab"])) ∧
      ∃ before requester requestedAt holdPeriod after,
        plainRequest = before ++ .requestDeletion "rab" requester requestedAt holdPeriod :: after ∧
          requester ≠ "bob" ∧ requestedAt + holdPeriod ≤ 100 := by
  have hops : (service fun _ => .ok ()).Along
      (fun s op => ¬ ReusesPinned (fun _ => .ok ()) s op) ⟨threeLevels, []⟩ plainRequest := by
    refine ⟨?_, ?_, trivial⟩
    all_goals rintro ⟨p, -, n, -, -, inputs, req, ⟨⟩, -⟩
  obtain ⟨-, before, requester, requestedAt, holdPeriod, after, p, hsplit, -, hne, hheld, -⟩ :=
    approved_deletion (fun _ => .ok ()) ⟨threeLevels, []⟩ plainRequest "rab" "bob" 100 ["rab"] rfl
      hops (by decide +kernel)
  exact ⟨by decide +kernel, before, requester, requestedAt, holdPeriod, after, hsplit, hne, hheld⟩

/-- A leaf is deleted and created again while its deletion is pending. -/
def reusedID : List Op :=
  [.suspend "rab", .requestDeletion "rab" "alice" 0 100, .delete "rab",
    .create ⟨0, fun _ => .ok "label-4", 0⟩ ⟨"rab", "", "", "ra", []⟩, .suspend "rab"]

/-- The new tenant is deleted on the strength of the only request, and was not there at one
point after it. -/
theorem approved_deletion_reusedID :
    ((service fun _ => .ok ()).step ((service fun _ => .ok ()).final ⟨threeLevels, []⟩ reusedID)
        (.approveDeletion "rab" "bob" true 100)).2 = some (.ok (.deleted ["rab"])) ∧
      ∀ before requester requestedAt holdPeriod after,
        reusedID = before ++ .requestDeletion "rab" requester requestedAt holdPeriod :: after →
          ∃ mid, mid <+: after ∧ (afterRequest (fun _ => .ok ()) ⟨threeLevels, []⟩ before
            (.requestDeletion "rab" requester requestedAt holdPeriod) mid).tenants.find "rab" =
              none := by
  refine ⟨by decide +kernel, fun before requester requestedAt holdPeriod after h => ?_⟩
  obtain _ | ⟨op, _ | ⟨op', before⟩⟩ := before
  · simp [reusedID] at h
  · simp only [reusedID, cons_append, nil_append, List.cons.injEq,
      Op.requestDeletion.injEq, true_and] at h
    obtain ⟨rfl, ⟨rfl, rfl, rfl⟩, rfl⟩ := h
    exact ⟨[.delete "rab"], by simp, by decide +kernel⟩
  · rw [reusedID, cons_append, cons_append, List.cons.injEq, List.cons.injEq] at h
    have hmem : Op.requestDeletion "rab" requester requestedAt holdPeriod ∈
        before ++ .requestDeletion "rab" requester requestedAt holdPeriod :: after := by simp
    rw [← h.2.2] at hmem
    simp at hmem

end Cfgms.Tenant
