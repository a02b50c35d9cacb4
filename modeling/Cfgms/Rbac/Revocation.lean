import Cfgms.Machine.Runs
import Cfgms.Rbac.Loading

/-! # Revocation is final

A revoked role stays without effect until it is assigned again in the same tenant. A duplicate
assignment may stay behind in memory, but no assignment in another tenant can bring it back,
since a subject is assigned roles in its own tenant alone.
-/

namespace Cfgms.Rbac

open Ordered Table Store Manager

inductive Event where
  | assign (ctx : Context) (a : Assignment)
  | revoke (ctx : Context) (subjectID roleID tenantID : String)
  | restart (ctx : Context)

/-- A manager under assignments, revocations and restarts. -/
def assignments : Transducer Manager Event (Option String) where
  step m
    | .assign ctx a => m.assignRole ctx a
    | .revoke ctx s r t => m.revokeRole ctx s r t
    | .restart ctx => (.fresh ctx m.rbacStore, none)

/-- The event is an assignment of the role to the subject in the tenant. -/
def Event.Assigns (s r t : String) : Event → Prop
  | .assign _ a => a.Gives s r t
  | _ => False

/-- Where every subject is, an assignment is in its subject's tenant. -/
def Assignment.Within (tenantOf : String → Option String) (a : Assignment) : Prop :=
  ∀ t, tenantOf a.subjectID = some t → a.tenantID = t

/-- Assignments are in their subjects' tenants, which never change. -/
structure Housed (tenantOf : String → Option String) (st p : Store) : Prop where
  memory : st.tenantOf = tenantOf
  persistent : p.tenantOf = tenantOf
  rows : ∀ a ∈ st.assignments.rows, a.Within tenantOf ∧ a.id ≠ ""
  persisted : ∀ a ∈ p.assignments.rows, a.Within tenantOf

/-- Nothing grants the role: the subject does not list it or has no assignment of it in the
tenant, and there is none to reload. -/
structure Barred (s r t : String) (st p : Store) : Prop where
  memory : ¬ st.Lists s r ∨ ∀ a ∈ st.assignments.rows, ¬ a.Gives s r t
  persistent : ∀ a ∈ p.assignments.rows, ¬ a.Gives s r t

theorem Barred.not_grantsThrough {s r t : String} {st p : Store} (h : Barred s r t st p) {now : ℤ}
    {req : AccessRequest} (hs : req.subjectID = s) (ht : req.tenantID = t) :
    ¬ st.GrantsThrough now req r := by
  rintro ⟨⟨subject, hget, -, hlisted⟩, ⟨a, ha, hgives, -⟩, -⟩
  subst hs ht
  rcases h.memory with hnot | hnone
  · exact hnot ⟨subject, hget, hlisted⟩
  · exact hnone a ha hgives

variable {tenantOf : String → Option String} {st st' p : Store} {now : ℤ} {s r t : String}

variable {a : Assignment}
variable {uuid : String}

theorem Assignment.Within.record (h : a.Within tenantOf) :
    (Store.record now uuid a).Within tenantOf := h

section

variable (h : Housed tenantOf st p)
include h

theorem Housed.assign (huuid : uuid ≠ "") (htenant : st.tenantOf a.subjectID = some a.tenantID)
    (hok : st.assignRole now uuid a = .ok st') : Housed tenantOf st' p := by
  refine ⟨(tenantOf_assignRole hok).trans h.memory, h.persistent, ?_, h.persisted⟩
  have hwithin : a.Within tenantOf := by
    intro t ht
    rw [← h.memory, htenant] at ht
    exact Option.some.inj ht
  obtain ⟨_, _, _, _, rfl⟩ := assignRole_eq_ok hok
  intro b hb
  rcases mem_store hb with rfl | hb
  · exact ⟨hwithin.record, record_id_ne huuid a⟩
  · exact h.rows b hb

theorem Housed.revoke {choice : ℕ}
    (hok : st.revokeRole now choice s r t = .ok st') : Housed tenantOf st' p := by
  refine ⟨(tenantOf_revokeRole hok).trans h.memory, h.persistent, ?_, h.persisted⟩
  obtain ⟨_, _, _, rfl⟩ := revokeRole_eq_ok hok
  exact fun b hb => h.rows b (mem_erase.mp hb).1

theorem Housed.fresh (ctx : Context) : Housed tenantOf (Manager.fresh ctx p).store p := by
  refine ⟨?_, h.persistent, fun b hb => ?_, h.persisted⟩
  · funext id
    rw [← h.persistent]
    exact p.tenantOf_load ctx.unix ctx.uuid id
  · obtain ⟨a, ha, rfl⟩ := of_mem_load hb
    exact ⟨(h.persisted a ha).record, record_id_ne ctx.uuid_ne a⟩

end

variable {m : Manager}

theorem Housed.step (h : Housed tenantOf m.store m.rbacStore) (e : Event) :
    Housed tenantOf (assignments.step m e).1.store (assignments.step m e).1.rbacStore := by
  cases e with
  | assign ctx a =>
    refine assignRole_rule (P := fun st p _ => Housed tenantOf st p) (fun _ => h) ?_ ?_
    · intro st err htenant hok
      have hassigned := h.assign ctx.uuid_ne htenant hok
      exact orKeep_rule (P := fun st => Housed tenantOf st m.rbacStore) hassigned
        fun st' hst' => hassigned.revoke hst'
    · intro st htenant hok
      have hassigned := h.assign ctx.uuid_ne htenant hok
      refine { hassigned with persisted := fun b hb => ?_ }
      rcases mem_store hb with rfl | hb
      · intro t ht
        rw [← h.memory] at ht
        exact Option.some.inj (htenant.symm.trans ht)
      · exact h.persisted b hb
  | revoke ctx s r t =>
    refine revokeRole_rule (P := Housed tenantOf) h (fun st hst => h.revoke hst) ?_
    intro st hst
    exact { h.revoke hst with persisted := fun b hb => h.persisted b ((mem_filter _).mp hb).1 }
  | restart ctx => exact h.fresh ctx

theorem Barred.revoke {choice : ℕ} {s' r' t' : String} (h : Barred s r t st p)
    (hok : st.revokeRole now choice s' r' t' = .ok st') : Barred s r t st' p := by
  refine ⟨?_, h.persistent⟩
  rcases h.memory with hnot | hnone
  · exact .inl fun hlists => hnot (Store.Lists.of_revokeRole hok hlists).1
  · obtain ⟨_, _, _, rfl⟩ := revokeRole_eq_ok hok
    exact .inr fun b hb => hnone b (mem_erase.mp hb).1

theorem Barred.assign (h : Barred s r t st p)
    (hhoused : Housed tenantOf st p) (hother : ¬ a.Gives s r t)
    (htenant : st.tenantOf a.subjectID = some a.tenantID)
    (hok : st.assignRole now uuid a = .ok st') : Barred s r t st' p := by
  refine ⟨?_, h.persistent⟩
  have hrows : (∀ b ∈ st.assignments.rows, ¬ b.Gives s r t) →
      ∀ b ∈ st'.assignments.rows, ¬ b.Gives s r t := by
    intro hnone b hb
    obtain ⟨_, _, _, _, rfl⟩ := assignRole_eq_ok hok
    rcases mem_store hb with rfl | hb
    · exact hother
    · exact hnone b hb
  by_cases hsame : a.subjectID = s ∧ a.roleID = r
  · -- the subject is in the tenant of the new assignment, so it has none in the other tenant
    obtain ⟨rfl, rfl⟩ := hsame
    refine .inr (hrows fun b hb hgives => hother ⟨rfl, rfl, ?_⟩)
    have hwithin := (hhoused.rows b hb).1 a.tenantID
    rw [← hhoused.memory, hgives.1] at hwithin
    rw [← hwithin htenant]
    exact hgives.2.2
  · rcases h.memory with hnot | hnone
    · refine .inl fun hlists => ?_
      rcases Store.Lists.of_assignRole hok hlists with hlists | heq
      · exact hnot hlists
      · exact hsame heq
    · exact .inr (hrows hnone)

theorem Barred.undone {ctx : Context} (h : Barred s r t st p)
    (hhoused : Housed tenantOf st p) (htenant : st.tenantOf a.subjectID = some a.tenantID)
    (hok : st.assignRole ctx.unix ctx.uuid a = .ok st') :
    Barred s r t
      (st'.orKeep (st'.revokeRole ctx.unix ctx.choice a.subjectID a.roleID a.tenantID)) p := by
  by_cases hgives : a.Gives s r t
  · have hassigned := hhoused.assign ctx.uuid_ne htenant hok
    have hthere : ∃ b ∈ st'.assignments.rows, b.Gives a.subjectID a.roleID a.tenantID := by
      obtain ⟨_, _, _, _, rfl⟩ := assignRole_eq_ok hok
      exact ⟨_, mem_store_iff.mpr (.inl rfl), rfl, rfl, rfl⟩
    obtain ⟨st'', hrevoke⟩ := exists_revokeRole ctx.unix ctx.choice
      (fun b hb => (hassigned.rows b hb).2) hthere
    rw [hrevoke]
    refine ⟨.inl fun hlists => ?_, h.persistent⟩
    exact (Store.Lists.of_revokeRole hrevoke hlists).2 ⟨hgives.1, hgives.2.1⟩
  · have hassigned := h.assign hhoused hgives htenant hok
    exact orKeep_rule (P := fun st => Barred s r t st p) hassigned
      fun st'' hst'' => hassigned.revoke hst''

theorem Barred.step {e : Event} (h : Barred s r t m.store m.rbacStore)
    (hhoused : Housed tenantOf m.store m.rbacStore)
    (hnot : ¬ (e.Assigns s r t ∧ (assignments.step m e).2 = none)) :
    Barred s r t (assignments.step m e).1.store (assignments.step m e).1.rbacStore := by
  cases e with
  | assign ctx a =>
    revert hnot
    refine assignRole_rule (P := fun st p err =>
      ¬ ((Event.assign ctx a).Assigns s r t ∧ err = none) → Barred s r t st p) (fun _ _ => h) ?_ ?_
    · intro st err htenant hok _
      exact h.undone hhoused htenant hok
    · intro st htenant hok hnot
      have hother : ¬ a.Gives s r t := fun hgives => hnot ⟨hgives, rfl⟩
      refine ⟨(h.assign hhoused hother htenant hok).memory, fun b hb => ?_⟩
      rcases mem_store hb with rfl | hb
      · exact hother
      · exact h.persistent b hb
  | revoke ctx s' r' t' =>
    refine revokeRole_rule (P := Barred s r t) h (fun st hst => h.revoke hst) ?_
    intro st hst
    exact ⟨(h.revoke hst).memory, fun b hb => h.persistent b ((mem_filter _).mp hb).1⟩
  | restart ctx =>
    refine ⟨.inr fun b hb => ?_, h.persistent⟩
    obtain ⟨a, ha, rfl⟩ := of_mem_load hb
    exact h.persistent a ha

theorem barred_of_revokeRole {ctx : Context} (h : (m.revokeRole ctx s r t).2 = none) :
    Barred s r t (m.revokeRole ctx s r t).1.store (m.revokeRole ctx s r t).1.rbacStore := by
  unfold Manager.revokeRole at h ⊢
  have hcall := sensitive_eq_none h
  rw [hcall] at h ⊢
  obtain ⟨st, p, hst, hp, heq⟩ := writeThrough_eq_none h
  cases hp
  rw [heq]
  refine ⟨.inl fun hlists => ?_, fun b hb => ?_⟩
  · exact (Store.Lists.of_revokeRole hst hlists).2 ⟨rfl, rfl⟩
  · exact of_decide_eq_true ((mem_filter _).mp hb).2

theorem housed_start (ctx : Context) (p : Store) :
    Housed p.tenantOf (startWithout ctx p).store (startWithout ctx p).rbacStore := by
  have hempty : Housed p.tenantOf { p with assignments := .empty }
      { p with assignments := .empty } :=
    ⟨rfl, rfl, fun _ ha => absurd ha List.not_mem_nil, fun _ ha => absurd ha List.not_mem_nil⟩
  exact hempty.fresh ctx

theorem housed_final (ctx : Context) (p : Store) (events : List Event) :
    Housed p.tenantOf (assignments.final (startWithout ctx p) events).store
      (assignments.final (startWithout ctx p) events).rbacStore :=
  Transducer.along_invariant (P := fun m : Manager => Housed p.tenantOf m.store m.rbacStore)
    (fun _ e h _ => h.step e) (housed_start ctx p)
    (Transducer.along_of_forall (C := fun _ _ => True) fun _ _ => trivial)

/-- Once a role has been revoked, decisions are granted through other roles alone, until it is
assigned again to the subject in the tenant. -/
theorem revocation_final (ctx₀ ctx : Context) (p : Store) (before after : List Event)
    (hrevoked : (assignments.step (assignments.final (startWithout ctx₀ p) before)
      (.revoke ctx s r t)).2 = none)
    (hafter : ∀ e ∈ assignments.log (assignments.final (startWithout ctx₀ p)
      (before ++ [.revoke ctx s r t])) after, ¬ (e.1.Assigns s r t ∧ e.2 = none))
    (now : ℤ) (req : AccessRequest) (hs : req.subjectID = s) (ht : req.tenantID = t) :
    let st := (assignments.final (startWithout ctx₀ p)
      (before ++ [.revoke ctx s r t] ++ after)).store
    ((st.checkPermission now req).granted = true ↔ ∃ r', r' ≠ r ∧ st.GrantsThrough now req r') := by
  have hbarred : Barred s r t
      (assignments.final (startWithout ctx₀ p) (before ++ [.revoke ctx s r t])).store
      (assignments.final (startWithout ctx₀ p) (before ++ [.revoke ctx s r t])).rbacStore := by
    rw [assignments.final_append]
    exact barred_of_revokeRole hrevoked
  have hlater := (Transducer.along_invariant (P := fun m : Manager =>
      Housed p.tenantOf m.store m.rbacStore ∧ Barred s r t m.store m.rbacStore)
    (fun _ _ h hnot => ⟨h.1.step _, h.2.step h.1 hnot⟩) ⟨housed_final ctx₀ p _, hbarred⟩
    (Transducer.along_of_log (Q := fun e err => ¬ (Event.Assigns s r t e ∧ err = none)) hafter)).2
  dsimp only
  rw [checkPermission_granted_iff, assignments.final_append]
  constructor
  · rintro ⟨r', hgrants⟩
    refine ⟨r', ?_, hgrants⟩
    rintro rfl
    exact hlater.not_grantsThrough hs ht hgrants
  · rintro ⟨r', -, hgrants⟩
    exact ⟨r', hgrants⟩

/-- The role is assigned twice in one tenant, once with an expiry. -/
def assignedTwice : List Event := [
  .assign (callAt 1000) ⟨"a-1", "alice", "operator", "east", 0, 0⟩,
  .assign (callAt 2000) ⟨"a-2", "alice", "operator", "east", 9000, 0⟩]

def revokedAt : Context := callAt 3000

def laterEvents : List Event := [
  .assign (callAt 4000) ⟨"a-3", "alice", "operator", "west", 0, 0⟩,
  .restart (callAt 5000)]

theorem revocation_final_repeated :
    let m := assignments.final (startWithout (callAt 0) eastOffice) assignedTwice
    (m.store.checkPermission 2500 ⟨"alice", "steward.run", "east"⟩).granted = true ∧
      let st := (assignments.final (startWithout (callAt 0) eastOffice)
        (assignedTwice ++ [.revoke revokedAt "alice" "operator" "east"] ++ laterEvents)).store
      ((st.checkPermission 6000 ⟨"alice", "steward.run", "east"⟩).granted = true ↔
        ∃ r', r' ≠ "operator" ∧
          st.GrantsThrough 6000 ⟨"alice", "steward.run", "east"⟩ r') := by
  refine ⟨by decide +kernel, ?_⟩
  refine revocation_final (callAt 0) revokedAt eastOffice assignedTwice laterEvents
    (by decide +kernel) ?_ 6000 _ rfl rfl
  rintro e he ⟨hassigns, -⟩
  have hmem := assignments.fst_mem_of_mem_log he
  simp only [laterEvents, List.mem_cons, List.not_mem_nil, or_false] at hmem
  rcases hmem with hfst | hfst
  · rw [hfst] at hassigns
    exact absurd hassigns.2.2 (by decide)
  · rw [hfst] at hassigns
    exact hassigns

end Cfgms.Rbac
