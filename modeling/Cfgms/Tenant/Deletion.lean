import Cfgms.Tenant.Manager
import Cfgms.Tenant.Termination
import Mathlib.Data.List.Sort

/-! # Two-phase deletion

A request pins the members of a suspended subtree and starts a hold period. An approval
compares the pinned members with the subtree as it is then, in one transaction, and deletes
them. The record of a request is tied to the tenants only by their IDs.
-/

namespace Cfgms.Tenant

open Forest List

namespace Store

def requestDeletion (s : Store) (pending : PendingDeletion) : Except TenantError Store :=
  if s.pending.any (·.subtreeRootID == pending.subtreeRootID) then
    .error (.wrapped ("request deletion " ++ pending.subtreeRootID) .pendingDeletionExists)
  else .ok { s with pending := s.pending ++ [pending] }

def withoutPending (s : Store) (subtreeRootID : String) : Store :=
  { s with pending := s.pending.filter (·.subtreeRootID != subtreeRootID) }

def cancelDeletion (s : Store) (subtreeRootID : String) : Except TenantError Store :=
  if subtreeRootID = "" then .error .emptySubtreeRootID
  else if s.pending.any (·.subtreeRootID == subtreeRootID) then
    .ok (s.withoutPending subtreeRootID)
  else .error (.wrapped ("cancel deletion " ++ subtreeRootID) .pendingDeletionNotFound)

end Store

/-- The rows that name the given tenants as their parents. -/
def nextLevel (t : TenantTable) (level : List String) : List String :=
  level.flatMap fun id => (t.rows.filter (·.parentID == id)).map (·.id)

/-- The recursive query of a subtree, level by level. On a cycle the query has no end. -/
def subtreeLevels (t : TenantTable) : ℕ → List String → Option (List String)
  | _, [] => some []
  | 0, _ :: _ => none
  | fuel + 1, id :: level =>
    (subtreeLevels t fuel (nextLevel t (id :: level))).map fun rest => id :: level ++ rest

def currentMembers (t : TenantTable) (subtreeRootID : String) : Option (List String) :=
  if (t.find subtreeRootID).isSome then subtreeLevels t (t.rows.length + 1) [subtreeRootID]
  else some []

def sorted (ids : List String) : List String := ids.insertionSort (· ≤ ·)

namespace Store

/-- The transaction of an approval, with its checks in their order. -/
def approveDeletion (s : Store) (subtreeRootID approvedBy : String) (requireDualControl : Bool)
    (now : ℤ) : Store × Progress Unit (List String) :=
  let refuse (e : TenantError) : Store × Progress Unit (List String) :=
    (s, .returned (.error (.wrapped ("approve deletion " ++ subtreeRootID) e)))
  if subtreeRootID = "" then (s, .returned (.error .emptySubtreeRootID))
  else
    match s.pending.find? (·.subtreeRootID == subtreeRootID) with
    | none => refuse .pendingDeletionNotFound
    | some pending =>
      if now < pending.eligibleAt then refuse .holdNotElapsed
      else if requireDualControl ∧ approvedBy = pending.requestedBy then refuse .sameApprover
      else
        match currentMembers s.tenants subtreeRootID with
        | none => (s, .running ())
        | some members =>
          let pinned := pending.pinnedMemberIDs
          if sorted members ≠ sorted pinned then refuse .membershipChanged
          else
            let rows := s.tenants.rows.filter (·.id ∈ pinned)
            if rows.length ≠ pinned.length then refuse .membershipChanged
            else if ¬ rows.all (·.status == .suspended) then refuse .membershipChanged
            else
              ({ s with tenants := s.tenants.remove pinned }.withoutPending subtreeRootID,
                .returned (.ok pinned))

end Store

/-- The walk of a deletion request: it collects a subtree that must be suspended. -/
structure RequestWalk where
  target : String
  visited : List String
  queue : List String
  memberIDs : List String

namespace RequestWalk

def start (tenantID : String) : RequestWalk := ⟨tenantID, [tenantID], [tenantID], []⟩

def step (t : TenantTable) (w : RequestWalk) : TenantTable × Progress RequestWalk (List String) :=
  match w.queue with
  | [] => (t, .returned (.ok w.memberIDs))
  | currentID :: queue =>
    match t.getTenant currentID with
    | .error e => (t, .returned (.error e))
    | .ok current =>
      if current.status ≠ .suspended then
        (t, .returned (.error (.notFullySuspended currentID)))
      else
        match enqueueChildren w.visited queue (t.getChildTenants currentID) with
        | .error e => (t, .returned (.error e))
        | .ok (visited, queue) =>
          (t, .running { w with
            visited := visited, queue := queue, memberIDs := w.memberIDs ++ [currentID] })

end RequestWalk

def requestTenantDeletion (s : Store) (tenantID requesterID : String) (now holdPeriod : ℤ) :
    Store × Progress RequestWalk PendingDeletion :=
  if isProtectedRootTenant s.tenants tenantID then (s, .returned (.error .cannotDeleteRoot))
  else
    match (runWalk RequestWalk.step (s.tenants.rows.length + 2) s.tenants (.start tenantID)).2 with
    | .running w => (s, .running w)
    | .returned (.error e) => (s, .returned (.error e))
    | .returned (.ok memberIDs) =>
      let pending : PendingDeletion := ⟨tenantID, requesterID, now, now + holdPeriod, memberIDs⟩
      match s.requestDeletion pending with
      | .error e => (s, .returned (.error e))
      | .ok s' => (s', .returned (.ok pending))

def cancelTenantDeletion (s : Store) (tenantID : String) : Store × Except TenantError Unit :=
  match s.cancelDeletion tenantID with
  | .error e => (s, .error e)
  | .ok s' => (s', .ok ())

def approveTenantDeletion (s : Store) (tenantID approverID : String) (requireDualControl : Bool)
    (now : ℤ) : Store × Progress Unit (List String) :=
  if isProtectedRootTenant s.tenants tenantID then (s, .returned (.error .cannotDeleteRoot))
  else s.approveDeletion tenantID approverID requireDualControl now

def deleteTenant (s : Store) (tenantID : String) : Store × Except TenantError Unit :=
  if isProtectedRootTenant s.tenants tenantID then (s, .error .cannotDeleteRoot)
  else if s.tenants.getChildTenants tenantID ≠ [] then (s, .error .tenantHasChildren)
  else
    match s.tenants.deleteTenant tenantID with
    | .error e => (s, .error e)
    | .ok tenants => ({ s with tenants := tenants }, .ok ())

def InSubtree (t : TenantTable) (root n : String) : Prop :=
  n = root ∨ Above (parentOf t) root n

variable {t : TenantTable} {root n : String}

theorem mem_nextLevel {level : List String} (hne : "" ∉ level) :
    n ∈ nextLevel t level ↔ ∃ q ∈ level, parentOf t n = some q := by
  simp only [nextLevel, mem_flatMap, mem_map, mem_filter, beq_iff_eq,
    parentOf_eq_some, TenantTable.find_eq_some_iff]
  refine exists_congr fun q => and_congr_right fun hq => ?_
  constructor
  · rintro ⟨r, ⟨hr, hp⟩, rfl⟩
    exact ⟨fun he => hne (he ▸ hq), r, ⟨hr, rfl⟩, hp⟩
  · rintro ⟨-, r, ⟨hr, rfl⟩, hp⟩
    exact ⟨r, ⟨hr, hp⟩, rfl⟩

theorem nextLevel_ne (t : TenantTable) (level : List String) : "" ∉ nextLevel t level := by
  simp only [nextLevel, mem_flatMap, mem_map, mem_filter]
  rintro ⟨q, -, r, ⟨hr, -⟩, hid⟩
  exact t.id_ne r hr hid

/-- What the recursive query returns is the given level and everything below it. -/
theorem mem_subtreeLevels {fuel : ℕ} {level members : List String} (hne : "" ∉ level)
    (h : subtreeLevels t fuel level = some members) :
    n ∈ members ↔ ∃ q ∈ level, n = q ∨ Above (parentOf t) q n := by
  induction fuel generalizing level members with
  | zero =>
    cases level with
    | nil =>
      cases h
      simp
    | cons id level => simp [subtreeLevels] at h
  | succ fuel ih =>
    cases level with
    | nil =>
      cases h
      simp
    | cons id level =>
      simp only [subtreeLevels, Option.map_eq_some_iff] at h
      obtain ⟨rest, hrest, rfl⟩ := h
      rw [mem_append, ih (nextLevel_ne t _) hrest]
      constructor
      · rintro (hn | ⟨c, hc, hcn⟩)
        · exact ⟨n, hn, .inl rfl⟩
        · obtain ⟨q, hq, hqc⟩ := (mem_nextLevel hne).mp hc
          refine ⟨q, hq, .inr ?_⟩
          rcases hcn with rfl | hcn
          · exact .parent hqc
          · exact Above.trans (.parent hqc) hcn
      · rintro ⟨q, hq, rfl | hqn⟩
        · exact .inl hq
        · obtain ⟨c, hqc, hcn⟩ := hqn.exists_child
          exact .inr ⟨c, (mem_nextLevel hne).mpr ⟨q, hq, hqc⟩, hcn.imp_left Eq.symm⟩

theorem mem_currentMembers {members : List String} (h : currentMembers t root = some members) :
    n ∈ members ↔ t.find root ≠ none ∧ InSubtree t root n := by
  unfold currentMembers at h
  split at h
  · rename_i hroot
    obtain ⟨r, hr⟩ := Option.isSome_iff_exists.mp hroot
    have hne : "" ∉ [root] := by
      simpa using (TenantTable.find_ne hr).symm
    rw [mem_subtreeLevels hne h]
    simp [hr, InSubtree]
  · rename_i hroot
    cases h
    simp [Option.not_isSome_iff_eq_none.mp hroot]

namespace RequestWalk

/-- What the walk has collected is suspended, and its children have been visited. -/
structure Inv (t : TenantTable) (w : RequestWalk) : Prop where
  visits : Visits t w.target w.visited
  mem_visited : ∀ v, v ∈ w.visited ↔ v ∈ w.memberIDs ∨ v ∈ w.queue
  target : w.target ∈ w.visited
  below : ∀ v ∈ w.visited, InSubtree t w.target v
  suspended : ∀ m ∈ w.memberIDs, ∃ r, t.find m = some r ∧ r.status = .suspended
  closed : ∀ m ∈ w.memberIDs, ∀ c, parentOf t c = some m → c ∈ w.visited

theorem Inv.start (t : TenantTable) (T : String) : (RequestWalk.start T).Inv t where
  visits := .start t T
  mem_visited v := by simp [RequestWalk.start]
  target := mem_singleton_self T
  below v hv := .inl (mem_singleton.mp hv)
  suspended m hm := absurd hm not_mem_nil
  closed m hm := absurd hm not_mem_nil

/-- Each round takes a tenant from the queue, and a tenant is queued once. -/
def remaining (t : TenantTable) (w : RequestWalk) : ℕ :=
  t.rows.length + 1 - w.visited.length + w.queue.length

variable {w : RequestWalk} {t' : TenantTable}

theorem Inv.step {w' : RequestWalk} (h : w.Inv t) (hs : step t w = (t', .running w')) :
    t' = t ∧ w'.target = w.target ∧ w'.Inv t ∧ w'.remaining t < w.remaining t := by
  revert hs
  fun_cases RequestWalk.step t w <;> rintro ⟨⟩
  rename_i currentID queue hq current hg hstatus visited' queue' hok
  have hr := TenantTable.getTenant_eq_ok.mp hg
  have hid := TenantTable.find_ne hr
  have hcurrent : currentID ∈ w.visited :=
    (h.mem_visited currentID).mpr (.inr (by rw [hq]; exact mem_cons_self))
  have hvisits := h.visits.enqueue (fun c hc => TenantTable.find_of_mem_getChildTenants hc) hok
  have hle := hvisits.length_le
  obtain ⟨-, -, rfl, rfl⟩ := enqueueChildren_cases hok
  refine ⟨rfl, rfl, ⟨hvisits, fun v => ?_, mem_append_right _ h.target, fun v hv => ?_,
    fun m hm => ?_, fun m hm c hc => ?_⟩, ?_⟩
  · simp only [mem_append, mem_reverse, h.mem_visited, hq, mem_cons,
      not_mem_nil, or_false]
    tauto
  · rcases mem_append.mp hv with hv | hv
    · have hp := (mem_childIDs_iff hid).mp (mem_reverse.mp hv)
      rcases h.below currentID hcurrent with rfl | ha
      · exact .inr (.parent hp)
      · exact .inr (ha.trans (.parent hp))
    · exact h.below v hv
  · rcases mem_append.mp hm with hm | hm
    · exact h.suspended m hm
    · rw [mem_singleton.mp hm]
      exact ⟨current, hr, not_not.mp hstatus⟩
  · rcases mem_append.mp hm with hm | hm
    · exact mem_append_right _ (h.closed m hm c hc)
    · rw [mem_singleton.mp hm] at hc
      refine mem_append_left _ (mem_reverse.mpr ?_)
      exact (mem_childIDs_iff hid).mpr hc
  · simp only [remaining, hq, length_append, length_reverse, length_cons] at hle ⊢
    omega

theorem Inv.members (h : w.Inv t) (hq : w.queue = []) :
    n ∈ w.memberIDs ↔ InSubtree t w.target n := by
  have hmem : ∀ v, v ∈ w.visited ↔ v ∈ w.memberIDs := by
    intro v
    simp [h.mem_visited, hq]
  have hclosed : ∀ a m, Above (parentOf t) a m → a ∈ w.memberIDs → m ∈ w.memberIDs := by
    intro a m ha hmember
    induction ha with
    | parent hp => exact (hmem _).mp (h.closed _ hmember _ hp)
    | step hp _ ih => exact (hmem _).mp (h.closed _ (ih hmember) _ hp)
  constructor
  · intro hn
    exact h.below n ((hmem n).mpr hn)
  · rintro (rfl | ha)
    · exact (hmem _).mp h.target
    · exact hclosed _ _ ha ((hmem _).mp h.target)

/-- What a request pins: the members of a subtree that is suspended as a whole. -/
def Collected (t : TenantTable) (T : String) : Except TenantError (List String) → Prop
  | .error _ => True
  | .ok ids => (∀ n, n ∈ ids ↔ InSubtree t T n) ∧
      ∀ n ∈ ids, ∃ r, t.find n = some r ∧ r.status = .suspended

theorem step_ok {ids : List String}
    (hs : step t w = (t', .returned (.ok ids))) : w.queue = [] ∧ ids = w.memberIDs := by
  revert hs
  fun_cases step t w <;> rintro ⟨⟩
  exact ⟨‹_›, rfl⟩

/-- The walk of a request, under way on an unchanging table. -/
def Gathers (t : TenantTable) (T : String) (u : TenantTable) (w : RequestWalk) : Prop :=
  u = t ∧ w.target = T ∧ w.Inv t

theorem Gathers.step {T : String} (u : TenantTable) (w : RequestWalk) (u' : TenantTable)
    (w' : RequestWalk) (h : Gathers t T u w) (hs : step u w = (u', .running w')) :
    Gathers t T u' w' ∧ w'.remaining u' < w.remaining u := by
  obtain ⟨rfl, rfl, hinv⟩ := h
  obtain ⟨rfl, hT, hinv', hlt⟩ := hinv.step hs
  exact ⟨⟨rfl, hT, hinv'⟩, hlt⟩

theorem Gathers.proceeds {T : String} (u : TenantTable) (w : RequestWalk) (h : Gathers t T u w) :
    Proceeds RequestWalk.step (Gathers t T) (fun _ result => Collected t T result) u w := by
  rcases hs : RequestWalk.step u w with ⟨u', w' | result⟩
  · exact .inl ⟨u', w', hs, (h.step u w u' w' hs).1⟩
  refine .inr ⟨u', result, hs, ?_⟩
  cases result with
  | error e => trivial
  | ok ids =>
    obtain ⟨rfl, rfl, hinv⟩ := h
    obtain ⟨hq, rfl⟩ := step_ok hs
    exact ⟨fun n => hinv.members hq, hinv.suspended⟩

theorem runWalk_collected (t : TenantTable) (T : String) :
    ∃ result, (runWalk RequestWalk.step (t.rows.length + 2) t (start T)).2 = .returned result ∧
      Collected t T result := by
  have hstart : Gathers t T t (start T) := ⟨rfl, rfl, Inv.start t T⟩
  have hfuel : (start T).remaining t < t.rows.length + 2 := by
    simp [remaining, start]
  obtain ⟨t', result, hrun⟩ := runWalk_returns (fun u w => w.remaining u) Gathers.step _ t _
    hstart hfuel
  exact ⟨result, by rw [hrun], runWalk_result Gathers.proceeds _ t _ hstart _ _ hrun⟩

end RequestWalk

variable {s s' : Store}

def Requested (s s' : Store) (tenantID requesterID : String) (now holdPeriod : ℤ) :
    Except TenantError PendingDeletion → Prop
  | .error _ => s' = s
  | .ok p => p.subtreeRootID = tenantID ∧ p.requestedBy = requesterID ∧
      p.eligibleAt = now + holdPeriod ∧ s' = { s with pending := s.pending ++ [p] } ∧
      RequestWalk.Collected s.tenants tenantID (.ok p.pinnedMemberIDs)

theorem requestTenantDeletion_spec (s : Store) (tenantID requesterID : String)
    (now holdPeriod : ℤ) :
    ∃ s' result, requestTenantDeletion s tenantID requesterID now holdPeriod =
        (s', .returned result) ∧ Requested s s' tenantID requesterID now holdPeriod result := by
  obtain ⟨collected, hrun, hcollected⟩ := RequestWalk.runWalk_collected s.tenants tenantID
  unfold requestTenantDeletion
  split
  · exact ⟨s, _, rfl, rfl⟩
  rw [hrun]
  cases collected with
  | error e => exact ⟨s, _, rfl, rfl⟩
  | ok ids =>
    dsimp only
    split
    · exact ⟨s, _, rfl, rfl⟩
    rename_i s' hok
    refine ⟨s', _, rfl, rfl, rfl, rfl, ?_, hcollected⟩
    unfold Store.requestDeletion at hok
    split at hok <;> cases hok
    rfl

/-- What an approval that succeeds relied on, and what it removed. -/
structure Approved (s s' : Store) (tenantID approverID : String) (requireDualControl : Bool)
    (now : ℤ) (ids : List String) (p : PendingDeletion) : Prop where
  record : p ∈ s.pending ∧ p.subtreeRootID = tenantID
  held : p.eligibleAt ≤ now
  dual : requireDualControl = true → approverID ≠ p.requestedBy
  pinned : ids = p.pinnedMemberIDs
  members : ∀ n, n ∈ ids ↔ s.tenants.find tenantID ≠ none ∧ InSubtree s.tenants tenantID n
  suspended : ∀ n ∈ ids, ∃ r, s.tenants.find n = some r ∧ r.status = .suspended
  effect : s' = { s with tenants := s.tenants.remove ids }.withoutPending tenantID

variable {ids : List String}

theorem perm_of_sorted_eq {ids' : List String} (h : sorted ids = sorted ids') :
    List.Perm ids ids' := by
  have hperm := (perm_insertionSort (· ≤ ·) ids).symm
  rw [show ids.insertionSort (· ≤ ·) = ids'.insertionSort (· ≤ ·) from h] at hperm
  exact hperm.trans (perm_insertionSort (· ≤ ·) ids')

variable {tenantID approverID : String} {requireDualControl : Bool} {now : ℤ}

theorem approveDeletion_ok (h : s.approveDeletion tenantID approverID requireDualControl now =
      (s', .returned (.ok ids))) :
    ∃ p, Approved s s' tenantID approverID requireDualControl now ids p := by
  unfold Store.approveDeletion at h
  dsimp only at h
  split at h
  · cases h
  split at h
  · cases h
  rename_i p hp
  split at h
  · cases h
  rename_i hheld
  split at h
  · cases h
  rename_i hdual
  split at h
  · cases h
  rename_i members hmembers
  split at h
  · cases h
  rename_i hsorted
  split at h
  · cases h
  split at h
  · cases h
  rename_i hrows
  cases h
  have hperm := perm_of_sorted_eq (not_not.mp hsorted)
  have hmem : ∀ n, n ∈ p.pinnedMemberIDs ↔
      s.tenants.find tenantID ≠ none ∧ InSubtree s.tenants tenantID n := by
    intro n
    rw [← hperm.mem_iff, mem_currentMembers hmembers]
  refine ⟨p, ⟨mem_of_find?_eq_some hp, by simpa using find?_some hp⟩, not_lt.mp hheld,
    fun hd he => hdual ⟨hd, he⟩, rfl, hmem, fun n hn => ?_, rfl⟩
  obtain ⟨hroot, hin⟩ := (hmem n).mp hn
  obtain ⟨r, hr⟩ : ∃ r, s.tenants.find n = some r := by
    rcases hin with rfl | ha
    · exact Option.ne_none_iff_exists'.mp hroot
    · exact exists_row_of_above ha
  refine ⟨r, hr, ?_⟩
  obtain ⟨hmem', rfl⟩ := TenantTable.find_eq_some_iff.mp hr
  rw [not_not, all_eq_true] at hrows
  simpa using hrows r (mem_filter.mpr ⟨hmem', by simpa using hn⟩)

theorem approveTenantDeletion_cases (s : Store) (tenantID approverID : String)
    (requireDualControl : Bool) (now : ℤ) :
    (approveTenantDeletion s tenantID approverID requireDualControl now).1 = s ∨
      ∃ s' ids, approveTenantDeletion s tenantID approverID requireDualControl now =
        (s', .returned (.ok ids)) := by
  unfold approveTenantDeletion
  split
  · exact .inl rfl
  unfold Store.approveDeletion
  dsimp only
  repeat' split
  all_goals first
    | exact .inl rfl
    | exact .inr ⟨_, _, rfl⟩

theorem approveTenantDeletion_ok
    (h : approveTenantDeletion s tenantID approverID requireDualControl now =
      (s', .returned (.ok ids))) :
    ∃ p, Approved s s' tenantID approverID requireDualControl now ids p := by
  unfold approveTenantDeletion at h
  split at h
  · cases h
  · exact approveDeletion_ok h

theorem Approved.prunes {p : PendingDeletion}
    (h : Approved s s' tenantID approverID requireDualControl now ids p) :
    Prunes s.tenants s'.tenants ids := by
  rw [h.effect]
  refine ⟨TenantTable.find_remove, fun n q hq hmem => ?_⟩
  obtain ⟨hroot, hin⟩ := (h.members q).mp hmem
  refine (h.members n).mpr ⟨hroot, .inr ?_⟩
  rcases hin with rfl | ha
  · exact .parent hq
  · exact .step hq ha

theorem deleteTenant_cases (s : Store) (tenantID : String) : (deleteTenant s tenantID).1 = s ∨
      (deleteTenant s tenantID).1 = { s with tenants := s.tenants.remove [tenantID] } ∧
        Prunes s.tenants (s.tenants.remove [tenantID]) [tenantID] := by
  unfold deleteTenant
  split
  · exact .inl rfl
  split
  · exact .inl rfl
  rename_i hleaf
  split
  · exact .inl rfl
  rename_i hok
  rw [TenantTable.deleteTenant_eq_ok hok]
  refine .inr ⟨rfl, TenantTable.find_remove, fun n p hp hmem => ?_⟩
  obtain rfl := mem_singleton.mp hmem
  have hchild := (mem_childIDs_iff (parentOf_eq_some.mp hp).1).mpr hp
  rw [not_not.mp hleaf] at hchild
  cases hchild

theorem cancelTenantDeletion_cases (s : Store) (tenantID : String) :
    (cancelTenantDeletion s tenantID).1 = s ∧
        (tenantID ≠ "" → ∀ p ∈ s.pending, p.subtreeRootID ≠ tenantID) ∨
      (cancelTenantDeletion s tenantID).1 = s.withoutPending tenantID := by
  unfold cancelTenantDeletion Store.cancelDeletion
  by_cases hid : tenantID = ""
  · rw [if_pos hid]
    exact .inl ⟨rfl, fun hne => absurd hid hne⟩
  rw [if_neg hid]
  by_cases hany : s.pending.any (·.subtreeRootID == tenantID) = true
  · rw [if_pos hany]
    exact .inr rfl
  rw [if_neg hany]
  refine .inl ⟨rfl, fun _ p hp he => hany ?_⟩
  exact any_eq_true.mpr ⟨p, hp, by simpa using he⟩

end Cfgms.Tenant
