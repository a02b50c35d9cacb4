import Mathlib.Data.List.Nodup
import Mathlib.Data.List.Perm.Subperm
import Cfgms.Ordered.Table

/-! # The tenant store

The rows of the tenants table in the order in which queries return them, newest first.
An update replaces every mutable column of a row at once, and nothing ties a parent
reference to an existing row.
-/

namespace Cfgms.Tenant

open List

inductive TenantStatus where
  | active
  | suspended
  | deleted
  deriving DecidableEq

abbrev Metadata := List (String × String)

structure TenantData where
  id : String
  name : String
  description : String
  parentID : String
  metadata : Metadata
  status : TenantStatus
  directlySuspended : Bool
  cascadeSuspendedFrom : Option String
  billingLabel : String
  deriving DecidableEq

inductive TenantError where
  | emptyID
  | emptySubtreeRootID
  | tenantDoesNotExist
  | tenantAlreadyExists
  | topLevelTenantExists
  | topLevelWithParent
  | cannotSuspendRoot
  | cannotDeleteRoot
  | tenantHasChildren
  | cycleDetected (id : String)
  | suspendedParent (id : String)
  | parentPendingDeletion (id : String)
  | reservedMetadataKey
  | nameRequired
  | nameFormat
  | nameTooLong
  | descriptionTooLong
  | explicitIDTooLong (length : ℕ)
  | explicitIDFormat (id : String)
  | credentialForm
  | credentialOwner (owner tenantID : String)
  | credentialSegment (key : String)
  | notFullySuspended (id : String)
  | pendingDeletionExists
  | pendingDeletionNotFound
  | holdNotElapsed
  | membershipChanged
  | sameApprover
  | external (text : String)
  | wrapped (context : String) (e : TenantError)
  deriving DecidableEq

/-- The error at the bottom of a chain of wrapped errors. -/
def TenantError.cause : TenantError → TenantError
  | .wrapped _ e => e.cause
  | e => e

/-- The tenants table. The primary key is unique and never empty. -/
structure TenantTable where
  rows : List TenantData
  nodup : (rows.map (·.id)).Nodup
  id_ne : ∀ r ∈ rows, r.id ≠ ""

namespace TenantTable

variable {t : TenantTable} {r : TenantData} {id : String}

def find (t : TenantTable) (id : String) : Option TenantData := t.rows.find? (·.id == id)

def getTenant (t : TenantTable) (id : String) : Except TenantError TenantData :=
  if id = "" then .error .emptyID
  else
    match t.find id with
    | none => .error .tenantDoesNotExist
    | some r => .ok r

/-- An empty parent is no filter at all. -/
def getChildTenants (t : TenantTable) (parentID : String) : List TenantData :=
  if parentID = "" then t.rows else t.rows.filter (·.parentID == parentID)

theorem find_eq_some_iff : t.find id = some r ↔ r ∈ t.rows ∧ r.id = id :=
  Ordered.Table.get_eq_some_iff (t := ⟨t.rows, t.nodup⟩)

theorem find_id (h : t.find id = some r) : r.id = id := (find_eq_some_iff.mp h).2

theorem find_ne (h : t.find id = some r) : id ≠ "" := by
  obtain ⟨hr, rfl⟩ := find_eq_some_iff.mp h
  exact t.id_ne r hr

theorem find_eq_none_iff : t.find id = none ↔ id ∉ t.rows.map (·.id) := by
  simp [find, find?_eq_none]

theorem getTenant_eq_ok : t.getTenant id = .ok r ↔ t.find id = some r := by
  unfold getTenant
  by_cases hid : id = ""
  · rw [if_pos hid]
    exact ⟨by simp, fun h => absurd hid (find_ne h)⟩
  · rw [if_neg hid]
    cases t.find id <;> simp

theorem mem_getChildTenants (hid : id ≠ "") :
    r ∈ t.getChildTenants id ↔ t.find r.id = some r ∧ r.parentID = id := by
  rw [getChildTenants, if_neg hid, mem_filter, find_eq_some_iff]
  simp

theorem find_of_mem_getChildTenants (h : r ∈ t.getChildTenants id) : t.find r.id ≠ none := by
  have hr : r ∈ t.rows := by
    unfold getChildTenants at h
    split at h
    · exact h
    · exact mem_of_mem_filter h
  simp [find_eq_some_iff.mpr ⟨hr, rfl⟩]

theorem nodup_getChildTenants (t : TenantTable) (id : String) :
    ((t.getChildTenants id).map (·.id)).Nodup := by
  unfold getChildTenants
  split
  · exact t.nodup
  · exact t.nodup.sublist (filter_sublist.map _)

/-- Every mutable column is replaced; the billing label stays. -/
def replace (t : TenantTable) (td : TenantData) : TenantTable where
  rows := t.rows.map fun r => if r.id = td.id then { td with billingLabel := r.billingLabel } else r
  nodup := by
    have h : (t.rows.map fun r =>
        if r.id = td.id then { td with billingLabel := r.billingLabel } else r).map (·.id) =
          t.rows.map (·.id) := by
      rw [map_map]
      refine map_congr_left fun r _ => ?_
      by_cases hr : r.id = td.id <;> simp [hr]
    rw [h]
    exact t.nodup
  id_ne := by
    intro r hr
    obtain ⟨r', hr', rfl⟩ := mem_map.mp hr
    have := t.id_ne r' hr'
    by_cases h : r'.id = td.id
    · simpa [h] using h ▸ this
    · simpa [h] using this

def updateTenant (t : TenantTable) (td : TenantData) : Except TenantError TenantTable :=
  if td.id = "" then .error .emptyID
  else
    match t.find td.id with
    | none => .error (.wrapped ("update tenant " ++ td.id) .tenantDoesNotExist)
    | some _ => .ok (t.replace td)

variable {td : TenantData} {t' : TenantTable} {pos : ℕ}

theorem find_congr {n : String} (h : ∀ r, r.id = n → (r ∈ t'.rows ↔ r ∈ t.rows)) :
    t'.find n = t.find n :=
  Option.ext fun r => by
    rw [find_eq_some_iff, find_eq_some_iff]
    exact and_congr_left (h r)

theorem find_replace (h : t.find td.id = some r) (n : String) :
    (t.replace td).find n =
      if n = td.id then some { td with billingLabel := r.billingLabel } else t.find n := by
  obtain ⟨hr, hid⟩ := find_eq_some_iff.mp h
  by_cases hn : n = td.id
  · rw [if_pos hn, find_eq_some_iff]
    refine ⟨mem_map.mpr ⟨r, hr, ?_⟩, hn.symm⟩
    rw [if_pos hid]
  · rw [if_neg hn]
    refine find_congr fun r' hr' => ⟨fun hmem => ?_, fun hmem => mem_map.mpr ⟨r', hmem, ?_⟩⟩
    · obtain ⟨r₀, hr₀, rfl⟩ := mem_map.mp hmem
      split at hr'
      · exact absurd hr'.symm hn
      · next h₀ => rwa [if_neg h₀]
    · rw [if_neg (hr' ▸ hn)]

theorem updateTenant_eq_ok :
    t.updateTenant td = .ok t' ↔ (∃ r, t.find td.id = some r) ∧ t' = t.replace td := by
  unfold updateTenant
  by_cases hid : td.id = ""
  · rw [if_pos hid]
    refine ⟨by simp, ?_⟩
    rintro ⟨⟨r, hr⟩, -⟩
    exact absurd hid (find_ne hr)
  · rw [if_neg hid]
    cases t.find td.id <;> simp [eq_comm]

theorem length_updateTenant
    (h : t.updateTenant td = .ok t') : t'.rows.length = t.rows.length := by
  obtain ⟨-, rfl⟩ := updateTenant_eq_ok.mp h
  exact length_map _

theorem updateTenant_present {n : String}
    (h : t.updateTenant td = .ok t') (hn : t.find n ≠ none) : t'.find n ≠ none := by
  obtain ⟨⟨r, hr⟩, rfl⟩ := updateTenant_eq_ok.mp h
  rw [find_replace hr]
  split
  · simp
  · exact hn

/-- Insert a row that sorts at position `pos`. -/
def insert (t : TenantTable) (pos : ℕ) (td : TenantData) (hid : td.id ≠ "")
    (hnew : t.find td.id = none) : TenantTable where
  rows := t.rows.insertIdx (min pos t.rows.length) td
  nodup := by
    have hperm := perm_insertIdx td t.rows (Nat.min_le_right pos t.rows.length)
    rw [(hperm.map (·.id)).nodup_iff, map_cons, nodup_cons]
    exact ⟨find_eq_none_iff.mp hnew, t.nodup⟩
  id_ne := by
    intro r hr
    rw [mem_insertIdx (Nat.min_le_right pos t.rows.length)] at hr
    rcases hr with rfl | hr
    · exact hid
    · exact t.id_ne r hr

theorem mem_rows_insert (hid : td.id ≠ "")
    (hnew : t.find td.id = none) :
    r ∈ (t.insert pos td hid hnew).rows ↔ r = td ∨ r ∈ t.rows :=
  mem_insertIdx (Nat.min_le_right pos t.rows.length)

theorem find_insert (hid : td.id ≠ "")
    (hnew : t.find td.id = none) (n : String) :
    (t.insert pos td hid hnew).find n = if n = td.id then some td else t.find n := by
  by_cases hn : n = td.id
  · rw [if_pos hn, find_eq_some_iff, mem_rows_insert]
    exact ⟨Or.inl rfl, hn.symm⟩
  · rw [if_neg hn]
    refine find_congr fun r hr => (mem_rows_insert hid hnew).trans (or_iff_right ?_)
    rintro rfl
    exact hn hr.symm

/-- The unique indexes are on the ID and on the billing label. -/
def createTenant (t : TenantTable) (pos : ℕ) (td : TenantData) : Except TenantError TenantTable :=
  if hid : td.id = "" then .error .emptyID
  else if hnew : t.find td.id = none then
    if t.rows.any (·.billingLabel == td.billingLabel) then
      .error (.wrapped ("create tenant " ++ td.id) .tenantAlreadyExists)
    else .ok (t.insert pos td hid hnew)
  else .error (.wrapped ("create tenant " ++ td.id) .tenantAlreadyExists)

/-- Insert a row without a parent, only if there is none yet. -/
def createTopLevelTenant (t : TenantTable) (pos : ℕ) (td : TenantData) :
    Except TenantError TenantTable :=
  if td.id = "" then .error .emptyID
  else if td.parentID ≠ "" then .error .topLevelWithParent
  else if t.rows.any (·.parentID == "") then .error .topLevelTenantExists
  else t.createTenant pos td

theorem createTenant_eq_ok
    (h : t.createTenant pos td = .ok t') :
    td.id ≠ "" ∧ t.find td.id = none ∧
      ∀ n, t'.find n = if n = td.id then some td else t.find n := by
  revert h
  fun_cases createTenant t pos td <;> rintro ⟨⟩
  next hid hnew _ => exact ⟨hid, hnew, find_insert hid hnew⟩

theorem createTopLevelTenant_eq_ok
    (h : t.createTopLevelTenant pos td = .ok t') :
    td.parentID = "" ∧ t.createTenant pos td = .ok t' := by
  revert h
  fun_cases createTopLevelTenant t pos td
  case case4 hp _ => exact fun h => ⟨not_not.mp hp, h⟩
  all_goals rintro ⟨⟩

def remove (t : TenantTable) (ids : List String) : TenantTable where
  rows := t.rows.filter (·.id ∉ ids)
  nodup := (t.nodup.sublist (filter_sublist.map _))
  id_ne r hr := t.id_ne r (mem_of_mem_filter hr)

theorem find_remove {ids : List String} (n : String) :
    (t.remove ids).find n = if n ∈ ids then none else t.find n := by
  by_cases hn : n ∈ ids
  · rw [if_pos hn, find_eq_none_iff]
    intro hmem
    obtain ⟨r, hr, rfl⟩ := mem_map.mp hmem
    exact (by simpa using (mem_filter.mp hr).2 : r.id ∉ ids) hn
  · rw [if_neg hn]
    exact find_congr fun r hr => by simp [remove, hr, hn]

def deleteTenant (t : TenantTable) (id : String) : Except TenantError TenantTable :=
  if id = "" then .error .emptyID
  else
    match t.find id with
    | none => .error (.wrapped ("delete tenant " ++ id) .tenantDoesNotExist)
    | some _ => .ok (t.remove [id])

theorem deleteTenant_eq_ok (h : t.deleteTenant id = .ok t') :
    t' = t.remove [id] := by
  revert h
  fun_cases deleteTenant t id <;> rintro ⟨⟩
  rfl

end TenantTable

end Cfgms.Tenant
