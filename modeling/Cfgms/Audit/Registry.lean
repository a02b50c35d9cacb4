import Cfgms.Go.Base64

/-! # The tenant registry

The write-once sink records each tenant under a name in a registry: at first under the ID itself,
later under its unpadded base64. A name is taken for base64 if it is what its decoding encodes to,
which is also true of many plain IDs.
-/

namespace Cfgms.Audit

open List Go.Base64

abbrev Bytes := List UInt8

def encodeTenantRegistryName (tenantID : Bytes) : Bytes := encodeToString tenantID

def decodeTenantRegistryName (name : Bytes) : Bytes :=
  match decodeString name with
  | none => name
  | some decoded => if encodeTenantRegistryName decoded ≠ name then name else decoded

def listKnownTenants (names : List Bytes) : List Bytes := names.map decodeTenantRegistryName

/-- The markers that a pass of the reconciliation comes to, each with its tenant. -/
def reconciled (markers : Bytes → List Bytes) (names : List Bytes) : List (Bytes × Bytes) :=
  (listKnownTenants names).flatMap fun tenantID => (markers tenantID).map (tenantID, ·)

/-- A tenant as it was recorded, by the original code or by `registerTenant`. -/
inductive Recording | original (tenantID : Bytes) | registered (tenantID : Bytes)

def Recording.tenantID : Recording → Bytes
  | original tenantID | registered tenantID => tenantID

def Recording.name : Recording → Bytes
  | original tenantID => tenantID
  | registered tenantID => encodeTenantRegistryName tenantID

theorem decodeTenantRegistryName_encode (t : Bytes) :
    decodeTenantRegistryName (encodeTenantRegistryName t) = t := by
  simp [decodeTenantRegistryName, encodeTenantRegistryName, decodeString_encodeToString]

/-- A name stands for the ID that it encodes, or for itself if it encodes none. -/
theorem decodeTenantRegistryName_eq_iff {n t : Bytes} : decodeTenantRegistryName n = t ↔
    n = encodeTenantRegistryName t ∨ n = t ∧ ∀ t', encodeTenantRegistryName t' ≠ n := by
  by_cases hencoded : ∃ t', encodeTenantRegistryName t' = n
  · obtain ⟨t', rfl⟩ := hencoded
    rw [decodeTenantRegistryName_encode, or_iff_left fun h => h.2 t' rfl]
    refine ⟨congrArg _, fun h => ?_⟩
    rw [← decodeTenantRegistryName_encode t', h, decodeTenantRegistryName_encode]
  · have hraw : decodeTenantRegistryName n = n := by
      unfold decodeTenantRegistryName
      split
      · rfl
      · exact if_pos fun h => hencoded ⟨_, h⟩
    rw [hraw, or_iff_right fun h => hencoded ⟨t, h.symm⟩]
    exact ⟨fun h => ⟨h, fun t' h' => hencoded ⟨t', h'⟩⟩, And.left⟩

theorem mem_listKnownTenants {names : List Bytes} {t : Bytes} : t ∈ listKnownTenants names ↔
    encodeTenantRegistryName t ∈ names ∨ t ∈ names ∧ ∀ t', encodeTenantRegistryName t' ≠ t := by
  simp only [listKnownTenants, mem_map, decodeTenantRegistryName_eq_iff, and_or_left, exists_or]
  refine or_congr ⟨?_, fun h => ⟨_, h, rfl⟩⟩ ⟨?_, fun h => ⟨t, h.1, rfl, h.2⟩⟩
  · rintro ⟨n, hn, rfl⟩
    exact hn
  · rintro ⟨n, hn, rfl, hne⟩
    exact ⟨hn, hne⟩

/-- Every recorded tenant is known and its markers are visited, exactly if each ID that the original
code recorded and that is itself the base64 of something is also there in base64. -/
theorem recorded_tenants_known_iff {recordings : List Recording} {names : List Bytes}
    (hlisted : ∀ n, n ∈ names ↔ ∃ r ∈ recordings, r.name = n) :
    (∀ r ∈ recordings, r.tenantID ∈ listKnownTenants names ∧
        ∀ markers, ∀ id ∈ markers r.tenantID, (r.tenantID, id) ∈ reconciled markers names) ↔
      ∀ t, .original (encodeTenantRegistryName t) ∈ recordings →
        ∃ r ∈ recordings, r.name = encodeTenantRegistryName (encodeTenantRegistryName t) := by
  constructor
  · intro h t ht
    rcases mem_listKnownTenants.mp (h _ ht).1 with hname | ⟨-, hplain⟩
    · exact (hlisted _).mp hname
    · exact absurd rfl (hplain t)
  · intro h r hr
    have hknown : r.tenantID ∈ listKnownTenants names := by
      rw [mem_listKnownTenants]
      cases r with
      | registered t => exact .inl ((hlisted _).mpr ⟨_, hr, rfl⟩)
      | original t =>
        by_cases hencoded : ∃ t', encodeTenantRegistryName t' = t
        · obtain ⟨t', rfl⟩ := hencoded
          exact .inl ((hlisted _).mpr (h t' hr))
        · exact .inr ⟨(hlisted _).mpr ⟨_, hr, rfl⟩, not_exists.mp hencoded⟩
    exact ⟨hknown, fun markers id hid => mem_flatMap.mpr ⟨_, hknown, mem_map_of_mem hid⟩⟩

def acme : Bytes := [97, 99, 109, 101]

def acmeTwice : List Bytes :=
  [encodeTenantRegistryName [114, 47, 97], encodeTenantRegistryName acme, acme]

/-- The base64 of `acme` is there beside the plain ID, and so is that of `r/a`. -/
theorem recorded_tenants_known_both :
    acme ∈ listKnownTenants acmeTwice ∧ [114, 47, 97] ∈ listKnownTenants acmeTwice := by
  have hlisted : ∀ n, n ∈ acmeTwice ↔ ∃ r ∈ [Recording.original acme, .registered acme,
      .registered [114, 47, 97]], r.name = n := by
    simp [acmeTwice, Recording.name, eq_comm, or_comm, or_assoc]
  have hknown := (recorded_tenants_known_iff hlisted).mpr fun t ht => by
    obtain ht : encodeTenantRegistryName t = acme := by simpa using ht
    exact ⟨_, mem_cons_of_mem _ mem_cons_self, by rw [ht]; rfl⟩
  exact ⟨(hknown _ mem_cons_self).1, (hknown (.registered [114, 47, 97]) (by simp)).1⟩

/-- The plain ID `acme` is taken for the base64 of three bytes. -/
theorem plain_tenant_forgotten :
    listKnownTenants [(Recording.original acme).name] = [[105, 201, 158]] ∧
      acme ∉ listKnownTenants [(Recording.original acme).name] := by
  decide +kernel

end Cfgms.Audit
