import Cfgms.Audit.Entry
import Cfgms.Text.Netstring

/-! # Checksums of audit entries

The checksum of an entry is a keyed hash of its fields, each framed by its length. Two entries
share the hashed bytes exactly if they agree in all fields but the checksum, where a timestamp
counts in whole seconds and an empty map counts as none.
-/

namespace Cfgms.Audit

open Text

variable {D : Type*}

/-- The audit manager as far as checksums depend on it: `encoding/json` on maps and on change
records, the keyed hash in hexadecimal, the verb `%q`, and `sort.Slice`, which need not be
stable. -/
structure ChecksumConfig (D : Type*) where
  len : D → ℕ
  marshalDetails : Option D → String
  marshalChanges : Option (AuditChanges D) → String
  mac : List UInt8 → String
  quote : String → String
  sortBySequence : List (AuditEntry D) → List (AuditEntry D)
  sort_perm : ∀ es, (sortBySequence es).Perm es
  sort_sorted : ∀ es, (sortBySequence es).Pairwise fun a b => a.sequenceNumber ≤ b.sequenceNumber

namespace ChecksumConfig

variable (C : ChecksumConfig D)

def canonicalDetails (d : Option D) : Option D := d.filter fun m => C.len m ≠ 0

def canonicalChanges (c : Option (AuditChanges D)) : Option (AuditChanges D) :=
  c.map fun c =>
    { c with before := C.canonicalDetails c.before, after := C.canonicalDetails c.after }

def unix (t : ℤ) : ℤ := t / 10 ^ 9

/-- The values that `generateChecksum` writes to the hash, in order. -/
def hashedFields (e : AuditEntry D) : List String :=
  [e.id, e.tenantID, formatInt (unix e.timestamp), e.eventType, e.action, e.userID, e.userType,
    e.sessionID, e.resourceType, e.resourceID, e.resourceName, e.result, e.errorCode,
    e.errorMessage, e.requestID, e.ipAddress, e.userAgent, e.method, e.path,
    C.marshalDetails (C.canonicalDetails e.details),
    C.marshalChanges (C.canonicalChanges e.changes), decimal e.tags.length] ++ e.tags ++
  [e.severity, e.source, e.version, decimal e.sequenceNumber, e.previousChecksum]

/-- The bytes that the hash runs over. -/
def message (e : AuditEntry D) : List UInt8 := frames ((C.hashedFields e).map bytes)

def generateChecksum (e : AuditEntry D) : String := C.mac (C.message e)

/-- The entry with an empty map written as none. -/
def canonical (e : AuditEntry D) : AuditEntry D :=
  { e with details := C.canonicalDetails e.details, changes := C.canonicalChanges e.changes }

/-- What a checksum says of an entry, and the checksum. -/
def hashView (e : AuditEntry D) : AuditEntry D :=
  { C.canonical e with timestamp := unix e.timestamp }

/-- The hash has no collisions, and JSON texts tell canonical values apart. -/
structure Ideal : Prop where
  mac_injective : Function.Injective C.mac
  marshalDetails_inj : ∀ d d', C.marshalDetails (C.canonicalDetails d) =
    C.marshalDetails (C.canonicalDetails d') → C.canonicalDetails d = C.canonicalDetails d'
  marshalChanges_inj : ∀ c c', C.marshalChanges (C.canonicalChanges c) =
    C.marshalChanges (C.canonicalChanges c') → C.canonicalChanges c = C.canonicalChanges c'

variable {e b : AuditEntry D}

variable {C} in
theorem hashView_congr (h : C.hashView e = C.hashView b) : e.id = b.id ∧ e.tenantID = b.tenantID ∧
    e.sequenceNumber = b.sequenceNumber ∧ e.previousChecksum = b.previousChecksum ∧
      e.checksum = b.checksum := by
  simp only [hashView, canonical, AuditEntry.mk.injEq] at h
  tauto

theorem hashedFields_congr (h : C.hashView e = C.hashView b) :
    C.hashedFields e = C.hashedFields b := by
  have hfields : ∀ e, C.hashedFields e = (let v := C.hashView e;
      [v.id, v.tenantID, formatInt v.timestamp, v.eventType, v.action, v.userID, v.userType,
        v.sessionID, v.resourceType, v.resourceID, v.resourceName, v.result, v.errorCode,
        v.errorMessage, v.requestID, v.ipAddress, v.userAgent, v.method, v.path,
        C.marshalDetails v.details, C.marshalChanges v.changes, decimal v.tags.length] ++ v.tags ++
      [v.severity, v.source, v.version, decimal v.sequenceNumber, v.previousChecksum]) :=
    fun _ => rfl
  rw [hfields, hfields, h]

variable {C}

theorem Ideal.hashedFields_inj (hC : C.Ideal)
    (h : C.hashedFields e = C.hashedFields b) (hsum : e.checksum = b.checksum) :
    C.hashView e = C.hashView b := by
  simp only [hashedFields, List.cons_append, List.nil_append, List.cons.injEq] at h
  obtain ⟨h1, h2, h3, h4, h5, h6, h7, h8, h9, h10, h11, h12, h13, h14, h15, h16, h17, h18, h19, h20,
    h21, -, h⟩ := h
  obtain ⟨htags, hrest⟩ := List.append_inj' h rfl
  simp only [List.cons.injEq, and_true] at hrest
  obtain ⟨h23, h24, h25, h26, h27⟩ := hrest
  have htime := formatInt_injective h3
  have hdetails := hC.marshalDetails_inj _ _ h20
  have hchanges := hC.marshalChanges_inj _ _ h21
  have hseq := decimal_injective h26
  simp [hashView, canonical, *]

theorem Ideal.generateChecksum_inj (hC : C.Ideal)
    (h : C.generateChecksum e = C.generateChecksum b) (hsum : e.checksum = b.checksum) :
    C.hashView e = C.hashView b := by
  have hbytes := frames_injective (hC.mac_injective h)
  exact hC.hashedFields_inj (List.map_injective_iff.mpr bytes_injective hbytes) hsum

end ChecksumConfig

end Cfgms.Audit
