import Mathlib.Data.List.Induction
import Mathlib.Order.Nat

/-! # Audit entries

An audit store numbers the entries of each tenant and links every entry to the
checksum of the one before it. The entry with the highest number is the chain head.
-/

namespace Cfgms.Audit

/-- `D` is the type of the non-nil values of `map[string]interface{}`. -/
structure AuditChanges (D : Type*) where
  before : Option D
  after : Option D
  fields : List String
  deriving DecidableEq

structure AuditEntry (D : Type*) where
  id : String
  tenantID : String
  /-- Nanoseconds since the Unix epoch. -/
  timestamp : ℤ := 0
  eventType : String := ""
  action : String := ""
  userID : String := ""
  userType : String := ""
  sessionID : String := ""
  resourceType : String := ""
  resourceID : String := ""
  resourceName : String := ""
  result : String := ""
  errorCode : String := ""
  errorMessage : String := ""
  requestID : String := ""
  ipAddress : String := ""
  userAgent : String := ""
  method : String := ""
  path : String := ""
  details : Option D := none
  changes : Option (AuditChanges D) := none
  tags : List String := []
  severity : String := ""
  source : String := ""
  version : String := ""
  checksum : String := ""
  sequenceNumber : ℕ := 0
  previousChecksum : String := ""
  deriving DecidableEq

structure ChainHead where
  sequenceNumber : ℕ
  checksum : String
  deriving DecidableEq

variable {D : Type*}

namespace AuditEntry

def head (e : AuditEntry D) : ChainHead := ⟨e.sequenceNumber, e.checksum⟩

/-- The fields that `AppendChainedEntry` assigns before it writes the entry. -/
def chained (e : AuditEntry D) (tenantID : String) (head : ChainHead)
    (computeChecksum : AuditEntry D → String) : AuditEntry D :=
  let linked := { e with
    tenantID
    sequenceNumber := head.sequenceNumber + 1
    previousChecksum := head.checksum }
  { linked with checksum := computeChecksum linked }

section Chained

variable (e : AuditEntry D) (tenantID : String) (head : ChainHead)
  (computeChecksum : AuditEntry D → String)

@[simp] theorem chained_tenantID :
    (e.chained tenantID head computeChecksum).tenantID = tenantID := rfl

@[simp] theorem chained_sequenceNumber :
    (e.chained tenantID head computeChecksum).sequenceNumber = head.sequenceNumber + 1 := rfl

end Chained

end AuditEntry

/-- One round of the loop in `GetLastAuditEntry`. -/
def later : Option (AuditEntry D) → AuditEntry D → Option (AuditEntry D)
  | none, e => some e
  | some last, e => if last.sequenceNumber < e.sequenceNumber then some e else some last

def lastEntry (es : List (AuditEntry D)) : Option (AuditEntry D) := es.foldl later none

/-- An absent chain starts at zero with an empty checksum. -/
def chainHead (es : List (AuditEntry D)) : ChainHead :=
  (lastEntry es).elim ⟨0, ""⟩ AuditEntry.head

variable (es : List (AuditEntry D))

@[simp] theorem lastEntry_concat (e : AuditEntry D) :
    lastEntry (es ++ [e]) = later (lastEntry es) e := by
  simp [lastEntry]

theorem sequenceNumber_chainHead_concat (e : AuditEntry D) :
    (chainHead (es ++ [e])).sequenceNumber =
      max (chainHead es).sequenceNumber e.sequenceNumber := by
  rw [chainHead, chainHead, lastEntry_concat]
  cases lastEntry es with
  | none => simp [later, AuditEntry.head]
  | some l =>
    by_cases hlt : l.sequenceNumber < e.sequenceNumber
    · simp [later, hlt, AuditEntry.head, hlt.le]
    · simp [later, hlt, AuditEntry.head, not_lt.mp hlt]

variable {es : List (AuditEntry D)}

theorem chainHead_le_iff {n : ℕ} :
    (chainHead es).sequenceNumber ≤ n ↔ ∀ e ∈ es, e.sequenceNumber ≤ n := by
  induction es using List.reverseRecOn with
  | nil => simp [chainHead, lastEntry]
  | append_singleton es b ih =>
    rw [sequenceNumber_chainHead_concat, Nat.max_le, ih]
    simp [or_imp, forall_and]

theorem le_chainHead {e : AuditEntry D} (h : e ∈ es) :
    e.sequenceNumber ≤ (chainHead es).sequenceNumber :=
  chainHead_le_iff.mp le_rfl e h

end Cfgms.Audit
