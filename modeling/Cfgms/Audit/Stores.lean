import Cfgms.Audit.Entry
import Cfgms.Go.Time

/-! # The audit stores

Three stores number the entries of a tenant. The flat-file store derives the head from the
daily files that are left and caches it; SQLite derives it from its rows, which are never
removed; PostgreSQL keeps it in a row of its own that outlives a purge.
-/

namespace Cfgms.Audit

open Function

variable {D : Type*}

inductive AuditError where
  | tenantIDRequired
  | userIDRequired
  | actionRequired
  | resourceTypeRequired
  | resourceIDRequired
  | sourceRequired
  | idRequired
  | immutable
  | invalidTenantID
  | marshalFailed
  | storeFailed
  deriving DecidableEq, Repr

/-- What the audit manager and the retention jobs call, and the loss of memory at a restart. -/
structure AuditStore (σ D : Type*) where
  appendChainedEntry : σ → ℤ → String → AuditEntry D → σ × Except AuditError (AuditEntry D)
  archiveAuditEntries : σ → ℤ → σ
  purgeAuditEntries : σ → ℤ → σ
  restart : σ → σ

/-- The checks of the required fields that the flat-file and PostgreSQL stores share. -/
def validateFlatFileAuditEntry (e : AuditEntry D) : Except AuditError Unit :=
  if e.tenantID = "" then .error .tenantIDRequired
  else if e.userID = "" then .error .userIDRequired
  else if e.action = "" then .error .actionRequired
  else if e.resourceType = "" then .error .resourceTypeRequired
  else if e.resourceID = "" then .error .resourceIDRequired
  else .ok ()

def zeroTime : ℤ := -(Go.unixToInternal * 10 ^ 9)

def AuditEntry.timestampOr (e : AuditEntry D) (now : ℤ) : ℤ :=
  if e.timestamp = zeroTime then now else e.timestamp

def nanosPerDay : ℤ := 86400 * 10 ^ 9

/-- The file of one UTC day, counted from the epoch. -/
structure DailyFile (D : Type*) where
  day : ℤ
  lines : List (AuditEntry D)

structure FlatFileConfig (D : Type*) where
  maxRetentionDays : ℕ
  computeChecksum : AuditEntry D → String
  /-- The directory of a tenant, unless its ID leads out of the root. -/
  auditDir : String → Option String
  jsonLength : AuditEntry D → Option ℕ

structure FlatFileStore (D : Type*) where
  files : String → List (DailyFile D)
  chainHeads : String → Option ChainHead

/-- The buffer of the line scanner. -/
def maxLine : ℕ := 1024 * 1024

namespace FlatFileConfig

variable (F : FlatFileConfig D)

/-- A file with a line that does not fit into the buffer is not read at all. -/
def readJSONLFile (file : DailyFile D) : Option (List (AuditEntry D)) :=
  if file.lines.all fun e => (F.jsonLength e).any (· < maxLine) then some file.lines else none

/-- The entries that `GetLastAuditEntry` sees, newest file first. -/
def readable (files : List (DailyFile D)) : List (AuditEntry D) :=
  (files.mergeSort fun f g => g.day ≤ f.day).flatMap fun f => (F.readJSONLFile f).getD []

def retentionCutoff (now : ℤ) : ℤ := now - F.maxRetentionDays * nanosPerDay

/-- The write to the daily file of an entry, which is created where it does not exist. -/
def appendLine (files : List (DailyFile D)) (e : AuditEntry D) : List (DailyFile D) :=
  let day := e.timestamp / nanosPerDay
  if files.any fun f => f.day = day then
    files.map fun f => if f.day = day then { f with lines := f.lines ++ [e] } else f
  else files ++ [⟨day, [e]⟩]

/-- The cached head, or the one that the files of the directory give. -/
def head (s : FlatFileStore D) (tenantID dir : String) : ChainHead :=
  (s.chainHeads tenantID).getD (chainHead (F.readable (s.files dir)))

def appendChainedEntry (s : FlatFileStore D) (now : ℤ) (tenantID : String) (entry : AuditEntry D) :
    FlatFileStore D × Except AuditError (AuditEntry D) :=
  match validateFlatFileAuditEntry { entry with tenantID } with
  | .error err => (s, .error err)
  | .ok () =>
    let timestamp := entry.timestampOr now
    if timestamp < F.retentionCutoff now then (s, .error .immutable)
    else
      match F.auditDir tenantID with
      | none => (s, .error .invalidTenantID)
      | some dir =>
        let e := { entry with timestamp }.chained tenantID (F.head s tenantID dir) F.computeChecksum
        match F.jsonLength e with
        | none =>
            ({ s with chainHeads := update s.chainHeads tenantID none },
              .error .marshalFailed)
        | some _ =>
            ({ files := update s.files dir (appendLine (s.files dir) e)
               chainHeads := update s.chainHeads tenantID (some e.head) }, .ok e)

/-- The files that an archive or a purge leaves in the audit directory. -/
def remaining (files : List (DailyFile D)) (beforeDate : ℤ) : List (DailyFile D) :=
  files.filter fun f => ¬ f.day * nanosPerDay < beforeDate

/-- Archived files go to a subdirectory that the head is never derived from. -/
def removeFiles (s : FlatFileStore D) (beforeDate : ℤ) : FlatFileStore D where
  files dir := remaining (s.files dir) beforeDate
  chainHeads _ := none

def store : AuditStore (FlatFileStore D) D where
  appendChainedEntry := F.appendChainedEntry
  archiveAuditEntries := removeFiles
  purgeAuditEntries := removeFiles
  restart s := { s with chainHeads := fun _ => none }

end FlatFileConfig

def FlatFileStore.empty : FlatFileStore D := ⟨fun _ => [], fun _ => none⟩

structure SQLiteConfig (D : Type*) where
  chainChecksum : AuditEntry D → String
  /-- The plain checksum of a row that was given none. -/
  computeChecksum : AuditEntry D → String
  /-- Details, changes and tags have a JSON text. -/
  storable : AuditEntry D → Bool

namespace SQLiteConfig

variable (Q : SQLiteConfig D)

/-- `storeAuditEntryExec` fills in a missing checksum. -/
def withChecksum (e : AuditEntry D) : AuditEntry D :=
  if e.checksum = "" then { e with checksum := Q.computeChecksum e } else e

@[simp] theorem withChecksum_tenantID (e : AuditEntry D) :
    (Q.withChecksum e).tenantID = e.tenantID := by
  unfold withChecksum
  split <;> rfl

@[simp] theorem withChecksum_sequenceNumber (e : AuditEntry D) :
    (Q.withChecksum e).sequenceNumber = e.sequenceNumber := by
  unfold withChecksum
  split <;> rfl

/-- One immediate transaction: nobody writes between the read of the head and the insert. -/
def appendChainedEntry (rows : List (AuditEntry D)) (_now : ℤ) (tenantID : String)
    (entry : AuditEntry D) : List (AuditEntry D) × Except AuditError (AuditEntry D) :=
  if entry.id = "" then (rows, .error .idRequired)
  else
    let e := Q.withChecksum (entry.chained tenantID
      (chainHead (rows.filter fun r => r.tenantID = tenantID)) Q.chainChecksum)
    if ¬ Q.storable e then (rows, .error .marshalFailed)
    else if rows.any fun r => r.id = e.id then (rows, .error .immutable)
    else (rows ++ [e], .ok e)

/-- Archive and purge are refused. -/
def store : AuditStore (List (AuditEntry D)) D where
  appendChainedEntry := Q.appendChainedEntry
  archiveAuditEntries rows _ := rows
  purgeAuditEntries rows _ := rows
  restart rows := rows

end SQLiteConfig

structure DatabaseConfig (D : Type*) where
  computeChecksum : AuditEntry D → String
  generateAuditID : AuditEntry D → String
  storable : AuditEntry D → Bool

structure DatabaseStore (D : Type*) where
  rows : List (AuditEntry D)
  chainHeads : String → Option ChainHead

namespace DatabaseConfig

variable (P : DatabaseConfig D)

def validateAuditEntry (e : AuditEntry D) : Except AuditError Unit :=
  match validateFlatFileAuditEntry e with
  | .error err => .error err
  | .ok () => if e.source = "" then .error .sourceRequired else .ok ()

def withDefaults (e : AuditEntry D) (now : ℤ) : AuditEntry D :=
  { e with
    id := if e.id = "" then P.generateAuditID e else e.id
    timestamp := e.timestampOr now
    severity := if e.severity = "" then "low" else e.severity
    userType := if e.userType = "" then "human" else e.userType
    version := if e.version = "" then "1.0" else e.version }

/-- The row of the tenant's head, seeded from its entries where there is none. -/
def head (s : DatabaseStore D) (tenantID : String) : ChainHead :=
  (s.chainHeads tenantID).getD (chainHead (s.rows.filter fun r => r.tenantID = tenantID))

def appendChainedEntry (s : DatabaseStore D) (now : ℤ) (tenantID : String) (entry : AuditEntry D) :
    DatabaseStore D × Except AuditError (AuditEntry D) :=
  match validateAuditEntry { entry with tenantID } with
  | .error err => (s, .error err)
  | .ok () =>
    let e := (P.withDefaults { entry with tenantID } now).chained tenantID (head s tenantID)
      P.computeChecksum
    if ¬ P.storable e then (s, .error .marshalFailed)
    else if s.rows.any fun r => r.id = e.id then (s, .error .storeFailed)
    else
      ({ rows := s.rows ++ [e]
         chainHeads := update s.chainHeads tenantID (some e.head) }, .ok e)

/-- A purge deletes entries by their timestamp and leaves the heads alone. -/
def store : AuditStore (DatabaseStore D) D where
  appendChainedEntry := P.appendChainedEntry
  archiveAuditEntries s _ := s
  purgeAuditEntries s beforeDate :=
    { s with rows := s.rows.filter fun r => ¬ r.timestamp < beforeDate }
  restart s := s

end DatabaseConfig

def DatabaseStore.empty : DatabaseStore D := ⟨[], fun _ => none⟩

end Cfgms.Audit
