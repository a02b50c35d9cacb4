import Cfgms.Audit.Entry
import Cfgms.Machine.Runs
import Cfgms.Text.Decimal

/-! # The write-once audit sink

The sink appends to a local audit store and ships every committed entry to a blob store, under a
key that only one put can win. A marker is put before the append and removed once the entry is
shipped; a loop goes through the markers that are left. A put wins its key with a metadata sidecar
and stores the blob after that. All steps interleave, and a crash loses the memory.
-/

namespace Cfgms.Audit

open Text Function

variable {D : Type*}

structure BlobKey where
  tenantID : String
  space : String
  name : String
  deriving DecidableEq

def wormKey (tenantID : String) (sequenceNumber : ℕ) : BlobKey :=
  ⟨tenantID, "audit-chain", padded 20 sequenceNumber⟩

def markerKey (tenantID entryID : String) : BlobKey :=
  ⟨tenantID, "audit-chain-pending", entryID⟩

theorem wormKey_inj {t t' : String} {n n' : ℕ} (h : wormKey t n = wormKey t' n') :
    t = t' ∧ n = n' := by
  obtain ⟨ht, -, hn⟩ := BlobKey.mk.inj h
  exact ⟨ht, padded_injective 20 hn⟩

theorem markerKey_inj {t t' id id' : String} (h : markerKey t id = markerKey t' id') :
    t = t' ∧ id = id' := by
  obtain ⟨ht, -, hid⟩ := BlobKey.mk.inj h
  exact ⟨ht, hid⟩

/-- The objects of a blob store: the metadata sidecars and the blobs themselves. -/
structure BlobStore (D : Type*) where
  sidecars : Finset BlobKey
  blobs : BlobKey → Option (AuditEntry D)

/-- The steps of a shipment: those of `PutBlobIfAbsent`, and what becomes of the marker. -/
inductive PutPoint where
  | create
  | upload
  | cleanUp
  | settle (shipped : Bool)
  deriving DecidableEq

/-- How a step ends. A request that failed may have taken effect all the same. -/
inductive PutOutcome where
  | unmarshalable
  | answered
  | failed (applied : Bool)

namespace BlobStore

def empty : BlobStore D := ⟨∅, fun _ => none⟩

/-- `GetBlob` finds a blob by its sidecar. -/
def getBlob (w : BlobStore D) (key : BlobKey) : Option (AuditEntry D) :=
  if key ∈ w.sidecars then w.blobs key else none

def createSidecar (w : BlobStore D) (key : BlobKey) : BlobStore D :=
  { w with sidecars := insert key w.sidecars }

def uploadBlob (w : BlobStore D) (key : BlobKey) (e : AuditEntry D) : BlobStore D :=
  { w with blobs := update w.blobs key (some e) }

def removeSidecar (w : BlobStore D) (key : BlobKey) : BlobStore D :=
  { w with sidecars := w.sidecars.erase key }

/-- A sidecar that is there already means `ErrBlobAlreadyExists`, which `ship` takes for success,
whether or not there is a blob with it. -/
def put (w : BlobStore D) (key : BlobKey) (e : AuditEntry D) :
    PutPoint → PutOutcome → Option (BlobStore D × PutPoint)
  | .create, .unmarshalable => some (w, .settle false)
  | .create, .answered =>
      if key ∈ w.sidecars then some (w, .settle true) else some (w.createSidecar key, .upload)
  | .create, .failed applied => some (if applied then w.createSidecar key else w, .settle false)
  | .upload, .answered => some (w.uploadBlob key e, .settle true)
  | .upload, .failed applied => some (if applied then w.uploadBlob key e else w, .cleanUp)
  | .cleanUp, .answered => some (w.removeSidecar key, .settle false)
  | .cleanUp, .failed applied => some (if applied then w.removeSidecar key else w, .settle false)
  | _, _ => none

theorem put_blobs {w w' : BlobStore D} {key : BlobKey} {e : AuditEntry D} {p p' : PutPoint}
    {o : PutOutcome} (h : w.put key e p o = some (w', p')) (k : BlobKey) :
    w'.blobs k = w.blobs k ∨ k = key ∧ w'.blobs k = some e := by
  have hupload : (w.uploadBlob key e).blobs k = w.blobs k ∨
      k = key ∧ (w.uploadBlob key e).blobs k = some e := by
    by_cases hk : k = key <;> simp [uploadBlob, hk]
  revert h
  fun_cases put w key e p o <;> rintro ⟨⟩
  case case5 => exact hupload
  case case6 applied => cases applied with
    | false => exact .inl rfl
    | true => exact hupload
  all_goals first | exact .inl rfl | exact .inl (by split <;> rfl)

end BlobStore

/-- The checksum of the manager, and the base64 names of the tenant registry. -/
structure SinkConfig (D : Type*) where
  computeChecksum : AuditEntry D → String
  encodeTenantRegistryName : String → String
  decodeTenantRegistryName : String → String
  decode_encode : ∀ tenantID,
    decodeTenantRegistryName (encodeTenantRegistryName tenantID) = tenantID

/-- Where a call of `AppendChainedEntry` stands: the name of its next step. -/
inductive AppendPoint (D : Type*) where
  | enter
  | lookUpTenant
  | register
  | remember
  | mark
  | append
  | ship (e : AuditEntry D) (p : PutPoint)
  | leave (ok : Bool)

structure AppendCall (D : Type*) where
  entry : AuditEntry D
  attempt : ℕ
  point : AppendPoint D

/-- The rest of a pass: the markers still to visit and the tenants after them. -/
structure Scan where
  tenantID : String
  ids : List String
  tenants : List String

inductive ReconcilePoint (D : Type*) where
  | idle
  | tenants (rest : List String)
  | markers (scan : Scan)
  | read (id : String) (scan : Scan)
  | discard (id : String) (scan : Scan)
  | ship (e : AuditEntry D) (p : PutPoint) (scan : Scan)

/-- What survives a crash: the local store, the blob store and the marker store. -/
structure Disk (D : Type*) where
  log : List (AuditEntry D)
  worm : BlobStore D
  markerStore : Finset BlobKey
  /-- The tenant of every entry ID that was ever generated. -/
  issued : String → Option String

structure Sink (D : Type*) extends Disk D where
  inFlight : Finset String
  knownTenants : Finset String
  calls : String → Option (AppendCall D)
  reconciler : ReconcilePoint D

inductive SinkAction (D : Type*) where
  | record (e : AuditEntry D)
  | call (id : String)
  | append (id : String) (commits : Bool)
  | ship (id : String) (outcome : PutOutcome)
  | tick (names : List String)
  | list (ids : List String)
  | check
  | read (answered : Bool)
  | discard
  | reship (outcome : PutOutcome)
  | settle
  | crash

def maxAppendAttempts : ℕ := 3

/-- Another attempt with the same entry, unless the append succeeded or the attempts are spent. -/
def AppendCall.retry (c : AppendCall D) (ok : Bool) : Option (AppendCall D) :=
  if ok ∨ c.attempt + 1 = maxAppendAttempts then none
  else some { c with attempt := c.attempt + 1, point := .enter }

def getAuditEntry (log : List (AuditEntry D)) (id : String) : Option (AuditEntry D) :=
  log.find? fun e => e.id = id

namespace Disk

def putMarker (d : Disk D) (tenantID entryID : String) : Disk D :=
  { d with markerStore := insert (markerKey tenantID entryID) d.markerStore }

def deleteMarker (d : Disk D) (tenantID entryID : String) : Disk D :=
  { d with markerStore := d.markerStore.erase (markerKey tenantID entryID) }

/-- The next step of the shipment of an entry, with its key. -/
def put (d : Disk D) (tenantID : String) (e : AuditEntry D) (p : PutPoint) (o : PutOutcome) :
    Option (Disk D × PutPoint) :=
  (d.worm.put (wormKey tenantID e.sequenceNumber) e p o).map fun (w, p') =>
    ({ d with worm := w }, p')

def settle (d : Disk D) (tenantID : String) (e : AuditEntry D) (shipped : Bool) : Disk D :=
  if shipped then d.deleteMarker tenantID e.id else d.putMarker tenantID e.id

def issue (d : Disk D) (e : AuditEntry D) : Disk D :=
  { d with issued := update d.issued e.id (some e.tenantID) }

end Disk

namespace Sink

def empty : Sink D where
  log := []
  worm := .empty
  markerStore := ∅
  issued _ := none
  inFlight := ∅
  knownTenants := ∅
  calls _ := none
  reconciler := .idle

def proceed (s : Sink D) (id : String) (c : AppendCall D) (p : AppendPoint D) : Sink D :=
  { s with calls := update s.calls id (some { c with point := p }) }

/-- The manager hands over a new entry, under an ID that was never used before. -/
def record (s : Sink D) (e : AuditEntry D) : Option (Sink D) :=
  if s.issued e.id = none then
    some { s with
      toDisk := s.issue e
      calls := update s.calls e.id (some ⟨e, 0, .enter⟩) }
  else none

end Sink

namespace SinkConfig

variable (K : SinkConfig D)

def registryKey (tenantID : String) : BlobKey :=
  ⟨"_audit_worm_tenant_registry", "audit-chain-pending-tenants",
    K.encodeTenantRegistryName tenantID⟩

def registerTenant (d : Disk D) (tenantID : String) : Disk D :=
  { d with markerStore := insert (K.registryKey tenantID) d.markerStore }

/-- The steps of a call that do not depend on the local store or the blob store. -/
def call (s : Sink D) (id : String) (c : AppendCall D) : Option (Sink D) :=
  match c.point with
  | .enter => some ({ s with inFlight := insert id s.inFlight }.proceed id c .lookUpTenant)
  | .lookUpTenant =>
      some (s.proceed id c (if c.entry.tenantID ∈ s.knownTenants then .mark else .register))
  | .register =>
      some ({ s with toDisk := K.registerTenant s.toDisk c.entry.tenantID }.proceed id c .remember)
  | .remember =>
      some ({ s with knownTenants := insert c.entry.tenantID s.knownTenants }.proceed id c .mark)
  | .mark =>
      some ({ s with toDisk := s.putMarker c.entry.tenantID id }.proceed id c .append)
  | .ship e (.settle shipped) =>
      some ({ s with toDisk := s.settle c.entry.tenantID e shipped }.proceed id c (.leave true))
  | .leave ok =>
      some { s with
        inFlight := s.inFlight.erase id
        calls := update s.calls id (c.retry ok) }
  | .append | .ship _ _ => none

/-- The local append commits the next number of the tenant, or fails and commits nothing. -/
def append (s : Sink D) (id : String) (c : AppendCall D) (commits : Bool) : Option (Sink D) :=
  match c.point with
  | .append =>
    if commits then
      let e := c.entry.chained c.entry.tenantID
        (chainHead (s.log.filter fun e => e.tenantID = c.entry.tenantID)) K.computeChecksum
      some ({ s with log := s.log ++ [e] }.proceed id c (.ship e .create))
    else some (s.proceed id c (.leave false))
  | _ => none

/-- The tenants that the reconciler finds in the registry, listed in some order. -/
def tick (s : Sink D) (names : List String) : Option (Sink D) :=
  match s.reconciler with
  | .idle =>
    if names.Nodup ∧ names.toFinset = (s.markerStore.filter fun k =>
        k.tenantID = "_audit_worm_tenant_registry" ∧
          k.space = "audit-chain-pending-tenants").image BlobKey.name then
      some { s with reconciler := .tenants (names.map K.decodeTenantRegistryName) }
    else none
  | _ => none

/-- The pending markers of the next tenant, listed in some order. -/
def list (s : Sink D) (ids : List String) : Option (Sink D) :=
  match s.reconciler with
  | .tenants [] => if ids = [] then some { s with reconciler := .idle } else none
  | .tenants (t :: rest) =>
    if ids.Nodup ∧ ids.toFinset = (s.markerStore.filter fun k =>
        k.tenantID = t ∧ k.space = "audit-chain-pending").image BlobKey.name then
      some { s with reconciler := .markers ⟨t, ids, rest⟩ }
    else none
  | _ => none

/-- The next marker is skipped while its entry is in flight. -/
def check (s : Sink D) : Option (Sink D) :=
  match s.reconciler with
  | .markers ⟨_, [], rest⟩ => some { s with reconciler := .tenants rest }
  | .markers ⟨t, id :: ids, rest⟩ =>
      some { s with
        reconciler := if id ∈ s.inFlight then .markers ⟨t, ids, rest⟩
          else .read id ⟨t, ids, rest⟩ }
  | _ => none

/-- `GetAuditEntry` on the local store; a read that fails leaves the marker in place. -/
def read (s : Sink D) (answered : Bool) : Option (Sink D) :=
  match s.reconciler with
  | .read id scan =>
      some { s with
        reconciler := if answered then
            (getAuditEntry s.log id).elim (.discard id scan) fun e => .ship e .create scan
          else .markers scan }
  | _ => none

def step (s : Sink D) : SinkAction D → Option (Sink D)
  | .record e => s.record e
  | .call id => (s.calls id).bind (K.call s id)
  | .append id commits => (s.calls id).bind fun c => K.append s id c commits
  | .ship id outcome => (s.calls id).bind fun c =>
      match c.point with
      | .ship e p => (s.put c.entry.tenantID e p outcome).map fun (d, p') =>
          { s with toDisk := d }.proceed id c (.ship e p')
      | _ => none
  | .tick names => K.tick s names
  | .list ids => list s ids
  | .check => check s
  | .read answered => read s answered
  | .discard =>
      match s.reconciler with
      | .discard id scan =>
          some { s with
            toDisk := s.deleteMarker scan.tenantID id
            reconciler := .markers scan }
      | _ => none
  | .reship outcome =>
      match s.reconciler with
      | .ship e p scan => (s.put scan.tenantID e p outcome).map fun (d, p') =>
          { s with toDisk := d, reconciler := .ship e p' scan }
      | _ => none
  | .settle =>
      match s.reconciler with
      | .ship e (.settle shipped) scan =>
          some { s with
            toDisk := s.settle scan.tenantID e shipped
            reconciler := .markers scan }
      | _ => none
  | .crash =>
      some { s with
        inFlight := ∅
        knownTenants := ∅
        calls := fun _ => none
        reconciler := .idle }

def machine : Machine (Sink D) (SinkAction D) := ⟨K.step⟩

end SinkConfig

end Cfgms.Audit
