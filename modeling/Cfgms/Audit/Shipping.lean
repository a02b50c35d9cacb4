import Cfgms.Audit.Sink

/-! # No committed entry is dropped

A committed entry is in the blob store or has a marker. The marker of an entry that was
never committed may go; the reconciler deletes it on the strength of an earlier look at
the in-flight set and the local store, which a retry of the append can overtake. The marker of an
entry that is shipped goes too; a put takes a sidecar for the sign of that, and an outage or a crash
can leave a sidecar without its blob.
-/

namespace Cfgms.Audit

variable {D : Type*}

namespace Disk

abbrev blobKey (e : AuditEntry D) : BlobKey := wormKey e.tenantID e.sequenceNumber

def Shipped (d : Disk D) (e : AuditEntry D) : Prop := d.worm.getBlob (blobKey e) = some e

def Pending (d : Disk D) (e : AuditEntry D) : Prop := markerKey e.tenantID e.id ∈ d.markerStore

def Uncommitted (d : Disk D) (id : String) : Prop := ∀ e ∈ d.log, e.id ≠ id

structure Sound (d : Disk D) : Prop where
  owner : ∀ e ∈ d.log, d.issued e.id = some e.tenantID
  unique : ∀ e ∈ d.log, ∀ e' ∈ d.log, e.id = e'.id → e = e'
  numbered : ∀ e ∈ d.log, ∀ e' ∈ d.log,
    e.tenantID = e'.tenantID → e.sequenceNumber = e'.sequenceNumber → e = e'
  blobs : ∀ k e, d.worm.blobs k = some e → e ∈ d.log ∧ k = blobKey e
  markers : ∀ t id, markerKey t id ∈ d.markerStore → d.issued id = some t
  kept : ∀ e ∈ d.log, d.Shipped e ∨ d.Pending e

/-- Nothing that was issued, committed or shipped is lost. -/
structure Grows (d d' : Disk D) : Prop where
  issued : ∀ id t, d.issued id = some t → d'.issued id = some t
  log : ∀ e ∈ d.log, e ∈ d'.log
  shipped : ∀ e, d.Shipped e → d'.Shipped e

variable {d : Disk D} {e : AuditEntry D} {t id : String}

theorem Grows.refl (d : Disk D) : Grows d d := ⟨fun _ _ h => h, fun _ h => h, fun _ h => h⟩

theorem uncommitted_of_getAuditEntry (h : getAuditEntry d.log id = none) : d.Uncommitted id := by
  intro e he hid
  simpa [hid] using List.find?_eq_none.mp h e he

theorem Sound.uncommitted_of_issued (h : d.Sound) (hid : d.issued id = none) :
    d.Uncommitted id := by
  rintro e he rfl
  rw [h.owner e he] at hid
  cases hid

theorem grows_issue (hid : d.issued e.id = none) : Grows d (d.issue e) where
  issued id t ht := by
    have hne : id ≠ e.id := by rintro rfl; rw [hid] at ht; cases ht
    simpa [Disk.issue, hne] using ht
  log _ hb := hb
  shipped _ hb := hb

theorem Sound.issue (h : d.Sound) (hid : d.issued e.id = none) : (d.issue e).Sound :=
  { h with
    owner b hb := (grows_issue hid).issued _ _ (h.owner b hb)
    markers t id hm := (grows_issue hid).issued _ _ (h.markers t id hm) }

variable {k : BlobKey}

theorem mem_putMarker :
    k ∈ (d.putMarker t id).markerStore ↔ k = markerKey t id ∨ k ∈ d.markerStore :=
  Finset.mem_insert

theorem mem_deleteMarker :
    k ∈ (d.deleteMarker t id).markerStore ↔ k ≠ markerKey t id ∧ k ∈ d.markerStore :=
  Finset.mem_erase

theorem grows_putMarker : Grows d (d.putMarker t id) :=
  ⟨fun _ _ h => h, fun _ h => h, fun _ h => h⟩

theorem grows_deleteMarker : Grows d (d.deleteMarker t id) :=
  ⟨fun _ _ h => h, fun _ h => h, fun _ h => h⟩

theorem Sound.putMarker (h : d.Sound) (ht : d.issued id = some t) : (d.putMarker t id).Sound :=
  { h with
    markers t' id' hm := by
      rcases mem_putMarker.mp hm with hk | hm
      · obtain ⟨rfl, rfl⟩ := markerKey_inj hk
        exact ht
      · exact h.markers t' id' hm
    kept b hb := (h.kept b hb).imp_right fun hp => mem_putMarker.mpr (.inr hp) }

theorem Sound.deleteMarker (h : d.Sound)
    (hkept : ∀ b ∈ d.log, b.id = id → d.Shipped b) : (d.deleteMarker t id).Sound :=
  { h with
    markers t' id' hm := h.markers t' id' (mem_deleteMarker.mp hm).2
    kept b hb := by
      by_cases hid : b.id = id
      · exact .inl (hkept b hb hid)
      apply (h.kept b hb).imp_right
      intro hp
      exact mem_deleteMarker.mpr ⟨fun hk => hid (markerKey_inj hk).2, hp⟩ }

section Registry

variable (K : SinkConfig D)

theorem markerKey_ne_registryKey (t id t' : String) : markerKey t id ≠ K.registryKey t' := by
  intro h
  have hspace : "audit-chain-pending" = "audit-chain-pending-tenants" := congrArg BlobKey.space h
  exact absurd hspace (by decide)

theorem mem_registerTenant {t' : String} :
    markerKey t id ∈ (K.registerTenant d t').markerStore ↔ markerKey t id ∈ d.markerStore := by
  simp [SinkConfig.registerTenant, markerKey_ne_registryKey]

theorem grows_registerTenant : Grows d (K.registerTenant d t) :=
  ⟨fun _ _ h => h, fun _ h => h, fun _ h => h⟩

theorem Sound.registerTenant (h : d.Sound) : (K.registerTenant d t).Sound :=
  { h with
    markers t' id' hm := h.markers t' id' ((mem_registerTenant K).mp hm)
    kept b hb := (h.kept b hb).imp_right (mem_registerTenant K).mpr }

end Registry

variable {b : AuditEntry D}

theorem shipped_iff :
    d.Shipped e ↔ blobKey e ∈ d.worm.sidecars ∧ d.worm.blobs (blobKey e) = some e := by
  simp [Shipped, BlobStore.getBlob]

/-- What is stored under the key of a committed entry is that entry. -/
theorem Sound.blob_eq (h : d.Sound) (he : e ∈ d.log) (hb : d.worm.blobs (blobKey e) = some b) :
    b = e := by
  obtain ⟨hmem, hk⟩ := h.blobs _ b hb
  obtain ⟨ht, hn⟩ := wormKey_inj hk
  exact (h.numbered e he b hmem ht hn).symm

theorem grows_append : Grows d { d with log := d.log ++ [e] } where
  issued _ _ h := h
  log _ h := List.mem_append_left _ h
  shipped _ h := h

theorem Sound.append (h : d.Sound) (ht : d.issued e.id = some e.tenantID)
    (hid : d.Uncommitted e.id) (hmark : d.Pending e)
    (hseq : ∀ b ∈ d.log, b.tenantID = e.tenantID → b.sequenceNumber < e.sequenceNumber) :
    Sound { d with log := d.log ++ [e] } where
  owner := List.forall_mem_append.mpr ⟨h.owner, List.forall_mem_singleton.mpr ht⟩
  unique b hb b' hb' hbb := by
    rw [List.mem_append, List.mem_singleton] at hb hb'
    obtain hb | rfl := hb <;> obtain hb' | rfl := hb'
    · exact h.unique b hb b' hb' hbb
    · exact absurd hbb (hid b hb)
    · exact absurd hbb.symm (hid b' hb')
    · rfl
  numbered b hb b' hb' htt hnn := by
    rw [List.mem_append, List.mem_singleton] at hb hb'
    obtain hb | rfl := hb <;> obtain hb' | rfl := hb'
    · exact h.numbered b hb b' hb' htt hnn
    · exact absurd hnn (hseq b hb htt).ne
    · exact absurd hnn.symm (hseq b' hb' htt.symm).ne
    · rfl
  blobs k b hk := (h.blobs k b hk).imp_left (List.mem_append_left _)
  markers := h.markers
  kept := List.forall_mem_append.mpr ⟨h.kept, List.forall_mem_singleton.mpr (.inr hmark)⟩

/-- What a call relies on while its entry `id` is not committed. -/
structure Keeps (d d' : Disk D) (id : String) : Prop where
  uncommitted : d.Uncommitted id → d'.Uncommitted id
  marker : d.Uncommitted id → ∀ t, markerKey t id ∈ d.markerStore → markerKey t id ∈ d'.markerStore

theorem Keeps.refl (d : Disk D) (id : String) : Keeps d d id := ⟨fun h => h, fun _ _ h => h⟩

theorem keeps_append {id : String} (hid : id ≠ e.id) :
    Keeps d { d with log := d.log ++ [e] } id where
  uncommitted h := List.forall_mem_append.mpr ⟨h, List.forall_mem_singleton.mpr hid.symm⟩
  marker _ _ h := h

theorem keeps_putMarker (id' : String) : Keeps d (d.putMarker t id) id' where
  uncommitted h := h
  marker _ _ h := mem_putMarker.mpr (.inr h)

theorem keeps_deleteMarker {id' : String} (hid : d.Uncommitted id' → id' ≠ id) :
    Keeps d (d.deleteMarker t id) id' where
  uncommitted h := h
  marker hun _ h := mem_deleteMarker.mpr ⟨fun hk => hid hun (markerKey_inj hk).2, h⟩

/-- A step that leaves the disk sound and takes nothing away. -/
structure Moves (d d' : Disk D) : Prop where
  sound : d'.Sound
  grows : Grows d d'
  keeps : ∀ id, Keeps d d' id

theorem Sound.moves_worm (h : d.Sound) (he : e ∈ d.log) {w : BlobStore D}
    (hblobs : ∀ k, w.blobs k = d.worm.blobs k ∨ k = blobKey e ∧ w.blobs k = some e)
    (hside : ∀ b, d.Shipped b → blobKey b ∈ w.sidecars) : Moves d { d with worm := w } := by
  have hstored : ∀ k b, w.blobs k = some b → b ∈ d.log ∧ k = blobKey b := by
    intro k b hb
    obtain hw | ⟨hk, hw⟩ := hblobs k
    · exact h.blobs k b (hw ▸ hb)
    · obtain rfl : e = b := Option.some.inj (hw.symm.trans hb)
      exact ⟨he, hk⟩
  have hshipped : ∀ b, d.Shipped b → Shipped { d with worm := w } b := by
    intro b hb
    refine shipped_iff.mpr ⟨hside b hb, ?_⟩
    have hb := (shipped_iff.mp hb).2
    obtain hw | ⟨hk, hw⟩ := hblobs (blobKey b)
    · exact hw.trans hb
    · obtain rfl : b = e := h.blob_eq he (hk ▸ hb)
      exact hw
  exact ⟨{ h with
      blobs := hstored
      kept := fun b hb => (h.kept b hb).imp_left (hshipped b) },
    ⟨fun _ _ h => h, fun _ h => h, hshipped⟩, fun _ => ⟨fun hu => hu, fun _ _ hm => hm⟩⟩

end Disk

/-- The put created the sidecar of its key and has not followed it up yet. -/
def PutPoint.owns : PutPoint → Bool
  | .upload | .cleanUp => true
  | _ => false

theorem BlobStore.put_sidecars {w w' : BlobStore D} {key : BlobKey} {e : AuditEntry D}
    {p p' : PutPoint} {o : PutOutcome} (hput : w.put key e p o = some (w', p'))
    (howns : p.owns = true → key ∈ w.sidecars) :
    (p'.owns = true → key ∈ w'.sidecars ∧ (p.owns = true ∨ key ∉ w.sidecars)) ∧
      ∀ k ∈ w.sidecars, k ∈ w'.sidecars ∨ k = key ∧ p = .cleanUp ∧ o ≠ .failed false := by
  revert hput
  fun_cases put w key e p o <;> rintro ⟨⟩
  all_goals simp_all [PutPoint.owns, createSidecar, uploadBlob, removeSidecar]
  all_goals grind

/-- A put takes its entry for shipped where it finds the sidecar or has stored the blob. -/
theorem BlobStore.put_settle {w w' : BlobStore D} {key : BlobKey} {e : AuditEntry D}
    {p : PutPoint} {o : PutOutcome} (hput : w.put key e p o = some (w', .settle true)) :
    (p = .create ∧ o = .answered ∧ key ∈ w.sidecars ∧ w' = w) ∨
      p = .upload ∧ w' = w.uploadBlob key e := by
  revert hput
  fun_cases put w key e p o <;> rintro ⟨⟩
  case case2 hkey => exact .inl ⟨rfl, rfl, hkey, rfl⟩
  case case5 => exact .inr ⟨rfl, rfl⟩

def AppendCall.owned (c : AppendCall D) : Option BlobKey :=
  match c.point with
  | .ship e p => if p.owns then some (wormKey c.entry.tenantID e.sequenceNumber) else none
  | _ => none

def ReconcilePoint.owned : ReconcilePoint D → Option BlobKey
  | .ship e p scan => if p.owns then some (wormKey scan.tenantID e.sequenceNumber) else none
  | _ => none

/-- No half-written key: where a put finds the sidecar of its key the blob is there, and where it
takes its own sidecar back there is none. -/
def BlobStore.Whole (w : BlobStore D) (key : BlobKey) : PutPoint → PutOutcome → Prop
  | .create, .answered => key ∈ w.sidecars → (w.blobs key).isSome
  | .cleanUp, .failed false => True
  | .cleanUp, _ => (w.blobs key).isNone
  | _, _ => True

instance (w : BlobStore D) (key : BlobKey) (p : PutPoint) (o : PutOutcome) :
    Decidable (w.Whole key p o) := by
  unfold BlobStore.Whole
  split <;> infer_instance

namespace Disk

variable {d d' : Disk D} {e : AuditEntry D} {p p' : PutPoint} {o : PutOutcome}

/-- A step of the shipment of a committed entry. Only an entry in the blob store counts as
shipped. -/
theorem Sound.put (h : d.Sound) (he : e ∈ d.log)
    (howns : p.owns = true → blobKey e ∈ d.worm.sidecars) (hwhole : d.worm.Whole (blobKey e) p o)
    (hput : d.put e.tenantID e p o = some (d', p')) :
    Moves d d' ∧ (p' = .settle true → d'.Shipped e) := by
  obtain ⟨⟨w, _⟩, hw, ⟨⟩⟩ := Option.map_eq_some_iff.mp hput
  constructor
  · refine h.moves_worm he (BlobStore.put_blobs hw) fun b hb => ?_
    obtain ⟨hmem, hblob⟩ := shipped_iff.mp hb
    refine ((BlobStore.put_sidecars hw howns).2 _ hmem).resolve_right ?_
    rintro ⟨hk, rfl, ho⟩
    have hnone : (d.worm.blobs (blobKey b)).isNone := by
      rw [hk]
      rcases o with _ | _ | (_ | _)
      all_goals first | exact hwhole | exact absurd rfl ho
    rw [hblob] at hnone
    cases hnone
  · rintro rfl
    rcases BlobStore.put_settle hw with ⟨rfl, rfl, hkey, rfl⟩ | ⟨rfl, rfl⟩
    · obtain ⟨b, hb⟩ := Option.isSome_iff_exists.mp (hwhole hkey)
      exact shipped_iff.mpr ⟨hkey, h.blob_eq he hb ▸ hb⟩
    · exact shipped_iff.mpr ⟨howns rfl, by simp [BlobStore.uploadBlob]⟩

theorem worm_settle (d : Disk D) (t : String) (e : AuditEntry D) (shipped : Bool) :
    (d.settle t e shipped).worm = d.worm := by
  cases shipped <;> rfl

theorem Sound.settle (h : d.Sound) (he : e ∈ d.log) {shipped : Bool}
    (hs : shipped = true → d.Shipped e) :
    Moves d (d.settle e.tenantID e shipped) := by
  cases shipped with
  | false => exact ⟨h.putMarker (h.owner e he), grows_putMarker, keeps_putMarker⟩
  | true =>
    have hgone : ∀ b ∈ d.log, b.id = e.id → d.Shipped b := by
      intro b hb hid
      obtain rfl := h.unique b hb e he hid
      exact hs rfl
    exact ⟨h.deleteMarker hgone, grows_deleteMarker,
      fun id => keeps_deleteMarker fun hun hid => hun e he hid.symm⟩

end Disk

open Disk List Function Option

/-- What is known of an entry while its call is at a point. -/
def AppendPoint.Holds (d : Disk D) (inFlight : Finset String) (id t : String) :
    AppendPoint D → Prop
  | .enter => d.Uncommitted id
  | .lookUpTenant | .register | .remember | .mark => id ∈ inFlight ∧ d.Uncommitted id
  | .append => id ∈ inFlight ∧ d.Uncommitted id ∧ markerKey t id ∈ d.markerStore
  | .ship e p => (e ∈ d.log ∧ e.id = id ∧ e.tenantID = t) ∧ (p = .settle true → d.Shipped e)
  | .leave ok => ok = false → d.Uncommitted id

def Scan.Holds (d : Disk D) (scan : Scan) : Prop :=
  ∀ id ∈ scan.ids, d.issued id = some scan.tenantID

def ReconcilePoint.Holds (d : Disk D) : ReconcilePoint D → Prop
  | .idle | .tenants _ => True
  | .markers scan => scan.Holds d
  | .read id scan | .discard id scan => d.issued id = some scan.tenantID ∧ scan.Holds d
  | .ship e p scan =>
      (e ∈ d.log ∧ e.tenantID = scan.tenantID) ∧ (p = .settle true → d.Shipped e) ∧ scan.Holds d

variable {p : AppendPoint D} {d : Disk D}

theorem AppendPoint.Holds.mono {d' : Disk D} {F F' : Finset String} {id t : String}
    (h : p.Holds d F id t) (hg : Grows d d') (hin : id ∈ F → id ∈ F')
    (hun : d.Uncommitted id → d'.Uncommitted id)
    (hmark : id ∈ F → d.Uncommitted id → markerKey t id ∈ d.markerStore →
      markerKey t id ∈ d'.markerStore) : p.Holds d' F' id t := by
  cases p with
  | enter => exact hun h
  | lookUpTenant | register | remember | mark => exact ⟨hin h.1, hun h.2⟩
  | append => exact ⟨hin h.1, hun h.2.1, hmark h.1 h.2.1 h.2.2⟩
  | ship e p => exact ⟨⟨hg.log e h.1.1, h.1.2⟩, fun hs => hg.shipped e (h.2 hs)⟩
  | leave ok => exact fun hok => hun (h hok)

variable {scan : Scan}

theorem Scan.Holds.mono {d' : Disk D} (h : scan.Holds d) (hg : Grows d d') :
    scan.Holds d' :=
  fun id hid => hg.issued id _ (h id hid)

theorem ReconcilePoint.Holds.mono {d' : Disk D} {p : ReconcilePoint D} (h : p.Holds d)
    (hg : Grows d d') : p.Holds d' := by
  cases p with
  | idle | tenants => trivial
  | markers scan => exact Scan.Holds.mono h hg
  | read id scan | discard id scan => exact ⟨hg.issued id _ h.1, h.2.mono hg⟩
  | ship e p scan =>
    exact ⟨⟨hg.log e h.1.1, h.1.2⟩, fun hs => hg.shipped e (h.2.1 hs), h.2.2.mono hg⟩

structure AppendCall.Holds (s : Sink D) (id : String) (c : AppendCall D) : Prop where
  entry : c.entry.id = id
  owner : s.issued id = some c.entry.tenantID
  point : c.point.Holds s.toDisk s.inFlight id c.entry.tenantID

namespace Sink

structure Inv (s : Sink D) : Prop where
  sound : s.toDisk.Sound
  calls : ∀ id c, s.calls id = some c → c.Holds s id
  reconciler : s.reconciler.Holds s.toDisk

variable {s s' : Sink D}

theorem inv_empty : (empty : Sink D).Inv where
  sound := by constructor <;> simp [empty, BlobStore.empty]
  calls _ _ h := by cases h
  reconciler := trivial

theorem Inv.ofCall (h : s.Inv) (id : String) (hsound : s'.toDisk.Sound)
    (hgrows : Grows s.toDisk s'.toDisk) (hkeeps : ∀ id' ≠ id, Keeps s.toDisk s'.toDisk id')
    (hin : ∀ id' ≠ id, id' ∈ s.inFlight → id' ∈ s'.inFlight)
    (hothers : ∀ id' ≠ id, s'.calls id' = s.calls id') (hrec : s'.reconciler = s.reconciler)
    (hcall : ∀ c, s'.calls id = some c → c.Holds s' id) : s'.Inv where
  sound := hsound
  calls id' c hc := by
    by_cases hid : id' = id
    · subst hid
      exact hcall c hc
    rw [hothers id' hid] at hc
    obtain ⟨hentry, howner, hpoint⟩ := h.calls id' c hc
    exact ⟨hentry, hgrows.issued _ _ howner, hpoint.mono hgrows (hin id' hid)
      (hkeeps id' hid).uncommitted fun _ hun => (hkeeps id' hid).marker hun _⟩
  reconciler := by
    rw [hrec]
    exact h.reconciler.mono hgrows

theorem Inv.ofReconciler (h : s.Inv) (hsound : s'.toDisk.Sound)
    (hgrows : Grows s.toDisk s'.toDisk)
    (hkeeps : ∀ id, id ∉ s.inFlight ∧ s'.log = s.log ∨ Keeps s.toDisk s'.toDisk id)
    (hin : s'.inFlight = s.inFlight) (hcalls : s'.calls = s.calls)
    (hrec : s'.reconciler.Holds s'.toDisk) : s'.Inv where
  sound := hsound
  calls id c hc := by
    rw [hcalls] at hc
    obtain ⟨hentry, howner, hpoint⟩ := h.calls id c hc
    refine ⟨hentry, hgrows.issued _ _ howner, hpoint.mono hgrows (by simp [hin]) ?_ ?_⟩
    · rcases hkeeps id with ⟨-, hlog⟩ | hk
      · exact fun hun e he => hun e (hlog ▸ he)
      · exact hk.uncommitted
    · intro hfl hun
      rcases hkeeps id with ⟨hnot, -⟩ | hk
      · exact absurd hfl hnot
      · exact hk.marker hun _
  reconciler := hrec

variable {e : AuditEntry D}

theorem Inv.record (h : s.Inv) (hs : s.record e = some s') : s'.Inv := by
  rw [Sink.record] at hs
  split at hs <;> cases hs
  next hfresh =>
  refine h.ofCall e.id (h.sound.issue hfresh) (grows_issue hfresh)
    (fun _ _ => ⟨fun hun => hun, fun _ _ hm => hm⟩) (fun _ _ hid => hid)
    (fun id' hid => update_of_ne hid _ _) rfl ?_
  intro c hc
  obtain rfl : _ = c := by simpa using hc
  exact ⟨rfl, by simp [Disk.issue], h.sound.uncommitted_of_issued hfresh⟩

variable {K : SinkConfig D} {id : String} {c : AppendCall D}

theorem Inv.proceed (h : s.Inv) (hc : s.calls id = some c) {F T : Finset String}
    (hsound : d.Sound) (hgrows : Grows s.toDisk d)
    (hkeeps : ∀ id' ≠ id, Keeps s.toDisk d id') (hin : s.inFlight ⊆ F)
    (hp : p.Holds d F id c.entry.tenantID) :
    ({ s with toDisk := d, inFlight := F, knownTenants := T }.proceed id c p).Inv := by
  obtain ⟨hentry, howner, -⟩ := h.calls id c hc
  refine h.ofCall id hsound hgrows hkeeps (fun _ _ hid => hin hid)
    (fun id' hid => update_of_ne hid _ _) rfl ?_
  intro c' hc'
  obtain rfl : _ = c' := by simpa [Sink.proceed] using hc'
  exact ⟨hentry, hgrows.issued _ _ howner, hp⟩

theorem Inv.leave (h : s.Inv) (hc : s.calls id = some c) {ok : Bool} (hp : c.point = .leave ok) :
    Inv { s with
      inFlight := s.inFlight.erase id
      calls := update s.calls id (c.retry ok) } := by
  obtain ⟨hentry, howner, hpoint⟩ := h.calls id c hc
  rw [hp] at hpoint
  refine h.ofCall id h.sound (.refl _) (fun _ _ => .refl _ _)
    (fun id' hid hin => Finset.mem_erase.mpr ⟨hid, hin⟩)
    (fun id' hid => update_of_ne hid _ _) rfl ?_
  intro c' hc'
  replace hc' : c.retry ok = some c' := by simpa using hc'
  rw [AppendCall.retry] at hc'
  split at hc'
  · cases hc'
  next hagain =>
  cases hc'
  exact ⟨hentry, howner, hpoint (by simpa using fun hok => hagain (.inl hok))⟩

theorem Inv.call (h : s.Inv) (hc : s.calls id = some c) (hs : K.call s id c = some s') :
    s'.Inv := by
  have hpoint := (h.calls id c hc).point
  have howner := (h.calls id c hc).owner
  have hsame : ∀ id' ≠ id, Keeps s.toDisk s.toDisk id' := fun _ _ => .refl _ _
  rw [SinkConfig.call] at hs
  cases hp : c.point with rw [hp] at hs hpoint
  | enter =>
    cases hs
    exact h.proceed hc h.sound (.refl _) hsame (Finset.subset_insert _ _)
      ⟨Finset.mem_insert_self _ _, hpoint⟩
  | lookUpTenant =>
    cases hs
    apply h.proceed hc h.sound (.refl _) hsame subset_rfl
    split <;> exact hpoint
  | register =>
    cases hs
    exact h.proceed hc (h.sound.registerTenant K) (grows_registerTenant K)
      (fun _ _ => ⟨fun h => h, fun _ _ => (mem_registerTenant K).mpr⟩) subset_rfl hpoint
  | remember =>
    cases hs
    exact h.proceed hc h.sound (.refl _) hsame subset_rfl hpoint
  | mark =>
    cases hs
    exact h.proceed hc (h.sound.putMarker howner) grows_putMarker
      (fun _ _ => keeps_putMarker _) subset_rfl
      ⟨hpoint.1, hpoint.2, mem_putMarker.mpr (.inl rfl)⟩
  | ship e p =>
    cases p with
    | settle shipped =>
      cases hs
      obtain ⟨⟨he, hid, ht⟩, hshipped⟩ := hpoint
      have hmoves := h.sound.settle he fun hs => hshipped (congrArg _ hs)
      rw [ht] at hmoves
      exact h.proceed hc hmoves.sound hmoves.grows (fun _ _ => hmoves.keeps _) subset_rfl nofun
    | create | upload | cleanUp => cases hs
  | leave ok =>
    cases hs
    exact h.leave hc hp
  | append => cases hs

theorem Inv.append (h : s.Inv) (hc : s.calls id = some c) {commits : Bool}
    (hs : K.append s id c commits = some s') : s'.Inv := by
  obtain ⟨hentry, howner, hpoint⟩ := h.calls id c hc
  rw [SinkConfig.append] at hs
  split at hs
  · next hp =>
    rw [hp] at hpoint
    obtain ⟨-, hun, hmark⟩ := hpoint
    split at hs
    · cases hs
      set e := c.entry.chained c.entry.tenantID
        (chainHead (s.log.filter fun e => e.tenantID = c.entry.tenantID)) K.computeChecksum with hdef
      have hid : e.id = id := hentry
      have hnext : ∀ b ∈ s.log, b.tenantID = e.tenantID → b.sequenceNumber < e.sequenceNumber := by
        intro b hb ht
        exact Nat.lt_succ_of_le (le_chainHead (mem_filter.mpr ⟨hb, decide_eq_true ht⟩))
      refine h.proceed hc (h.sound.append ?_ ?_ ?_ hnext) grows_append (fun id' hne => ?_)
        subset_rfl ⟨⟨mem_append_right _ mem_cons_self, hid, rfl⟩, nofun⟩
      · rw [hid]
        exact howner
      · rw [hid]
        exact hun
      · rw [Pending, hid]
        exact hmark
      · exact keeps_append (by rwa [hid])
    · cases hs
      exact h.proceed hc h.sound (.refl _) (fun _ _ => .refl _ _) subset_rfl fun _ => hun
  · cases hs

theorem Inv.ship (h : s.Inv) (hc : s.calls id = some c) {q q' : PutPoint} {o : PutOutcome}
    (hp : c.point = .ship e q)
    (howns : q.owns = true → wormKey c.entry.tenantID e.sequenceNumber ∈ s.worm.sidecars)
    (hwhole : s.worm.Whole (wormKey c.entry.tenantID e.sequenceNumber) q o)
    (hput : s.put c.entry.tenantID e q o = some (d, q')) :
    ({ s with toDisk := d }.proceed id c (.ship e q')).Inv := by
  have hpoint := (h.calls id c hc).point
  rw [hp] at hpoint
  obtain ⟨⟨he, hid, ht⟩, -⟩ := hpoint
  rw [← ht] at howns hwhole hput
  obtain ⟨hmoves, hshipped⟩ := h.sound.put he howns hwhole hput
  exact h.proceed hc hmoves.sound hmoves.grows (fun _ _ => hmoves.keeps _) subset_rfl
    ⟨⟨hmoves.grows.log e he, hid, ht⟩, hshipped⟩

theorem Inv.reship (h : s.Inv) {q q' : PutPoint} {o : PutOutcome}
    (hp : s.reconciler = .ship e q scan)
    (howns : q.owns = true → wormKey scan.tenantID e.sequenceNumber ∈ s.worm.sidecars)
    (hwhole : s.worm.Whole (wormKey scan.tenantID e.sequenceNumber) q o)
    (hput : s.put scan.tenantID e q o = some (d, q')) :
    Inv { s with toDisk := d, reconciler := .ship e q' scan } := by
  have hr := h.reconciler
  rw [hp] at hr
  obtain ⟨⟨he, ht⟩, -, hscan⟩ := hr
  rw [← ht] at howns hwhole hput
  obtain ⟨hmoves, hshipped⟩ := h.sound.put he howns hwhole hput
  exact h.ofReconciler hmoves.sound hmoves.grows (fun id => .inr (hmoves.keeps id)) rfl rfl
    ⟨⟨hmoves.grows.log e he, ht⟩, hshipped, hscan.mono hmoves.grows⟩

theorem Inv.crash (h : s.Inv) : Inv { s with
    inFlight := ∅
    knownTenants := ∅
    calls := fun _ => none
    reconciler := .idle } where
  sound := h.sound
  calls _ _ hc := by cases hc
  reconciler := trivial

theorem Inv.reconcile (h : s.Inv) {p : ReconcilePoint D} (hp : p.Holds s.toDisk) :
    Inv { s with reconciler := p } :=
  h.ofReconciler h.sound (.refl _) (fun _ => .inr (.refl _ _)) rfl rfl hp

theorem Inv.tick (h : s.Inv) {names : List String} (hs : K.tick s names = some s') : s'.Inv := by
  revert hs
  fun_cases SinkConfig.tick K s names <;> rintro ⟨⟩
  exact h.reconcile trivial

theorem Inv.list (h : s.Inv) {ids : List String} (hs : SinkConfig.list s ids = some s') :
    s'.Inv := by
  revert hs
  fun_cases SinkConfig.list s ids <;> rintro ⟨⟩
  · exact h.reconcile trivial
  · next t rest hr hids =>
    apply h.reconcile
    intro id hid
    have hmem := mem_toFinset.mpr hid
    rw [hids.2, Finset.mem_image] at hmem
    obtain ⟨k, hmem, rfl⟩ := hmem
    obtain ⟨hk, rfl, hspace⟩ := Finset.mem_filter.mp hmem
    apply h.sound.markers
    rw [markerKey, ← hspace]
    exact hk

theorem Inv.check (h : s.Inv) (hs : SinkConfig.check s = some s') : s'.Inv := by
  have hr := h.reconciler
  rw [SinkConfig.check] at hs
  split at hs
  · cases hs
    exact h.reconcile trivial
  · next t id ids rest hp =>
    cases hs
    rw [hp] at hr
    have hrest : Scan.Holds s.toDisk ⟨t, ids, rest⟩ :=
      fun id' hid' => hr id' (mem_cons_of_mem _ hid')
    apply h.reconcile
    split
    · exact hrest
    · exact ⟨hr id mem_cons_self, hrest⟩
  · cases hs

theorem Inv.read (h : s.Inv) {answered : Bool} (hs : SinkConfig.read s answered = some s') :
    s'.Inv := by
  have hr := h.reconciler
  rw [SinkConfig.read] at hs
  split at hs <;> cases hs
  next id scan hp =>
  rw [hp] at hr
  apply h.reconcile
  cases answered with
  | false => exact hr.2
  | true =>
    cases he : getAuditEntry s.log id with
    | none => exact hr
    | some e =>
      rw [if_pos rfl]
      have hmem := List.mem_of_find?_eq_some he
      obtain rfl : e.id = id := by simpa using List.find?_some he
      have ht := (h.sound.owner e hmem).symm.trans hr.1
      exact ⟨⟨hmem, Option.some.inj ht⟩, nofun, hr.2⟩

/-- When a marker goes because its entry is not there, the look at the in-flight set and the local
store still holds. When it goes because the entry is shipped, no half-written key was met. -/
def Undisturbed (s : Sink D) : SinkAction D → Prop
  | .discard =>
      match s.reconciler with
      | .discard id _ => id ∉ s.inFlight ∧ (getAuditEntry s.log id).isNone
      | _ => True
  | .ship id outcome =>
      match s.calls id with
      | some ⟨entry, _, .ship e p⟩ =>
          s.worm.Whole (wormKey entry.tenantID e.sequenceNumber) p outcome
      | _ => True
  | .reship outcome =>
      match s.reconciler with
      | .ship e p scan => s.worm.Whole (wormKey scan.tenantID e.sequenceNumber) p outcome
      | _ => True
  | _ => True

instance (s : Sink D) (a : SinkAction D) : Decidable (Undisturbed s a) := by
  unfold Undisturbed
  split <;> (try split) <;> infer_instance

theorem Inv.discard (h : s.Inv) {id : String} (hp : s.reconciler = .discard id scan)
    (hsettled : id ∉ s.inFlight ∧ (getAuditEntry s.log id).isNone) :
    Inv { s with toDisk := s.deleteMarker scan.tenantID id, reconciler := .markers scan } := by
  have hr := h.reconciler
  rw [hp] at hr
  have hun : s.Uncommitted id := uncommitted_of_getAuditEntry (isNone_iff_eq_none.mp hsettled.2)
  refine h.ofReconciler (h.sound.deleteMarker fun b hb hid => absurd hid (hun b hb))
    grows_deleteMarker (fun id' => ?_) rfl rfl hr.2
  by_cases hid : id' = id
  · subst hid
    exact .inl ⟨hsettled.1, rfl⟩
  · exact .inr (keeps_deleteMarker fun _ => hid)

/-- The key that the reconciler, or the call of an entry, has created a sidecar for and not
followed up. -/
def owned (s : Sink D) : Option String → Option BlobKey
  | none => s.reconciler.owned
  | some id => (s.calls id).bind AppendCall.owned

/-- Such a sidecar is there, and belongs to one put alone. -/
def Exclusive (s : Sink D) : Prop :=
  ∀ y k, s.owned y = some k → k ∈ s.worm.sidecars ∧ ∀ z, s.owned z = some k → z = y

theorem Exclusive.put (h : s.Exclusive) (y : Option String) {key : BlobKey} {q q' : PutPoint}
    {o : PutOutcome} (hy : s.owned y = if q.owns then some key else none)
    (hput : s.worm.put key e q o = some (s'.worm, q'))
    (hy' : s'.owned y = if q'.owns then some key else none)
    (hothers : ∀ z ≠ y, s'.owned z = s.owned z) : s'.Exclusive := by
  obtain ⟨hnew, hkept⟩ := BlobStore.put_sidecars hput fun hq => (h y key (by simp [hy, hq])).1
  have hmine : s'.owned y = some key → s.owned y = some key ∨ key ∉ s.worm.sidecars := by
    intro howned
    rw [hy'] at howned
    split_ifs at howned with hq'
    exact (hnew hq').2.imp_left fun hq => by simp [hy, hq]
  -- nobody else owned the key, or the sidecar would have been there
  have halone : ∀ z, z ≠ y → s.owned z = some key → s'.owned y ≠ some key := by
    intro z hz howned hown'
    rcases hmine hown' with hown | hkey
    · exact hz ((h y key hown).2 z howned)
    · exact hkey (h z key howned).1
  intro z k hz
  by_cases hzy : z = y
  · subst hzy
    rw [hy'] at hz
    split_ifs at hz with hq'
    cases hz
    refine ⟨(hnew hq').1, fun x hx => by_contra fun hne => ?_⟩
    exact halone x hne (hothers x hne ▸ hx) (by simp [hy', hq'])
  · rw [hothers z hzy] at hz
    obtain ⟨hmem, hunique⟩ := h z k hz
    refine ⟨(hkept k hmem).resolve_right ?_, fun x hx => ?_⟩
    · rintro ⟨rfl, rfl, -⟩
      exact hzy (hunique y (by simp [hy, PutPoint.owns])).symm
    · by_cases hxy : x = y
      · subst hxy
        have hk : k = key := by
          rw [hy'] at hx
          split_ifs at hx
          exact (Option.some.inj hx).symm
        subst hk
        exact absurd hx (halone z hzy hz)
      · exact hunique x (hothers x hxy ▸ hx)

theorem step_ship {o : PutOutcome} (hs : K.step s (.ship id o) = some s') :
    ∃ c e q d q', s.calls id = some c ∧ c.point = .ship e q ∧
      s.put c.entry.tenantID e q o = some (d, q') ∧
      s' = { s with toDisk := d }.proceed id c (.ship e q') := by
  obtain ⟨c, hc, hs⟩ := bind_eq_some_iff.mp hs
  split at hs
  · next e q hp =>
    obtain ⟨⟨d, q'⟩, hput, rfl⟩ := map_eq_some_iff.mp hs
    exact ⟨c, e, q, d, q', hc, hp, hput, rfl⟩
  · cases hs

theorem step_reship {o : PutOutcome} (hs : K.step s (.reship o) = some s') :
    ∃ e q scan d q', s.reconciler = .ship e q scan ∧
      s.put scan.tenantID e q o = some (d, q') ∧
      s' = { s with toDisk := d, reconciler := .ship e q' scan } := by
  rw [SinkConfig.step] at hs
  split at hs
  · next e q scan hp =>
    obtain ⟨⟨d, q'⟩, hput, rfl⟩ := map_eq_some_iff.mp hs
    exact ⟨e, q, scan, d, q', hp, hput, rfl⟩
  · cases hs

theorem owned_update {x : Option (AppendCall D)} (hx : x.bind AppendCall.owned = none)
    (hcalls : s'.calls = update s.calls id x) (hrec : s'.reconciler = s.reconciler)
    (y : Option String) (k : BlobKey) (hy : s'.owned y = some k) : s.owned y = some k := by
  cases y with
  | none => simpa [owned, hrec] using hy
  | some id' =>
    by_cases hid : id' = id
    · simp [owned, hcalls, hid, hx] at hy
    · simpa [owned, hcalls, hid] using hy

theorem owned_reconcile (hcalls : s'.calls = s.calls) (hrec : s'.reconciler.owned = none)
    (y : Option String) (k : BlobKey) (hy : s'.owned y = some k) : s.owned y = some k := by
  cases y with
  | none => cases hrec.symm.trans hy
  | some id => simpa [owned, hcalls] using hy

/-- The other steps touch no sidecar and begin no put. -/
theorem owned_of_step {a : SinkAction D} (hs : K.step s a = some s')
    (hship : ∀ id o, a ≠ .ship id o) (hreship : ∀ o, a ≠ .reship o) :
    s'.worm = s.worm ∧ ∀ y k, s'.owned y = some k → s.owned y = some k := by
  cases a with
  | ship id o => exact absurd rfl (hship id o)
  | reship o => exact absurd rfl (hreship o)
  | crash =>
    cases hs
    exact ⟨rfl, by rintro (_ | _) _ ⟨⟩⟩
  | record e =>
    obtain ⟨-, ⟨⟩⟩ := Option.ite_none_right_eq_some.mp hs
    exact ⟨rfl, owned_update rfl rfl rfl⟩
  | call id =>
    obtain ⟨c, -, hs⟩ := bind_eq_some_iff.mp hs
    have hretry : ∀ ok, (c.retry ok).bind AppendCall.owned = none := by
      intro ok
      rw [AppendCall.retry]
      split <;> rfl
    unfold SinkConfig.call at hs
    split at hs <;> cases hs
    case h_2 =>
      refine ⟨rfl, owned_update ?_ rfl rfl⟩
      split <;> rfl
    case h_6 e shipped _ => exact ⟨worm_settle _ _ e shipped, owned_update rfl rfl rfl⟩
    case h_7 ok _ => exact ⟨rfl, owned_update (hretry ok) rfl rfl⟩
    all_goals exact ⟨rfl, owned_update rfl rfl rfl⟩
  | append id commits =>
    obtain ⟨c, -, hs⟩ := bind_eq_some_iff.mp hs
    unfold SinkConfig.append at hs
    split at hs
    · split at hs <;> cases hs <;> exact ⟨rfl, owned_update rfl rfl rfl⟩
    · cases hs
  | read answered =>
    simp only [SinkConfig.step, SinkConfig.read] at hs
    split at hs <;> cases hs
    refine ⟨rfl, owned_reconcile rfl ?_⟩
    split
    · cases getAuditEntry s.log _ <;> rfl
    · rfl
  | tick names | list ids | check | discard | settle =>
    simp only [SinkConfig.step, SinkConfig.tick, SinkConfig.list, SinkConfig.check] at hs
    repeat' split at hs
    all_goals cases hs <;> refine ⟨?_, owned_reconcile rfl rfl⟩
    all_goals first | rfl | exact worm_settle ..

theorem Exclusive.step (h : s.Exclusive) {a : SinkAction D} (hs : K.step s a = some s') :
    s'.Exclusive := by
  by_cases hship : ∃ id o, a = .ship id o
  · obtain ⟨id, o, rfl⟩ := hship
    obtain ⟨c, e, q, d, q', hc, hp, hput, rfl⟩ := step_ship hs
    obtain ⟨⟨w, _⟩, hput, ⟨⟩⟩ := map_eq_some_iff.mp hput
    refine h.put (some id) (by simp [owned, hc, AppendCall.owned, hp]) hput
      (by simp [owned, Sink.proceed, AppendCall.owned]) fun z hz => ?_
    cases z with
    | none => rfl
    | some id' =>
      have hne : id' ≠ id := fun hid => hz (congrArg some hid)
      simp [owned, Sink.proceed, hne]
  by_cases hreship : ∃ o, a = .reship o
  · obtain ⟨o, rfl⟩ := hreship
    obtain ⟨e, q, scan, d, q', hp, hput, rfl⟩ := step_reship hs
    obtain ⟨⟨w, _⟩, hput, ⟨⟩⟩ := map_eq_some_iff.mp hput
    refine h.put none (by simp [owned, ReconcilePoint.owned, hp]) hput rfl fun z hz => ?_
    cases z with
    | none => exact absurd rfl hz
    | some id => rfl
  obtain ⟨hworm, howned⟩ := owned_of_step hs (fun id o ha => hship ⟨id, o, ha⟩)
    fun o ha => hreship ⟨o, ha⟩
  intro y k hy
  obtain ⟨hmem, hunique⟩ := h y k (howned y k hy)
  exact ⟨hworm ▸ hmem, fun z hz => hunique z (howned z k hz)⟩

theorem Inv.step (h : s.Inv) (hex : s.Exclusive) {a : SinkAction D} (hcalm : Undisturbed s a)
    (hs : K.step s a = some s') : s'.Inv := by
  have hr := h.reconciler
  cases a with
  | record e => exact h.record hs
  | call id =>
    obtain ⟨c, hc, hs⟩ := bind_eq_some_iff.mp hs
    exact h.call hc hs
  | append id commits =>
    obtain ⟨c, hc, hs⟩ := bind_eq_some_iff.mp hs
    exact h.append hc hs
  | ship id o =>
    obtain ⟨c, e, q, d, q', hc, hp, hput, rfl⟩ := step_ship hs
    obtain ⟨entry, attempt, point⟩ := c
    obtain rfl : point = .ship e q := hp
    refine h.ship hc rfl (fun hq => ?_) (by simpa [Undisturbed, hc] using hcalm) hput
    exact (hex (some id) _ (by simp [owned, hc, AppendCall.owned, hq])).1
  | tick names => exact h.tick hs
  | list ids => exact h.list hs
  | check => exact h.check hs
  | read answered => exact h.read hs
  | discard =>
    rw [SinkConfig.step] at hs
    split at hs <;> cases hs
    next id scan hp => exact h.discard hp (by simpa [Undisturbed, hp] using hcalm)
  | reship o =>
    obtain ⟨e, q, scan, d, q', hp, hput, rfl⟩ := step_reship hs
    refine h.reship hp (fun hq => ?_) (by simpa [Undisturbed, hp] using hcalm) hput
    exact (hex none _ (by simp [owned, ReconcilePoint.owned, hp, hq])).1
  | settle =>
    rw [SinkConfig.step] at hs
    split at hs <;> cases hs
    next e shipped scan hp =>
    rw [hp] at hr
    obtain ⟨⟨he, ht⟩, hshipped, hscan⟩ := hr
    have hmoves := h.sound.settle he fun hs => hshipped (congrArg _ hs)
    rw [ht] at hmoves
    exact h.ofReconciler hmoves.sound hmoves.grows (fun id => .inr (hmoves.keeps id)) rfl rfl
      (hscan.mono hmoves.grows)
  | crash =>
    cases hs
    exact h.crash

/-- Every committed entry is shipped, has a pending marker or is in flight. -/
def Kept (s : Sink D) : Prop :=
  ∀ e ∈ s.log, s.Shipped e ∨ s.Pending e ∨ e.id ∈ s.inFlight

/-- If the reconciler discards markers only while its look at the entry is still true, and no put
takes a half-written key for a shipped entry, then no interleaving of appends, retries,
reconciliation, outages and crashes drops a committed entry. -/
theorem no_entry_dropped (K : SinkConfig D) (as : List (SinkAction D)) {s : Sink D}
    (hg : K.machine.Guarded Undisturbed .empty as) (hr : K.machine.run .empty as = some s) :
    s.Kept := by
  obtain ⟨hinv, -⟩ := K.machine.run_invariant (P := fun s : Sink D => s.Inv ∧ s.Exclusive)
    (fun s a s' h hc hs => ⟨h.1.step h.2 hc hs, h.2.step hs⟩) as _ s
    ⟨inv_empty, by rintro (_ | _) _ ⟨⟩⟩ hg hr
  intro e he
  rcases hinv.sound.kept e he with hs | hp
  · exact .inl hs
  · exact .inr (.inl hp)

def plainSink : SinkConfig Unit where
  computeChecksum _ := ""
  encodeTenantRegistryName t := t
  decodeTenantRegistryName t := t
  decode_encode _ := rfl

def loginEntry : AuditEntry Unit := { id := "e1", tenantID := "acme", action := "login" }

/-- The first append fails. A pass of the reconciler finds the marker, and ends before the retry;
the retry commits, the blob store is down and the process crashes; then the entry is shipped. -/
def retryAfterPass : List (SinkAction Unit) :=
  [.record loginEntry, .call "e1", .call "e1", .call "e1", .call "e1", .call "e1",
    .append "e1" false, .call "e1", .tick ["acme"], .list ["e1"], .check, .read true, .discard,
    .check, .list [], .call "e1", .call "e1", .call "e1", .append "e1" true,
    .ship "e1" (.failed false), .crash, .tick ["acme"], .list ["e1"], .check, .read true,
    .reship .answered, .reship (.failed false), .reship .answered, .settle, .check, .list [],
    .tick ["acme"], .list ["e1"], .check, .read true, .reship .answered, .reship .answered, .settle]

theorem no_entry_dropped_retryAfterPass :
    ∃ s, plainSink.machine.run .empty retryAfterPass = some s ∧ s.log ≠ [] ∧ s.Kept := by
  refine exists_some_of_any (P := fun s => s.log ≠ []) (by decide +kernel)
    fun s hs hlog => ⟨hlog, ?_⟩
  exact no_entry_dropped plainSink retryAfterPass (by decide +kernel) hs

/-- The reconciler has found no entry for the marker of a failed append. Before it deletes the
marker, the retry commits, fails to ship and puts the marker again. -/
def retryDuringPass : List (SinkAction Unit) :=
  [.record loginEntry, .call "e1", .call "e1", .call "e1", .call "e1", .call "e1",
    .append "e1" false, .call "e1", .tick ["acme"], .list ["e1"], .check, .read true,
    .call "e1", .call "e1", .call "e1", .append "e1" true, .ship "e1" (.failed false),
    .call "e1", .call "e1", .discard]

/-- The process crashes between the sidecar and the blob. The reconciler ships the entry again,
and the sidecar answers that it is there. -/
def crashDuringPut : List (SinkAction Unit) :=
  [.record loginEntry, .call "e1", .call "e1", .call "e1", .call "e1", .call "e1",
    .append "e1" true, .ship "e1" .answered, .crash, .tick ["acme"], .list ["e1"], .check,
    .read true, .reship .answered, .settle]

instance (s : Sink Unit) : Decidable s.Kept := by
  unfold Kept Shipped Pending
  infer_instance

theorem entry_dropped :
    (∃ s, plainSink.machine.run .empty retryDuringPass = some s ∧ ¬ s.Kept) ∧
      ∃ s, plainSink.machine.run .empty crashDuringPut = some s ∧ ¬ s.Kept :=
  ⟨exists_some_of_any (by decide +kernel) fun _ _ h => h,
    exists_some_of_any (by decide +kernel) fun _ _ h => h⟩

end Sink

end Cfgms.Audit
