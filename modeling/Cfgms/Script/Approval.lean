import Cfgms.Go.Json

/-! # Approval hashes

An approval is bound to a digest over the fields of a script, each framed by its length. The schema
of the parameters is one field, in JSON: of its texts that keeps the characters, with invalid bytes
read as U+FFFD, and of a default the encoding.
-/

namespace Cfgms.Script.Approval

open Text List Go.Json Function

/-- Eight bytes, the most significant first. -/
def putUint64 (n : ℕ) : List UInt8 :=
  [56, 48, 40, 32, 24, 16, 8, 0].map fun shift => UInt8.ofNat (n / 2 ^ shift)

def write (s : List UInt8) : List UInt8 := putUint64 s.length ++ s

def approvalDigest (sha256 : List UInt8 → String) (domain : List UInt8)
    (fields : List (List UInt8)) : String :=
  sha256 ((domain :: fields).flatMap write)

/-- The length of a string in Go is an `int`. -/
def Sized (fields : List (List UInt8)) : Prop := ∀ f ∈ fields, f.length < 2 ^ 63

theorem write_append_inj {v w : List UInt8} (hv : v.length < 2 ^ 63) (hw : w.length < 2 ^ 63)
    (s t : List UInt8) (h : write v ++ s = write w ++ t) : v = w ∧ s = t := by
  rw [write, write, append_assoc, append_assoc] at h
  obtain ⟨hlength, hrest⟩ := append_inj h rfl
  apply append_inj hrest
  simp [putUint64, ← UInt8.toNat_inj] at hlength
  omega

theorem approvalDigest_inj {sha256 : List UInt8 → String} (hsha : Injective sha256)
    {d d' : List UInt8} {fields fields' : List (List UInt8)} (h : Sized (d :: fields))
    (h' : Sized (d' :: fields'))
    (heq : approvalDigest sha256 d fields = approvalDigest sha256 d' fields') :
    d = d' ∧ fields = fields' := by
  have hwrite : ∀ v u, write v ++ u ≠ [] := by simp [write, putUint64]
  have hmap := flatMap_append_inj (g := id) (fun v hv w hw => write_append_inj (h v hv) (h' w hw))
    hwrite hwrite (congrArg (· ++ []) (hsha heq))
  simpa using hmap.1

structure ScriptParameter (D : Type) where
  name : List UInt8
  description : List UInt8
  type : List UInt8
  required : Bool
  default : D
  /-- Nil is encoded as the empty list. -/
  allowedValues : List (List UInt8)
  dnaPath : List UInt8

variable {D : Type} (marshal : D → Option JsonText)

def ScriptParameter.text (p : ScriptParameter JsonText) : List Char :=
  '\x7b' :: "\"name\":".toList ++ quote p.name ++ ",\"type\":".toList ++ quote p.type ++
    ",\"required\":".toList ++ boolText p.required ++ ",\"default\":".toList ++
    p.default.1.toList ++ ',' :: "\"allowed_values\":".toList ++ array quote p.allowedValues ++
    ",\"dna_path\":".toList ++ quote p.dnaPath ++ ['\x7d']

def canonicalParameters (params : List (ScriptParameter D)) : Option (List UInt8) :=
  (params.mapM fun p => (marshal p.default).map fun d => { p with default := d }).map fun out =>
    bytes (.ofList (array ScriptParameter.text out))

structure Version where
  major : ℤ
  minor : ℤ
  patch : ℤ
  prerelease : List UInt8
  buildMeta : List UInt8

def Version.string (v : Version) : List UInt8 :=
  bytes (formatInt v.major ++ "." ++ formatInt v.minor ++ "." ++ formatInt v.patch) ++
    (if v.prerelease = [] then [] else ascii '-' :: v.prerelease) ++
    if v.buildMeta = [] then [] else ascii '+' :: v.buildMeta

structure ScriptMetadata (D : Type) where
  id : List UInt8
  version : Option Version
  shell : List UInt8
  timeout : ℤ
  parameters : List (ScriptParameter D)

structure VersionedScript (D : Type) where
  metadata : Option (ScriptMetadata D)
  hash : List UInt8

def scriptApprovalDomain : List UInt8 := bytes "cfgms/content-approval/script/v1"

/-- The fields of the digest; none without metadata or where a default has no encoding. -/
def approvalFields (ownerTenant : List UInt8) (vs : Option (VersionedScript D)) :
    Option (List (List UInt8)) := do
  let vs ← vs
  let m ← vs.metadata
  let params ← canonicalParameters marshal m.parameters
  return [ownerTenant, m.id, m.version.elim [] Version.string, vs.hash, m.shell,
    bytes (formatInt m.timeout), params]

def scriptApprovalHash (sha256 : List UInt8 → String) (ownerTenant : List UInt8)
    (vs : Option (VersionedScript D)) : String :=
  (approvalFields marshal ownerTenant vs).elim "" (approvalDigest sha256 scriptApprovalDomain)

/-- The schema of a parameter, with its texts as they are or only their characters. -/
def ScriptParameter.schema {T : Type*} (read : List UInt8 → T) (p : ScriptParameter D) :=
  (read p.name, read p.type, p.required, marshal p.default, p.allowedValues.map read,
    read p.dnaPath)

/-- What decides how a script runs. -/
def identity {T : Type*} (read : List UInt8 → T) (vs : Option (VersionedScript D)) :=
  vs.bind fun vs => vs.metadata.map fun m =>
    (m.id, m.version.elim [] Version.string, vs.hash, m.shell, m.timeout,
      m.parameters.map (ScriptParameter.schema marshal read))

theorem text_reads : Reads ScriptParameter.text (ScriptParameter.schema some runes) := by
  intro p q s t h
  simp only [ScriptParameter.text, cons_append, append_assoc, nil_append] at h
  obtain ⟨hname, h⟩ := quote_reads (append_cancel_left (cons.inj h).2)
  obtain ⟨htype, h⟩ := quote_reads (append_cancel_left h)
  obtain ⟨hrequired, h⟩ := boolText_reads (append_cancel_left h)
  obtain ⟨hdefault, h⟩ := JsonText.append_inj (append_cancel_left h)
  obtain ⟨hallowed, h⟩ := array_reads quote_reads (by simp [quote]) (append_cancel_left h)
  obtain ⟨hpath, h⟩ := quote_reads (append_cancel_left h)
  simp_all [ScriptParameter.schema]

theorem canonicalParameters_inj {ps qs : List (ScriptParameter D)} {text : List UInt8}
    (h : canonicalParameters marshal ps = some text)
    (h' : canonicalParameters marshal qs = some text) :
    ps.map (ScriptParameter.schema marshal runes) =
      qs.map (ScriptParameter.schema marshal runes) := by
  have hschema : ∀ (ps : List (ScriptParameter D)) out,
      (ps.mapM fun p => (marshal p.default).map fun d => { p with default := d }) = some out →
      ps.map (ScriptParameter.schema marshal runes) =
        out.map (ScriptParameter.schema some runes) := by
    intro ps
    induction ps with
    | nil => simp
    | cons p ps ih =>
      intro out hout
      simp only [mapM_cons, Option.bind_eq_bind, Option.bind_eq_some_iff,
        Option.map_eq_some_iff] at hout
      obtain ⟨-, ⟨d, hd, rfl⟩, rest, hrest, ⟨⟩⟩ := hout
      simp [ih rest hrest, ScriptParameter.schema, hd]
  obtain ⟨out, hout, rfl⟩ := Option.map_eq_some_iff.mp h
  obtain ⟨out', hout', htext⟩ := Option.map_eq_some_iff.mp h'
  have harray := String.ofList_injective (bytes_injective htext.symm)
  rw [hschema ps out hout, hschema qs out' hout']
  exact (array_reads text_reads (by simp [ScriptParameter.text]) (congrArg (· ++ []) harray)).1

theorem identity_of_fields {owner owner' : List UInt8} {vs vs' : Option (VersionedScript D)}
    {fields : List (List UInt8)} (h : approvalFields marshal owner vs = some fields)
    (h' : approvalFields marshal owner' vs' = some fields) :
    owner = owner' ∧ identity marshal runes vs = identity marshal runes vs' := by
  simp only [approvalFields, Option.bind_eq_bind, Option.bind_eq_some_iff] at h h'
  obtain ⟨⟨-, hash⟩, rfl, m, rfl, params, hparams, ⟨⟩⟩ := h
  obtain ⟨⟨-, hash'⟩, rfl, m', rfl, params', hparams', heq⟩ := h'
  simp only [Option.pure_def, Option.some.injEq, cons.injEq, and_true] at heq
  obtain ⟨rfl, hid, hversion, rfl, hshell, htimeout, rfl⟩ := heq
  have htimeout := formatInt_injective (bytes_injective htimeout)
  have hparams := canonicalParameters_inj marshal hparams hparams'
  simp [identity, hid, hversion, hshell, htimeout, hparams]

theorem text_congr {p q : ScriptParameter JsonText}
    (h : p.schema some runes = q.schema some runes) : p.text = q.text := by
  simp only [ScriptParameter.schema, Prod.mk.injEq, Option.some.injEq] at h
  obtain ⟨hname, htype, hrequired, hdefault, hallowed, hpath⟩ := h
  have hquote : quote = (fun r : List Char => '"' :: r.flatMap escape ++ ['"']) ∘ runes := rfl
  simp only [ScriptParameter.text, array_eq quote, hrequired, hdefault]
  simp only [hquote, ← map_map, Function.comp_apply, hname, htype, hallowed, hpath]

theorem mapM_map_congr {α β γ δ : Type*} {f : α → β} {h : α → Option γ} {g : γ → δ}
    (hf : ∀ p q, f p = f q → (h p).map g = (h q).map g) {ps qs : List α}
    (heq : ps.map f = qs.map f) : (ps.mapM h).map (map g) = (qs.mapM h).map (map g) := by
  induction ps generalizing qs with
  | nil =>
    obtain rfl : qs = [] := map_eq_nil_iff.mp heq.symm
    rfl
  | cons p ps ih =>
    obtain ⟨q, qs, rfl, hq, hqs⟩ := map_eq_cons_iff.mp heq.symm
    have hhead := hf p q hq.symm
    have htail := ih hqs.symm
    cases hp : h p <;> cases hq : h q <;> cases hps : ps.mapM h <;> cases hqs : qs.mapM h <;>
      simp_all [mapM_cons]

theorem canonicalParameters_congr {ps qs : List (ScriptParameter D)}
    (h : ps.map (ScriptParameter.schema marshal runes) =
      qs.map (ScriptParameter.schema marshal runes)) :
    canonicalParameters marshal ps = canonicalParameters marshal qs := by
  have htexts := congrArg (Option.map fun ts => bytes (.ofList (array id ts)))
    (mapM_map_congr (g := ScriptParameter.text)
      (h := fun p => (marshal p.default).map fun d => { p with default := d }) (fun p q hpq => ?_) h)
  · simpa only [Option.map_map, Function.comp_def, ← array_eq, canonicalParameters] using htexts
  · simp only [ScriptParameter.schema, Prod.mk.injEq] at hpq
    rw [hpq.2.2.2.1]
    simp only [Option.map_map, Function.comp_def]
    exact congrArg (Option.map · _) (funext fun d => text_congr (by simp [ScriptParameter.schema, hpq]))

theorem fields_of_identity {vs vs' : Option (VersionedScript D)} (owner : List UInt8)
    (h : identity marshal runes vs = identity marshal runes vs') :
    approvalFields marshal owner vs = approvalFields marshal owner vs' := by
  rcases vs with _ | ⟨_ | m, hash⟩ <;> rcases vs' with _ | ⟨_ | m', hash'⟩ <;>
    simp [identity, approvalFields] at h ⊢
  obtain ⟨hid, hversion, rfl, hshell, htimeout, hparams⟩ := h
  rw [hid, hversion, hshell, htimeout, canonicalParameters_congr marshal hparams]

def nullDefault (_ : Unit) : Option JsonText := some ⟨"null", by decide +kernel⟩

/-- A script with one parameter. -/
def cleanup (name : List UInt8) : Option (VersionedScript Unit) :=
  some ⟨some ⟨bytes "cleanup", none, bytes "bash", 0,
    [⟨name, [], bytes "string", true, (), [], []⟩]⟩, bytes "e3b0"⟩

theorem identity_cleanup {T : Type*} (read : List UInt8 → T) (a b : List UInt8) :
    identity nullDefault read (cleanup a) = identity nullDefault read (cleanup b) ↔
      read a = read b := by
  simp [identity, cleanup, ScriptParameter.schema]

end Cfgms.Script.Approval
