import Cfgms.Go.Rfc3339
import Cfgms.Text.Netstring
import Cfgms.Machine.Fallible

/-! # The bytes an operator signs

An operator authorizes an operation by signing the canonical bytes of an envelope. Its fields
are joined by a separator that none of them may hold, so the bytes determine every field as it
is written. The expiry is written in whole seconds.
-/

namespace Cfgms.Operator

open Fallible Go Text List

structure Envelope where
  content : List UInt8
  shell : String
  targets : List String
  nonce : String
  /-- Nanoseconds since the epoch. -/
  expiresAt : ℤ
  executionContext : String
  deriving DecidableEq

def actionShell : String := "steward-action"

def terminalShell : String := "terminal-open"

def envelopeFieldSep : Char := '|'

def envelopeTargetSep : Char := ','

inductive EnvelopeError where
  | empty (field : String)
  | reserved (field value : String) (sep : Char)
  deriving DecidableEq

def reject (c : Prop) [Decidable c] (err : EnvelopeError) : Except EnvelopeError Unit :=
  if c then .error err else .ok ()

def requireCleanField (name value : String) : Except EnvelopeError Unit := do
  reject (value = "") (.empty name)
  reject (envelopeFieldSep ∈ value.toList) (.reserved name value envelopeFieldSep)

def checkTargets : List String → Except EnvelopeError Unit
  | [] => .ok ()
  | target :: targets => do
    requireCleanField "target" target
    reject (envelopeTargetSep ∈ target.toList) (.reserved "target" target envelopeTargetSep)
    checkTargets targets

def checkEnvelope (e : Envelope) : Except EnvelopeError Unit := do
  reject (e.content = []) (.empty "content")
  requireCleanField "shell" e.shell
  reject (e.targets = []) (.empty "targets")
  checkTargets e.targets
  requireCleanField "nonce" e.nonce
  reject (isZero e.expiresAt) (.empty "expiresAt")
  reject (envelopeFieldSep ∈ e.executionContext.toList)
    (.reserved "executionContext" e.executionContext envelopeFieldSep)

def hexText (digest : List UInt8) : List Char :=
  digest.flatMap fun b => [Nat.digitChar (b.toNat / 16), Nat.digitChar (b.toNat % 16)]

variable (sha256 : List UInt8 → List UInt8)

def parts (e : Envelope) : List String :=
  [.ofList (hexText (sha256 e.content)), e.shell,
    envelopeTargetSep.toString.intercalate e.targets, e.nonce,
    .ofList (formatRFC3339 e.expiresAt), e.executionContext]

def canonicalBytes (e : Envelope) : Except EnvelopeError (List UInt8) := do
  checkEnvelope e
  return bytes (envelopeFieldSep.toString.intercalate (parts sha256 e))

def CleanField (value : String) : Prop := value ≠ "" ∧ envelopeFieldSep ∉ value.toList

/-- What `canonicalBytes` asks of an envelope. -/
structure Envelope.Valid (e : Envelope) : Prop where
  content : e.content ≠ []
  shell : CleanField e.shell
  targets : e.targets ≠ []
  target : ∀ target ∈ e.targets, CleanField target ∧ envelopeTargetSep ∉ target.toList
  nonce : CleanField e.nonce
  expiresAt : isZero e.expiresAt = false
  executionContext : envelopeFieldSep ∉ e.executionContext.toList

variable {u : Unit} {e : Envelope}

theorem reject_eq_ok {c : Prop} [Decidable c] {err : EnvelopeError} :
    reject c err = .ok u ↔ ¬ c := by
  unfold reject
  split <;> simp [*]

theorem requireCleanField_eq_ok {name value : String} :
    requireCleanField name value = .ok u ↔ CleanField value := by
  simp [requireCleanField, bind_eq_ok, reject_eq_ok, CleanField]

variable {targets : List String}

theorem checkTargets_eq_ok : checkTargets targets = .ok u ↔
      ∀ target ∈ targets, CleanField target ∧ envelopeTargetSep ∉ target.toList := by
  induction targets with
  | nil => simp [checkTargets]
  | cons target targets ih =>
    simp [checkTargets, bind_eq_ok, requireCleanField_eq_ok, reject_eq_ok, ih, and_assoc]

theorem checkEnvelope_eq_ok : checkEnvelope e = .ok u ↔ e.Valid := by
  simp only [checkEnvelope, bind_eq_ok, requireCleanField_eq_ok, reject_eq_ok, checkTargets_eq_ok,
    exists_const, Bool.not_eq_true]
  constructor
  all_goals
    rintro ⟨h₁, h₂, h₃, h₄, h₅, h₆, h₇⟩
    exact ⟨h₁, h₂, h₃, h₄, h₅, h₆, h₇⟩

theorem canonicalBytes_eq_ok {b : List UInt8} : canonicalBytes sha256 e = .ok b ↔
      e.Valid ∧ bytes (envelopeFieldSep.toString.intercalate (parts sha256 e)) = b := by
  simp [canonicalBytes, bind_eq_ok, checkEnvelope_eq_ok, pure, Except.pure]

theorem intercalate_inj {sep : Char} {fs gs : List String} (hf : ∀ f ∈ fs, sep ∉ f.toList)
    (hg : ∀ g ∈ gs, sep ∉ g.toList) (hfs : fs ≠ []) (hgs : gs ≠ [])
    (h : sep.toString.intercalate fs = sep.toString.intercalate gs) : fs = gs := by
  have hsplit : ∀ fs : List String, (∀ f ∈ fs, sep ∉ f.toList) → fs ≠ [] →
      (sep.toString.intercalate fs).toList.splitOn sep = fs.map String.toList := by
    intro fs hf hfs
    rw [String.toList_intercalate, Char.toString_eq_singleton, String.toList_singleton]
    exact splitOn_intercalate sep (by simpa using hf) (by simpa using hfs)
  have hlists := hsplit fs hf hfs
  rw [h, hsplit gs hg hgs] at hlists
  exact (map_injective_iff.mpr (fun _ _ => String.toList_injective) hlists).symm

theorem hexText_injective : Function.Injective hexText := by
  have hdigit : ∀ m < 16, ∀ n < 16, Nat.digitChar m = Nat.digitChar n → m = n := by decide
  intro a
  induction a with
  | nil =>
    intro b h
    cases b with
    | nil => rfl
    | cons y b => cases h
  | cons x a ih =>
    intro b h
    cases b with
    | nil => cases h
    | cons y b =>
      simp only [hexText, flatMap_cons, cons_append, nil_append,
        List.cons.injEq] at h
      have hx := x.toNat_lt
      have hy := y.toNat_lt
      have hhigh := hdigit _ (by omega) _ (by omega) h.1
      have hlow := hdigit _ (by omega) _ (by omega) h.2.1
      rw [ih h.2.2, show x = y from UInt8.toNat_inj.mp (by omega)]

theorem sep_notMem_hexText (digest : List UInt8) : envelopeFieldSep ∉ hexText digest := by
  have hdigit : ∀ n < 16, envelopeFieldSep ≠ Nat.digitChar n := by decide
  intro h
  obtain ⟨b, -, hb⟩ := mem_flatMap.mp h
  have := b.toNat_lt
  rcases mem_pair.mp hb with hb | hb <;> exact hdigit _ (by omega) hb

theorem sep_notMem_formatRFC3339 (t : ℤ) : envelopeFieldSep ∉ formatRFC3339 t := by
  intro h
  have := mem_formatRFC3339 h
  revert this
  decide

theorem sep_notMem_targets (h : ∀ target ∈ targets, envelopeFieldSep ∉ target.toList) :
    envelopeFieldSep ∉ (envelopeTargetSep.toString.intercalate targets).toList := by
  induction targets with
  | nil => simp
  | cons target targets ih =>
    have hrest := ih fun t ht => h t (mem_cons_of_mem _ ht)
    have hhead := h target mem_cons_self
    cases targets with
    | nil => simpa using hhead
    | cons t ts =>
      rw [String.intercalate_cons_cons, String.toList_append, String.toList_append,
        Char.toString_eq_singleton, String.toList_singleton, mem_append, mem_append,
        not_or, not_or]
      exact ⟨⟨hhead, by decide⟩, hrest⟩

theorem Envelope.Valid.sep_notMem_parts (h : e.Valid) :
    ∀ part ∈ parts sha256 e, envelopeFieldSep ∉ part.toList := by
  intro part hpart
  simp only [parts, mem_cons, not_mem_nil, or_false] at hpart
  rcases hpart with rfl | rfl | rfl | rfl | rfl | rfl
  · rw [String.toList_ofList]
    exact sep_notMem_hexText _
  · exact h.shell.2
  · exact sep_notMem_targets fun target ht => (h.target target ht).1.2
  · exact h.nonce.2
  · rw [String.toList_ofList]
    exact sep_notMem_formatRFC3339 _
  · exact h.executionContext

/-- Two envelopes agree in all but the expiry, and in the second of the expiry. -/
structure SameFields (e e' : Envelope) : Prop where
  content : sha256 e.content = sha256 e'.content
  shell : e.shell = e'.shell
  targets : e.targets = e'.targets
  nonce : e.nonce = e'.nonce
  second : e.expiresAt / 1000000000 = e'.expiresAt / 1000000000
  executionContext : e.executionContext = e'.executionContext

theorem canonicalBytes_eq_iff {e' : Envelope} (h : e.Valid) (h' : e'.Valid) :
    canonicalBytes sha256 e = canonicalBytes sha256 e' ↔ SameFields sha256 e e' := by
  have hok := (canonicalBytes_eq_ok sha256).mpr ⟨h, rfl⟩
  have hok' := (canonicalBytes_eq_ok sha256).mpr ⟨h', rfl⟩
  rw [hok, hok', Except.ok.injEq]
  constructor
  · intro heq
    have hparts := intercalate_inj (h.sep_notMem_parts sha256) (h'.sep_notMem_parts sha256)
      (by simp [parts]) (by simp [parts]) (bytes_injective heq)
    simp only [parts, List.cons.injEq, and_true] at hparts
    obtain ⟨hcontent, hshell, htargets, hnonce, hexpiry, hcontext⟩ := hparts
    constructor
    · exact hexText_injective (String.ofList_injective hcontent)
    · exact hshell
    · exact intercalate_inj (fun t ht => (h.target t ht).2) (fun t ht => (h'.target t ht).2)
        h.targets h'.targets htargets
    · exact hnonce
    · exact formatRFC3339_inj.mp (String.ofList_injective hexpiry)
    · exact hcontext
  · rintro ⟨hcontent, hshell, htargets, hnonce, hsecond, hcontext⟩
    rw [parts, parts, hcontent, hshell, htargets, hnonce, formatRFC3339_inj.mpr hsecond, hcontext]

structure SameOperation (e e' : Envelope) : Prop where
  content : sha256 e.content = sha256 e'.content
  shell : e.shell = e'.shell
  targets : e.targets = e'.targets
  nonce : e.nonce = e'.nonce
  expiresAt : e.expiresAt = e'.expiresAt
  executionContext : e.executionContext = e'.executionContext

/-- Two valid envelopes agree in everything but the fraction of a second of their expiry. -/
def DifferInFraction (e e' : Envelope) : Prop :=
  e.Valid ∧ e'.Valid ∧ SameFields sha256 e e' ∧ e.expiresAt ≠ e'.expiresAt

theorem operation_determined_iff (e e' : Envelope) :
    (∀ b, canonicalBytes sha256 e = .ok b → canonicalBytes sha256 e' = .ok b →
      SameOperation sha256 e e' ∧ (e.shell = actionShell ↔ e'.shell = actionShell)) ↔
      ¬ DifferInFraction sha256 e e' := by
  constructor
  · rintro hdetermined ⟨h, h', hsame, hne⟩
    have hok := (canonicalBytes_eq_ok sha256).mpr ⟨h, rfl⟩
    have hok' := ((canonicalBytes_eq_iff sha256 h h').mpr hsame).symm.trans hok
    exact hne (hdetermined _ hok hok').1.expiresAt
  · intro hfraction b hok hok'
    have h := ((canonicalBytes_eq_ok sha256).mp hok).1
    have h' := ((canonicalBytes_eq_ok sha256).mp hok').1
    have hsame := (canonicalBytes_eq_iff sha256 h h').mp (hok.trans hok'.symm)
    have hexpiry : e.expiresAt = e'.expiresAt := by
      by_contra hne
      exact hfraction ⟨h, h', hsame, hne⟩
    refine ⟨{ hsame with expiresAt := hexpiry }, ?_⟩
    rw [hsame.shell]

/-- An envelope for one steward that expires at 2026-01-01T00:00:00Z. -/
def newYearEnvelope : Envelope where
  content := [108, 115]
  shell := "bash"
  targets := ["steward-1"]
  nonce := "nonce-1"
  expiresAt := 1767225600000000000
  executionContext := ""

/-- The same envelope, to expire 999 milliseconds later. -/
def laterEnvelope : Envelope :=
  { newYearEnvelope with expiresAt := newYearEnvelope.expiresAt + 999000000 }

/-- An envelope and one that expires later within the same second share their bytes; the digest
plays no part in it. -/
theorem expiry_fraction_unsigned :
    canonicalBytes id newYearEnvelope = canonicalBytes id laterEnvelope ∧
      (canonicalBytes id newYearEnvelope).isOk ∧
      ¬ SameOperation id newYearEnvelope laterEnvelope := by
  have h : newYearEnvelope.Valid := checkEnvelope_eq_ok.mp rfl
  have h' : laterEnvelope.Valid := checkEnvelope_eq_ok.mp rfl
  refine ⟨(canonicalBytes_eq_iff id h h').mpr ?_, ?_, ?_⟩
  · exact ⟨rfl, rfl, rfl, rfl, by decide, rfl⟩
  · rw [(canonicalBytes_eq_ok id).mpr ⟨h, rfl⟩]
    rfl
  · intro hsame
    exact absurd hsame.expiresAt (by decide)

end Cfgms.Operator
