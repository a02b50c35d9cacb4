import Cfgms.Steward.Handler

/-! # The term fence

A steward refuses commands with a term below the highest it has seen. The mark is kept in memory,
together with the terms of commands under way, and is saved to a file after it has moved. Every
command has a goroutine, and the process may stop between any two steps.
-/

namespace Cfgms.Steward

open List

structure FenceRatchetState where
  ratchetSet : Bool
  highestTermSeen : ℕ
deriving DecidableEq

/-- What a read of the ratchet's file gives. -/
inductive RatchetFile where
  | missing
  | unreadable (err : String)
  | holds (state : FenceRatchetState)
deriving DecidableEq

structure FenceRatchet where
  dir : String
  savedSet : Bool
  savedTerm : ℕ
  seeded : Bool
deriving DecidableEq

namespace FenceRatchet

def new (dir : String) : FenceRatchet := ⟨dir, false, 0, false⟩

variable (r : FenceRatchet) (file : RatchetFile)

def loadStateLocked : FenceRatchet × Except String FenceRatchetState :=
  match file with
  | .missing =>
    ({ r with savedSet := false, savedTerm := 0, seeded := true }, .ok ⟨false, 0⟩)
  | .unreadable err => (r, .error err)
  | .holds state =>
    ({ r with savedSet := state.ratchetSet, savedTerm := state.highestTermSeen, seeded := true },
      .ok state)

def load : FenceRatchet × Except String FenceRatchetState :=
  if r.dir = "" then (r, .ok ⟨false, 0⟩) else r.loadStateLocked file

/-- The guard as `Save` reads it from the file if nothing has yet. A file that cannot be read has
no mark that is worth keeping. -/
def seed : FenceRatchet :=
  if r.seeded then r
  else
    match r.loadStateLocked file with
    | (r, .ok _) => r
    | (r, .error _) => { r with savedSet := false, savedTerm := 0, seeded := true }

/-- `Save`, where the write succeeds. -/
def save (ratchetSet : Bool) (highestTermSeen : ℕ) : FenceRatchet × RatchetFile :=
  if r.dir = "" then (r, file)
  else
    let r := r.seed file
    if r.savedSet ∧ (ratchetSet = false ∨ highestTermSeen < r.savedTerm) then (r, file)
    else
      ({ r with savedSet := ratchetSet, savedTerm := highestTermSeen },
        .holds ⟨ratchetSet, highestTermSeen⟩)

end FenceRatchet

structure TransportClient where
  termRatchetSet : Bool
  highestTermSeen : ℕ
  /-- The counts of the map, one entry for each time that a term is counted. -/
  inflightTerms : List ℕ
  fenceRatchet : FenceRatchet
deriving DecidableEq

/-- The client of a process that starts: a state that cannot be loaded leaves the fence open. -/
def newTransportClient (certStoreDir : String) (file : RatchetFile) : TransportClient :=
  let (ratchet, loaded) := (FenceRatchet.new certStoreDir).load file
  match loaded with
  | .ok state => ⟨state.ratchetSet, state.highestTermSeen, [], ratchet⟩
  | .error _ => ⟨false, 0, [], ratchet⟩

def errCommandTermFenced : String := "command rejected: raft term fenced"

namespace TransportClient

variable (c : TransportClient)

/-- One turn of the loop over the terms in flight. -/
def raise (mark : Bool × ℕ) (t : ℕ) : Bool × ℕ :=
  if mark.1 = false ∨ mark.2 < t then (true, t) else mark

/-- Whether a mark is set, and the highest term seen, with the terms in flight. -/
def effectiveMark : Bool × ℕ :=
  c.inflightTerms.foldl raise (c.termRatchetSet, c.highestTermSeen)

def checkTermFence (cmd : Command) : TransportClient × Except String Unit :=
  let (ratchetSet, highestSeen) := c.effectiveMark
  if cmd.term = 0 then
    if ratchetSet = false then (c, .ok ())
    else
      (c, .error (errCommandTermFenced ++ ": command " ++ cmd.id.quote ++
        " omits term but ratchet is set (highest seen " ++ toString highestSeen ++ ")"))
  else if ratchetSet = false ∨ highestSeen ≤ cmd.term then
    ({ c with inflightTerms := cmd.term :: c.inflightTerms }, .ok ())
  else
    (c, .error (errCommandTermFenced ++ ": command " ++ cmd.id.quote ++ " term " ++
      toString cmd.term ++ " below highest seen " ++ toString highestSeen))

def releaseInflightLocked (term : ℕ) : TransportClient :=
  { c with inflightTerms := c.inflightTerms.erase term }

def releaseTermFence (term : ℕ) : TransportClient :=
  if term = 0 then c else c.releaseInflightLocked term

/-- `commitTermFence` up to its save, and whether it gets there. -/
def commitTermFence (term : ℕ) : TransportClient × Bool :=
  if term = 0 then (c, false)
  else
    let c := c.releaseInflightLocked term
    if c.termRatchetSet ∧ term < c.highestTermSeen then (c, false)
    else ({ c with termRatchetSet := true, highestTermSeen := term }, true)

end TransportClient

/-- How far the goroutine of an admitted command is. -/
inductive Call where
  | dispatching (term : ℕ)
  | saving (term : ℕ)
  | saved (term : ℕ)
  /-- The mark was past the term already, or the command has no term. -/
  | superseded (term : ℕ)
  | released (term : ℕ)
deriving DecidableEq

structure Process where
  client : TransportClient
  file : RatchetFile
  calls : List Call
deriving DecidableEq

inductive Step where
  | receive (cmd : Command)
  /-- The dispatch of a command is over, and it has authenticated or not. -/
  | dispatched (i : ℕ) (authenticated : Bool)
  | save (i : ℕ)
  /-- The process stops, and another one starts. -/
  | restart

inductive Event where
  | admitted (term : ℕ)
  | refused (err : String)
  | marked (term : ℕ)
  | committed (term : ℕ)
  | released (term : ℕ)
  | restarted
  | none
deriving DecidableEq

namespace Process

def start (certStoreDir : String) (file : RatchetFile) : Process :=
  ⟨newTransportClient certStoreDir file, file, []⟩

variable (s : Process)

def receive (cmd : Command) : Process × Event :=
  match s.client.checkTermFence cmd with
  | (c, .ok ()) =>
    (⟨c, s.file, s.calls ++ [.dispatching cmd.term]⟩, .admitted cmd.term)
  | (c, .error err) => ({ s with client := c }, .refused err)

def dispatched (i : ℕ) (authenticated : Bool) : Process × Event :=
  match s.calls[i]? with
  | some (.dispatching term) =>
    if authenticated then
      match s.client.commitTermFence term with
      | (c, true) => (⟨c, s.file, s.calls.set i (.saving term)⟩, .marked term)
      | (c, false) => (⟨c, s.file, s.calls.set i (.superseded term)⟩, .committed term)
    else
      (⟨s.client.releaseTermFence term, s.file, s.calls.set i (.released term)⟩, .released term)
  | _ => (s, .none)

def save (i : ℕ) : Process × Event :=
  match s.calls[i]? with
  | some (.saving term) =>
    let (r, file) := s.client.fenceRatchet.save s.file true term
    (⟨{ s.client with fenceRatchet := r }, file, s.calls.set i (.saved term)⟩, .committed term)
  | _ => (s, .none)

def step : Step → Process × Event
  | .receive cmd => s.receive cmd
  | .dispatched i authenticated => s.dispatched i authenticated
  | .save i => s.save i
  | .restart => (start s.client.fenceRatchet.dir s.file, .restarted)

end Process

def steward : Transducer Process Step Event := ⟨Process.step⟩

/-- The least term that a mark lets pass; a command without a term has term zero. -/
def fence (ratchetSet : Bool) (highestTermSeen : ℕ) : ℕ :=
  if ratchetSet then max 1 highestTermSeen else 0

def RatchetFile.fence : RatchetFile → ℕ
  | .holds state => Steward.fence state.ratchetSet state.highestTermSeen
  | .missing => 0
  | .unreadable _ => 0

def TransportClient.fence (c : TransportClient) : ℕ :=
  Steward.fence c.termRatchetSet c.highestTermSeen

theorem fence_raise_le_iff (mark : Bool × ℕ) {t : ℕ} (ht : t ≠ 0) (n : ℕ) :
    fence (TransportClient.raise mark t).1 (TransportClient.raise mark t).2 ≤ n ↔
      fence mark.1 mark.2 ≤ n ∧ t ≤ n := by
  obtain ⟨set, highest⟩ := mark
  unfold TransportClient.raise fence
  cases set <;> grind

theorem fence_foldl_raise_le_iff {ts : List ℕ} (hts : ∀ t ∈ ts, t ≠ 0) (mark : Bool × ℕ) (n : ℕ) :
    fence (ts.foldl TransportClient.raise mark).1 (ts.foldl TransportClient.raise mark).2 ≤ n ↔
      fence mark.1 mark.2 ≤ n ∧ ∀ t ∈ ts, t ≤ n := by
  induction ts generalizing mark with
  | nil => simp
  | cons t ts ih =>
    rw [forall_mem_cons] at hts
    rw [foldl_cons, ih hts.2, fence_raise_le_iff mark hts.1, forall_mem_cons, and_assoc]

namespace TransportClient

variable {c : TransportClient}

theorem checkTermFence_ok_iff (h : ∀ t ∈ c.inflightTerms, t ≠ 0) (cmd : Command) :
    (c.checkTermFence cmd).2 = .ok () ↔
      c.fence ≤ cmd.term ∧ ∀ t ∈ c.inflightTerms, t ≤ cmd.term := by
  rw [TransportClient.fence,
    ← fence_foldl_raise_le_iff h (c.termRatchetSet, c.highestTermSeen) cmd.term]
  change _ ↔ Steward.fence c.effectiveMark.1 c.effectiveMark.2 ≤ cmd.term
  unfold checkTermFence Steward.fence
  grind

theorem checkTermFence_client (cmd : Command) :
    (c.checkTermFence cmd).1 = if (c.checkTermFence cmd).2 = .ok () ∧ cmd.term ≠ 0 then
      { c with inflightTerms := cmd.term :: c.inflightTerms } else c := by
  unfold checkTermFence
  grind

end TransportClient

namespace Call

/-- The term that is counted as in flight. -/
def reserved : Call → Option ℕ
  | .dispatching term => if term = 0 then none else some term
  | .saving _ => none
  | .saved _ => none
  | .superseded _ => none
  | .released _ => none

/-- The term of a command that has been admitted and has neither been committed nor released. -/
def inFlight : Call → Option ℕ
  | .dispatching term => some term
  | .saving term => some term
  | .saved _ => none
  | .superseded _ => none
  | .released _ => none

end Call

variable {α : Type*} {xs : List α} {i : ℕ} {x y : α}

theorem perm_cons_set (hx : xs[i]? = some x) (y : α) : (y :: xs).Perm (x :: xs.set i y) := by
  obtain ⟨hi, rfl⟩ := List.getElem?_eq_some_iff.mp hx
  calc (y :: xs).Perm (y :: xs[i] :: xs.eraseIdx i) :=
        (getElem_cons_eraseIdx_perm hi).symm.cons y
    _ |>.Perm (xs[i] :: y :: xs.eraseIdx i) := .swap ..
    _ |>.Perm (xs[i] :: xs.set i y) := (set_perm_cons_eraseIdx hi y).symm.cons _

theorem mem_set_of_ne {z : α} (hx : x ∈ xs)
    (hy : xs[i]? = some y) (hne : x ≠ y) : x ∈ xs.set i z := by
  obtain ⟨j, hj⟩ := mem_iff_getElem?.mp hx
  have hij : i ≠ j := by
    rintro rfl
    exact hne (Option.some.inj (hj.symm.trans hy))
  exact mem_of_getElem? ((getElem?_set_ne hij).trans hj)

structure FenceRatchet.Mirrors (r : FenceRatchet) (file : RatchetFile) : Prop where
  dir : r.dir ≠ ""
  saved : r.seeded = true → Steward.fence r.savedSet r.savedTerm = file.fence

namespace FenceRatchet

variable {r : FenceRatchet} {file : RatchetFile}

variable (h : r.Mirrors file)
include h

theorem Mirrors.seed : (r.seed file).dir = r.dir ∧ (r.seed file).seeded = true ∧
      Steward.fence (r.seed file).savedSet (r.seed file).savedTerm = file.fence := by
  unfold FenceRatchet.seed
  by_cases hs : r.seeded = true
  · exact ⟨by rw [if_pos hs], by rw [if_pos hs, hs], by rw [if_pos hs]; exact h.saved hs⟩
  · rw [if_neg hs]
    cases file <;> exact ⟨rfl, rfl, rfl⟩

theorem Mirrors.save {term : ℕ} (hterm : term ≠ 0) :
    (r.save file true term).1.Mirrors (r.save file true term).2 ∧
      (r.save file true term).1.dir = r.dir ∧
      (r.save file true term).2.fence = max file.fence term := by
  obtain ⟨hdir, hseeded, hsaved⟩ := h.seed
  have hne := h.dir
  unfold FenceRatchet.save
  rw [if_neg hne]
  dsimp only
  split
  · refine ⟨⟨hdir ▸ hne, fun _ => hsaved⟩, hdir, ?_⟩
    unfold fence at hsaved
    grind
  · refine ⟨⟨hdir ▸ hne, fun _ => rfl⟩, hdir, ?_⟩
    rw [← hsaved]
    unfold RatchetFile.fence fence
    grind

theorem Mirrors.save_holds {term old : ℕ} (hterm : term ≠ 0) (hold : file = .holds ⟨true, old⟩) :
    ∃ term', (r.save file true term).2 = .holds ⟨true, term'⟩ ∧ old ≤ term' := by
  obtain ⟨-, -, hsaved⟩ := h.seed
  unfold FenceRatchet.save
  rw [if_neg h.dir]
  dsimp only
  split
  · exact ⟨old, hold, le_rfl⟩
  next hhigh =>
  unfold RatchetFile.fence fence at hsaved
  grind

end FenceRatchet

namespace TransportClient

variable {c : TransportClient}

theorem commitTermFence_spec (c : TransportClient) (term : ℕ) :
    (c.commitTermFence term).1.fence = max c.fence term ∧
      (c.commitTermFence term).1.fenceRatchet = c.fenceRatchet ∧
      (c.commitTermFence term).1.inflightTerms =
        (if term = 0 then c.inflightTerms else c.inflightTerms.erase term) ∧
      if (c.commitTermFence term).2 then term ≠ 0 else term ≤ c.fence := by
  unfold commitTermFence releaseInflightLocked TransportClient.fence Steward.fence
  grind

theorem releaseTermFence_eq {term : ℕ} : c.releaseTermFence term = { c with
    inflightTerms := if term = 0 then c.inflightTerms else c.inflightTerms.erase term } := by
  unfold releaseTermFence
  split <;> rfl

end TransportClient

namespace Process

structure Sound (s : Process) : Prop where
  mirrors : s.client.fenceRatchet.Mirrors s.file
  reserved : s.client.inflightTerms.Perm (s.calls.filterMap Call.reserved)
  file_le : s.file.fence ≤ s.client.fence
  saving : ∀ term, .saving term ∈ s.calls → term ≠ 0 ∧ term ≤ s.client.fence
  saved : ∀ term, .saved term ∈ s.calls → term ≤ s.file.fence
  superseded : ∀ term, .superseded term ∈ s.calls → term ≤ s.client.fence

theorem sound_start {dir : String} (hdir : dir ≠ "") (file : RatchetFile) :
    (start dir file).Sound ∧ (start dir file).client.fence = file.fence := by
  have hload : (FenceRatchet.new dir).load file = (FenceRatchet.new dir).loadStateLocked file :=
    if_neg hdir
  unfold start newTransportClient
  rw [hload]
  cases file <;> exact ⟨⟨⟨hdir, fun _ => rfl⟩, .nil, le_rfl, nofun, nofun, nofun⟩, rfl⟩

variable {s : Process}

theorem Sound.inflightTerms_ne_zero (h : s.Sound) : ∀ t ∈ s.client.inflightTerms, t ≠ 0 := by
  intro t ht
  obtain ⟨call, -, hcall⟩ := mem_filterMap.mp (h.reserved.mem_iff.mp ht)
  cases call <;> grind [Call.reserved]

theorem Sound.checked_iff (h : s.Sound) (cmd : Command) : (s.client.checkTermFence cmd).2 = .ok () ↔
      s.client.fence ≤ cmd.term ∧ ∀ call ∈ s.calls, ∀ t ∈ call.inFlight, t ≤ cmd.term := by
  rw [TransportClient.checkTermFence_ok_iff h.inflightTerms_ne_zero]
  refine and_congr_right fun hfence => ⟨fun hle call hcall t ht => ?_, fun hle t ht => ?_⟩
  · cases call with
    | dispatching term =>
      obtain rfl : term = t := by simpa [Call.inFlight] using ht
      by_cases hzero : term = 0
      · omega
      · refine hle term (h.reserved.mem_iff.mpr (mem_filterMap.mpr ⟨_, hcall, ?_⟩))
        exact if_neg hzero
    | saving term =>
      obtain rfl : term = t := by simpa [Call.inFlight] using ht
      exact (h.saving term hcall).2.trans hfence
    | saved | superseded | released => cases ht
  · obtain ⟨call, hcall, hreserved⟩ := mem_filterMap.mp (h.reserved.mem_iff.mp ht)
    refine hle call hcall t ?_
    cases call <;> grind [Call.reserved, Call.inFlight]

inductive Effect (s : Process) : Step → Process × Event → Prop
  | idle {a : Step} (ha : ∀ cmd, a ≠ .receive cmd) : Effect s a (s, .none)
  | admitted {cmd : Command} (hok : (s.client.checkTermFence cmd).2 = .ok ()) :
      Effect s (.receive cmd) (⟨if cmd.term = 0 then s.client else
        { s.client with inflightTerms := cmd.term :: s.client.inflightTerms }, s.file,
        s.calls ++ [.dispatching cmd.term]⟩, .admitted cmd.term)
  | refused {cmd : Command} {err : String} (herr : (s.client.checkTermFence cmd).2 ≠ .ok ()) :
      Effect s (.receive cmd) (s, .refused err)
  | marked {i term : ℕ} (hi : s.calls[i]? = some (.dispatching term)) (hterm : term ≠ 0) :
      Effect s (.dispatched i true)
        (⟨(s.client.commitTermFence term).1, s.file, s.calls.set i (.saving term)⟩, .marked term)
  | superseded {i term : ℕ} (hi : s.calls[i]? = some (.dispatching term))
      (hle : term ≤ s.client.fence) : Effect s (.dispatched i true)
        (⟨(s.client.commitTermFence term).1, s.file, s.calls.set i (.superseded term)⟩,
          .committed term)
  | released {i term : ℕ} (hi : s.calls[i]? = some (.dispatching term)) :
      Effect s (.dispatched i false)
        (⟨s.client.releaseTermFence term, s.file, s.calls.set i (.released term)⟩, .released term)
  | saved {i term : ℕ} (hi : s.calls[i]? = some (.saving term)) : Effect s (.save i)
      (⟨{ s.client with fenceRatchet := (s.client.fenceRatchet.save s.file true term).1 },
        (s.client.fenceRatchet.save s.file true term).2, s.calls.set i (.saved term)⟩,
        .committed term)
  | restarted : Effect s .restart (start s.client.fenceRatchet.dir s.file, .restarted)

variable (s) in
theorem effect (a : Step) : s.Effect a (s.step a) := by
  cases a with
  | receive cmd =>
    have hclient := TransportClient.checkTermFence_client (c := s.client) cmd
    rcases hcheck : s.client.checkTermFence cmd with ⟨c, err | ⟨⟩⟩ <;>
      simp only [step, Process.receive, hcheck]
    · simp only [hcheck, reduceCtorEq, false_and, if_false] at hclient
      rw [hclient]
      exact .refused (by simp [hcheck])
    · simp only [hcheck, true_and, ite_not, ne_eq] at hclient
      rw [hclient]
      exact .admitted (by simp [hcheck])
  | dispatched i authenticated =>
    simp only [step, Process.dispatched]
    split
    · next term hi =>
      cases authenticated with
      | false => exact .released hi
      | true =>
        have hmoved := (s.client.commitTermFence_spec term).2.2.2
        rcases hcommit : s.client.commitTermFence term with ⟨c, _ | _⟩
        all_goals
          rw [hcommit] at hmoved
          rw [show c = (s.client.commitTermFence term).1 by rw [hcommit]]
        · exact .superseded hi hmoved
        · exact .marked hi hmoved
    · exact .idle nofun
  | save i =>
    simp only [step, Process.save]
    split
    · exact .saved ‹_›
    · exact .idle nofun
  | restart => exact .restarted

variable (h : s.Sound)
include h

theorem Sound.admit (term : ℕ) : Sound ⟨if term = 0 then s.client else
    { s.client with inflightTerms := term :: s.client.inflightTerms }, s.file,
    s.calls ++ [.dispatching term]⟩ := by
  have hfence : TransportClient.fence (if term = 0 then s.client else
      { s.client with inflightTerms := term :: s.client.inflightTerms }) = s.client.fence := by
    split <;> rfl
  constructor
  · split <;> exact h.mirrors
  · rw [filterMap_append]
    split
    · next hzero => simpa [Call.reserved, hzero] using h.reserved
    next hterm =>
    have hlast : [Call.dispatching term].filterMap Call.reserved = [term] := by
      simp [Call.reserved, hterm]
    rw [hlast]
    exact (h.reserved.cons _).trans (perm_append_singleton _ _).symm
  · exact hfence ▸ h.file_le
  · intro term hmem
    rw [hfence]
    exact h.saving term (by simpa using hmem)
  · intro term hmem
    exact h.saved term (by simpa using hmem)
  · intro term hmem
    rw [hfence]
    exact h.superseded term (by simpa using hmem)

theorem Sound.reserved_erase {i term : ℕ} {call : Call}
    (hi : s.calls[i]? = some (.dispatching term)) (hcall : call.reserved = none) :
    (if term = 0 then s.client.inflightTerms else s.client.inflightTerms.erase term).Perm
      ((s.calls.set i call).filterMap Call.reserved) := by
  have hperm := (perm_cons_set hi call).filterMap Call.reserved
  rw [filterMap_cons_none hcall, filterMap_cons, Call.reserved] at hperm
  split
  · next hzero =>
    rw [if_pos hzero] at hperm
    exact h.reserved.trans hperm
  · next hterm =>
    rw [if_neg hterm] at hperm
    simpa using (h.reserved.trans hperm).erase term

theorem Sound.advance {i : ℕ} {call : Call} {c : TransportClient}
    {file : RatchetFile} (hmirrors : c.fenceRatchet.Mirrors file)
    (hreserved : c.inflightTerms.Perm ((s.calls.set i call).filterMap Call.reserved))
    (hclient : s.client.fence ≤ c.fence) (hfile : s.file.fence ≤ file.fence)
    (hle : file.fence ≤ c.fence)
    (hsaving : ∀ term, call = .saving term → term ≠ 0 ∧ term ≤ c.fence)
    (hsaved : ∀ term, call = .saved term → term ≤ file.fence)
    (hsuperseded : ∀ term, call = .superseded term → term ≤ c.fence) :
    Sound ⟨c, file, s.calls.set i call⟩ := by
  refine ⟨hmirrors, hreserved, hle, fun term hmem => ?_, fun term hmem => ?_, fun term hmem => ?_⟩
  all_goals rcases mem_or_eq_of_mem_set hmem with hmem | heq
  · exact ⟨(h.saving term hmem).1, (h.saving term hmem).2.trans hclient⟩
  · exact hsaving term heq.symm
  · exact (h.saved term hmem).trans hfile
  · exact hsaved term heq.symm
  · exact (h.superseded term hmem).trans hclient
  · exact hsuperseded term heq.symm

theorem Sound.step (a : Step) : (s.step a).1.Sound := by
  have hfence (term : ℕ) := (s.client.commitTermFence_spec term).1
  have hclient (term : ℕ) : s.client.fence ≤ (s.client.commitTermFence term).1.fence :=
    hfence term ▸ le_max_left _ _
  have hmirrors (term : ℕ) :
      (s.client.commitTermFence term).1.fenceRatchet.Mirrors s.file := by
    rw [(s.client.commitTermFence_spec term).2.1]
    exact h.mirrors
  have hreserved {i term : ℕ} {call : Call} (hi : s.calls[i]? = some (.dispatching term))
      (hcall : call.reserved = none) :
      (s.client.commitTermFence term).1.inflightTerms.Perm
        ((s.calls.set i call).filterMap Call.reserved) := by
    rw [(s.client.commitTermFence_spec term).2.2.1]
    exact h.reserved_erase hi hcall
  have heffect := s.effect a
  generalize s.step a = r at heffect ⊢
  cases heffect with
  | idle | refused => exact h
  | admitted => exact h.admit _
  | @marked i term hi hterm =>
    refine h.advance (hmirrors term) (hreserved hi rfl) (hclient term) le_rfl
      (h.file_le.trans (hclient term)) ?_ nofun nofun
    rintro _ ⟨⟩
    exact ⟨hterm, hfence term ▸ le_max_right _ _⟩
  | @superseded i term hi hle =>
    refine h.advance (hmirrors term) (hreserved hi rfl) (hclient term) le_rfl
      (h.file_le.trans (hclient term)) nofun nofun ?_
    rintro _ ⟨⟩
    exact hle.trans (hclient term)
  | @released i term hi =>
    rw [TransportClient.releaseTermFence_eq]
    exact h.advance h.mirrors (h.reserved_erase hi rfl) le_rfl le_rfl h.file_le nofun nofun nofun
  | @saved i term hi =>
    obtain ⟨hterm, hle⟩ := h.saving term (mem_of_getElem? hi)
    obtain ⟨hmirrors, -, hfile⟩ := h.mirrors.save hterm
    refine h.advance hmirrors ?_ le_rfl (hfile ▸ le_max_left _ _)
      (hfile ▸ max_le h.file_le hle) nofun ?_ nofun
    · exact h.reserved.trans ((perm_cons_set hi (.saved term)).filterMap Call.reserved)
    · rintro _ ⟨⟩
      exact hfile ▸ le_max_right _ _
  | restarted => exact (sound_start h.mirrors.dir s.file).1

theorem Sound.step_file (a : Step) :
    s.file.fence ≤ (s.step a).1.file.fence ∧ ∀ old, s.file = .holds ⟨true, old⟩ →
      ∃ term, (s.step a).1.file = .holds ⟨true, term⟩ ∧ old ≤ term := by
  have heffect := s.effect a
  generalize s.step a = r at heffect ⊢
  cases heffect with
  | saved hi =>
    obtain ⟨hterm, -⟩ := h.saving _ (mem_of_getElem? hi)
    exact ⟨(h.mirrors.save hterm).2.2 ▸ le_max_left _ _, fun old => h.mirrors.save_holds hterm⟩
  | _ => exact ⟨le_rfl, fun old hold => ⟨old, hold, le_rfl⟩⟩

end Process

end Cfgms.Steward
