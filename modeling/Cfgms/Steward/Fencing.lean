import Cfgms.Steward.TermFence

/-! # Fencing over restarts

A commit that finds a higher mark in memory returns without a save, because the commit that has
raised the mark is going to save it. If the process stops before it has, the next one starts from
a file in which neither term is.
-/

namespace Cfgms.Steward

open List Transducer

namespace Process

variable {s : Process}

/-- Every term whose commit has returned is in the file, or its commit found a higher mark. -/
def Remembers (s : Process) (events : List Event) : Prop :=
  ∀ term, .committed term ∈ events → term ≤ s.file.fence ∨ .superseded term ∈ s.calls

/-- The commits that found a higher mark have returned. -/
def Returned (s : Process) (events : List Event) : Prop :=
  ∀ term, .superseded term ∈ s.calls → .committed term ∈ events

/-- The process does not stop between a commit that found a higher mark and the save of a mark
that is high enough. -/
def StopsSaved (s : Process) : Step → Prop
  | .restart => ∀ term, .superseded term ∈ s.calls → term ≤ s.file.fence
  | .receive _ => True
  | .dispatched _ _ => True
  | .save _ => True

/-- No commit comes before the admission of a command with a smaller term. -/
def Ascending (events : List Event) : Prop :=
  events.Pairwise fun e e' => ∀ term term', e = .committed term → e' = .admitted term' → term ≤ term'

variable {term : ℕ} {a : Step}

theorem superseded_kept (hmem : .superseded term ∈ s.calls) (a : Step) :
    a = .restart ∨ .superseded term ∈ (s.step a).1.calls := by
  have heffect := s.effect a
  generalize s.step a = r at heffect ⊢
  cases heffect with
  | restarted => exact .inl rfl
  | idle | refused => exact .inr hmem
  | admitted => exact .inr (mem_append_left _ hmem)
  | marked hi | superseded hi | released hi | saved hi =>
    exact .inr (mem_set_of_ne hmem hi (by simp))

theorem superseded_new (hmem : .superseded term ∈ (s.step a).1.calls) :
    .superseded term ∈ s.calls ∨ (s.step a).2 = .committed term := by
  have heffect := s.effect a
  generalize s.step a = r at heffect hmem ⊢
  cases heffect with
  | restarted => cases hmem
  | idle | refused => exact .inl hmem
  | admitted => exact .inl (by simpa using hmem)
  | marked | superseded | released | saved =>
    rcases mem_or_eq_of_mem_set hmem with hmem | heq
    · exact .inl hmem
    · cases heq <;> exact .inr rfl

theorem Sound.committed (h : s.Sound) (hevent : (s.step a).2 = .committed term) :
    term ≤ (s.step a).1.file.fence ∨ .superseded term ∈ (s.step a).1.calls := by
  have heffect := s.effect a
  generalize s.step a = r at heffect hevent ⊢
  cases heffect with
  | superseded hi =>
    cases hevent
    exact .inr (mem_set (List.getElem?_eq_some_iff.mp hi).1 _)
  | saved hi =>
    cases hevent
    obtain ⟨hterm, -⟩ := h.saving term (mem_of_getElem? hi)
    exact .inl ((h.mirrors.save hterm).2.2 ▸ le_max_right _ _)
  | _ => cases hevent

variable {events : List Event}

theorem Sound.remembers_step (h : s.Sound) (hr : s.Remembers events) (hstop : s.StopsSaved a) :
    (s.step a).1.Remembers (events ++ [(s.step a).2]) := by
  intro term hmem
  rcases mem_append.mp hmem with hmem | hlast
  · rcases hr term hmem with hle | hsup
    · exact .inl (hle.trans (h.step_file a).1)
    · rcases superseded_kept hsup a with rfl | hsup
      · exact .inl ((hstop term hsup).trans (h.step_file .restart).1)
      · exact .inr hsup
  · exact h.committed (mem_singleton.mp hlast).symm

theorem returned_step (hr : s.Returned events) (a : Step) :
    (s.step a).1.Returned (events ++ [(s.step a).2]) := by
  intro term hmem
  rcases superseded_new hmem with hmem | hevent
  · exact mem_append_left _ (hr term hmem)
  · exact mem_append_right _ (mem_singleton.mpr hevent.symm)

theorem receive_admitted (hevent : (s.step a).2 = .admitted term) :
    ∃ cmd, a = .receive cmd ∧ term = cmd.term ∧ (s.client.checkTermFence cmd).2 = .ok () := by
  have heffect := s.effect a
  generalize s.step a = r at heffect hevent
  cases heffect with
  | admitted hok =>
    cases hevent
    exact ⟨_, rfl, rfl, hok⟩
  | _ => cases hevent

theorem Sound.receive_start (h : s.Sound) (hcalls : s.calls = []) {cmd : Command}
    (hfence : s.client.fence ≤ cmd.term) : (s.receive cmd).2 = .admitted cmd.term := by
  have hok := (h.checked_iff cmd).mpr ⟨hfence, by simp [hcalls]⟩
  have heffect : s.Effect _ (s.receive cmd) := s.effect (.receive cmd)
  generalize s.receive cmd = r at heffect ⊢
  cases heffect with
  | idle ha => exact absurd rfl (ha cmd)
  | admitted => rfl
  | refused herr => exact absurd hok herr

theorem Sound.ascending_step (h : s.Sound) (hr : s.Remembers events)
    (hasc : Ascending events) (a : Step) : Ascending (events ++ [(s.step a).2]) := by
  refine pairwise_append.mpr ⟨hasc, pairwise_singleton _ _, ?_⟩
  rintro e he e' he' term term' rfl rfl
  obtain ⟨cmd, -, rfl, hok⟩ := receive_admitted (mem_singleton.mp he').symm
  obtain ⟨hfence, -⟩ := (h.checked_iff cmd).mp hok
  rcases hr term he with hle | hsup
  · exact (hle.trans h.file_le).trans hfence
  · exact (h.superseded term hsup).trans hfence

end Process

def Step.unauthenticated : Step → Bool
  | .receive _ => true
  | .dispatched _ authenticated => !authenticated
  | .save _ => false
  | .restart => false

/-- The fence over a run. -/
structure Fenced (s : Process) (as : List Step) : Prop where
  /-- After a commit has returned, nothing with a smaller or missing term is admitted. -/
  ascending : Process.Ascending (steward.outputs s as)
  /-- Nothing is admitted with a term below that of a command in flight. -/
  inFlight : ∀ pre cmd post, as = pre ++ .receive cmd :: post →
    ((steward.final s pre).receive cmd).2 = .admitted cmd.term →
    ∀ call ∈ (steward.final s pre).calls, ∀ term ∈ call.inFlight, term ≤ cmd.term
  /-- A command that does not authenticate changes neither the mark nor the file. -/
  unauthenticated : ∀ pre a post, as = pre ++ a :: post → a.unauthenticated = true →
    let before := steward.final s pre
    let after := (before.step a).1
    after.client.termRatchetSet = before.client.termRatchetSet ∧
      after.client.highestTermSeen = before.client.highestTermSeen ∧
      after.client.fenceRatchet = before.client.fenceRatchet ∧ after.file = before.file
  persisted : ∀ pre post, as = pre ++ post → ∀ old,
    (steward.final s pre).file = .holds ⟨true, old⟩ →
      ∃ term, (steward.final s as).file = .holds ⟨true, term⟩ ∧ old ≤ term

section Run

variable {s : Process} (h : s.Sound) (as : List Step)

include h in
theorem sound_final : (steward.final s as).Sound :=
  along_invariant (C := fun _ _ => True) (fun _ a hs _ => hs.step a) h
    (along_of_forall fun _ _ => trivial)

include h in
theorem inFlight_of_sound (pre : List Step) (cmd : Command)
    (hadmitted : ((steward.final s pre).receive cmd).2 = .admitted cmd.term) :
    ∀ call ∈ (steward.final s pre).calls, ∀ term ∈ call.inFlight, term ≤ cmd.term := by
  obtain ⟨cmd', hcmd, -, hok⟩ := Process.receive_admitted (a := .receive cmd) hadmitted
  cases hcmd
  exact (((sound_final h pre).checked_iff cmd).mp hok).2

theorem unauthenticated_step (before : Process) {a : Step} (ha : a.unauthenticated = true) :
    (before.step a).1.client.termRatchetSet = before.client.termRatchetSet ∧
      (before.step a).1.client.highestTermSeen = before.client.highestTermSeen ∧
      (before.step a).1.client.fenceRatchet = before.client.fenceRatchet ∧
      (before.step a).1.file = before.file := by
  have heffect := before.effect a
  generalize before.step a = r at heffect ⊢
  cases heffect with
  | idle | refused => exact ⟨rfl, rfl, rfl, rfl⟩
  | admitted =>
    dsimp only
    split <;> exact ⟨rfl, rfl, rfl, rfl⟩
  | released =>
    dsimp only [TransportClient.releaseTermFence]
    split <;> exact ⟨rfl, rfl, rfl, rfl⟩
  | marked | superseded | saved | restarted => cases ha

include h in
theorem file_final {old : ℕ} (hold : s.file = .holds ⟨true, old⟩) :
    ∃ term, (steward.final s as).file = .holds ⟨true, term⟩ ∧ old ≤ term := by
  induction as generalizing s old with
  | nil => exact ⟨old, hold, le_rfl⟩
  | cons a as ih =>
    obtain ⟨term, hterm, hle⟩ := (h.step_file a).2 old hold
    obtain ⟨term', hterm', hle'⟩ := ih (h.step a) hterm
    exact ⟨term', hterm', hle.trans hle'⟩

include h in
theorem fenced_iff : Fenced s as ↔ Process.Ascending (steward.outputs s as) := by
  refine ⟨Fenced.ascending, fun hasc => ⟨hasc, ?_, ?_, ?_⟩⟩
  · intro pre cmd post _ hadmitted
    exact inFlight_of_sound h pre cmd hadmitted
  · intro pre a post _ ha
    exact unauthenticated_step _ ha
  · rintro pre post rfl old hold
    rw [final_append]
    exact file_final (sound_final h pre) post hold

include h in
theorem ascending_of_along (halong : steward.Along Process.StopsSaved s as) :
    Process.Ascending (steward.outputs s as) := by
  have hinv := along_history
    (P := fun s events => s.Sound ∧ s.Remembers events ∧ Process.Ascending events)
    (fun s events a hs hstop => ⟨hs.1.step a, hs.1.remembers_step hs.2.1 hstop,
      hs.1.ascending_step hs.2.1 hs.2.2 a⟩)
    ⟨h, nofun, List.Pairwise.nil⟩ halong
  exact hinv.2.2

theorem returned_final (hcalls : s.calls = []) :
    (steward.final s as).Returned (steward.outputs s as) := by
  refine steward.history_invariant (P := Process.Returned)
    (fun _ _ a hs => Process.returned_step hs a) (fun term hmem => ?_) as
  rw [hcalls] at hmem
  cases hmem

end Run

def stamped (term : ℕ) : Command := ⟨"", .other "", "", 0, .empty, term, 2⟩

/-- Whatever command comes next at any moment of a run, the fence holds: exactly if the process
never stops while a commit has returned only because another one, not saved yet, had raised the
mark. -/
theorem term_fence {certStoreDir : String} (hdir : certStoreDir ≠ "") (file : RatchetFile)
    (as : List Step) :
    (∀ pre cmd, pre <+: as → Fenced (.start certStoreDir file) (pre ++ [.receive cmd])) ↔
      steward.Along Process.StopsSaved (.start certStoreDir file) as := by
  obtain ⟨hsound, -⟩ := Process.sound_start hdir file
  simp only [fenced_iff hsound]
  constructor
  · intro hasc
    refine along_iff_forall_split.mpr ?_
    rintro pre (_ | _ | _ | _) post rfl
    case restart =>
      intro term hsup
      by_contra hlow
      have hs := sound_final hsound pre
      obtain ⟨hs', hfence⟩ :=
        Process.sound_start hs.mirrors.dir (steward.final (.start certStoreDir file) pre).file
      -- the next process lets the term below pass
      have hpass : ((Process.start _ _).receive (stamped (term - 1))).2 = .admitted (term - 1) :=
        hs'.receive_start rfl (by simp only [hfence, stamped]; omega)
      have hnext := hasc (pre ++ [.restart]) (stamped (term - 1)) (by simp)
      rw [Process.Ascending, outputs_append, pairwise_append] at hnext
      have hreturned := returned_final pre (s := .start certStoreDir file) rfl term hsup
      have hle := hnext.2.2 _ (by
        rw [outputs_append]
        exact mem_append_left _ hreturned) (.admitted (term - 1)) (by
        rw [final_append]
        exact mem_singleton.mpr hpass.symm) term (term - 1) rfl rfl
      omega
    all_goals trivial
  · rintro halong pre cmd ⟨post, rfl⟩
    refine ascending_of_along hsound _ ((steward.along_append _ _ _ _).mpr ⟨?_, trivial, trivial⟩)
    exact ((steward.along_append _ _ _ _).mp halong).1

theorem term_fence_saved : Fenced (.start "certs" .missing)
      [.receive (stamped 5), .dispatched 0 true, .save 0, .restart, .receive (stamped 4)] := by
  refine (term_fence (by decide) .missing
    [.receive (stamped 5), .dispatched 0 true, .save 0, .restart]).mpr
      ⟨trivial, trivial, trivial, ?_, trivial⟩ _ (stamped 4) (prefix_refl _)
  intro term hsup
  cases mem_singleton.mp hsup

/-- Two commands are in flight, the later one raises the mark, and the earlier one returns before
the save. After a restart a command with a smaller term than both is admitted. -/
theorem smaller_term_after_restart : steward.outputs (.start "certs" .missing)
      [.receive (stamped 5), .receive (stamped 7), .dispatched 1 true, .dispatched 0 true,
        .restart, .receive (stamped 4)] =
      [.admitted 5, .admitted 7, .marked 7, .committed 5, .restarted, .admitted 4] := by
  decide

end Cfgms.Steward
