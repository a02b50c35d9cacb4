import Mathlib.Data.List.Infix

/-! # Runs of machines

A machine takes one labelled action at a time, and an action that is not enabled
has no successor. A transducer is total and answers every call. Invariants that
single steps preserve are carried to whole runs here, once.
-/

namespace Cfgms

open List

variable {σ α β : Type*}

/-- A run that is evaluated up to a decidable property of its last state. -/
theorem exists_some_of_any {o : Option α} {P Q : α → Prop} [DecidablePred P]
    (h : o.any (P ·) = true) (hQ : ∀ a, o = some a → P a → Q a) : ∃ a, o = some a ∧ Q a := by
  obtain ⟨a, ha, hP⟩ := (Option.any_eq_true _ _).mp h
  exact ⟨a, ha, hQ a ha (of_decide_eq_true hP)⟩

/-- A deterministic labelled transition system. All nondeterminism is in the labels. -/
structure Machine (σ α : Type*) where
  step : σ → α → Option σ

namespace Machine

variable (M : Machine σ α)

def run : σ → List α → Option σ
  | s, [] => some s
  | s, a :: as => (M.step s a).bind fun s' => run s' as

/-- Every action of the run meets the guard in the state in which it is taken. -/
def Guarded (C : σ → α → Prop) : σ → List α → Prop
  | _, [] => True
  | s, a :: as => C s a ∧ ∀ s', M.step s a = some s' → Guarded C s' as

variable {M} in
theorem Guarded.cons {C : σ → α → Prop} {s s' : σ} {a : α} {as : List α}
    (hs : M.step s a = some s') (ha : C s a) (h : M.Guarded C s' as) : M.Guarded C s (a :: as) := by
  refine ⟨ha, fun t ht => ?_⟩
  cases hs.symm.trans ht
  exact h

instance Guarded.decidable (C : σ → α → Prop) [∀ s a, Decidable (C s a)] :
    ∀ s as, Decidable (M.Guarded C s as)
  | _, [] => isTrue trivial
  | s, a :: as =>
    match h : M.step s a with
    | none => decidable_of_iff (C s a) (by simp [Guarded, h])
    | some s' =>
      have := Guarded.decidable C s' as
      decidable_of_iff (C s a ∧ M.Guarded C s' as)
        ⟨fun hg => .cons h hg.1 hg.2, fun hg => ⟨hg.1, hg.2 s' h⟩⟩

@[simp] theorem run_nil (s : σ) : M.run s [] = some s := rfl

theorem run_cons_iff {s s'' : σ} {a : α} {as : List α} :
    M.run s (a :: as) = some s'' ↔ ∃ s', M.step s a = some s' ∧ M.run s' as = some s'' := by
  simp [run, Option.bind_eq_some_iff]

theorem run_append (s : σ) (as bs : List α) :
    M.run s (as ++ bs) = (M.run s as).bind fun s' => M.run s' bs := by
  induction as generalizing s with
  | nil => rfl
  | cons a as ih => simp [run, ih, Option.bind_assoc]

variable {C : σ → α → Prop}

/-- An invariant of the guarded steps holds after every guarded run. -/
theorem run_invariant {P : σ → Prop} (hstep : ∀ s a s', P s → C s a → M.step s a = some s' → P s') :
    ∀ (as : List α) (s s' : σ), P s → M.Guarded C s as → M.run s as = some s' → P s'
  | [], s, s', hs, _, hr => by
      obtain rfl : s = s' := by simpa using hr
      exact hs
  | a :: as, s, s'', hs, hg, hr => by
      obtain ⟨s', ha, hr'⟩ := M.run_cons_iff.mp hr
      exact run_invariant hstep as s' s'' (hstep s a s' hs hg.1 ha) (hg.2 s' ha) hr'

theorem guarded_of_forall (h : ∀ s a, C s a) : ∀ (as : List α) (s : σ), M.Guarded C s as
  | [], _ => trivial
  | a :: as, s => ⟨h s a, fun s' _ => guarded_of_forall h as s'⟩

/-- A guarded run splits into two at every state that it passes. -/
theorem guarded_append :
    ∀ {as bs : List α} {s s' : σ}, M.Guarded C s (as ++ bs) → M.run s as = some s' →
      M.Guarded C s as ∧ M.Guarded C s' bs
  | [], _, s, s', hg, hr => by
      obtain rfl : s = s' := by simpa using hr
      exact ⟨trivial, hg⟩
  | a :: as, bs, s, s'', hg, hr => by
      obtain ⟨s', ha, hr'⟩ := M.run_cons_iff.mp hr
      have hsplit : ∀ t, M.step s a = some t → M.Guarded C t as ∧ M.Guarded C s'' bs := by
        intro t ht
        cases ha.symm.trans ht
        exact guarded_append (hg.2 s' ha) hr'
      exact ⟨⟨hg.1, fun t ht => (hsplit t ht).1⟩, (hsplit s' ha).2⟩

end Machine

/-- A total machine that answers each call. -/
structure Transducer (σ α β : Type*) where
  step : σ → α → σ × β

namespace Transducer

variable (T : Transducer σ α β)

def final (s : σ) (as : List α) : σ := as.foldl (fun s a => (T.step s a).1) s

def outputs : σ → List α → List β
  | _, [] => []
  | s, a :: as => (T.step s a).2 :: outputs (T.step s a).1 as

@[simp] theorem final_nil (s : σ) : T.final s [] = s := rfl

@[simp] theorem final_cons (s : σ) (a : α) (as : List α) :
    T.final s (a :: as) = T.final (T.step s a).1 as := rfl

@[simp] theorem outputs_nil (s : σ) : T.outputs s [] = [] := rfl

@[simp] theorem outputs_cons (s : σ) (a : α) (as : List α) :
    T.outputs s (a :: as) = (T.step s a).2 :: T.outputs (T.step s a).1 as := rfl

theorem final_append (s : σ) (as bs : List α) :
    T.final s (as ++ bs) = T.final (T.final s as) bs := by
  simp [final, foldl_append]

theorem outputs_append (s : σ) (as bs : List α) :
    T.outputs s (as ++ bs) = T.outputs s as ++ T.outputs (T.final s as) bs := by
  induction as generalizing s with
  | nil => rfl
  | cons a as ih => simp [ih]

variable {s : σ}

/-- The calls with their answers. -/
def log : σ → List α → List (α × β)
  | _, [] => []
  | s, a :: as => (a, (T.step s a).2) :: log (T.step s a).1 as

@[simp] theorem log_nil (s : σ) : T.log s [] = [] := rfl

@[simp] theorem log_cons (s : σ) (a : α) (as : List α) :
    T.log s (a :: as) = (a, (T.step s a).2) :: T.log (T.step s a).1 as := rfl

theorem map_fst_log (s : σ) (as : List α) : (T.log s as).map Prod.fst = as := by
  induction as generalizing s with
  | nil => rfl
  | cons a as ih => simp [ih]

variable {as : List α} {e : α × β}

theorem fst_mem_of_mem_log (h : e ∈ T.log s as) : e.1 ∈ as :=
  T.map_fst_log s as ▸ mem_map_of_mem h

theorem mem_log (h : e ∈ T.log s as) : ∃ s', e.2 = (T.step s' e.1).2 := by
  induction as generalizing s with
  | nil => cases h
  | cons a as ih =>
    rcases mem_cons.mp h with rfl | h
    · exact ⟨s, rfl⟩
    · exact ih h

/-- A machine that another one follows, call by call, can be read off that one's log. -/
theorem outputs_of_log {τ γ δ : Type*} (U : Transducer τ γ δ) {r : σ → τ} {f : α → γ}
    {g : α × β → δ} (hstep : ∀ s a, U.step (r s) (f a) = (r (T.step s a).1, g (a, (T.step s a).2)))
    (s : σ) (as : List α) : U.outputs (r s) (as.map f) = (T.log s as).map g := by
  induction as generalizing s with
  | nil => rfl
  | cons a as ih => simp [hstep, ih]

/-- Every call meets the condition in the state in which it is made. -/
def Along (C : σ → α → Prop) : σ → List α → Prop
  | _, [] => True
  | s, a :: as => C s a ∧ Along C (T.step s a).1 as

theorem along_append (C : σ → α → Prop) (s : σ) (as bs : List α) :
    T.Along C s (as ++ bs) ↔ T.Along C s as ∧ T.Along C (T.final s as) bs := by
  induction as generalizing s with
  | nil => simp [Along]
  | cons a as ih => simp [Along, ih, and_assoc]

section Along

variable {T} {C : σ → α → Prop} {P : σ → Prop} {s : σ} {as : List α}

/-- An invariant of the calls that meet a condition holds after every run of such calls. -/
theorem along_invariant (hstep : ∀ s a, P s → C s a → P (T.step s a).1) (hs : P s)
    (h : T.Along C s as) : P (T.final s as) := by
  induction as generalizing s with
  | nil => exact hs
  | cons a as ih => exact ih (hstep s a hs h.1) h.2

/-- An invariant of the state and the answers so far, kept by the calls that meet a condition. -/
theorem along_history {P : σ → List β → Prop}
    (hstep : ∀ s os a, P s os → C s a → P (T.step s a).1 (os ++ [(T.step s a).2]))
    (hs : P s []) (h : T.Along C s as) : P (T.final s as) (T.outputs s as) := by
  induction as using List.reverseRecOn with
  | nil => exact hs
  | append_singleton as a ih =>
    obtain ⟨has, ha, -⟩ := (T.along_append C s as [a]).mp h
    simpa [final_append, outputs_append] using hstep _ _ a (ih has) ha

theorem along_iff_forall_split :
    T.Along C s as ↔ ∀ pre a post, as = pre ++ a :: post → C (T.final s pre) a := by
  constructor
  · rintro h pre a post rfl
    exact ((T.along_append C s pre (a :: post)).mp h).2.1
  · intro h
    induction as generalizing s with
    | nil => trivial
    | cons a as ih =>
      refine ⟨h [] a as rfl, ih fun pre b post hsplit => ?_⟩
      exact h (a :: pre) b post (by rw [hsplit, cons_append])

theorem along_map {τ γ δ : Type*} {U : Transducer τ γ δ} {E : τ → γ → Prop} {r : σ → τ} {f : α → γ}
    (hstep : ∀ s a, (U.step (r s) (f a)).1 = r (T.step s a).1) (himp : ∀ s a, C s a → E (r s) (f a))
    (h : T.Along C s as) : U.Along E (r s) (as.map f) := by
  induction as generalizing s with
  | nil => trivial
  | cons a as ih => exact ⟨himp s a h.1, hstep s a ▸ ih h.2⟩

theorem along_of_log {Q : α → β → Prop} (h : ∀ e ∈ T.log s as, Q e.1 e.2) :
    T.Along (fun s a => Q a (T.step s a).2) s as := by
  induction as generalizing s with
  | nil => trivial
  | cons a as ih =>
    rw [log_cons, forall_mem_cons] at h
    exact ⟨h.1, ih h.2⟩

theorem along_of_forall (h : ∀ s a, C s a) : T.Along C s as := by
  induction as generalizing s with
  | nil => trivial
  | cons a as ih => exact ⟨h s a, ih⟩

variable (T) in
/-- An invariant of the state and the answers so far holds after every sequence of calls. -/
theorem history_invariant {P : σ → List β → Prop}
    (hstep : ∀ s os a, P s os → P (T.step s a).1 (os ++ [(T.step s a).2]))
    (hs : P s []) (as : List α) : P (T.final s as) (T.outputs s as) :=
  along_history (C := fun _ _ => True) (fun s os a h _ => hstep s os a h) hs
    (along_of_forall fun _ _ => trivial)

end Along

/-- Two machines that stay related while a condition holds, and answer differently where
it fails, give the same answers exactly on the runs along which it holds. -/
theorem outputs_agree_iff {τ ω : Type*} (U : Transducer τ α β) (obs : β → ω)
    {R : σ → τ → Prop} {C : σ → α → Prop}
    (hagree : ∀ s t a, R s t → C s a →
      R (T.step s a).1 (U.step t a).1 ∧ obs (U.step t a).2 = obs (T.step s a).2)
    (hdiffer : ∀ s t a, R s t → ¬ C s a → obs (U.step t a).2 ≠ obs (T.step s a).2) {t : τ}
    (h : R s t) (as : List α) :
    (U.outputs t as).map obs = (T.outputs s as).map obs ↔ T.Along C s as := by
  induction as generalizing s t with
  | nil => simp [Along]
  | cons a as ih =>
    simp only [outputs_cons, map_cons, List.cons.injEq, Along]
    by_cases hc : C s a
    · obtain ⟨hr, hobs⟩ := hagree s t a h hc
      simp only [hobs, hc, true_and]
      exact ih hr
    · simp [hc, hdiffer s t a h hc]

end Transducer

end Cfgms
