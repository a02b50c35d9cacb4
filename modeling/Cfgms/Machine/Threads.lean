import Cfgms.Machine.Runs

/-! # Interleaved programs

A program makes one atomic call after the other on a shared state, and a pool runs programs in any
interleaving. A discipline carries what a program knows between its calls through the steps of the
others; a debt is a state of affairs that some program of the pool is bound to end.
-/

namespace Cfgms

open List

/-- Atomic operations on a shared state, by the type of their answers. The caller is known by
its place in the pool, and `ε` is what the environment decides at a call. -/
structure Interface (σ ε : Type*) where
  Op : Type → Type
  exec : {β : Type} → Op β → ℕ → σ → ε → σ × β

variable {σ ε : Type*}

theorem forall_except {ε α : Type} {P : Except ε α → Prop} :
    (∀ r, P r) ↔ (∀ e, P (.error e)) ∧ ∀ a, P (.ok a) := by
  constructor
  · intro h
    exact ⟨fun e => h _, fun a => h _⟩
  · rintro ⟨herror, hok⟩ (e | a)
    · exact herror e
    · exact hok a

inductive Program (A : Interface σ ε) (α : Type) where
  | done (a : α)
  | call {β : Type} (o : A.Op β) (next : β → Program A α)

namespace Program

variable {A : Interface σ ε} {α β γ : Type}

def isDone : Program A α → Bool
  | done _ => true
  | call _ _ => false

protected def bind : Program A α → (α → Program A β) → Program A β
  | done a, f => f a
  | call o next, f => call o fun r => (next r).bind f

def op (o : A.Op α) : Program A α := call o done

instance : Monad (Program A) where
  pure := done
  bind := Program.bind

variable (a : α)

@[simp] theorem pure_eq : (pure a : Program A α) = done a := rfl

@[simp] theorem done_bind (f : α → Program A β) : done a >>= f = f a := rfl

@[simp] theorem op_bind (o : A.Op α) (f : α → Program A β) : op o >>= f = call o f := rfl

/-- Every call that the program can come to make satisfies `P`. -/
def All (P : ∀ {β : Type}, A.Op β → Prop) : Program A α → Prop
  | done _ => True
  | call o next => P o ∧ ∀ r, (next r).All P

variable {P : ∀ {β : Type}, A.Op β → Prop}

@[simp] theorem all_done : (done a : Program A α).All P := trivial

@[simp] theorem all_pure : (pure a : Program A α).All P := trivial

@[simp] theorem all_op (o : A.Op α) : (op o).All P ↔ P o := by
  simp [op, All]

@[simp] theorem all_call (o : A.Op β) (next : β → Program A α) :
    (call o next).All P ↔ P o ∧ ∀ r, (next r).All P := Iff.rfl

variable {p : Program A α}

@[simp] theorem all_ite {c : Prop} [Decidable c] {q : Program A α} :
    (if c then p else q).All P ↔ (c → p.All P) ∧ (¬ c → q.All P) := by
  split <;> simp [*]

theorem All.mono {P' : ∀ {β : Type}, A.Op β → Prop} (hp : p.All P)
    (h : ∀ {β : Type} {o : A.Op β}, P o → P' o) : p.All P' := by
  induction p with
  | done a => trivial
  | call o next ih => exact ⟨h hp.1, fun r => ih r (hp.2 r)⟩

variable {f : α → Program A β}

theorem All.bind (hp : p.All P) (hf : ∀ a, (f a).All P) : (p >>= f).All P := by
  induction p with
  | done a => exact hf a
  | call o next ih => exact ⟨hp.1, fun r => ih r (hp.2 r)⟩

/-- Whatever the calls answer, the program ends with an answer in `R`. -/
def Returns (R : α → Prop) : Program A α → Prop
  | done a => R a
  | call _ next => ∀ r, (next r).Returns R

variable {R : α → Prop}

theorem Returns.bind {R' : β → Prop}
    (hp : p.Returns R) (hf : ∀ a, R a → (f a).Returns R') : (p >>= f).Returns R' := by
  induction p with
  | done a => exact hf a hp
  | call o next ih => exact fun r => ih r (hp r)

theorem All.bind_returns (hp : p.All P)
    (hr : p.Returns R) (hf : ∀ a, R a → (f a).All P) : (p >>= f).All P := by
  induction p with
  | done a => exact hf a hr
  | call o next ih => exact ⟨hp.1, fun r => ih r (hp.2 r) (hr r)⟩

theorem Returns.mono {R' : α → Prop} (hp : p.Returns R) (h : ∀ a, R a → R' a) : p.Returns R' := by
  induction p with
  | done a => exact h a hp
  | call o next ih => exact fun r => ih r (hp r)

theorem returns_true (p : Program A α) : p.Returns fun _ => True := by
  induction p with
  | done a => trivial
  | call o next ih => exact ih

section Ends

variable (G : ∀ {β : Type}, σ → ℕ → A.Op β → ε → Prop) (tid : ℕ)

/-- The program, by itself and with permitted choices of the environment, ends with an answer
in a state. -/
def Ends : σ → Program A α → σ → α → Prop
  | s, done a, s', b => s' = s ∧ b = a
  | s, call o next, s', b => ∃ env, G s tid o env ∧
      Ends (A.exec o tid s env).1 (next (A.exec o tid s env).2) s' b

/-- The outcome of a program under the given choices of the environment. -/
def eval [∀ {β : Type} s tid (o : A.Op β) env, Decidable (G s tid o env)] :
    List ε → σ → Program A α → Option (σ × α)
  | [], s, done a => some (s, a)
  | env :: envs, s, call o next =>
    if G s tid o env then
      eval envs (A.exec o tid s env).1 (next (A.exec o tid s env).2)
    else none
  | _ :: _, _, done _ => none
  | [], _, call _ _ => none

def outcome (choose : ∀ {β : Type}, A.Op β → ε) : σ → Program A α → σ × α
  | s, done a => (s, a)
  | s, call o next =>
    outcome choose (A.exec o tid s (choose o)).1 (next (A.exec o tid s (choose o)).2)

variable {G tid} {s s' : σ}
variable {a b : α}

@[simp] theorem ends_done : Ends G tid s (done a) s' b ↔ s' = s ∧ b = a := Iff.rfl

theorem ends_op_bind {o : A.Op β} {f : β → Program A α} :
    Ends G tid s (op o >>= f) s' b ↔ ∃ env, G s tid o env ∧
      Ends G tid (A.exec o tid s env).1 (f (A.exec o tid s env).2) s' b := Iff.rfl

variable {p : Program A α}

theorem ends_bind {f : α → Program A β} {b : β} :
    Ends G tid s (p >>= f) s' b ↔ ∃ s₁ a, Ends G tid s p s₁ a ∧ Ends G tid s₁ (f a) s' b := by
  induction p generalizing s with
  | done a =>
    constructor
    · intro h
      exact ⟨s, a, ⟨rfl, rfl⟩, h⟩
    · rintro ⟨_, _, ⟨rfl, rfl⟩, h⟩
      exact h
  | call o next ih =>
    constructor
    · rintro ⟨env, hg, h⟩
      obtain ⟨s₁, a, hp, hf⟩ := (ih _).mp h
      exact ⟨s₁, a, ⟨env, hg, hp⟩, hf⟩
    · rintro ⟨s₁, a, ⟨env, hg, hp⟩, hf⟩
      exact ⟨env, hg, (ih _).mpr ⟨s₁, a, hp, hf⟩⟩

theorem ends_of_eval [∀ {β : Type} s tid (o : A.Op β) env, Decidable (G s tid o env)]
    {envs : List ε} (h : eval G tid envs s p = some (s', a)) :
    Ends G tid s p s' a := by
  induction p generalizing s envs with
  | done b =>
    cases envs with
    | nil =>
      obtain ⟨rfl, rfl⟩ := Prod.mk.inj (Option.some.inj h)
      exact ⟨rfl, rfl⟩
    | cons env envs => cases h
  | call o next ih =>
    cases envs with
    | nil => cases h
    | cons env envs =>
      unfold eval at h
      split at h
      · next hg => exact ⟨env, hg, ih _ h⟩
      · cases h

/-- A part of the state that no call of the program changes. -/
theorem outcome_keeps {γ : Type*} (f : σ → γ) {choose : ∀ {β : Type}, A.Op β → ε}
    (h : p.All fun o => ∀ s env, f (A.exec o tid s env).1 = f s) (s : σ) :
    f (p.outcome tid choose s).1 = f s := by
  induction p generalizing s with
  | done a => rfl
  | call o next ih => exact (ih _ (h.2 _) _).trans (h.1 s _)

theorem outcome_bind (choose : ∀ {β : Type}, A.Op β → ε) (p : Program A α)
    (f : α → Program A β) (s : σ) :
    (p >>= f).outcome tid choose s =
      (f (p.outcome tid choose s).2).outcome tid choose (p.outcome tid choose s).1 := by
  induction p generalizing s with
  | done a => rfl
  | call o next ih => exact ih _ _

end Ends

end Program

structure Pool (A : Interface σ ε) where
  state : σ
  threads : List (Program A Unit)

/-- A call of the given kind begins, or a program makes its next call. -/
inductive PoolAction (κ ε : Type*) where
  | start (c : κ)
  | tick (tid : ℕ) (env : ε)

namespace Pool

variable {A : Interface σ ε} {κ : Type*} (code : κ → Program A Unit)

def advance {β : Type} (p : Pool A) (tid : ℕ) (env : ε) (o : A.Op β)
    (next : β → Program A Unit) : Pool A :=
  ⟨(A.exec o tid p.state env).1, p.threads.set tid (next (A.exec o tid p.state env).2)⟩

def step (p : Pool A) : PoolAction κ ε → Option (Pool A)
  | .start c => some ⟨p.state, p.threads ++ [code c]⟩
  | .tick tid env =>
    match p.threads[tid]? with
    | some (.call o next) => some (p.advance tid env o next)
    | some (.done _) => none
    | none => none

def machine : Machine (Pool A) (PoolAction κ ε) := ⟨step code⟩

/-- No program has calls left to make. -/
def Idle (p : Pool A) : Prop := ∀ q ∈ p.threads, q.isDone

instance (p : Pool A) : Decidable p.Idle :=
  inferInstanceAs (Decidable (∀ q ∈ p.threads, q.isDone))

/-- A condition on the programs that begin and on the calls that are made. -/
def Permitted (S : σ → κ → Prop) (G : ∀ {β : Type}, σ → ℕ → A.Op β → ε → Prop) (p : Pool A) :
    PoolAction κ ε → Prop
  | .start c => S p.state c
  | .tick tid env =>
    match p.threads[tid]? with
    | some (.call o _) => G p.state tid o env
    | some (.done _) => True
    | none => True

instance (S : σ → κ → Prop) (G : ∀ {β : Type}, σ → ℕ → A.Op β → ε → Prop)
    [∀ s c, Decidable (S s c)] [∀ {β : Type} s tid (o : A.Op β) env, Decidable (G s tid o env)]
    (p : Pool A) (a : PoolAction κ ε) : Decidable (Permitted S G p a) :=
  match a with
  | .start c => inferInstanceAs (Decidable (S p.state c))
  | .tick tid env => by
    unfold Permitted
    dsimp only
    split <;> infer_instance

variable {code}

/-- What the programs that begin and the calls that are made keep holds after a run. -/
theorem run_rule {S : σ → κ → Prop} {G : ∀ {β : Type}, σ → ℕ → A.Op β → ε → Prop}
    {P : Pool A → Prop} (hstart : ∀ p c, P p → S p.state c → P ⟨p.state, p.threads ++ [code c]⟩)
    (hadvance : ∀ {p tid env} {β : Type} {o : A.Op β} {next}, P p →
      p.threads[tid]? = some (.call o next) → G p.state tid o env → P (p.advance tid env o next))
    {as : List (PoolAction κ ε)} {p p' : Pool A} (hp : P p)
    (hguarded : (machine code).Guarded (Permitted S G) p as)
    (hrun : (machine code).run p as = some p') : P p' := by
  apply (machine code).run_invariant (P := P) _ as p p' hp hguarded hrun
  intro p a p' hp hpermitted hstep
  cases a with
  | start c =>
    cases hstep
    exact hstart p c hp hpermitted
  | tick tid env =>
    simp only [machine, step] at hstep
    simp only [Permitted] at hpermitted
    split at hstep
    · next o next hthread =>
      cases hstep
      rw [hthread] at hpermitted
      exact hadvance hp hthread hpermitted
    all_goals cases hstep

end Pool

/-- `Rely tid` is what the calls of the other programs may do, as the program at `tid` sees it,
and `Pre` is what a program must know in order to make a call. -/
structure Discipline (A : Interface σ ε) where
  Inv : σ → Prop
  Guard : {β : Type} → σ → ℕ → A.Op β → ε → Prop
  Pre : {β : Type} → σ → ℕ → A.Op β → Prop
  Rely : ℕ → σ → σ → Prop
  rely_refl : ∀ tid s, Rely tid s s
  rely_trans : ∀ {tid s s' s''}, Rely tid s s' → Rely tid s' s'' → Rely tid s s''
  exec_inv : ∀ {β : Type} {s tid} {o : A.Op β} {env}, Inv s → Pre s tid o →
    Guard s tid o env → Inv (A.exec o tid s env).1
  exec_rely : ∀ {β : Type} {s tid} {o : A.Op β} {env t}, Inv s → Pre s tid o →
    Guard s tid o env → t ≠ tid → Rely t s (A.exec o tid s env).1

namespace Discipline

variable {A : Interface σ ε} {α β : Type} {κ : Type*} (D : Discipline A) {tid : ℕ}
  {Q : σ → α → Prop} {Q' : σ → β → Prop} {s s' : σ}

/-- Whatever the others do, the program meets the precondition of each of its calls, and
`Q` holds where it ends. -/
def Safe (tid : ℕ) (Q : σ → α → Prop) : σ → Program A α → Prop
  | s, .done a => Q s a
  | s, .call o next => ∀ s', D.Rely tid s s' → D.Inv s' → D.Pre s' tid o ∧
      ∀ env, D.Guard s' tid o env →
        Safe tid Q (A.exec o tid s' env).1 (next (A.exec o tid s' env).2)

/-- A program that is safe wherever it ends. -/
abbrev Runs (tid : ℕ) (s : σ) (p : Program A α) : Prop := D.Safe tid (fun _ _ => True) s p

variable {D}

@[simp] theorem safe_done {a : α} : D.Safe tid Q s (.done a) ↔ Q s a := Iff.rfl

variable {o : A.Op β}

theorem safe_call {next : β → Program A α} :
    D.Safe tid Q s (.call o next) ↔ ∀ s', D.Rely tid s s' → D.Inv s' → D.Pre s' tid o ∧
      ∀ env, D.Guard s' tid o env →
        D.Safe tid Q (A.exec o tid s' env).1 (next (A.exec o tid s' env).2) := Iff.rfl

theorem safe_op_bind {f : β → Program A α} :
    D.Safe tid Q s (Program.op o >>= f) ↔ ∀ s', D.Rely tid s s' → D.Inv s' → D.Pre s' tid o ∧
      ∀ env, D.Guard s' tid o env →
        D.Safe tid Q (A.exec o tid s' env).1 (f (A.exec o tid s' env).2) := Iff.rfl

variable {p : Program A α}

theorem Safe.bind {f : α → Program A β} (hp : D.Safe tid Q s p)
    (hf : ∀ s a, Q s a → D.Safe tid Q' s (f a)) : D.Safe tid Q' s (p >>= f) := by
  induction p generalizing s with
  | done a => exact hf s a hp
  | call o next ih =>
    intro s' hrely hinv
    obtain ⟨hpre, hnext⟩ := hp s' hrely hinv
    exact ⟨hpre, fun env hguard => ih _ (hnext env hguard)⟩

theorem Safe.mono {Q' : σ → α → Prop} (hp : D.Safe tid Q s p)
    (hq : ∀ s a, Q s a → Q' s a) : D.Safe tid Q' s p := by
  induction p generalizing s with
  | done a => exact hq s a hp
  | call o next ih =>
    intro s' hrely hinv
    obtain ⟨hpre, hnext⟩ := hp s' hrely hinv
    exact ⟨hpre, fun env hguard => ih _ (hnext env hguard)⟩

theorem Safe.returns {R : α → Prop} (hp : D.Safe tid Q s p)
    (hr : p.Returns R) : D.Safe tid (fun s a => Q s a ∧ R a) s p := by
  induction p generalizing s with
  | done a => exact ⟨hp, hr⟩
  | call o next ih =>
    intro s' hrely hinv
    obtain ⟨hpre, hnext⟩ := hp s' hrely hinv
    exact ⟨hpre, fun env hguard => ih _ (hnext env hguard) (hr _)⟩

/-- A program is safe if what it knows is enough for each of its calls and outlasts them. -/
theorem Safe.of_all {P : ∀ {β : Type}, A.Op β → Prop} {K : σ → Prop}
    (hp : p.All P) (hpre : ∀ {β : Type} {s} {o : A.Op β}, P o → D.Inv s → K s → D.Pre s tid o)
    (hrely : ∀ {s s'}, K s → D.Rely tid s s' → K s')
    (hexec : ∀ {β : Type} {s} {o : A.Op β} {env}, P o → D.Inv s → D.Guard s tid o env → K s →
      K (A.exec o tid s env).1) (hs : K s) : D.Safe tid (fun s _ => K s) s p := by
  induction p generalizing s with
  | done a => exact hs
  | call o next ih =>
    intro s' h hinv
    have hs' : K s' := hrely hs h
    exact ⟨hpre hp.1 hinv hs', fun env hguard =>
      ih _ (hp.2 _) (hexec hp.1 hinv hguard hs')⟩

/-- What the others do leaves a program safe. -/
theorem Safe.rely {p : Program A Unit} (hp : D.Runs tid s p)
    (hrely : D.Rely tid s s') : D.Runs tid s' p := by
  cases p with
  | done a => trivial
  | call o next => exact fun s'' hrely' hinv => hp s'' (D.rely_trans hrely hrely') hinv

variable (D) in
/-- The invariant holds and every program of the pool is safe. -/
def Sound (p : Pool A) : Prop :=
  D.Inv p.state ∧ ∀ tid q, p.threads[tid]? = some q → D.Safe tid (fun _ _ => True) p.state q

variable {code : κ → Program A Unit} {S : σ → κ → Prop}

theorem sound_start {p : Pool A} {c : κ} (hp : D.Sound p)
    (hcode : ∀ tid, D.Runs tid p.state (code c)) :
    D.Sound ⟨p.state, p.threads ++ [code c]⟩ := by
  constructor
  · exact hp.1
  · intro tid q hq
    rw [getElem?_append] at hq
    split at hq
    · exact hp.2 tid q hq
    · obtain ⟨_, rfl⟩ := List.getElem?_eq_some_iff.mp hq
      simpa using hcode tid

theorem sound_advance {p : Pool A} {tid : ℕ} {env : ε} {next : β → Program A Unit} (hp : D.Sound p)
    (hthread : p.threads[tid]? = some (.call o next)) (hguard : D.Guard p.state tid o env) :
    D.Sound (p.advance tid env o next) := by
  obtain ⟨hpre, hnext⟩ := hp.2 tid _ hthread p.state (D.rely_refl tid p.state) hp.1
  constructor
  · exact D.exec_inv hp.1 hpre hguard
  · intro t q hq
    rw [Pool.advance, getElem?_set] at hq
    split at hq
    · next htid =>
      subst htid
      split at hq <;> cases hq
      exact hnext env hguard
    · next htid => exact (hp.2 t q hq).rely (D.exec_rely hp.1 hpre hguard (Ne.symm htid))

variable {as : List (PoolAction κ ε)} {p' : Pool A}

/-- Every run of permitted steps stays sound. -/
theorem run_sound (hcode : ∀ s c tid, D.Inv s → S s c → D.Runs tid s (code c))
    {p : Pool A} (hp : D.Sound p)
    (hguarded : (Pool.machine code).Guarded (Pool.Permitted S D.Guard) p as)
    (hrun : (Pool.machine code).run p as = some p') : D.Sound p' := by
  apply Pool.run_rule (P := D.Sound) _ sound_advance hp hguarded hrun
  exact fun p c hp hstart => sound_start hp fun tid => hcode p.state c tid hp.1 hstart

/-- What every permitted call does to the state, a run of permitted steps does. -/
theorem run_rel {R : σ → σ → Prop} (hrefl : ∀ s, R s s)
    (htrans : ∀ s s' s'', R s s' → R s' s'' → R s s'')
    (hexec : ∀ {β : Type} {s tid} {o : A.Op β} {env}, D.Inv s → D.Pre s tid o →
      D.Guard s tid o env → R s (A.exec o tid s env).1)
    (hcode : ∀ s c tid, D.Inv s → S s c → D.Runs tid s (code c)) {p : Pool A} (hp : D.Sound p)
    (hguarded : (Pool.machine code).Guarded (Pool.Permitted S D.Guard) p as)
    (hrun : (Pool.machine code).run p as = some p') : R p.state p'.state := by
  suffices h : D.Sound p' ∧ R p.state p'.state from h.2
  apply Pool.run_rule (P := fun p' => D.Sound p' ∧ R p.state p'.state) _ _ ⟨hp, hrefl p.state⟩
    hguarded hrun
  · rintro q c ⟨hq, hrel⟩ hstart
    exact ⟨sound_start hq fun tid => hcode q.state c tid hq.1 hstart, hrel⟩
  · rintro q tid env β o next ⟨hq, hrel⟩ hthread hguard
    obtain ⟨hpre, _⟩ := hq.2 tid _ hthread q.state (D.rely_refl tid q.state) hq.1
    exact ⟨sound_advance hq hthread hguard, htrans _ _ _ hrel (hexec hq.1 hpre hguard)⟩

end Discipline

/-- A state of affairs that is due to be ended, the calls that end it, and the answers that
calls can give while it lasts. -/
structure Debt (A : Interface σ ε) where
  Due : σ → Prop
  Pays : {β : Type} → A.Op β → Prop
  Answers : {β : Type} → A.Op β → β → Prop

namespace Debt

variable {A : Interface σ ε} {α β : Type} {κ : Type*} (B : Debt A) (D : Discipline A)

/-- The program makes a paying call before it ends, unless it ends with a promise to do so. -/
def Owes (promised : α → Prop) : Program A α → Prop
  | .done a => promised a
  | .call o next => B.Pays o ∨ ∀ r, B.Answers o r → Owes promised (next r)

/-- Where a call of the program brings the debt about, the rest of the program owes it. -/
def Accountable (promised : α → Prop) : Program A α → Prop
  | .done _ => True
  | .call o next => ∀ s tid env, D.Inv s → D.Pre s tid o → D.Guard s tid o env →
      (¬ B.Due s → B.Due (A.exec o tid s env).1 →
        B.Owes promised (next (A.exec o tid s env).2)) ∧
      Accountable promised (next (A.exec o tid s env).2)

/-- A program that pays whatever it brings about. -/
abbrev Settles (p : Program A α) : Prop := B.Accountable D (fun _ => False) p

/-- A paying call ends what is due, and other calls give the expected answers while it lasts. -/
structure Lawful : Prop where
  not_due : ∀ {β : Type} {s tid} {o : A.Op β} {env}, D.Inv s → D.Pre s tid o →
    D.Guard s tid o env → B.Pays o → ¬ B.Due (A.exec o tid s env).1
  answers : ∀ {β : Type} {s tid} {o : A.Op β} {env}, D.Inv s → D.Pre s tid o →
    D.Guard s tid o env → B.Due s → B.Due (A.exec o tid s env).1 →
    B.Answers o (A.exec o tid s env).2

/-- Some program of the pool owes what is due, and every program answers for its calls. -/
structure Covered (p : Pool A) : Prop where
  sound : D.Sound p
  owed : B.Due p.state → ∃ (tid : ℕ) (q : Program A Unit), p.threads[tid]? = some q ∧
    B.Owes (fun _ => False) q
  accountable : ∀ q ∈ p.threads, B.Accountable D (fun _ => False) q

variable {B D} {promised : α → Prop} {promised' : β → Prop}

@[simp] theorem owes_done {a : α} : B.Owes promised (.done a) ↔ promised a := Iff.rfl

variable {o : A.Op β}

@[simp] theorem owes_call {next : β → Program A α} : B.Owes promised (.call o next) ↔
      B.Pays o ∨ ∀ r, B.Answers o r → B.Owes promised (next r) := Iff.rfl

variable {p : Program A α} {f : α → Program A β}

theorem Owes.bind (hp : B.Owes promised p)
    (hf : ∀ a, promised a → B.Owes promised' (f a)) : B.Owes promised' (p >>= f) := by
  induction p with
  | done a => exact hf a hp
  | call o next ih =>
    rcases hp with hpays | hnext
    · exact .inl hpays
    · exact .inr fun r hr => ih r (hnext r hr)

/-- Calls that pay nothing leave the debt to what follows. -/
theorem Owes.skip (hf : ∀ a, B.Owes promised' (f a)) : B.Owes promised' (p >>= f) := by
  induction p with
  | done a => exact hf a
  | call o next ih => exact .inr fun r _ => ih r

theorem accountable_op_bind {f : β → Program A α} : B.Accountable D promised (Program.op o >>= f) ↔
      ∀ s tid env, D.Inv s → D.Pre s tid o → D.Guard s tid o env →
        (¬ B.Due s → B.Due (A.exec o tid s env).1 → B.Owes promised (f (A.exec o tid s env).2)) ∧
        B.Accountable D promised (f (A.exec o tid s env).2) := Iff.rfl

theorem Accountable.bind
    (hp : B.Accountable D promised p) (hf : ∀ a, B.Accountable D promised' (f a))
    (howes : ∀ a, promised a → B.Owes promised' (f a)) :
    B.Accountable D promised' (p >>= f) := by
  induction p with
  | done a => exact hf a
  | call o next ih =>
    intro s tid env hinv hpre hguard
    obtain ⟨hdue, hnext⟩ := hp s tid env hinv hpre hguard
    exact ⟨fun h h' => (hdue h h').bind howes, ih _ hnext⟩

/-- A program whose calls never bring the debt about answers for them. -/
theorem Accountable.of_all {P : ∀ {β : Type}, A.Op β → Prop} (hp : p.All P)
    (hexec : ∀ {β : Type} {s tid} {o : A.Op β} {env}, P o → D.Inv s → D.Pre s tid o →
      D.Guard s tid o env → ¬ B.Due s → ¬ B.Due (A.exec o tid s env).1) :
    B.Accountable D promised p := by
  induction p with
  | done a => trivial
  | call o next ih =>
    intro s tid env hinv hpre hguard
    exact ⟨fun h h' => absurd h' (hexec hp.1 hinv hpre hguard h), ih _ (hp.2 _)⟩

/-- Where nothing is left to do, nothing is due. -/
theorem Covered.not_due {p : Pool A} (hp : B.Covered D p) (hidle : p.Idle) : ¬ B.Due p.state := by
  intro hdue
  obtain ⟨tid, q, hq, howes⟩ := hp.owed hdue
  have hdone := hidle q (mem_of_getElem? hq)
  cases q with
  | done u => exact howes
  | call o next => cases hdone

variable {code : κ → Program A Unit} {S : σ → κ → Prop}

theorem Covered.start {p : Pool A} {c : κ} (hp : B.Covered D p)
    (hsafe : ∀ tid, D.Runs tid p.state (code c))
    (hcode : B.Settles D (code c)) :
    B.Covered D ⟨p.state, p.threads ++ [code c]⟩ := by
  refine ⟨Discipline.sound_start hp.sound hsafe, fun h => ?_,
    forall_mem_append.mpr ⟨hp.accountable, forall_mem_singleton.mpr hcode⟩⟩
  obtain ⟨tid, q, hq, howes⟩ := hp.owed h
  have hlt : tid < p.threads.length := (List.getElem?_eq_some_iff.mp hq).1
  exact ⟨tid, q, (getElem?_append_left hlt).trans hq, howes⟩

theorem Covered.advance (hlaw : B.Lawful D) {p : Pool A} {tid : ℕ} {env : ε}
    {next : β → Program A Unit} (hp : B.Covered D p)
    (hthread : p.threads[tid]? = some (.call o next)) (hguard : D.Guard p.state tid o env) :
    B.Covered D (p.advance tid env o next) := by
  have hinv : D.Inv p.state := hp.sound.1
  obtain ⟨hpre, _⟩ := hp.sound.2 tid _ hthread p.state (D.rely_refl tid p.state) hinv
  obtain ⟨hrise, hnext⟩ :=
    hp.accountable _ (mem_of_getElem? hthread) p.state tid env hinv hpre hguard
  have hlt : tid < p.threads.length := (List.getElem?_eq_some_iff.mp hthread).1
  have hself : (p.advance tid env o next).threads[tid]? =
      some (next (A.exec o tid p.state env).2) := getElem?_set_self hlt
  refine ⟨Discipline.sound_advance hp.sound hthread hguard, fun h => ?_, fun q hq => ?_⟩
  · by_cases hbefore : B.Due p.state
    · obtain ⟨t, q, hq, howes⟩ := hp.owed hbefore
      rcases eq_or_ne t tid with rfl | hne
      · -- The program that owes makes its next call, which is no payment: the debt lasts.
        cases hq.symm.trans hthread
        rcases howes with hpays | hrest
        · exact absurd h (hlaw.not_due hinv hpre hguard hpays)
        · exact ⟨t, _, hself, hrest _ (hlaw.answers hinv hpre hguard hbefore h)⟩
      · exact ⟨t, q, (getElem?_set_ne hne.symm).trans hq, howes⟩
    · exact ⟨tid, _, hself, hrise hbefore h⟩
  · rcases mem_or_eq_of_mem_set hq with hold | rfl
    · exact hp.accountable q hold
    · exact hnext

/-- Every run of permitted steps keeps what is due covered. -/
theorem run_covered (hlaw : B.Lawful D)
    (hsafe : ∀ s c tid, D.Inv s → S s c → D.Runs tid s (code c))
    (hcode : ∀ s c, D.Inv s → S s c → B.Settles D (code c))
    {as : List (PoolAction κ ε)} {p p' : Pool A} (hp : B.Covered D p)
    (hguarded : (Pool.machine code).Guarded (Pool.Permitted S D.Guard) p as)
    (hrun : (Pool.machine code).run p as = some p') : B.Covered D p' := by
  apply Pool.run_rule (P := B.Covered D) _ (fun hp => hp.advance hlaw) hp hguarded hrun
  exact fun p c hp hstart => hp.start (fun tid => hsafe p.state c tid hp.sound.1 hstart)
    (hcode p.state c hp.sound.1 hstart)

end Debt

end Cfgms
