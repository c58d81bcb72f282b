import Mathlib.Logic.Function.Basic
import Mathlib.Algebra.Order.Ring.Int

/-!
# Programs of atomic steps, interleaved

A program over a shared state is a tree of atomic steps: each step reads the whole state and one input of the environment (a
clock reading, the answer of a service, a fresh identifier), updates the state, and goes on with what it read. A pool is a shared
state and one program for each thread; a schedule picks, step after step, the thread that moves and the input it receives.

The proof rules are those of rely-guarantee reasoning: a program is `Valid` when, from what it knows (an assertion that its rely
`R` keeps), each of its steps lands inside its guarantee `G`, which may depend on the tag of the step. A step may be excused by a
condition `C` on its tag, its input and the state before it; the run theorems are then about the runs whose steps all meet `C`.
-/

namespace Interleave

/-- A program over the shared state `σ` that returns an `α`. A step carries a tag (which step of the source it is), the update it
makes and the program it goes on with; both read the input of the step and the state before it. -/
inductive Prog (τ ι σ α : Type) : Type where
  | done (a : α)
  | act (tag : τ) (update : ι → σ → σ) (next : ι → σ → Prog τ ι σ α)

namespace Prog

variable {τ ι σ α β : Type}

/-- Sequencing: the steps of the first program, then those of the second. -/
def bind : Prog τ ι σ α → (α → Prog τ ι σ β) → Prog τ ι σ β
  | .done a, f => f a
  | .act t u n, f => .act t u (fun i s => (n i s).bind f)

instance : Monad (Prog τ ι σ) where
  pure := .done
  bind := bind

/-- One atomic step that updates the state and returns a value. -/
def atomic (tag : τ) (f : ι → σ → σ × α) : Prog τ ι σ α :=
  .act tag (fun i s => (f i s).1) (fun i s => .done (f i s).2)

/-- One atomic step that only reads. -/
def read (tag : τ) (f : ι → σ → α) : Prog τ ι σ α := atomic tag (fun i s => (s, f i s))

/-- A loop over a list that a body may leave early with a value. -/
def firstSome (body : β → Prog τ ι σ (Option α)) : List β → Prog τ ι σ (Option α)
  | [] => .done none
  | b :: bs => (body b).bind fun
    | some a => .done (some a)
    | none => firstSome body bs

/-- A loop over a list that folds what its body returns. -/
def foldl (body : α → β → Prog τ ι σ α) : α → List β → Prog τ ι σ α
  | a, [] => .done a
  | a, b :: bs => (body a b).bind fun a' => foldl body a' bs

/-- What a program that has ended returned. -/
def result? : Prog τ ι σ α → Option α
  | .done a => some a
  | .act .. => none

/-- The program run alone, every step with the same input. -/
def alone : Prog τ ι σ α → ι → σ → α × σ
  | .done a, _, s => (a, s)
  | .act _ u n, i, s => (n i s).alone i (u i s)

@[simp] theorem alone_done (a : α) (i : ι) (s : σ) : (Prog.done a : Prog τ ι σ α).alone i s = (a, s) := rfl

@[simp] theorem alone_bind (p : Prog τ ι σ α) (f : α → Prog τ ι σ β) (i : ι) (s : σ) :
    (p.bind f).alone i s = (f (p.alone i s).1).alone i (p.alone i s).2 := by
  induction p generalizing s with
  | done a => rfl
  | act t u n ih => exact ih i s (u i s)

@[simp] theorem alone_atomic (tag : τ) (f : ι → σ → σ × α) (i : ι) (s : σ) :
    (atomic tag f).alone i s = ((f i s).2, (f i s).1) := rfl

@[simp] theorem alone_read (tag : τ) (f : ι → σ → α) (i : ι) (s : σ) : (read tag f).alone i s = (f i s, s) := rfl

@[simp] theorem pure_eq_done (a : α) : (pure a : Prog τ ι σ α) = .done a := rfl

@[simp] theorem bind_eq_bind (p : Prog τ ι σ α) (f : α → Prog τ ι σ β) : (p >>= f) = p.bind f := rfl

@[simp] theorem done_bind (a : α) (f : α → Prog τ ι σ β) : (Prog.done a : Prog τ ι σ α).bind f = f a := rfl

end Prog

/-! ## Validity -/

section Validity

variable {τ ι σ α β : Type}

/-- An assertion that no step inside `R` makes false. -/
def Stable (R : σ → σ → Prop) (P : σ → Prop) : Prop := ∀ s s', R s s' → P s → P s'

/-- A program is valid from `P`: each step taken where `P` holds and `C` excuses nothing lands inside `G` and leaves an assertion,
stable under `R`, from which the rest is valid; where the program ends, its result satisfies `Φ`. -/
def Valid (C : τ → ι → σ → Prop) (R : σ → σ → Prop) (G : τ → σ → σ → Prop) (Φ : α → σ → Prop) :
    Prog τ ι σ α → (σ → Prop) → Prop
  | .done a, P => ∀ s, P s → Φ a s
  | .act t u n, P => ∀ i s, P s → C t i s →
      G t s (u i s) ∧ ∃ Q, Stable R Q ∧ Q (u i s) ∧ Valid C R G Φ (n i s) Q

variable {C : τ → ι → σ → Prop} {R : σ → σ → Prop} {G : τ → σ → σ → Prop}

/-- Assertions that are stable one by one are stable when one of them holds. -/
theorem stable_exists {κ : Type} {P : κ → σ → Prop} (h : ∀ k, Stable R (P k)) : Stable R (fun s => ∃ k, P k s) :=
  fun s s' hs ⟨k, hk⟩ => ⟨k, h k s s' hs hk⟩

theorem stable_const (p : Prop) : Stable R (fun _ => p) := fun _ _ _ h => h

/-- Two stable assertions hold together stably. -/
theorem Stable.and {P Q : σ → Prop} (hP : Stable R P) (hQ : Stable R Q) : Stable R (fun s => P s ∧ Q s) :=
  fun s s' h hs => ⟨hP s s' h hs.1, hQ s s' h hs.2⟩

/-- A program valid from `P` is valid from anything stronger. -/
theorem Valid.weaken {Φ : α → σ → Prop} {p : Prog τ ι σ α} {P P' : σ → Prop} (h : Valid C R G Φ p P)
    (hP : ∀ s, P' s → P s) : Valid C R G Φ p P' := by
  cases p with
  | done a => exact fun s hs => h s (hP s hs)
  | act t u n => exact fun i s hs hc => h i s (hP s hs) hc

/-- A program valid from each of several assertions is valid when one of them holds. -/
theorem Valid.exists {κ : Type} {Φ : α → σ → Prop} {p : Prog τ ι σ α} {P : κ → σ → Prop}
    (h : ∀ k, Valid C R G Φ p (P k)) : Valid C R G Φ p (fun s => ∃ k, P k s) := by
  cases p with
  | done a => exact fun s ⟨k, hk⟩ => h k s hk
  | act t u n => exact fun i s ⟨k, hk⟩ hc => h k i s hk hc

/-- A fact that holds whatever the state may be used throughout. -/
theorem Valid.and_left {a : Prop} {Φ : α → σ → Prop} {p : Prog τ ι σ α} {P : σ → Prop} (h : a → Valid C R G Φ p P) :
    Valid C R G Φ p (fun s => a ∧ P s) := by
  cases p with
  | done b => exact fun s ⟨ha, hs⟩ => h ha s hs
  | act t u n => exact fun i s ⟨ha, hs⟩ hc => h ha i s hs hc

/-- What a program ensures may be replaced by something weaker. -/
theorem Valid.mono {Φ Ψ : α → σ → Prop} {p : Prog τ ι σ α} {P : σ → Prop} (h : Valid C R G Φ p P)
    (hΦ : ∀ a s, Φ a s → Ψ a s) : Valid C R G Ψ p P := by
  induction p generalizing P with
  | done a => exact fun s hs => hΦ a s (h s hs)
  | act t u n ih =>
    intro i s hs hc
    obtain ⟨hg, Q, hst, hq, hv⟩ := h i s hs hc
    exact ⟨hg, Q, hst, hq, ih i s hv⟩

/-- Sequencing: what the first program ensures is what the second starts from. -/
theorem Valid.bind {Φ : α → σ → Prop} {Ψ : β → σ → Prop} {p : Prog τ ι σ α} {f : α → Prog τ ι σ β} {P : σ → Prop}
    (hp : Valid C R G Φ p P) (hf : ∀ a, Valid C R G Ψ (f a) (Φ a)) : Valid C R G Ψ (p.bind f) P := by
  induction p generalizing P with
  | done a => exact (hf a).weaken hp
  | act t u n ih =>
    intro i s hs hc
    obtain ⟨hg, Q, hst, hq, hv⟩ := hp i s hs hc
    exact ⟨hg, Q, hst, hq, ih i s hv⟩

/-- The rule of a finished program. -/
theorem Valid.done {Φ : α → σ → Prop} {a : α} {P : σ → Prop} (h : ∀ s, P s → Φ a s) :
    Valid C R G Φ (.done a) P := h

/-- The rule of an atomic step: it lands inside `G`, and what it ensures is stable. -/
theorem Valid.atomic {Φ : α → σ → Prop} {tag : τ} {f : ι → σ → σ × α} {P : σ → Prop} (hst : ∀ a, Stable R (Φ a))
    (h : ∀ i s, P s → C tag i s → G tag s (f i s).1 ∧ Φ (f i s).2 (f i s).1) :
    Valid C R G Φ (Prog.atomic tag f) P := by
  intro i s hs hc
  obtain ⟨hg, hΦ⟩ := h i s hs hc
  exact ⟨hg, Φ (f i s).2, hst _, hΦ, fun _ h => h⟩

/-! ### Programs whose steps do what their tags say -/

/-- Each step of the program updates the state as `S` says of its tag. -/
inductive Prog.Follows (S : τ → ι → σ → σ → Prop) : Prog τ ι σ α → Prop
  | done (a : α) : Follows S (.done a)
  | act {t : τ} {u : ι → σ → σ} {n : ι → σ → Prog τ ι σ α} (hu : ∀ i s, S t i s (u i s))
      (hn : ∀ i s, Follows S (n i s)) : Follows S (.act t u n)

variable {S : τ → ι → σ → σ → Prop}

theorem Prog.Follows.bind {p : Prog τ ι σ α} {g : α → Prog τ ι σ β} (hp : p.Follows S) (hg : ∀ a, (g a).Follows S) :
    (p.bind g).Follows S := by
  induction hp with
  | done a => exact hg a
  | act hu _ ih => exact .act hu ih

theorem Prog.Follows.atomic {t : τ} {u : ι → σ → σ × α} (h : ∀ i s, S t i s (u i s).1) :
    (Prog.atomic t u).Follows S := .act h fun _ _ => .done _

theorem Prog.Follows.firstSome {body : β → Prog τ ι σ (Option α)} (h : ∀ b, (body b).Follows S) (bs : List β) :
    (Prog.firstSome body bs).Follows S := by
  induction bs with
  | nil => exact .done none
  | cons b bs ih =>
    refine (h b).bind fun r => ?_
    cases r with
    | some a => exact .done _
    | none => exact ih

theorem Prog.Follows.foldl {body : α → β → Prog τ ι σ α} (h : ∀ a b, (body a b).Follows S) (a : α) (bs : List β) :
    (Prog.foldl body a bs).Follows S := by
  induction bs generalizing a with
  | nil => exact .done a
  | cons b bs ih => exact (h a b).bind ih

/-- A program whose steps keep an assertion, as far as they meet the condition, is valid from it. -/
theorem Prog.Follows.valid {I : σ → Prop} {p : Prog τ ι σ α} (hp : p.Follows S) (hst : Stable R I)
    (hG : ∀ t i s s', I s → C t i s → S t i s s' → G t s s' ∧ I s') : Valid C R G (fun _ s => I s) p I := by
  induction hp with
  | done a => exact Valid.done fun _ h => h
  | @act t u n hu _ ih =>
    intro i s hs hc
    obtain ⟨hg, hi⟩ := hG t i s (u i s) hs hc (hu i s)
    exact ⟨hg, I, hst, hi, ih i s⟩

/-! ### What validity says -/

theorem valid_done {Φ : α → σ → Prop} {a : α} {P : σ → Prop} :
    Valid C R G Φ (.done a) P ↔ ∀ s, P s → Φ a s := Iff.rfl

theorem valid_act {Φ : α → σ → Prop} {t : τ} {u : ι → σ → σ} {n : ι → σ → Prog τ ι σ α} {P : σ → Prop} :
    Valid C R G Φ (.act t u n) P ↔ ∀ i s, P s → C t i s →
      G t s (u i s) ∧ ∃ Q, Stable R Q ∧ Q (u i s) ∧ Valid C R G Φ (n i s) Q := Iff.rfl

attribute [irreducible] Valid

end Validity

/-! ## Pools and schedules -/

/-- A shared state and one program for each thread. -/
structure Pool (τ ι σ α : Type) where
  shared : σ
  thread : Nat → Prog τ ι σ α

/-- One step that a schedule made: who, which step, with which input, from which state to which. -/
structure Move (τ ι σ : Type) where
  thread : Nat
  tag : τ
  input : ι
  before : σ
  after : σ

namespace Pool

variable {τ ι σ α : Type}

/-- One move of a schedule: the thread named takes its next step with the input given; a thread that has ended does nothing. -/
def step (p : Pool τ ι σ α) (l : Nat × ι) : Pool τ ι σ α :=
  match p.thread l.1 with
  | .done _ => p
  | .act _ u n => ⟨u l.2 p.shared, Function.update p.thread l.1 (n l.2 p.shared)⟩

/-- A schedule, move after move. -/
def run (p : Pool τ ι σ α) (ls : List (Nat × ι)) : Pool τ ι σ α := ls.foldl step p

/-- The step that a move of a schedule makes, if its thread has not ended. -/
def move? (p : Pool τ ι σ α) (l : Nat × ι) : Option (Move τ ι σ) :=
  match p.thread l.1 with
  | .done _ => none
  | .act t u _ => some ⟨l.1, t, l.2, p.shared, u l.2 p.shared⟩

/-- The steps that a schedule makes, in order. -/
def moves (p : Pool τ ι σ α) : List (Nat × ι) → List (Move τ ι σ)
  | [] => []
  | l :: ls => (p.move? l).toList ++ moves (p.step l) ls

/-- Every step of the schedule meets `C`. -/
def MeetsAll (C : τ → ι → σ → Prop) (p : Pool τ ι σ α) (ls : List (Nat × ι)) : Prop :=
  ∀ m ∈ p.moves ls, C m.tag m.input m.before

instance {C : τ → ι → σ → Prop} [∀ t i s, Decidable (C t i s)] (p : Pool τ ι σ α) (ls : List (Nat × ι)) :
    Decidable (p.MeetsAll C ls) := inferInstanceAs (Decidable (∀ m ∈ p.moves ls, _))

/-- A step of any thread inside its guarantee. -/
def AnyStep (G : Nat → τ → σ → σ → Prop) (s s' : σ) : Prop := ∃ k t, G k t s s'

/-- Every thread is valid from an assertion that is stable under the steps of all threads and holds now; thread `k` ends with a
result that satisfies `Φ k`. -/
def Safe (C : τ → ι → σ → Prop) (G : Nat → τ → σ → σ → Prop) (Φ : Nat → α → σ → Prop) (p : Pool τ ι σ α) : Prop :=
  ∀ k, ∃ P, Stable (AnyStep G) P ∧ P p.shared ∧ Valid C (AnyStep G) (G k) (Φ k) (p.thread k) P

@[simp] theorem run_nil (p : Pool τ ι σ α) : p.run [] = p := rfl

@[simp] theorem run_cons (p : Pool τ ι σ α) (l : Nat × ι) (ls : List (Nat × ι)) :
    p.run (l :: ls) = (p.step l).run ls := rfl

theorem meetsAll_cons {C : τ → ι → σ → Prop} (p : Pool τ ι σ α) (l : Nat × ι) (ls : List (Nat × ι)) :
    p.MeetsAll C (l :: ls) ↔ (∀ m ∈ p.move? l, C m.tag m.input m.before) ∧ (p.step l).MeetsAll C ls := by
  simp only [MeetsAll, moves, List.mem_append, or_imp, forall_and, Option.mem_toList, Option.mem_def]

/-- Where nothing is excused, every schedule meets the condition. -/
theorem meetsAll_true (p : Pool τ ι σ α) (ls : List (Nat × ι)) : p.MeetsAll (fun _ _ _ => True) ls :=
  fun _ _ => trivial

/-- A log that every move extends: what each move keeps of the log and the state, a schedule keeps. -/
theorem run_log {β : Type} {R : List β → σ → Prop} (f : Move τ ι σ → β) (log : List β) (p : Pool τ ι σ α) (ls : List (Nat × ι))
    (h0 : R log p.shared) (h : ∀ m ∈ p.moves ls, ∀ log, R log m.before → R (log ++ [f m]) m.after) :
    R (log ++ (p.moves ls).map f) (p.run ls).shared := by
  induction ls generalizing p log with
  | nil => simpa [moves] using h0
  | cons l ls ih =>
    have hhead : R (log ++ (p.move? l).toList.map f) (p.step l).shared := by
      have hl : ∀ m ∈ p.move? l, ∀ log, R log m.before → R (log ++ [f m]) m.after :=
        fun m hm => h m (List.mem_append_left _ (Option.mem_toList.mpr hm))
      unfold Pool.step move? at *
      cases hth : p.thread l.1 with
      | done a => simpa using h0
      | act t u n =>
        rw [hth] at hl
        exact hl _ rfl log h0
    have hrest := ih _ _ hhead fun m hm => h m (List.mem_append_right _ hm)
    rwa [List.append_assoc, ← List.map_append] at hrest

/-- A quantity that some steps raise by one, and no other step changes, counts these steps. -/
theorem run_counts (f : σ → Int) (c : Move τ ι σ → Bool) (p : Pool τ ι σ α) (ls : List (Nat × ι))
    (h : ∀ m ∈ p.moves ls, f m.after = f m.before + if c m then 1 else 0) :
    f (p.run ls).shared = f p.shared + (p.moves ls).countP c := by
  have hlog := run_log (R := fun log s => f s = f p.shared + log.countP id) c [] p ls (Int.add_zero _).symm
    fun m hm log hlog => by
      rw [h m hm, hlog, List.countP_append, List.countP_singleton]
      cases c m <;> simp [Int.add_assoc]
  rwa [List.nil_append, List.countP_map, Function.id_comp] at hlog

variable {C : τ → ι → σ → Prop} {G : Nat → τ → σ → σ → Prop} {Φ : Nat → α → σ → Prop}

/-- One move of a safe pool lands inside the guarantee of its thread and leaves a safe pool. -/
theorem Safe.step {p : Pool τ ι σ α} (h : p.Safe C G Φ) {l : Nat × ι}
    (hc : ∀ m ∈ p.move? l, C m.tag m.input m.before) :
    (∀ m ∈ p.move? l, G m.thread m.tag m.before m.after) ∧ (p.step l).Safe C G Φ := by
  obtain ⟨P, hst, hP, hv⟩ := h l.1
  unfold Pool.step move? at *
  cases hth : p.thread l.1 with
  | done a => exact ⟨nofun, h⟩
  | act t u n =>
    rw [hth] at hv hc
    obtain ⟨hg, Q, hQst, hQ, hnext⟩ := valid_act.mp hv l.2 p.shared hP (hc _ rfl)
    constructor
    · rintro m ⟨⟩
      exact hg
    · intro k
      by_cases hk : k = l.1
      · subst hk
        refine ⟨Q, hQst, hQ, ?_⟩
        simpa using hnext
      · obtain ⟨P', hst', hP', hv'⟩ := h k
        refine ⟨P', hst', hst' _ _ ⟨_, _, hg⟩ hP', ?_⟩
        simpa [Function.update_of_ne hk] using hv'

/-- A schedule of a safe pool leaves a safe pool. -/
theorem Safe.run {p : Pool τ ι σ α} (h : p.Safe C G Φ) {ls : List (Nat × ι)} (hc : p.MeetsAll C ls) :
    (p.run ls).Safe C G Φ := by
  induction ls generalizing p with
  | nil => exact h
  | cons l ls ih =>
    rw [meetsAll_cons] at hc
    exact ih (h.step hc.1).2 hc.2

/-- Every step that a schedule of a safe pool makes lands inside the guarantee of its thread. -/
theorem Safe.moves {p : Pool τ ι σ α} (h : p.Safe C G Φ) {ls : List (Nat × ι)} (hc : p.MeetsAll C ls) :
    ∀ m ∈ p.moves ls, G m.thread m.tag m.before m.after := by
  induction ls generalizing p with
  | nil => exact nofun
  | cons l ls ih =>
    rw [meetsAll_cons] at hc
    obtain ⟨hg, hsafe⟩ := h.step hc.1
    intro m hm
    rcases List.mem_append.mp hm with hm | hm
    · exact hg m (Option.mem_toList.mp hm)
    · exact ih hsafe hc.2 m hm

/-- Whatever every step inside a guarantee keeps, a schedule of a safe pool keeps. -/
theorem Safe.run_keeps {p : Pool τ ι σ α} (h : p.Safe C G Φ) {ls : List (Nat × ι)} (hc : p.MeetsAll C ls)
    {I : σ → Prop} (hI : Stable (AnyStep G) I) (h0 : I p.shared) : I (p.run ls).shared := by
  induction ls generalizing p with
  | nil => exact h0
  | cons l ls ih =>
    rw [meetsAll_cons] at hc
    obtain ⟨hg, hsafe⟩ := h.step hc.1
    refine ih hsafe hc.2 ?_
    unfold Pool.step move? at *
    cases hth : p.thread l.1 with
    | done a => exact h0
    | act t u n =>
      rw [hth] at hg
      exact hI _ _ ⟨_, _, hg _ rfl⟩ h0

/-- The result of a thread that has ended satisfies what its program ensures. -/
theorem Safe.result {p : Pool τ ι σ α} (h : p.Safe C G Φ) {k : Nat} {a : α} (hk : p.thread k = .done a) :
    Φ k a p.shared := by
  obtain ⟨P, -, hP, hv⟩ := h k
  rw [hk] at hv
  exact valid_done.mp hv _ hP

/-- An assertion that every step keeps, and that holds after one of them, holds at the end. -/
theorem Safe.moves_keep {p : Pool τ ι σ α} (h : p.Safe C G Φ) {ls : List (Nat × ι)} (hc : p.MeetsAll C ls) {Q : σ → Prop}
    (hQ : Stable (AnyStep G) Q) : ∀ m ∈ p.moves ls, Q m.after → Q (p.run ls).shared := by
  induction ls generalizing p with
  | nil => exact fun m hm => absurd hm List.not_mem_nil
  | cons l ls ih =>
    rw [meetsAll_cons] at hc
    have hsafe := (h.step hc.1).2
    intro m hm hq
    rcases List.mem_append.mp hm with hm | hm
    · have hafter : (p.step l).shared = m.after := by
        have hmove := Option.mem_toList.mp hm
        unfold move? at hmove
        unfold Pool.step
        cases hth : p.thread l.1 with
        | done a => simp [hth] at hmove
        | act t u n =>
          rw [hth] at hmove
          cases hmove
          rfl
      exact hsafe.run_keeps hc.2 hQ (hafter ▸ hq)
    · exact ih hsafe hc.2 m hm hq

/-- One move of a pool whose programs do what their tags say. -/
theorem step_follows {S : τ → ι → σ → σ → Prop} {p : Pool τ ι σ α} (h : ∀ k, (p.thread k).Follows S) (l : Nat × ι) :
    (∀ k, ((p.step l).thread k).Follows S) ∧ (p.step l).shared = ((p.move? l).map (·.after)).getD p.shared ∧
      ∀ m ∈ p.move? l, m.before = p.shared ∧ S m.tag m.input m.before m.after := by
  have hl := h l.1
  unfold Pool.step move?
  cases hth : p.thread l.1 with
  | done a => exact ⟨h, rfl, nofun⟩
  | act t u n =>
    rw [hth] at hl
    cases hl with
    | act hu hn =>
    refine ⟨fun k => ?_, rfl, ?_⟩
    · by_cases hk : k = l.1
      · subst hk
        simpa using hn l.2 p.shared
      · simpa [Function.update_of_ne hk] using h k
    · rintro m ⟨⟩
      exact ⟨rfl, hu l.2 p.shared⟩

/-- What the steps of such programs keep, as far as they meet `C`, holds in every state of a schedule. -/
theorem run_keeps_of_follows {S : τ → ι → σ → σ → Prop} {I : σ → Prop}
    (hI : ∀ t i s s', I s → C t i s → S t i s s' → I s') {p : Pool τ ι σ α} (h : ∀ k, (p.thread k).Follows S)
    (h0 : I p.shared) {ls : List (Nat × ι)} (hc : p.MeetsAll C ls) :
    I (p.run ls).shared ∧ ∀ m ∈ p.moves ls, I m.before ∧ S m.tag m.input m.before m.after := by
  induction ls generalizing p with
  | nil => exact ⟨h0, nofun⟩
  | cons l ls ih =>
    rw [meetsAll_cons] at hc
    obtain ⟨hf, hs, hm⟩ := step_follows h l
    have h1 : I (p.step l).shared := by
      rw [hs]
      cases hmv : p.move? l with
      | none => exact h0
      | some m =>
        obtain ⟨hb, ha⟩ := hm m hmv
        have hcm := hc.1 m hmv
        exact hI _ _ _ _ (hb ▸ h0) hcm ha
    obtain ⟨hr, hmoves⟩ := ih hf h1 hc.2
    refine ⟨hr, fun m hmem => ?_⟩
    rcases List.mem_append.mp hmem with hmem | hmem
    · obtain ⟨hb, ha⟩ := hm m (Option.mem_toList.mp hmem)
      exact ⟨hb ▸ h0, ha⟩
    · exact hmoves m hmem

end Pool

end Interleave

/-!
## Versioned records

A record that is absent or carries a version, read through a view of a shared state. When every step either leaves the record alone
or moves its version up, a reader who finds the version it has read finds the record it has read: this is what a
compare-and-swap on the version rests on.
-/

namespace Versioned

open Interleave

variable {σ α : Type}

/-- The version of a record, 0 when there is none. -/
def version : Option (α × Int) → Int
  | none => 0
  | some r => r.2

/-- The record is left alone, or its version goes up. -/
def Advances (read : σ → Option (α × Int)) (s s' : σ) : Prop := read s' = read s ∨ version (read s) < version (read s')

/-- What a reader of a record knows from then on: the version is not lower, and as long as it is the same the record is. -/
def Since (read : σ → Option (α × Int)) (base : Option (α × Int)) (s : σ) : Prop :=
  version base ≤ version (read s) ∧ (version (read s) = version base → read s = base)

variable {read : σ → Option (α × Int)}

/-- A reader knows it at once. -/
theorem since_read (s : σ) : Since read (read s) s := ⟨le_refl _, fun _ => rfl⟩

/-- And from then on. -/
theorem since_stable {R : σ → σ → Prop} (hR : ∀ s s', R s s' → Advances read s s') (base : Option (α × Int)) :
    Stable R (Since read base) := by
  rintro s s' h ⟨hle, heq⟩
  rcases hR s s' h with hsame | hlt
  · rw [Since, hsame]
    exact ⟨hle, heq⟩
  · have hhigher : version base < version (read s') := lt_of_le_of_lt hle hlt
    exact ⟨le_of_lt hhigher, fun h => absurd h (ne_of_gt hhigher)⟩

/-- A creator, who has read nothing, knows it of an absent record where stored versions are positive. -/
theorem since_none {s : σ} (hpos : ∀ r, read s = some r → 0 < r.2) : Since read none s := by
  cases h : read s with
  | none => exact ⟨by rw [h], fun _ => h⟩
  | some r =>
    have hr : 0 < r.2 := hpos r h
    refine ⟨by rw [h]; exact le_of_lt hr, fun heq => ?_⟩
    rw [h] at heq
    exact absurd heq (ne_of_gt hr)

end Versioned
