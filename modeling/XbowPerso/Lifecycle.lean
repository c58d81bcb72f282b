import XbowPerso.Job
import XbowPerso.Lib.Interleave

/-!
# The life of all jobs

What a queue is for, whatever stores it: a queue holds at most one job under each identifier, and each of its operations moves
every job along its life, may add new jobs, and may hand out one job, which costs that job one attempt. A run is a sequence of such
transitions from the queue without jobs. Both backends are shown to make such runs.
-/

namespace XbowPerso

/-- The jobs of a queue, each under its identifier. -/
abbrev JobStore := Ident → Option Job

namespace JobStore

/-- The attempt that a transition costs a job: one for the job it hands out. -/
def cost (handed : Option Ident) (id : Ident) : Int := if handed = some id then 1 else 0

@[simp] theorem cost_none (id : Ident) : cost none id = 0 := rfl

@[simp] theorem cost_self (id : Ident) : cost (some id) id = 1 := by simp [cost]

/-- A transition of the queue that hands out at most one job. -/
structure Transition (s s' : JobStore) (handed : Option Ident) : Prop where
  kept : ∀ id j, s id = some j → ∃ j', s' id = some j' ∧ j.Evolves j' ∧ j'.attempts = j.attempts + cost handed id
  added : ∀ id j', s id = none → s' id = some j' → j'.WellFormed ∧ j'.attempts = cost handed id
  handed : ∀ id, handed = some id → ∃ j', s' id = some j' ∧ j'.status = .running

/-- The queue whose jobs are all well formed. -/
def WellFormed (s : JobStore) : Prop := ∀ id j, s id = some j → j.WellFormed

variable {s s' s'' : JobStore} {handed : Option Ident}

/-- Nothing happens. -/
theorem Transition.refl (s : JobStore) : Transition s s none where
  kept := fun _ j h => ⟨j, h, .refl, by simp⟩
  added := fun _ _ h h' => by rw [h] at h'; cases h'
  handed := fun _ h => nomatch h

/-- A transition that hands out nothing, then another. -/
theorem Transition.trans (h : Transition s s' none) (h' : Transition s' s'' handed) : Transition s s'' handed where
  kept := by
    intro id j hj
    obtain ⟨j', hj', he, ha⟩ := h.kept id j hj
    obtain ⟨j'', hj'', he', ha'⟩ := h'.kept id j' hj'
    refine ⟨j'', hj'', he.trans he', ?_⟩
    rw [ha', ha, cost_none, Int.add_zero]
  added := by
    intro id j'' hn hj''
    cases hj' : s' id with
    | none => exact h'.added id j'' hj' hj''
    | some j' =>
      obtain ⟨hw, ha⟩ := h.added id j' hn hj'
      obtain ⟨k, hk, he, hak⟩ := h'.kept id j' hj'
      rw [hj''] at hk
      cases hk
      refine ⟨he.wellFormed hw, ?_⟩
      rw [hak, ha, cost_none, Int.zero_add]
  handed := h'.handed

/-- A transition keeps the jobs well formed. -/
theorem Transition.wellFormed (h : Transition s s' handed) (hw : WellFormed s) : WellFormed s' := by
  intro id j' hj'
  cases hj : s id with
  | none => exact (h.added id j' hj hj').1
  | some j =>
    obtain ⟨k, hk, he, -⟩ := h.kept id j hj
    rw [hj'] at hk
    cases hk
    exact he.wellFormed (hw id j hj)

/-- A terminal job stays as it is. -/
theorem Transition.terminal (h : Transition s s' handed) {id : Ident} {j : Job} (hj : s id = some j)
    (ht : j.status.terminal = true) : s' id = some j := by
  obtain ⟨j', hj', he, -⟩ := h.kept id j hj
  rw [hj', he.eq_of_terminal ht]

/-- A change of single jobs, each by a step of its life that costs no attempt or not at all, is a transition. -/
theorem Transition.of_map {f : Job → Job} (hf : ∀ id j, s id = some j → f j = j ∨ (j.Step (f j) ∧ (f j).attempts = j.attempts)) :
    Transition s (fun id => (s id).map f) none where
  kept := by
    intro id j hj
    refine ⟨f j, by simp [hj], ?_⟩
    rcases hf id j hj with h | ⟨h, ha⟩
    · rw [h]
      exact ⟨.refl, by simp⟩
    · exact ⟨.single h, by simp [ha]⟩
  added := by
    intro id j' hn hj'
    simp [hn] at hj'
  handed := fun _ h => nomatch h

/-- A claim of a queued job with an attempt left is a transition that hands the job out. -/
theorem Transition.of_claim {id : Ident} {j : Job} (hj : s id = some j) (hs : j.status = .queued)
    (hb : j.attempts < j.maxAttempts) (worker : Ident) (now : Int)
    (hs' : ∀ k, s' k = if k = id then some (j.claimed worker now) else s k) : Transition s s' (some id) where
  kept := by
    intro k i hi
    by_cases hk : k = id
    · subst hk
      rw [hj] at hi
      cases hi
      exact ⟨j.claimed worker now, by simp [hs'], .single (.claim j worker now hs hb), by simp⟩
    · refine ⟨i, by simp [hs', hk, hi], .refl, ?_⟩
      simp [cost, Ne.symm hk]
  added := by
    intro k j' hn hj'
    by_cases hk : k = id
    · subst hk
      rw [hj] at hn
      cases hn
    · rw [hs' k, if_neg hk, hn] at hj'
      cases hj'
  handed := by
    rintro k ⟨⟩
    exact ⟨j.claimed worker now, by simp [hs'], rfl⟩

/-- The entry of a new job is a transition. -/
theorem Transition.of_new {id : Ident} {j : Job} (hn : s id = none) (hw : j.WellFormed) (ha : j.attempts = 0)
    (hs' : ∀ k, s' k = if k = id then some j else s k) : Transition s s' none where
  kept := by
    intro k i hi
    have hk : k ≠ id := by
      rintro rfl
      rw [hn] at hi
      cases hi
    exact ⟨i, by simp [hs', hk, hi], .refl, by simp⟩
  added := by
    intro k j' hk hj'
    rw [hs' k] at hj'
    split at hj'
    · cases hj'
      exact ⟨hw, by simp [ha]⟩
    · rw [hk] at hj'
      cases hj'
  handed := fun _ h => nomatch h

/-! ## Runs -/

/-- A run: its states, and what each of its transitions hands out. -/
inductive Run : JobStore → List (Option Ident) → JobStore → Prop
  | nil (s : JobStore) : Run s [] s
  | snoc {s s' s'' : JobStore} {hs : List (Option Ident)} {handed : Option Ident} (h : Run s hs s')
      (ht : Transition s' s'' handed) : Run s (hs ++ [handed]) s''

/-- How often a job was handed out. -/
def handouts (id : Ident) (hs : List (Option Ident)) : Nat := hs.countP (fun h => decide (h = some id))

theorem handouts_snoc (id : Ident) (hs : List (Option Ident)) (h : Option Ident) :
    (handouts id (hs ++ [h]) : Int) = handouts id hs + cost h id := by
  unfold handouts cost
  rw [List.countP_append]
  by_cases hh : h = some id <;> simp [hh]

/-- A run keeps the jobs well formed. -/
theorem Run.wellFormed {hs : List (Option Ident)} (h : Run s hs s') (hw : WellFormed s) : WellFormed s' := by
  induction h with
  | nil => exact hw
  | snoc _ ht ih => exact ht.wellFormed ih

/-- A terminal job stays as it is over a run. -/
theorem Run.terminal {hs : List (Option Ident)} (h : Run s hs s') {id : Ident} {j : Job} (hj : s id = some j)
    (ht : j.status.terminal = true) : s' id = some j := by
  induction h with
  | nil => exact hj
  | snoc _ htr ih => exact htr.terminal ih ht

/-- Over a run from no jobs, each job was handed out as often as it has attempts; a job that is not there was never handed out. -/
theorem Run.handouts_eq {hs : List (Option Ident)} (h : Run (fun _ => none) hs s') (id : Ident) :
    (∀ j, s' id = some j → (handouts id hs : Int) = j.attempts) ∧ (s' id = none → handouts id hs = 0) := by
  induction h with
  | nil => exact ⟨fun j hj => absurd hj (by simp), fun _ => by simp [handouts]⟩
  | @snoc s₁ s₂ hs handed hr ht ih =>
    obtain ⟨ih1, ih2⟩ := ih
    constructor
    · intro j'' hj''
      rw [handouts_snoc]
      cases hj' : s₁ id with
      | none =>
        obtain ⟨-, ha⟩ := ht.added id j'' hj' hj''
        rw [ih2 hj', ha]
        simp
      | some j' =>
        obtain ⟨k, hk, -, ha⟩ := ht.kept id j' hj'
        rw [hj''] at hk
        cases hk
        rw [ih1 j' hj', ha]
    · intro hn
      have hn' : s₁ id = none := by
        cases hj' : s₁ id with
        | none => rfl
        | some j' =>
          obtain ⟨k, hk, -⟩ := ht.kept id j' hj'
          rw [hn] at hk
          cases hk
      have hh : handed ≠ some id := by
        intro hh
        obtain ⟨k, hk, -⟩ := ht.handed id hh
        rw [hn] at hk
        cases hk
      have := handouts_snoc id hs handed
      rw [ih2 hn', cost, if_neg hh] at this
      simpa using this

/-! ## Schedules -/

section

open Interleave

variable {τ ι σ α : Type} {jobs : σ → JobStore} {handed : Move τ ι σ → Option Ident} {p : Pool τ ι σ α} {ls : List (Nat × ι)}

/-- What a schedule of clients of a queue without jobs does to all jobs, whatever the order of their steps. -/
structure Lifecycle (jobs : σ → JobStore) (handed : Move τ ι σ → Option Ident) (p : Pool τ ι σ α) (ls : List (Nat × ι)) :
    Prop where
  /-- It makes a run, which hands out what its steps do. -/
  run : Run (fun _ => none) ((p.moves ls).map handed) (jobs (p.run ls).shared)
  /-- A job was handed out once for each of its attempts, and at most as often as it may be attempted. -/
  attempts : ∀ id j, jobs (p.run ls).shared id = some j →
    j.WellFormed ∧ (handouts id ((p.moves ls).map handed) : Int) = j.attempts ∧ j.attempts ≤ j.maxAttempts
  /-- A job that is there after a step is there at the end, further in its life. -/
  kept : ∀ m ∈ p.moves ls, ∀ id j, jobs m.after id = some j → ∃ j', jobs (p.run ls).shared id = some j' ∧ j.Evolves j'
  /-- A job that has ended stays as it is. -/
  terminal : ∀ m ∈ p.moves ls, ∀ id j, jobs m.after id = some j → j.status.terminal = true →
    jobs (p.run ls).shared id = some j

/-- It is enough that every step is a transition. -/
theorem lifecycle_of_transitions (h0 : jobs p.shared = fun _ => none)
    (h : ∀ m ∈ p.moves ls, Transition (jobs m.before) (jobs m.after) (handed m)) : Lifecycle jobs handed p ls := by
  have hrun : Run (fun _ => none) ((p.moves ls).map handed) (jobs (p.run ls).shared) :=
    Pool.run_log (R := fun hs s => Run (fun _ => none) hs (jobs s)) handed [] p ls (by rw [h0]; exact .nil _)
      fun m hm _ hr => hr.snoc (h m hm)
  have hkept : ∀ m ∈ p.moves ls, ∀ id j, jobs m.after id = some j →
      ∃ j', jobs (p.run ls).shared id = some j' ∧ j.Evolves j' := by
    have hlog := Pool.run_log
      (R := fun log s => ∀ s₀ ∈ log, ∀ id j, jobs s₀ id = some j → ∃ j', jobs s id = some j' ∧ j.Evolves j')
      (fun m : Move τ ι σ => m.after) [] p ls nofun fun m hm log hlog s₀ hs₀ id j hj => by
        rcases List.mem_append.mp hs₀ with hmem | hmem
        · obtain ⟨j', hj', he⟩ := hlog s₀ hmem id j hj
          obtain ⟨j'', hj'', he', -⟩ := (h m hm).kept id j' hj'
          exact ⟨j'', hj'', he.trans he'⟩
        · rw [List.mem_singleton.mp hmem] at hj
          exact ⟨j, hj, .refl⟩
    exact fun m hm => hlog m.after (List.mem_map_of_mem hm)
  refine ⟨hrun, fun id j hj => ?_, hkept, fun m hm id j hj ht => ?_⟩
  · have hw : j.WellFormed := hrun.wellFormed (fun _ _ h => by cases h) id j hj
    exact ⟨hw, (hrun.handouts_eq id).1 j hj, hw.attempts_le⟩
  · obtain ⟨j', hj', he⟩ := hkept m hm id j hj
    rw [hj', he.eq_of_terminal ht]

end

end JobStore

end XbowPerso
