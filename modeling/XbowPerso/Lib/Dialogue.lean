import Mathlib.Logic.Basic

/-!
# Programs that ask and may fail

A dialogue is a tree of requests: it sends a request and goes on with the answer, or ends with a value or an error. What answers is
outside: a relation between the states before and after a request, which may give any of several answers, or a function. The rules
follow the tree; `runs_bind_ok` and its neighbours are about runs that end well, `run_bind` about the one run against a function.
-/

namespace Dialogue

/-- A program that sends requests of type `ρ`, gets answers of type `π`, and ends with an `α`. -/
inductive Prog (ρ π α : Type) : Type where
  | done (a : α)
  | ask (r : ρ) (next : π → Prog ρ π α)

namespace Prog

variable {ρ π α β : Type}

/-- The second program after the first. -/
def bind : Prog ρ π α → (α → Prog ρ π β) → Prog ρ π β
  | .done a, f => f a
  | .ask r next, f => .ask r fun p => (next p).bind f

end Prog

/-- A program that may fail with an `ε`. -/
structure Call (ε ρ π α : Type) where
  prog : Prog ρ π (Except ε α)

variable {ε ρ π α β σ : Type}

namespace Call

/-- The rest of a program, when what came before did not fail. -/
def andThen (f : α → Call ε ρ π β) : Except ε α → Prog ρ π (Except ε β)
  | .ok a => (f a).prog
  | .error e => .done (.error e)

instance : Monad (Call ε ρ π) where
  pure a := ⟨.done (.ok a)⟩
  bind c f := ⟨c.prog.bind (andThen f)⟩

/-- A failure. -/
def throw (e : ε) : Call ε ρ π α := ⟨.done (.error e)⟩

/-- A request, and what its answer means. -/
def ask (r : ρ) (read : π → Except ε α) : Call ε ρ π α := ⟨.ask r fun p => .done (read p)⟩

/-- How a program ends, as a value. -/
def attempt (c : Call ε ρ π α) : Call ε ρ π (Except ε α) := ⟨c.prog.bind fun r => .done (.ok r)⟩

/-- A value or a failure. -/
def ofExcept (r : Except ε α) : Call ε ρ π α := ⟨.done r⟩

/-- `try: body finally: last`: a failure of the last program replaces the one of the body. -/
def finally_ (body : Call ε ρ π α) (last : Call ε ρ π Unit) : Call ε ρ π α :=
  attempt body >>= fun r => last >>= fun _ => ofExcept r

/-- A failure unless a condition holds. -/
def check (p : Prop) [Decidable p] (e : ε) : Call ε ρ π Unit := if p then pure () else throw e

end Call

/-! ## Runs against a relation -/

/-- The runs of a program: `step s r p s'` says that the request `r` may be answered by `p` and lead from `s` to `s'`. -/
inductive Runs (step : σ → ρ → π → σ → Prop) : σ → Prog ρ π α → σ → α → Prop
  | done (s : σ) (a : α) : Runs step s (.done a) s a
  | ask {s s' s'' : σ} {r : ρ} {p : π} {next : π → Prog ρ π α} {a : α} (h : step s r p s') (hnext : Runs step s' (next p) s'' a) :
      Runs step s (.ask r next) s'' a

section

variable {step : σ → ρ → π → σ → Prop} {s s' s'' : σ}

theorem runs_done {a b : α} : Runs step s (.done a) s' b ↔ s' = s ∧ b = a := by
  constructor
  · intro h
    cases h
    exact ⟨rfl, rfl⟩
  · rintro ⟨rfl, rfl⟩
    exact .done _ _

theorem runs_bind {c : Prog ρ π α} {f : α → Prog ρ π β} {b : β} (h : Runs step s (c.bind f) s'' b) :
    ∃ s' a, Runs step s c s' a ∧ Runs step s' (f a) s'' b := by
  induction c generalizing s with
  | done a => exact ⟨s, a, .done _ _, h⟩
  | ask r next ih =>
    cases h with
    | ask hstep hnext =>
      obtain ⟨s₁, a, hc, hf⟩ := ih _ hnext
      exact ⟨s₁, a, .ask hstep hc, hf⟩

/-- A run of two programs that ends well is made of two that do. -/
theorem runs_bind_ok {c : Call ε ρ π α} {f : α → Call ε ρ π β} {b : β} (h : Runs step s (c >>= f).prog s'' (.ok b)) :
    ∃ s' a, Runs step s c.prog s' (.ok a) ∧ Runs step s' (f a).prog s'' (.ok b) := by
  obtain ⟨s', r, hc, hf⟩ := runs_bind h
  cases r with
  | ok a => exact ⟨s', a, hc, hf⟩
  | error e => cases (runs_done.mp hf).2

theorem runs_pure {a : α} {r : Except ε α} (h : Runs step s (pure a : Call ε ρ π α).prog s' r) : s' = s ∧ r = .ok a :=
  runs_done.mp h

/-- A failure does not end well. -/
theorem not_runs_throw {e : ε} {a : α} (h : Runs step s (Call.throw e : Call ε ρ π α).prog s' (.ok a)) : False := by
  cases (runs_done.mp h).2

theorem runs_ask {r : ρ} {read : π → Except ε α} {x : Except ε α} (h : Runs step s (Call.ask r read).prog s' x) :
    ∃ p, step s r p s' ∧ read p = x := by
  cases h with
  | ask hstep hnext =>
    obtain ⟨rfl, rfl⟩ := runs_done.mp hnext
    exact ⟨_, hstep, rfl⟩

theorem runs_attempt {c : Call ε ρ π α} {x : Except ε α} (h : Runs step s (Call.attempt c).prog s' (.ok x)) :
    Runs step s c.prog s' x := by
  obtain ⟨s₁, r, hc, hr⟩ := runs_bind h
  obtain ⟨rfl, hx⟩ := runs_done.mp hr
  cases hx
  exact hc

/-- When a `try` with a `finally` ends well, both programs did. -/
theorem runs_finally {body : Call ε ρ π α} {last : Call ε ρ π Unit} {a : α}
    (h : Runs step s (Call.finally_ body last).prog s'' (.ok a)) :
    ∃ s', Runs step s body.prog s' (.ok a) ∧ Runs step s' last.prog s'' (.ok ()) := by
  obtain ⟨s₁, r, hbody, hrest⟩ := runs_bind_ok h
  obtain ⟨s₂, u, hlast, hend⟩ := runs_bind_ok hrest
  obtain ⟨rfl, hok⟩ := runs_done.mp hend
  have hbody' := runs_attempt hbody
  rw [← hok] at hbody'
  exact ⟨s₁, hbody', hlast⟩

/-- A condition that was checked holds. -/
theorem runs_check {p : Prop} [Decidable p] {e : ε} {u : Unit}
    (h : Runs step s (Call.check p e : Call ε ρ π Unit).prog s' (.ok u)) : s' = s ∧ p := by
  unfold Call.check at h
  split at h
  · rename_i hp
    exact ⟨(runs_pure h).1, hp⟩
  · exact absurd h not_runs_throw

/-- What every answer keeps, a run keeps. -/
theorem Runs.rel {R : σ → σ → Prop} (hrefl : ∀ s, R s s) (htrans : ∀ {a b c}, R a b → R b c → R a c)
    (hstep : ∀ {s r p s'}, step s r p s' → R s s') {c : Prog ρ π α} {a : α} (h : Runs step s c s' a) : R s s' := by
  induction h with
  | done s a => exact hrefl s
  | ask h hnext ih => exact htrans (hstep h) ih

/-- How the runs of a program can end, whatever the answers. -/
def Ends (P : α → Prop) : Prog ρ π α → Prop
  | .done a => P a
  | .ask _ next => ∀ p, Ends P (next p)

theorem Ends.bind {P : α → Prop} {Q : β → Prop} {c : Prog ρ π α} {f : α → Prog ρ π β} (hc : Ends P c)
    (hf : ∀ a, P a → Ends Q (f a)) : Ends Q (c.bind f) := by
  induction c with
  | done a => exact hf a hc
  | ask r next ih => exact fun p => ih p (hc p)

/-- How a program can fail, whatever the answers. -/
def Fails (Q : ε → Prop) (c : Call ε ρ π α) : Prop := Ends (fun r => ∀ e, r = .error e → Q e) c.prog

theorem Ends.mono {P Q : α → Prop} {c : Prog ρ π α} (h : Ends P c) (hPQ : ∀ a, P a → Q a) : Ends Q c := by
  induction c with
  | done a => exact hPQ a h
  | ask r next ih => exact fun p => ih p (h p)

theorem Fails.mono {Q Q' : ε → Prop} {c : Call ε ρ π α} (h : Fails Q c) (hQ : ∀ e, Q e → Q' e) : Fails Q' c :=
  Ends.mono h fun _ hr e he => hQ e (hr e he)

theorem fails_bind {Q : ε → Prop} {c : Call ε ρ π α} {f : α → Call ε ρ π β} (hc : Fails Q c) (hf : ∀ a, Fails Q (f a)) :
    Fails Q (c >>= f) := by
  refine Ends.bind hc fun r hr => ?_
  cases r with
  | ok a => exact hf a
  | error e =>
    intro e' he'
    cases he'
    exact hr e rfl

theorem fails_pure {Q : ε → Prop} (a : α) : Fails Q (pure a : Call ε ρ π α) := by
  intro e he
  cases he

theorem fails_throw {Q : ε → Prop} {e : ε} (h : Q e) : Fails Q (Call.throw e : Call ε ρ π α) := by
  intro e' he'
  cases he'
  exact h

theorem fails_ofExcept {Q : ε → Prop} {r : Except ε α} (h : ∀ e, r = .error e → Q e) :
    Fails Q (Call.ofExcept r : Call ε ρ π α) := h

theorem fails_ofExcept_bind {Q : ε → Prop} {r : Except ε α} {f : α → Call ε ρ π β} (h : ∀ e, r = .error e → Q e)
    (hf : ∀ a, r = .ok a → Fails Q (f a)) : Fails Q (Call.ofExcept r >>= f) := by
  cases r with
  | ok a => exact hf a rfl
  | error e => exact fails_throw (h e rfl)

theorem fails_check {Q : ε → Prop} {p : Prop} [Decidable p] {e : ε} (h : Q e) : Fails Q (Call.check p e : Call ε ρ π Unit) := by
  unfold Call.check
  split
  · exact fails_pure ()
  · exact fails_throw h

theorem fails_ask {Q : ε → Prop} {r : ρ} {read : π → Except ε α} (h : ∀ p e, read p = .error e → Q e) :
    Fails Q (Call.ask r read) := fun p => h p

theorem fails_attempt {Q : ε → Prop} {c : Call ε ρ π α} {f : Except ε α → Call ε ρ π β} (hc : Fails Q c)
    (hf : ∀ r, (∀ e, r = .error e → Q e) → Fails Q (f r)) : Fails Q (Call.attempt c >>= f) := by
  have hattempt : Ends (fun x => ∃ r, x = .ok r ∧ ∀ e, r = .error e → Q e) (Call.attempt c).prog :=
    Ends.bind hc fun r hr => ⟨r, rfl, hr⟩
  refine Ends.bind hattempt fun x hx => ?_
  obtain ⟨r, rfl, hr⟩ := hx
  exact hf r hr

theorem fails_finally {Q : ε → Prop} {body : Call ε ρ π α} {last : Call ε ρ π Unit} (hbody : Fails Q body)
    (hlast : Fails Q last) : Fails Q (Call.finally_ body last) :=
  fails_attempt hbody fun _ hr => fails_bind hlast fun _ => fails_ofExcept hr

end

/-! ## The run against a function -/

/-- The run of a program against a function that answers. -/
def run (server : ρ → σ → π × σ) : Prog ρ π α → σ → α × σ
  | .done a, s => (a, s)
  | .ask r next, s => run server (next (server r s).1) (server r s).2

section

variable {server : ρ → σ → π × σ} {s : σ}

theorem run_bind (c : Prog ρ π α) (f : α → Prog ρ π β) (s : σ) :
    run server (c.bind f) s = run server (f (run server c s).1) (run server c s).2 := by
  induction c generalizing s with
  | done a => rfl
  | ask r next ih => exact ih _ _

theorem run_bind_ok {c : Call ε ρ π α} {f : α → Call ε ρ π β} {a : α} {s' : σ} (h : run server c.prog s = (.ok a, s')) :
    run server (c >>= f).prog s = run server (f a).prog s' := by
  rw [show (c >>= f).prog = c.prog.bind (Call.andThen f) from rfl, run_bind, h]
  rfl

theorem run_bind_error {c : Call ε ρ π α} {f : α → Call ε ρ π β} {e : ε} {s' : σ} (h : run server c.prog s = (.error e, s')) :
    run server (c >>= f).prog s = (.error e, s') := by
  rw [show (c >>= f).prog = c.prog.bind (Call.andThen f) from rfl, run_bind, h]
  rfl

theorem run_ask {r : ρ} {read : π → Except ε α} {p : π} {s' : σ} (h : server r s = (p, s')) :
    run server (Call.ask r read).prog s = (read p, s') := by
  rw [Call.ask, run, h, run]

theorem run_attempt {c : Call ε ρ π α} {r : Except ε α} {s' : σ} (h : run server c.prog s = (r, s')) :
    run server (Call.attempt c).prog s = (.ok r, s') := by
  rw [Call.attempt, run_bind, h, run]

theorem run_finally {body : Call ε ρ π α} {last : Call ε ρ π Unit} {r : Except ε α} {s' s'' : σ}
    (hbody : run server body.prog s = (r, s')) (hlast : run server last.prog s' = (.ok (), s'')) :
    run server (Call.finally_ body last).prog s = (r, s'') := by
  rw [Call.finally_, run_bind_ok (run_attempt hbody), run_bind_ok hlast]
  rfl

theorem run_check {p : Prop} [Decidable p] {e : ε} (h : p) :
    run server (Call.check p e : Call ε ρ π Unit).prog s = (.ok (), s) := by
  rw [Call.check, if_pos h]
  rfl

/-- The run against a function is a run against every relation that the function follows. -/
theorem exists_runs_of_run {τ : Type} {step : τ → ρ → π → τ → Prop} {R : σ → τ → Prop}
    (hstep : ∀ {s : σ} {t : τ} (r : ρ), R s t → ∃ t', step t r (server r s).1 t' ∧ R (server r s).2 t') (c : Prog ρ π α)
    {t : τ} (h : R s t) : ∃ t', Runs step t c t' (run server c s).1 ∧ R (run server c s).2 t' := by
  induction c generalizing s t with
  | done a => exact ⟨t, .done t a, h⟩
  | ask r next ih =>
    obtain ⟨t₁, hask, h₁⟩ := hstep r h
    obtain ⟨t₂, hnext, h₂⟩ := ih _ h₁
    exact ⟨t₂, .ask hask hnext, h₂⟩

end

end Dialogue
