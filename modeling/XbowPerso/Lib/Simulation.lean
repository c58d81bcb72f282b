import Mathlib.Init

/-!
# Machines that answer, and their simulation

A machine takes inputs one after the other and shows something after each. Two machines that are related at every step show the
same along a whole run. The relation may rest on a condition on the input and the state before it, which then has to hold along
the run (`Along`).
-/

/-- A machine over the state `σ` that takes an `ι` and shows an `ο`. -/
structure Machine (ι ο σ : Type) where
  init : σ
  step : σ → ι → σ
  shows : σ → ι → ο

namespace Machine

variable {ι ο σ τ : Type}

/-- What a machine shows along a run. -/
def trace (m : Machine ι ο σ) : σ → List ι → List ο
  | _, [] => []
  | s, i :: is => m.shows s i :: m.trace (m.step s i) is

/-- A condition on the inputs of a run and the states that they meet. -/
def Along (m : Machine ι ο σ) (C : ι → σ → Prop) : σ → List ι → Prop
  | _, [] => True
  | s, i :: is => C i s ∧ m.Along C (m.step s i) is

theorem Along.and {m : Machine ι ο σ} {C D : ι → σ → Prop} {s : σ} {is : List ι} (hC : m.Along C s is)
    (hD : m.Along D s is) : m.Along (fun i s => C i s ∧ D i s) s is := by
  induction is generalizing s with
  | nil => trivial
  | cons i is ih => exact ⟨⟨hC.1, hD.1⟩, ih hC.2 hD.2⟩

/-- A condition on the inputs alone. -/
theorem along_of_forall {m : Machine ι ο σ} {C : ι → Prop} {s : σ} {is : List ι} (h : ∀ i ∈ is, C i) :
    m.Along (fun i _ => C i) s is := by
  induction is generalizing s with
  | nil => trivial
  | cons i is ih => exact ⟨h i List.mem_cons_self, ih fun j hj => h j (List.mem_cons_of_mem i hj)⟩

/-- Related machines show the same along every run that meets the condition of their steps. -/
theorem trace_eq_of_simulation {m : Machine ι ο σ} {n : Machine ι ο τ} {C : ι → σ → Prop} {R : σ → τ → Prop}
    (hstep : ∀ i s t, R s t → C i s → n.shows t i = m.shows s i ∧ R (m.step s i) (n.step t i))
    {s : σ} {t : τ} (hR : R s t) {is : List ι} (hC : m.Along C s is) : n.trace t is = m.trace s is := by
  induction is generalizing s t with
  | nil => rfl
  | cons i is ih =>
    obtain ⟨hshow, hnext⟩ := hstep i s t hR hC.1
    rw [trace, trace, hshow, ih hnext hC.2]

end Machine
