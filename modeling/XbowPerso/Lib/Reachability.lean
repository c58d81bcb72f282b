import Mathlib.Logic.Relation

/-!
# Walks that avoid some points

What a relation reaches, and what it reaches without entering a set of points. A walk from a point leaves the point for the last time
with some step, and enters it no more after that: this is what a search that remembers only its path rests on.
-/

namespace Reachability

open Relation (ReflTransGen TransGen)

variable {α : Type} (r : α → α → Prop) (avoid : α → Prop)

/-- A step that does not enter the avoided points. -/
def Avoiding (a b : α) : Prop := r a b ∧ ¬ avoid b

/-- A cycle can be reached. -/
def ReachesCycle (a : α) : Prop := ∃ c, ReflTransGen r a c ∧ TransGen r c c

/-- The avoided points, and one point more. -/
def also (a : α) : α → Prop := fun b => avoid b ∨ b = a

variable {r avoid} {a b c : α}

theorem Avoiding.reach (h : ReflTransGen (Avoiding r avoid) a b) : ReflTransGen r a b :=
  ReflTransGen.mono (fun _ _ h => h.1) _ _ h

/-- The last step that leaves a point. -/
theorem last_exit (h : ReflTransGen (Avoiding r avoid) a b) :
    b = a ∨ ∃ c, r a c ∧ ¬ avoid c ∧ ReflTransGen (Avoiding r (also avoid a)) c b := by
  induction h with
  | refl => exact .inl rfl
  | @tail x y _ hstep ih =>
    by_cases hy : y = a
    · exact .inl hy
    · right
      rcases ih with rfl | ⟨c, hac, hc, hreach⟩
      · exact ⟨y, hstep.1, hstep.2, .refl⟩
      · exact ⟨c, hac, hc, hreach.tail ⟨hstep.1, fun h => h.elim hstep.2 hy⟩⟩

/-- A walk avoids a point, or it passes through it. -/
theorem avoids_or_passes (p : α) (h : TransGen (Avoiding r avoid) a b) :
    TransGen (Avoiding r (also avoid p)) a b ∨ TransGen (Avoiding r avoid) a p ∧ ReflTransGen (Avoiding r avoid) p b := by
  induction h with
  | @single y hstep =>
    by_cases hy : y = p
    · subst hy
      exact .inr ⟨.single hstep, .refl⟩
    · exact .inl (.single ⟨hstep.1, fun h => h.elim hstep.2 hy⟩)
  | @tail x y hwalk hstep ih =>
    by_cases hy : y = p
    · subst hy
      exact .inr ⟨hwalk.tail hstep, .refl⟩
    · rcases ih with havoids | ⟨hto, hfrom⟩
      · exact .inl (havoids.tail ⟨hstep.1, fun h => h.elim hstep.2 hy⟩)
      · exact .inr ⟨hto, hfrom.tail hstep⟩

/-- What is reached from a point is reached without coming back to it. -/
theorem reach_without_return (h : ReflTransGen r a b) : ReflTransGen (Avoiding r fun x => x = a) a b := by
  induction h with
  | refl => exact .refl
  | @tail x y _ hstep ih =>
    by_cases hy : y = a
    · subst hy
      exact .refl
    · exact ih.tail ⟨hstep, hy⟩

/-- A closed set of points that the start reaches, with the start, is all that it reaches. -/
theorem mem_iff_reach {P : α → Prop} (hstart : P a) (hclosed : ∀ {x y : α}, P x → r x y → P y)
    (hreach : ∀ {x : α}, P x → ReflTransGen r a x) : P b ↔ ReflTransGen r a b := by
  refine ⟨hreach, fun h => ?_⟩
  induction h with
  | refl => exact hstart
  | tail _ hstep ih => exact hclosed ih hstep

/-- Of a symmetric relation, a closed set that the start is not in has nothing that the start reaches. -/
theorem not_of_reach {P : α → Prop} (hsymm : ∀ {x y : α}, r x y → r y x) (hclosed : ∀ {x y : α}, P x → r x y → P y)
    (hstart : ¬ P a) (h : ReflTransGen r a b) : ¬ P b := by
  induction h with
  | refl => exact hstart
  | tail _ hstep ih => exact fun hb => ih (hclosed hb (hsymm hstep))

/-! ## Coming back -/

variable (r avoid)

/-- A walk that does not enter the avoided points comes to a step into them, or to a cycle. -/
def ComesBack (a : α) : Prop :=
  (∃ x p, ReflTransGen (Avoiding r avoid) a x ∧ r x p ∧ avoid p) ∨
    ∃ x, ReflTransGen (Avoiding r avoid) a x ∧ TransGen (Avoiding r avoid) x x

variable {r avoid}

/-- A walk that comes back does so with its first step, or after it. -/
theorem ComesBack.first (h : ComesBack r avoid a) :
    (∃ p, r a p ∧ avoid p) ∨ ∃ c, r a c ∧ ¬ avoid c ∧ ComesBack r (also avoid a) c := by
  -- a walk that returns to its start leaves it for the last time, and then comes to the start
  have hreturn : ∀ {y : α}, ReflTransGen (Avoiding r avoid) a y → Avoiding r avoid y a →
      ∃ c, r a c ∧ ¬ avoid c ∧ ComesBack r (also avoid a) c := by
    intro y hy hstep
    rcases last_exit hy with rfl | ⟨c, hac, hc, hreach⟩
    · exact ⟨y, hstep.1, hstep.2, .inl ⟨y, y, .refl, hstep.1, .inr rfl⟩⟩
    · exact ⟨c, hac, hc, .inl ⟨y, a, hreach, hstep.1, .inr rfl⟩⟩
  rcases h with ⟨x, p, hx, hxp, hp⟩ | ⟨x, hx, hcycle⟩
  · rcases last_exit hx with rfl | ⟨c, hac, hc, hreach⟩
    · exact .inl ⟨p, hxp, hp⟩
    · exact .inr ⟨c, hac, hc, .inl ⟨x, p, hreach, hxp, .inl hp⟩⟩
  · right
    rcases avoids_or_passes a hcycle with havoids | ⟨hto, -⟩
    · rcases last_exit hx with rfl | ⟨c, hac, hc, hreach⟩
      · -- the cycle starts at the point itself
        obtain ⟨y, hy, hstep⟩ := TransGen.tail'_iff.mp hcycle
        exact hreturn hy hstep
      · exact ⟨c, hac, hc, .inr ⟨x, hreach, havoids⟩⟩
    · obtain ⟨y, hy, hstep⟩ := TransGen.tail'_iff.mp hto
      exact hreturn (hx.trans hy) hstep

/-- A cycle that can be reached is one that a walk without a return to its start comes back with. -/
theorem comesBack_of_reachesCycle (h : ReachesCycle r a) : ComesBack r (fun x => x = a) a := by
  obtain ⟨c, hac, hcycle⟩ := h
  have hnone : ∀ {x y : α}, TransGen r x y → TransGen (Avoiding r fun _ => False) x y :=
    TransGen.mono (fun _ _ hstep => ⟨hstep, not_false⟩) _ _
  rcases avoids_or_passes a (hnone hcycle) with havoids | ⟨hto, -⟩
  · exact .inr ⟨c, reach_without_return hac, TransGen.mono (fun x y h => ⟨h.1, fun hy => h.2 (.inr hy)⟩) _ _ havoids⟩
  · obtain ⟨y, hy, hstep⟩ := TransGen.tail'_iff.mp hto
    exact .inl ⟨y, a, reach_without_return (hac.trans (Avoiding.reach hy)), hstep.1, rfl⟩

end Reachability
