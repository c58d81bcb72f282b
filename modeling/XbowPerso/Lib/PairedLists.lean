import Mathlib.Data.List.Forall2

/-!
# Two lists side by side

Lists of one length whose entries are related pair by pair: where one of them is cut at an entry, the other is cut at its partner, and
what holds of the pairs of one list carries over to the other. A traversal pairs the elements of a list with their results.
-/

namespace PairedLists

variable {α β : Type} {R : α → β → Prop}

theorem forall₂_split {l : List α} {before after : List β} {y : β}
    (h : List.Forall₂ R l (before ++ y :: after)) :
    ∃ pre x post, l = pre ++ x :: post ∧ List.Forall₂ R pre before ∧ R x y ∧ List.Forall₂ R post after := by
  induction before generalizing l with
  | nil =>
    cases h with
    | cons hxy hrest => exact ⟨[], _, _, rfl, .nil, hxy, hrest⟩
  | cons z before ih =>
    cases h with
    | cons hxz hrest =>
      obtain ⟨pre, x, post, rfl, hpre, hxy, hpost⟩ := ih hrest
      exact ⟨_ :: pre, x, post, rfl, .cons hxz hpre, hxy, hpost⟩

theorem forall₂_join {pre post : List α} {before after : List β} {x : α} {y : β}
    (hpre : List.Forall₂ R pre before) (hxy : R x y) (hpost : List.Forall₂ R post after) :
    List.Forall₂ R (pre ++ x :: post) (before ++ y :: after) := by
  induction hpre with
  | nil => exact .cons hxy hpost
  | cons hab _ ih => exact .cons hab ih

theorem forall₂_left {l : List α} {l' : List β} (h : List.Forall₂ R l l') {x : α} (hx : x ∈ l) :
    ∃ y ∈ l', R x y := by
  obtain ⟨pre, post, rfl⟩ := List.append_of_mem hx
  obtain ⟨before, y, after, rfl, -, hxy, -⟩ := forall₂_split h.flip
  exact ⟨y, List.mem_append_right _ (List.mem_cons_self ..), hxy⟩

theorem forall₂_right {l : List α} {l' : List β} (h : List.Forall₂ R l l') {y : β} (hy : y ∈ l') :
    ∃ x ∈ l, R x y := by
  obtain ⟨before, after, rfl⟩ := List.append_of_mem hy
  obtain ⟨pre, x, post, rfl, -, hxy, -⟩ := forall₂_split h
  exact ⟨x, List.mem_append_right _ (List.mem_cons_self ..), hxy⟩

theorem pairwise_of_forall₂ {R' P Q : α → α → Prop} {l l' : List α} (h : List.Forall₂ R' l l') (hl : l.Pairwise P)
    (hstep : ∀ a b c d, R' a c → R' b d → P a b → Q c d) : l'.Pairwise Q := by
  induction h with
  | nil => exact .nil
  | @cons a c l l' hac hrest ih =>
    obtain ⟨hhead, htail⟩ := List.pairwise_cons.mp hl
    refine List.pairwise_cons.mpr ⟨fun d hd => ?_, ih htail⟩
    obtain ⟨b, hb, hbd⟩ := forall₂_right hrest hd
    exact hstep a b c d hac hbd (hhead b hb)

/-! ## Traversals -/

variable {ε : Type} {α β : Type} {f : α → Except ε β} {l l' : List α} {out : List β}

/-- The elements of a traversal and their results. -/
theorem forall₂_of_mapM (h : l.mapM f = .ok out) : List.Forall₂ (fun a b => f a = .ok b) l out := by
  induction l generalizing out with
  | nil =>
    cases h
    exact .nil
  | cons a l ih =>
    rw [List.mapM_cons] at h
    cases ha : f a with
    | error e =>
      rw [ha] at h
      cases h
    | ok b =>
      rw [ha] at h
      cases hrest : l.mapM f with
      | error e =>
        rw [hrest] at h
        cases h
      | ok rest =>
        rw [hrest] at h
        cases h
        exact .cons ha (ih hrest)

theorem mem_of_mapM_ok (h : l.mapM f = .ok out) {a : α} {b : β} (ha : a ∈ l) (hb : f a = .ok b) : b ∈ out := by
  obtain ⟨y, hy, hfa⟩ := forall₂_left (forall₂_of_mapM h) ha
  rwa [← Except.ok.inj (hfa.symm.trans hb)]

theorem exists_of_mapM_ok (h : l.mapM f = .ok out) {b : β} (hb : b ∈ out) : ∃ a ∈ l, f a = .ok b :=
  forall₂_right (forall₂_of_mapM h) hb

/-- A traversal of the same elements in another order has the same results in another order. -/
theorem mapM_perm (h : l'.Perm l) : ∀ {out : List β}, l.mapM f = .ok out → ∃ out', l'.mapM f = .ok out' ∧ out'.Perm out := by
  induction h with
  | nil => exact fun hout => ⟨_, hout, .refl _⟩
  | cons a _ ih =>
    intro out hout
    rw [List.mapM_cons] at hout ⊢
    cases ha : f a with
    | error e =>
      rw [ha] at hout
      cases hout
    | ok b =>
      rw [ha] at hout
      rename_i l₁ l₂ _
      cases hl : l₂.mapM f with
      | error e =>
        rw [hl] at hout
        cases hout
      | ok rest =>
        rw [hl] at hout
        cases hout
        obtain ⟨rest', hrest', hperm⟩ := ih hl
        exact ⟨b :: rest', by rw [hrest']; rfl, hperm.cons b⟩
  | swap a b l =>
    intro out hout
    rw [List.mapM_cons, List.mapM_cons] at hout ⊢
    cases ha : f a with
    | error e =>
      rw [ha] at hout
      cases hout
    | ok x =>
      cases hb : f b with
      | error e =>
        rw [ha, hb] at hout
        cases hout
      | ok y =>
        cases hl : l.mapM f with
        | error e =>
          rw [ha, hb, hl] at hout
          cases hout
        | ok rest =>
          rw [ha, hb, hl] at hout
          cases hout
          exact ⟨y :: x :: rest, rfl, .swap x y rest⟩
  | trans _ _ ih₁ ih₂ =>
    intro out hout
    obtain ⟨out₂, hout₂, hperm₂⟩ := ih₂ hout
    obtain ⟨out₁, hout₁, hperm₁⟩ := ih₁ hout₂
    exact ⟨out₁, hout₁, hperm₁.trans hperm₂⟩

end PairedLists
