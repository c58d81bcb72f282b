import Mathlib.Data.List.Range
import Mathlib.Data.List.Infix
import Mathlib.Data.List.Basic

/-!
# Logs that only grow

A log is a list to whose end entries are appended. What holds of an entry and the entries after it is said by splitting the log there;
the lemmas relate the splits of a log before and after an append, and the last entry of a kind to the split at its index.
-/

namespace EventLog

variable {α : Type}

/-- A split of a longer log is one of the log before, or lies in what was appended. -/
theorem split_append {l appended before after : List α} {x : α} (h : l ++ appended = before ++ x :: after) :
    (∃ rest, l = before ++ x :: rest ∧ after = rest ++ appended) ∨ ∃ mid, before = l ++ mid ∧ appended = mid ++ x :: after := by
  rcases List.append_eq_append_iff.mp h with ⟨mid, hbefore, happended⟩ | ⟨mid, hl, hafter⟩
  · exact .inr ⟨mid, hbefore, happended⟩
  · cases mid with
    | nil => exact .inr ⟨[], by simpa using hl.symm, by simpa using hafter.symm⟩
    | cons y mid =>
      obtain ⟨rfl, rfl⟩ := List.cons.inj hafter
      exact .inl ⟨mid, hl, rfl⟩

/-- Of two entries of a log, one stands before the other, or they are the same. -/
theorem split_cases {before before' after after' : List α} {x y : α} (h : before ++ x :: after = before' ++ y :: after') :
    (before = before' ∧ x = y ∧ after = after') ∨ (∃ mid, after = mid ++ y :: after' ∧ before' = before ++ x :: mid) ∨
      ∃ mid, after' = mid ++ x :: after ∧ before = before' ++ y :: mid := by
  rcases List.append_eq_append_iff.mp h with ⟨mid, hbefore, hrest⟩ | ⟨mid, hbefore, hrest⟩
  · cases mid with
    | nil =>
      obtain ⟨rfl, rfl⟩ := List.cons.inj hrest
      exact .inl ⟨by simpa using hbefore.symm, rfl, rfl⟩
    | cons z mid =>
      obtain ⟨rfl, rfl⟩ := List.cons.inj hrest
      exact .inr (.inl ⟨mid, rfl, hbefore⟩)
  · cases mid with
    | nil =>
      obtain ⟨rfl, rfl⟩ := List.cons.inj hrest
      exact .inl ⟨by simpa using hbefore, rfl, rfl⟩
    | cons z mid =>
      obtain ⟨rfl, rfl⟩ := List.cons.inj hrest
      exact .inr (.inr ⟨mid, rfl, hbefore⟩)

/-! ## The last entry of a kind -/

theorem pairwise_zipIdx (l : List α) : l.zipIdx.Pairwise fun a b => a.2 < b.2 := by
  have hrange : (l.zipIdx.map Prod.snd).Pairwise (· < ·) := by
    rw [List.zipIdx_map_snd]
    exact List.pairwise_lt_range'
  exact List.pairwise_map.mp hrange

theorem map_filter_zipIdx (p : α → Bool) (l : List α) : (l.zipIdx.filter fun e => p e.1).map Prod.fst = l.filter p := by
  have hmap : l.zipIdx.map Prod.fst = l := List.zipIdx_map_fst 0 l
  conv_rhs => rw [← hmap]
  rw [List.filter_map]
  rfl

/-- The split of a log at an index. -/
theorem eq_take_append_drop {l : List α} {i : Nat} {x : α} (h : l[i]? = some x) : l = l.take i ++ x :: l.drop (i + 1) := by
  obtain ⟨hlt, hget⟩ := List.getElem?_eq_some_iff.mp h
  rw [← hget, List.getElem_cons_drop, List.take_append_drop]

theorem mem_drop_iff {l : List α} {i : Nat} {y : α} : y ∈ l.drop i ↔ ∃ j, i ≤ j ∧ l[j]? = some y := by
  constructor
  · intro h
    obtain ⟨k, hk, hget⟩ := List.mem_iff_getElem.mp h
    refine ⟨i + k, Nat.le_add_right i k, ?_⟩
    rw [List.getElem_drop] at hget
    rw [List.length_drop] at hk
    exact List.getElem?_eq_some_iff.mpr ⟨by omega, hget⟩
  · rintro ⟨j, hij, hget⟩
    obtain ⟨hlt, hget⟩ := List.getElem?_eq_some_iff.mp hget
    refine List.mem_iff_getElem.mpr ⟨j - i, by rw [List.length_drop]; omega, ?_⟩
    rw [List.getElem_drop]
    simp only [Nat.add_sub_cancel' hij, hget]

/-- The last entry of a kind stands at its index, and no entry of the kind follows. -/
theorem last_filter_zipIdx {p : α → Bool} {l : List α} {x : α} {i : Nat}
    (h : (l.zipIdx.filter fun e => p e.1).getLast? = some (x, i)) :
    l[i]? = some x ∧ p x = true ∧ ∀ y ∈ l.drop (i + 1), p y = false := by
  have hmem := List.mem_of_getLast? h
  obtain ⟨hzip, hp⟩ := List.mem_filter.mp hmem
  refine ⟨List.mem_zipIdx_iff_getElem?.mp hzip, hp, fun y hy => ?_⟩
  obtain ⟨j, hij, hget⟩ := mem_drop_iff.mp hy
  by_contra hpy
  rw [Bool.not_eq_false] at hpy
  have hmem' : (y, j) ∈ l.zipIdx.filter fun e => p e.1 :=
    List.mem_filter.mpr ⟨List.mem_zipIdx_iff_getElem?.mpr hget, hpy⟩
  obtain ⟨init, hinit⟩ := List.getLast?_eq_some_iff.mp h
  have hsorted := (pairwise_zipIdx l).sublist (List.filter_sublist (p := fun e => p e.1))
  rw [hinit] at hmem' hsorted
  rcases List.mem_append.mp hmem' with hbefore | hlast
  · have hlt := (List.pairwise_append.mp hsorted).2.2 _ hbefore _ List.mem_cons_self
    dsimp only at hlt
    omega
  · have heq := List.mem_singleton.mp hlast
    have hj : j = i := (Prod.mk.inj heq).2
    omega

/-- The last entry of a kind, as the split of the log there. -/
theorem last_filter {p : α → Bool} {l : List α} {x : α} (h : (l.filter p).getLast? = some x) :
    ∃ i, (l.zipIdx.filter fun e => p e.1).getLast? = some (x, i) := by
  rw [← map_filter_zipIdx, List.getLast?_map] at h
  obtain ⟨⟨y, i⟩, hlast, rfl⟩ := Option.map_eq_some_iff.mp h
  exact ⟨i, hlast⟩

end EventLog

/-!
## Chains of hashes

Each link of a chain names the hash of the content of the one before it. When the hash tells the contents of two chains apart and a
content determines the hash that it names, two chains of one length with the same last hash have the same contents.
-/

namespace HashChain

variable {α β η : Type} (content : α → β) (hash : β → η) (names : α → Option η)

/-- The links from a hash on: the first one names it, each other one the hash of the one before. -/
def Linked : Option η → List α → Prop
  | _, [] => True
  | previous, a :: rest => names a = previous ∧ Linked (some (hash (content a))) rest

variable {content hash names}

/-- A link names the hash of the one right before it. -/
theorem Linked.names_next {xs ys : List α} {a b : α} {p : Option η} (h : Linked content hash names p (xs ++ a :: b :: ys)) :
    names b = some (hash (content a)) := by
  induction xs generalizing p with
  | nil => exact h.2.1
  | cons x xs ih => exact ih h.2

/-- Chains of one length that end in the same hash have the same contents, when the hash has no collision among them. -/
theorem map_content_eq {xs ys : List α} {p q : Option η} (hxs : Linked content hash names p xs)
    (hys : Linked content hash names q ys) (hlength : xs.length = ys.length)
    (hlast : xs.getLast?.map (fun a => hash (content a)) = ys.getLast?.map fun a => hash (content a))
    (hinj : ∀ x ∈ xs, ∀ y ∈ ys, hash (content x) = hash (content y) → content x = content y)
    (hnames : ∀ x ∈ xs, ∀ y ∈ ys, content x = content y → names x = names y) : xs.map content = ys.map content := by
  induction xs generalizing ys p q with
  | nil =>
    rw [List.length_nil] at hlength
    rw [List.length_eq_zero_iff.mp hlength.symm]
  | cons x xs ih =>
    cases ys with
    | nil => cases hlength
    | cons y ys =>
      have hlength' : xs.length = ys.length := Nat.succ.inj hlength
      have hinj' : ∀ a ∈ xs, ∀ b ∈ ys, hash (content a) = hash (content b) → content a = content b :=
        fun a ha b hb => hinj a (List.mem_cons_of_mem x ha) b (List.mem_cons_of_mem y hb)
      have hnames' : ∀ a ∈ xs, ∀ b ∈ ys, content a = content b → names a = names b :=
        fun a ha b hb => hnames a (List.mem_cons_of_mem x ha) b (List.mem_cons_of_mem y hb)
      -- the rest agrees, and its first link names the hash of the head
      have hrest : xs.map content = ys.map content ∧ hash (content x) = hash (content y) := by
        cases xs with
        | nil =>
          have hnil : ys = [] := List.length_eq_zero_iff.mp hlength'.symm
          subst hnil
          exact ⟨rfl, Option.some.inj hlast⟩
        | cons x' xs =>
          cases ys with
          | nil => cases hlength'
          | cons y' ys =>
            have hmap := ih hxs.2 hys.2 hlength' (by simpa using hlast) hinj' hnames'
            have hhead : content x' = content y' := (List.cons.inj hmap).1
            have hnamed := hnames' x' List.mem_cons_self y' List.mem_cons_self hhead
            rw [hxs.2.1, hys.2.1] at hnamed
            exact ⟨hmap, Option.some.inj hnamed⟩
      rw [List.map_cons, List.map_cons, hrest.1, hinj x List.mem_cons_self y List.mem_cons_self hrest.2]

end HashChain
