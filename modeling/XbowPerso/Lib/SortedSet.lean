import Mathlib.Data.List.Sort
import Mathlib.Data.Prod.Lex

/-!
# Sorted sets

A sorted set holds members, each once, with a score; its entries are kept in the order of the scores, and members of one score in
the order of the members. Adding a member that is there moves it to its new score.
-/

/-- A set of scored members, held as the list of its entries in lexicographic order of score and member. -/
structure SortedSet (β α : Type) [LinearOrder β] [LinearOrder α] where
  entries : List (β ×ₗ α)
  sorted : entries.Pairwise (· ≤ ·)
  nodup : (entries.map (fun e => (ofLex e).2)).Nodup

namespace SortedSet

variable {β α : Type} [LinearOrder β] [LinearOrder α]

/-- The sorted set with no member. -/
def empty : SortedSet β α := ⟨[], List.Pairwise.nil, List.nodup_nil⟩

/-- The entries of the other members. -/
def without (z : SortedSet β α) (m : α) : List (β ×ₗ α) := z.entries.filter (fun e => decide ((ofLex e).2 ≠ m))

theorem mem_without (z : SortedSet β α) (m : α) (e : β ×ₗ α) : e ∈ z.without m ↔ e ∈ z.entries ∧ (ofLex e).2 ≠ m := by
  simp [without, List.mem_filter]

theorem without_sublist (z : SortedSet β α) (m : α) : (z.without m).Sublist z.entries := List.filter_sublist

/-- Remove a member. -/
def zrem (z : SortedSet β α) (m : α) : SortedSet β α where
  entries := z.without m
  sorted := z.sorted.sublist (z.without_sublist m)
  nodup := z.nodup.sublist ((z.without_sublist m).map _)

/-- Add a member with a score, or move it there. -/
def zadd (z : SortedSet β α) (m : α) (s : β) : SortedSet β α where
  entries := (z.without m).orderedInsert (· ≤ ·) (toLex (s, m))
  sorted := (z.sorted.sublist (z.without_sublist m)).orderedInsert _ _
  nodup := by
    have hp := (List.perm_orderedInsert (· ≤ ·) (toLex (s, m)) (z.without m)).map (fun e => (ofLex e).2)
    rw [hp.nodup_iff, List.map_cons, List.nodup_cons]
    refine ⟨fun h => ?_, z.nodup.sublist ((z.without_sublist m).map _)⟩
    obtain ⟨e, he, hem⟩ := List.mem_map.mp h
    exact ((z.mem_without m e).mp he).2 hem

/-- The score of a member, if it is one. -/
def score? (z : SortedSet β α) (m : α) : Option β :=
  (z.entries.find? (fun e => decide ((ofLex e).2 = m))).map (fun e => (ofLex e).1)

/-- The members, in order. -/
def range (z : SortedSet β α) : List α := z.entries.map (fun e => (ofLex e).2)

/-- The first member. -/
def front? (z : SortedSet β α) : Option α := z.range.head?

/-- The members whose score is at most `c`, in order. -/
def rangeByScore (z : SortedSet β α) (c : β) : List α :=
  (z.entries.filter (fun e => decide ((ofLex e).1 ≤ c))).map (fun e => (ofLex e).2)

/-! ## What the operations do to the scores -/

/-- A member has the score of its one entry. -/
theorem score?_eq_some (z : SortedSet β α) (m : α) (s : β) : z.score? m = some s ↔ toLex (s, m) ∈ z.entries := by
  unfold score?
  constructor
  · intro h
    obtain ⟨e, he, hs⟩ := Option.map_eq_some_iff.mp h
    have hm : (ofLex e).2 = m := by simpa using List.find?_some he
    have := List.mem_of_find?_eq_some he
    rwa [show e = toLex (s, m) from by rw [← hs, ← hm]; rfl] at this
  · intro h
    cases hf : z.entries.find? (fun e => decide ((ofLex e).2 = m)) with
    | none => simpa using List.find?_eq_none.mp hf _ h
    | some e =>
      have hm : (ofLex e).2 = m := by simpa using List.find?_some hf
      have he := List.mem_of_find?_eq_some hf
      have : e = toLex (s, m) := List.inj_on_of_nodup_map z.nodup he h hm
      rw [this]
      rfl

@[simp] theorem score?_empty (m : α) : (empty : SortedSet β α).score? m = none := rfl

@[simp] theorem score?_zrem (z : SortedSet β α) (m m' : α) :
    (z.zrem m).score? m' = if m' = m then none else z.score? m' := by
  apply Option.ext
  intro s
  rw [score?_eq_some]
  show toLex (s, m') ∈ z.without m ↔ _
  rw [mem_without]
  by_cases h : m' = m
  · simp [h]
  · simp [h, score?_eq_some]

@[simp] theorem score?_zadd (z : SortedSet β α) (m m' : α) (s : β) :
    (z.zadd m s).score? m' = if m' = m then some s else z.score? m' := by
  apply Option.ext
  intro t
  rw [score?_eq_some]
  show toLex (t, m') ∈ (z.without m).orderedInsert _ _ ↔ _
  rw [List.mem_orderedInsert, mem_without]
  by_cases h : m' = m
  · simp [h, eq_comm]
  · simp [h, score?_eq_some]

/-- The range lists the members that have a score. -/
theorem mem_range (z : SortedSet β α) (m : α) : m ∈ z.range ↔ ∃ s, z.score? m = some s := by
  simp only [range, List.mem_map, score?_eq_some]
  constructor
  · rintro ⟨e, he, rfl⟩
    exact ⟨(ofLex e).1, he⟩
  · rintro ⟨s, hs⟩
    exact ⟨_, hs, rfl⟩

/-- The range by score lists the members of a score at most the bound. -/
theorem mem_rangeByScore (z : SortedSet β α) (c : β) (m : α) :
    m ∈ z.rangeByScore c ↔ ∃ s, z.score? m = some s ∧ s ≤ c := by
  simp only [rangeByScore, List.mem_map, List.mem_filter, decide_eq_true_eq, score?_eq_some]
  constructor
  · rintro ⟨e, ⟨he, hc⟩, rfl⟩
    exact ⟨(ofLex e).1, he, hc⟩
  · rintro ⟨s, hs, hc⟩
    exact ⟨_, ⟨hs, hc⟩, rfl⟩

theorem nodup_rangeByScore (z : SortedSet β α) (c : β) : (z.rangeByScore c).Nodup :=
  z.nodup.sublist (List.filter_sublist.map _)

/-- The first member is the one of the least entry. -/
theorem front?_eq_some (z : SortedSet β α) (m : α) :
    z.front? = some m ↔
      ∃ s, z.score? m = some s ∧ ∀ m' s', z.score? m' = some s' → toLex (s, m) ≤ toLex (s', m') := by
  obtain ⟨l, hs, hn⟩ := z
  simp only [front?, range, score?_eq_some]
  cases l with
  | nil => simp
  | cons e l =>
    simp only [List.map_cons, List.head?_cons, Option.some.injEq]
    rw [List.pairwise_cons] at hs
    constructor
    · rintro rfl
      refine ⟨(ofLex e).1, List.mem_cons_self, fun m' s' h => ?_⟩
      rcases List.mem_cons.mp h with h | h
      · exact le_of_eq h.symm
      · exact hs.1 _ h
    · rintro ⟨s, hm, hle⟩
      have he : toLex (s, m) ≤ e := hle (ofLex e).2 (ofLex e).1 List.mem_cons_self
      rcases List.mem_cons.mp hm with h | h
      · rw [← h]
        rfl
      · have := le_antisymm he (hs.1 _ h)
        rw [← this]
        rfl

/-- A sorted set without a first member has no member. -/
theorem front?_eq_none (z : SortedSet β α) : z.front? = none ↔ ∀ m, z.score? m = none := by
  rw [front?, List.head?_eq_none_iff]
  constructor
  · intro h m
    cases hs : z.score? m with
    | none => rfl
    | some s =>
      have := (z.mem_range m).mpr ⟨s, hs⟩
      rw [h] at this
      exact absurd this List.not_mem_nil
  · intro h
    apply List.eq_nil_iff_forall_not_mem.mpr
    intro m hm
    obtain ⟨s, hs⟩ := (z.mem_range m).mp hm
    rw [h m] at hs
    cases hs

end SortedSet
