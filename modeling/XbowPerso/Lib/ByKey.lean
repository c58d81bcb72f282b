import Mathlib.Data.List.Dedup
import Mathlib.Data.List.Nodup
import Mathlib.Data.List.Perm.Basic
import Mathlib.Data.List.Sort
import XbowPerso.Lib.Dict

/-!
# Lists by a key

The first of each key, the elements in the order of their keys, what the elements of each key make together, and the first of a set.
-/

/-! ## The first of each key

A pass over a list that keeps an element unless one with its key was seen before. What it keeps is, for each key, the first element that
has it.
-/

namespace DistinctBy

variable {α κ : Type} [DecidableEq κ] (key : α → κ)

/-- The first elements of the keys that are not among those seen. -/
def distinctBy (seen : List κ) : List α → List α
  | [] => []
  | a :: l => if key a ∈ seen then distinctBy seen l else a :: distinctBy (key a :: seen) l

variable {key} {seen : List κ} {l : List α} {a b : α}

theorem mem_distinctBy : b ∈ distinctBy key seen l ↔ key b ∉ seen ∧ l.find? (fun x => decide (key x = key b)) = some b := by
  induction l generalizing seen with
  | nil => simp [distinctBy]
  | cons a l ih =>
    unfold distinctBy
    by_cases hseen : key a ∈ seen
    · rw [if_pos hseen, ih]
      constructor
      · rintro ⟨hb, hfind⟩
        have hne : key a ≠ key b := fun h => hb (h ▸ hseen)
        exact ⟨hb, by rw [List.find?_cons_of_neg (by simpa using hne), hfind]⟩
      · rintro ⟨hb, hfind⟩
        have hne : key a ≠ key b := fun h => hb (h ▸ hseen)
        rw [List.find?_cons_of_neg (by simpa using hne)] at hfind
        exact ⟨hb, hfind⟩
    · rw [if_neg hseen, List.mem_cons, ih]
      constructor
      · rintro (rfl | ⟨hb, hfind⟩)
        · exact ⟨hseen, List.find?_cons_of_pos (by simp)⟩
        · have hne : key a ≠ key b := fun h => hb (h ▸ List.mem_cons_self)
          exact ⟨fun hmem => hb (List.mem_cons_of_mem _ hmem), by rw [List.find?_cons_of_neg (by simpa using hne), hfind]⟩
      · rintro ⟨hb, hfind⟩
        by_cases heq : key a = key b
        · rw [List.find?_cons_of_pos (by simpa using heq)] at hfind
          exact .inl (Option.some.inj hfind).symm
        · rw [List.find?_cons_of_neg (by simpa using heq)] at hfind
          exact .inr ⟨fun hmem => (List.mem_cons.mp hmem).elim (fun h => heq h.symm) hb, hfind⟩

theorem mem_of_mem_distinctBy (h : b ∈ distinctBy key seen l) : b ∈ l := List.mem_of_find?_eq_some (mem_distinctBy.mp h).2

theorem find?_congr {p q : α → Bool} (h : ∀ a ∈ l, p a = q a) : l.find? p = l.find? q := by
  induction l with
  | nil => rfl
  | cons a l ih =>
    rw [List.find?_cons, List.find?_cons, h a List.mem_cons_self, ih fun b hb => h b (List.mem_cons_of_mem _ hb)]

/-- Each key is kept once. -/
theorem nodup_keys : ((distinctBy key seen l).map key).Nodup := by
  induction l generalizing seen with
  | nil => exact List.nodup_nil
  | cons a l ih =>
    unfold distinctBy
    split
    · exact ih
    · rw [List.map_cons, List.nodup_cons]
      refine ⟨fun hmem => ?_, ih⟩
      obtain ⟨b, hb, hkey⟩ := List.mem_map.mp hmem
      exact (mem_distinctBy.mp hb).1 (hkey ▸ List.mem_cons_self)

/-- Elements that are kept under one key are one. -/
theorem eq_of_key (ha : a ∈ distinctBy key seen l) (hb : b ∈ distinctBy key seen l) (h : key a = key b) : a = b :=
  List.inj_on_of_nodup_map nodup_keys ha hb h

end DistinctBy

/-! ## Sorting by a key

A list sorted by a key that tells its elements apart does not depend on the order that it had.
-/

namespace SortByKey

variable {α κ : Type} [LinearOrder κ] (key : α → κ)

/-- The elements in the order of their keys. -/
def sortByKey (l : List α) : List α := l.insertionSort fun a b => key a ≤ key b

variable {key} {l l' : List α} {a : α}

theorem perm_sortByKey : (sortByKey key l).Perm l := List.perm_insertionSort _ l

theorem mem_sortByKey : a ∈ sortByKey key l ↔ a ∈ l := perm_sortByKey.mem_iff

theorem pairwise_sortByKey : (sortByKey key l).Pairwise fun a b => key a ≤ key b := by
  have htotal : Std.Total fun a b : α => key a ≤ key b := ⟨fun a b => le_total (key a) (key b)⟩
  have htrans : IsTrans α fun a b : α => key a ≤ key b := ⟨fun _ _ _ => le_trans⟩
  exact List.pairwise_insertionSort _ l

/-- What is sorted does not matter as to its order. -/
theorem sortByKey_eq_of_perm (hkey : ∀ a ∈ l, ∀ b ∈ l, key a = key b → a = b) (h : l.Perm l') : sortByKey key l = sortByKey key l' := by
  have hperm : (sortByKey key l).Perm (sortByKey key l') := perm_sortByKey.trans (h.trans perm_sortByKey.symm)
  refine hperm.eq_of_pairwise (fun a b ha hb hab hba => ?_) pairwise_sortByKey pairwise_sortByKey
  exact hkey a (mem_sortByKey.mp ha) b (h.mem_iff.mpr (mem_sortByKey.mp hb)) (le_antisymm hab hba)

end SortByKey

/-! ## Grouping by a key

A pass over a list that collects, under each key, what the elements with the key make of a start value. When the elements of a group may
be taken in any order, so may the list.
-/

namespace GroupBy

variable {α β κ : Type} [DecidableEq κ] (key : α → κ) (step : β → α → β) (start : β)

/-- An element joins the group of its key. -/
def join (groups : Dict κ β) (a : α) : Dict κ β := groups.set (key a) (step ((groups.get? (key a)).getD start) a)

def groupBy (l : List α) : Dict κ β := l.foldl (join key step start) .empty

variable {key step start} {l l' : List α} {k : κ}

theorem get?_foldl (groups : Dict κ β) : (l.foldl (join key step start) groups).get? k =
    if l.filter (fun a => decide (key a = k)) = [] then groups.get? k
    else some ((l.filter fun a => decide (key a = k)).foldl step ((groups.get? k).getD start)) := by
  induction l generalizing groups with
  | nil => rfl
  | cons a l ih =>
    rw [List.foldl_cons, ih]
    by_cases hkey : key a = k
    · subst hkey
      rw [List.filter_cons_of_pos (by simp), if_neg (List.cons_ne_nil _ _), List.foldl_cons, join, Dict.get?_set_self, Option.getD_some]
      split
      · rename_i hnil
        rw [hnil, List.foldl_nil]
      · rfl
    · rw [List.filter_cons_of_neg (by simpa using hkey), join, Dict.get?_set_of_ne fun h => hkey h.symm]

/-- What a key finds is made of the elements with the key. -/
theorem get?_groupBy : (groupBy key step start l).get? k =
    if l.filter (fun a => decide (key a = k)) = [] then none
    else some ((l.filter fun a => decide (key a = k)).foldl step start) := by
  rw [groupBy, get?_foldl, Dict.get?_empty, Option.getD_none]

theorem groupBy_concat (a : α) : groupBy key step start (l ++ [a]) = join key step start (groupBy key step start l) a := by
  rw [groupBy, List.foldl_append]
  rfl

theorem perm_of_get? {d d' : Dict κ β} (h : ∀ k, d.get? k = d'.get? k) : d.entries.Perm d'.entries := by
  refine (List.perm_ext_iff_of_nodup (List.Nodup.of_map _ d.nodup) (List.Nodup.of_map _ d'.nodup)).mpr fun e => ?_
  obtain ⟨k, v⟩ := e
  rw [Dict.mem_entries, Dict.mem_entries, h]

/-- The groups do not depend on the order of the list. -/
theorem groupBy_perm [RightCommutative step] (h : l.Perm l') :
    (groupBy key step start l).entries.Perm (groupBy key step start l').entries := by
  refine perm_of_get? fun k => ?_
  have hfilter := h.filter fun a => decide (key a = k)
  rw [get?_groupBy, get?_groupBy, hfilter.foldl_eq]
  have hnil : l.filter (fun a => decide (key a = k)) = [] ↔ l'.filter (fun a => decide (key a = k)) = [] := by
    rw [← List.length_eq_zero_iff, ← List.length_eq_zero_iff, hfilter.length_eq]
  simp only [hnil]

end GroupBy

/-! ## The first of a set

The first elements of a set in their order, of which a union needs no others.
-/

namespace FirstOfSet

variable {α : Type} [LinearOrder α] {l l' : List α} {n : Nat} {a b : α}

/-- `sorted(set(l))[:n]` -/
def firsts (n : Nat) (l : List α) : List α := (l.dedup.insertionSort (· ≤ ·)).take n

theorem mem_sorted : a ∈ l.dedup.insertionSort (· ≤ ·) ↔ a ∈ l := by rw [List.mem_insertionSort, List.mem_dedup]

theorem pairwise_sorted (l : List α) : (l.dedup.insertionSort (· ≤ ·)).Pairwise (· < ·) := by
  have hle : (l.dedup.insertionSort (· ≤ ·)).Pairwise (· ≤ ·) := List.pairwise_insertionSort _ _
  have hne : (l.dedup.insertionSort (· ≤ ·)).Nodup := (List.perm_insertionSort _ _).nodup_iff.mpr (List.nodup_dedup l)
  exact (hle.and hne).imp fun h => lt_of_le_of_ne h.1 h.2

/-- Two lists in strict order with the same elements are one. -/
theorem eq_of_mem_iff (hl : l.Pairwise (· < ·)) (hl' : l'.Pairwise (· < ·)) (h : ∀ a, a ∈ l ↔ a ∈ l') : l = l' := by
  have hperm : l.Perm l' := (List.perm_ext_iff_of_nodup (hl.imp ne_of_lt) (hl'.imp ne_of_lt)).mpr h
  exact hperm.eq_of_pairwise (fun a b _ _ hab hba => absurd hba (lt_asymm hab)) hl hl'

theorem firsts_congr (h : ∀ a, a ∈ l ↔ a ∈ l') : firsts n l = firsts n l' := by
  have heq : l.dedup.insertionSort (· ≤ ·) = l'.dedup.insertionSort (· ≤ ·) :=
    eq_of_mem_iff (pairwise_sorted l) (pairwise_sorted l') fun a => by rw [mem_sorted, mem_sorted, h]
  rw [firsts, firsts, heq]

theorem mem_of_mem_firsts (h : a ∈ firsts n l) : a ∈ l := mem_sorted.mp (List.mem_of_mem_take h)

/-- Below an element that is not among the first ones, all of these are. -/
theorem length_firsts_of_not_mem (ha : a ∈ l) (hnot : a ∉ firsts n l) : (firsts n l).length = n ∧ ∀ b ∈ firsts n l, b < a := by
  have hsplit := List.take_append_drop n (l.dedup.insertionSort (· ≤ ·))
  have hdrop : a ∈ (l.dedup.insertionSort (· ≤ ·)).drop n := by
    have hmem := mem_sorted.mpr ha
    rw [← hsplit] at hmem
    exact (List.mem_append.mp hmem).resolve_left hnot
  have hpairs := pairwise_sorted l
  rw [← hsplit] at hpairs
  refine ⟨?_, fun b hb => (List.pairwise_append.mp hpairs).2.2 b hb a hdrop⟩
  have hlt : n < (l.dedup.insertionSort (· ≤ ·)).length := by
    by_contra hle
    rw [List.drop_eq_nil_of_le (not_lt.mp hle)] at hdrop
    cases hdrop
  rw [firsts, List.length_take, Nat.min_eq_left hlt.le]

omit [LinearOrder α] in
/-- A list whose first elements are all kept has them first also after others are dropped. -/
theorem take_filter {keep : α → Bool} (h : ∀ a ∈ l.take n, keep a = true) : (l.filter keep).take n = l.take n := by
  have hfilter : l.filter keep = l.take n ++ (l.drop n).filter keep := by
    conv_lhs => rw [← List.take_append_drop n l]
    rw [List.filter_append, List.filter_eq_self.mpr h]
  rcases Nat.lt_or_ge n l.length with hlt | hge
  · rw [hfilter, List.take_append_of_le_length (by rw [List.length_take, Nat.min_eq_left hlt.le]), List.take_take, Nat.min_self]
  · rw [hfilter, List.drop_eq_nil_of_le hge, List.filter_nil, List.append_nil, List.take_take, Nat.min_self]

/-- Of one part of a union, the first elements are enough. -/
theorem firsts_append_firsts : firsts n (firsts n l ++ l') = firsts n (l ++ l') := by
  have heq : (firsts n l ++ l').dedup.insertionSort (· ≤ ·) =
      ((l ++ l').dedup.insertionSort (· ≤ ·)).filter fun a => decide (a ∈ firsts n l ++ l') := by
    refine eq_of_mem_iff (pairwise_sorted _) ((pairwise_sorted _).sublist List.filter_sublist) fun a => ?_
    rw [mem_sorted, List.mem_filter, mem_sorted, decide_eq_true_eq]
    refine ⟨fun h => ⟨?_, h⟩, And.right⟩
    exact (List.mem_append.mp h).elim (fun h => List.mem_append_left _ (mem_of_mem_firsts h)) (List.mem_append_right _)
  rw [firsts, heq, take_filter, firsts]
  intro a ha
  rw [decide_eq_true_eq]
  by_contra hnot
  rw [List.mem_append, not_or] at hnot
  have hmem := mem_of_mem_firsts (n := n) ha
  obtain ⟨hlength, hbelow⟩ := length_firsts_of_not_mem ((List.mem_append.mp hmem).resolve_right hnot.2) hnot.1
  -- the first elements of the part and the element itself are all among the first of the union
  have hsub : a :: firsts n l ⊆ firsts n (l ++ l') := by
    refine List.cons_subset.mpr ⟨ha, fun b hb => ?_⟩
    by_contra hb'
    obtain ⟨-, habove⟩ := length_firsts_of_not_mem (List.mem_append_left l' (mem_of_mem_firsts hb)) hb'
    exact absurd (habove a ha) (lt_asymm (hbelow b hb))
  have hnodup : (a :: firsts n l).Nodup :=
    List.nodup_cons.mpr ⟨hnot.1, (((pairwise_sorted l).sublist (List.take_sublist n _)).imp ne_of_lt)⟩
  have hle := (List.subperm_of_subset hnodup hsub).length_le
  rw [List.length_cons, hlength] at hle
  exact absurd (hle.trans (List.length_take_le n _)) (by omega)

end FirstOfSet
