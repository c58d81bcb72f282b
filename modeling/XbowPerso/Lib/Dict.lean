import Mathlib.Data.List.Nodup
import Mathlib.Data.List.TakeWhile

/-!
# Dictionaries in order of insertion

A dictionary is the list of its entries in the order in which their keys were inserted, each key once. Setting a key that is there
keeps its place. The lemmas say what a key finds after each operation; `mem_entries` turns a lookup into membership.
-/

/-- A dictionary. -/
structure Dict (κ α : Type) where
  entries : List (κ × α)
  nodup : (entries.map (·.1)).Nodup

namespace Dict

variable {κ α β : Type}

def empty : Dict κ α := ⟨[], List.nodup_nil⟩

def keys (d : Dict κ α) : List κ := d.entries.map (·.1)

def values (d : Dict κ α) : List α := d.entries.map (·.2)

def size (d : Dict κ α) : Nat := d.entries.length

/-- `d.get(k)`. -/
def get? [DecidableEq κ] (d : Dict κ α) (k : κ) : Option α := (d.entries.find? (fun e => decide (e.1 = k))).map (·.2)

/-- The entries that a condition keeps. -/
def filter (d : Dict κ α) (p : κ × α → Bool) : Dict κ α := ⟨d.entries.filter p, d.nodup.sublist (List.filter_sublist.map _)⟩

/-- The entries after the first ones that a condition drops. -/
def dropWhile (d : Dict κ α) (p : κ × α → Bool) : Dict κ α :=
  ⟨d.entries.dropWhile p, d.nodup.sublist ((List.dropWhile_sublist p).map _)⟩

/-- `del d[k]`. -/
def erase [DecidableEq κ] (d : Dict κ α) (k : κ) : Dict κ α := d.filter (fun e => decide (e.1 ≠ k))

theorem mem_keys {d : Dict κ α} {k : κ} : k ∈ d.keys ↔ ∃ v, (k, v) ∈ d.entries := by
  simp [keys]

theorem size_eq_length_keys (d : Dict κ α) : d.size = d.keys.length := (List.length_map _).symm

theorem not_mem_keys_erase [DecidableEq κ] (d : Dict κ α) (k : κ) : k ∉ (d.erase k).keys := by
  intro h
  obtain ⟨v, hv⟩ := mem_keys.mp h
  have hne := (List.mem_filter.mp hv).2
  simp at hne

/-- An entry whose key is new goes to the end. -/
def append (d : Dict κ α) (k : κ) (v : α) (h : k ∉ d.keys) : Dict κ α where
  entries := d.entries ++ [(k, v)]
  nodup := by
    rw [List.map_append, List.nodup_append]
    refine ⟨d.nodup, List.nodup_singleton _, ?_⟩
    intro a ha b hb hab
    have hb' : b = k := by simpa using hb
    exact h (hb' ▸ hab ▸ ha)

/-- The value of a key replaced where it stands. -/
def replace [DecidableEq κ] (d : Dict κ α) (k : κ) (v : α) : Dict κ α where
  entries := d.entries.map (fun e => if e.1 = k then (k, v) else e)
  nodup := by
    have hkeys : (d.entries.map (fun e => if e.1 = k then (k, v) else e)).map (·.1) = d.entries.map (·.1) := by
      rw [List.map_map]
      refine List.map_congr_left fun e _ => ?_
      by_cases he : e.1 = k
      · simp [he]
      · simp [he]
    rw [hkeys]
    exact d.nodup

/-- `d[k] = v`. -/
def set [DecidableEq κ] (d : Dict κ α) (k : κ) (v : α) : Dict κ α :=
  if h : k ∈ d.keys then d.replace k v else d.append k v h

/-- `d[k] = v` and `d.move_to_end(k)`. -/
def setLast [DecidableEq κ] (d : Dict κ α) (k : κ) (v : α) : Dict κ α := (d.erase k).append k v (d.not_mem_keys_erase k)

/-- `d.popitem(last=False)`, when there is an entry. -/
def dropFirst (d : Dict κ α) : Dict κ α := ⟨d.entries.tail, d.nodup.sublist ((List.tail_sublist _).map _)⟩

/-- `{k: f(v) for k, v in d.items()}`. -/
def mapValues (d : Dict κ α) (f : α → β) : Dict κ β where
  entries := d.entries.map fun e => (e.1, f e.2)
  nodup := by
    rw [List.map_map]
    exact d.nodup

/-- `{k: v for k, v in entries}`. -/
def ofList [DecidableEq κ] (entries : List (κ × α)) : Dict κ α := entries.foldl (fun d e => d.set e.1 e.2) empty

/-! ## Lookups -/

section

variable [DecidableEq κ] {d : Dict κ α} {k k' : κ} {v : α}

/-- A key finds its entry. -/
theorem mem_entries : (k, v) ∈ d.entries ↔ d.get? k = some v := by
  constructor
  · intro h
    cases hf : d.entries.find? (fun e => decide (e.1 = k)) with
    | none =>
      have hk := List.find?_eq_none.mp hf (k, v) h
      simp at hk
    | some e =>
      have hkey : e.1 = k := by simpa using List.find?_some hf
      have hmem : e ∈ d.entries := List.mem_of_find?_eq_some hf
      have heq : e = (k, v) := List.inj_on_of_nodup_map d.nodup hmem h hkey
      rw [get?, hf, heq]
      rfl
  · intro h
    obtain ⟨e, hf, rfl⟩ := Option.map_eq_some_iff.mp h
    have hkey : e.1 = k := by simpa using List.find?_some hf
    rw [← hkey]
    exact List.mem_of_find?_eq_some hf

/-- Two dictionaries with the same entries, in whatever order, find the same. -/
theorem get?_congr {d' : Dict κ α} (h : ∀ v, (k, v) ∈ d.entries ↔ (k', v) ∈ d'.entries) : d.get? k = d'.get? k' := by
  refine Option.ext fun v => ?_
  rw [← mem_entries, ← mem_entries]
  exact h v

theorem get?_eq_none : d.get? k = none ↔ k ∉ d.keys := by
  rw [mem_keys, Option.eq_none_iff_forall_ne_some]
  simp only [mem_entries, not_exists, ne_eq]

@[simp] theorem get?_empty : (empty : Dict κ α).get? k = none := rfl

theorem get?_filter (p : κ × α → Bool) : (d.filter p).get? k = (d.get? k).filter (fun v => p (k, v)) := by
  refine Option.ext fun v => ?_
  rw [← mem_entries, filter, List.mem_filter, mem_entries, Option.filter_eq_some_iff]

@[simp] theorem get?_erase_self : (d.erase k).get? k = none := get?_eq_none.mpr (not_mem_keys_erase d k)

theorem get?_erase_of_ne (h : k' ≠ k) : (d.erase k).get? k' = d.get? k' := by
  refine get?_congr fun v => ?_
  rw [erase, filter, List.mem_filter]
  simp [h]

/-- What the keys find after a key is set. -/
theorem get?_set : (d.set k v).get? k' = if k' = k then some v else d.get? k' := by
  refine Option.ext fun w => ?_
  rw [← mem_entries, set]
  split
  · rename_i hk
    obtain ⟨u, hu⟩ := mem_keys.mp hk
    simp only [replace, List.mem_map]
    by_cases hkk : k' = k
    · rw [if_pos hkk]
      constructor
      · rintro ⟨e, he, heq⟩
        by_cases hek : e.1 = k
        · rw [if_pos hek] at heq
          rw [(Prod.mk.inj heq).2]
        · rw [if_neg hek] at heq
          exact absurd (congrArg Prod.fst heq) (fun h => hek (h.trans hkk))
      · intro h
        exact ⟨(k, u), hu, by rw [if_pos rfl, Option.some.inj h, hkk]⟩
    · rw [if_neg hkk, ← mem_entries]
      constructor
      · rintro ⟨e, he, heq⟩
        by_cases hek : e.1 = k
        · rw [if_pos hek] at heq
          exact absurd (congrArg Prod.fst heq).symm hkk
        · rw [if_neg hek] at heq
          exact heq ▸ he
      · exact fun h => ⟨(k', w), h, if_neg hkk⟩
  · rename_i hk
    simp only [append, List.mem_append, List.mem_singleton, Prod.mk.injEq]
    by_cases hkk : k' = k
    · rw [if_pos hkk]
      constructor
      · rintro (h | ⟨_, rfl⟩)
        · exact absurd (mem_keys.mpr ⟨w, hkk ▸ h⟩) hk
        · rfl
      · exact fun h => .inr ⟨hkk, (Option.some.inj h).symm⟩
    · rw [if_neg hkk, mem_entries]
      exact ⟨fun h => h.resolve_right (fun h => hkk h.1), .inl⟩

@[simp] theorem get?_set_self : (d.set k v).get? k = some v := by rw [get?_set, if_pos rfl]

theorem get?_set_of_ne (h : k' ≠ k) : (d.set k v).get? k' = d.get? k' := by rw [get?_set, if_neg h]

theorem size_set_of_mem (h : k ∈ d.keys) : (d.set k v).size = d.size := by
  rw [set, dif_pos h]
  exact List.length_map _

theorem size_set_of_not_mem (h : k ∉ d.keys) : (d.set k v).size = d.size + 1 := by
  rw [set, dif_neg h]
  exact List.length_append

theorem values_set_of_not_mem (h : k ∉ d.keys) : (d.set k v).values = d.values ++ [v] := by
  rw [set, dif_neg h]
  exact List.map_append

/-- A filter that drops a key does not see it set. -/
theorem entries_filter_set_of_not {p : κ × α → Bool} (h : ∀ w, p (k, w) = false) :
    ((d.set k v).filter p).entries = (d.filter p).entries := by
  unfold set
  split
  · show (d.entries.map fun e => if e.1 = k then (k, v) else e).filter p = d.entries.filter p
    induction d.entries with
    | nil => rfl
    | cons e es ih =>
      rw [List.map_cons, List.filter_cons, List.filter_cons, ih]
      by_cases he : e.1 = k
      · have hdrop : p e = false := by
          obtain ⟨a, w⟩ := e
          subst he
          exact h w
        rw [if_pos he, h v, hdrop]
        rfl
      · rw [if_neg he]
  · show (d.entries ++ [(k, v)]).filter p = d.entries.filter p
    rw [List.filter_append, List.filter_cons_of_neg (by simp [h v]), List.filter_nil, List.append_nil]

/-- A key that is set again keeps its place. -/
theorem entries_set_of_append {before rest : List (κ × α)} {w : α} (h : d.entries = before ++ (k, v) :: rest) :
    (d.set k w).entries = before ++ (k, w) :: rest := by
  have hkey : k ∈ d.keys := mem_keys.mpr ⟨v, by rw [h]; exact List.mem_append_right _ List.mem_cons_self⟩
  have hnodup := d.nodup
  rw [h, List.map_append, List.nodup_append] at hnodup
  obtain ⟨-, hrest, hapart⟩ := hnodup
  have hsame : ∀ es : List (κ × α), (∀ e ∈ es, e.1 ≠ k) → es.map (fun e => if e.1 = k then (k, w) else e) = es := by
    intro es hes
    refine (List.map_congr_left fun e he => if_neg (hes e he)).trans (List.map_id _)
  rw [set, dif_pos hkey]
  show d.entries.map _ = _
  rw [h, List.map_append, List.map_cons, if_pos rfl, hsame before, hsame rest]
  · intro e he heq
    have hmem : e.1 ∈ rest.map (·.1) := List.mem_map_of_mem he
    rw [heq] at hmem
    exact (List.nodup_cons.mp hrest).1 hmem
  · intro e he heq
    exact hapart e.1 (List.mem_map_of_mem he) k List.mem_cons_self heq

/-- What the keys find after a key is set and moved to the end. -/
theorem get?_setLast : (d.setLast k v).get? k' = if k' = k then some v else d.get? k' := by
  by_cases hkk : k' = k
  · rw [if_pos hkk, ← mem_entries, hkk]
    exact List.mem_append_right _ List.mem_cons_self
  · have hlast : (d.setLast k v).get? k' = (d.erase k).get? k' := by
      refine get?_congr fun w => ?_
      simp only [setLast, append, List.mem_append, List.mem_singleton, Prod.mk.injEq]
      exact ⟨fun h => h.resolve_right (fun h => hkk h.1), .inl⟩
    rw [if_neg hkk, hlast, get?_erase_of_ne hkk]

/-- A key that is new goes to the end. -/
theorem keys_setLast_of_not_mem (h : k ∉ d.keys) : (d.setLast k v).keys = d.keys ++ [k] := by
  have herase : d.entries.filter (fun e => decide (e.1 ≠ k)) = d.entries := by
    refine List.filter_eq_self.mpr fun e he => decide_eq_true ?_
    rintro rfl
    exact h (mem_keys.mpr ⟨e.2, he⟩)
  show (d.entries.filter (fun e => decide (e.1 ≠ k)) ++ [(k, v)]).map (·.1) = _
  rw [herase, List.map_append]
  rfl

/-- What an assignment of distinct keys finds. -/
theorem get?_foldl_set {entries : List (κ × α)} (hnodup : (entries.map (·.1)).Nodup) (d : Dict κ α) :
    (entries.foldl (fun d e => d.set e.1 e.2) d).get? k =
      ((entries.find? (fun e => decide (e.1 = k))).map (·.2)).or (d.get? k) := by
  induction entries generalizing d with
  | nil => simp
  | cons e entries ih =>
    obtain ⟨hnot, hrest⟩ := List.nodup_cons.mp hnodup
    rw [List.foldl_cons, ih hrest, get?_set]
    by_cases he : e.1 = k
    · have hfind : entries.find? (fun e => decide (e.1 = k)) = none := by
        refine List.find?_eq_none.mpr fun x hx => ?_
        have hxe : x.1 ≠ e.1 := fun h => hnot (List.mem_map.mpr ⟨x, hx, h⟩)
        simpa [he] using hxe
      simp [he, hfind]
    · have hke : ¬ k = e.1 := fun h => he h.symm
      simp [he, hke]

/-- A dictionary made of entries with distinct keys has these entries. -/
theorem entries_ofList {entries : List (κ × α)} (hnodup : (entries.map (·.1)).Nodup) : (ofList entries).entries = entries := by
  have hgeneral : ∀ (es : List (κ × α)) (d : Dict κ α), ((d.entries ++ es).map (·.1)).Nodup →
      (es.foldl (fun d e => d.set e.1 e.2) d).entries = d.entries ++ es := by
    intro es
    induction es with
    | nil => exact fun d _ => (List.append_nil _).symm
    | cons e es ih =>
      intro d hd
      have hnew : e.1 ∉ d.keys := by
        intro hmem
        rw [List.map_append, List.nodup_append] at hd
        exact hd.2.2 e.1 hmem e.1 List.mem_cons_self rfl
      have hset : (d.set e.1 e.2).entries = d.entries ++ [e] := by
        rw [set, dif_neg hnew]
        rfl
      rw [List.foldl_cons, ih _ (by rw [hset, List.append_assoc]; exact hd), hset, List.append_assoc]
      rfl
  exact hgeneral entries empty (by rw [show (empty : Dict κ α).entries = [] from rfl, List.nil_append]; exact hnodup)

end

end Dict
