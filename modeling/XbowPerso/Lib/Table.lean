import Mathlib.Data.List.Nodup

/-!
# Tables with a primary key and a unique index

A table is a list of rows in order of insertion. The primary key names at most one row; a unique index is a partial function of
the row, and no two rows share a value of it. Both constraints are fields of the table, so that an operation which would break
them has to fail (`insert`) or to leave the indexed columns alone (`update`).
-/

/-- Rows of type `ρ` with a primary key and a unique index on the rows that have an index value. -/
structure Table (ρ κ υ : Type) (key : ρ → κ) (index : ρ → Option υ) where
  rows : List ρ
  primary : (rows.map key).Nodup
  unique : (rows.filterMap index).Nodup

namespace Table

variable {ρ κ υ : Type} {key : ρ → κ} {index : ρ → Option υ}

/-- The table without rows. -/
def empty : Table ρ κ υ key index := ⟨[], List.nodup_nil, List.nodup_nil⟩

/-- The row of a primary key. -/
def find? [DecidableEq κ] (t : Table ρ κ υ key index) (k : κ) : Option ρ := t.rows.find? (fun r => decide (key r = k))

/-- The row of an index value. -/
def lookup? [DecidableEq υ] (t : Table ρ κ υ key index) (u : υ) : Option ρ := t.rows.find? (fun r => decide (index r = some u))

/-- Insert a row, unless its key or its index value is taken. -/
def insert [DecidableEq κ] [DecidableEq υ] (t : Table ρ κ υ key index) (r : ρ) : Option (Table ρ κ υ key index) :=
  if h : key r ∉ t.rows.map key ∧ ∀ u, index r = some u → u ∉ t.rows.filterMap index then
    some {
      rows := t.rows ++ [r]
      primary := by
        rw [List.map_append, List.nodup_append]
        refine ⟨t.primary, List.nodup_singleton _, ?_⟩
        intro a ha b hb hab
        simp only [List.map_cons, List.map_nil, List.mem_singleton] at hb
        exact h.1 (hb ▸ hab ▸ ha)
      unique := by
        rw [List.filterMap_append, List.nodup_append]
        refine ⟨t.unique, ?_, ?_⟩
        · cases hu : index r <;> simp [hu]
        · intro a ha b hb hab
          have hb' : index r = some b := by simpa using hb
          exact h.2 b hb' (hab ▸ ha) }
  else none

/-- Rewrite every row, its key and index value apart. -/
def update (t : Table ρ κ υ key index) (f : ρ → ρ) (hk : ∀ r, key (f r) = key r) (hi : ∀ r, index (f r) = index r) :
    Table ρ κ υ key index where
  rows := t.rows.map f
  primary := by
    rw [List.map_map, show key ∘ f = key from funext hk]
    exact t.primary
  unique := by
    rw [List.filterMap_map, show index ∘ f = index from funext hi]
    exact t.unique

/-! ## What a key and an index value find -/

variable (t : Table ρ κ υ key index)

section Key

variable [DecidableEq κ]

theorem find?_eq_some (k : κ) (r : ρ) : t.find? k = some r ↔ r ∈ t.rows ∧ key r = k := by
  constructor
  · intro h
    exact ⟨List.mem_of_find?_eq_some h, by simpa using List.find?_some h⟩
  · rintro ⟨hr, hk⟩
    cases hf : t.find? k with
    | none => simpa [hk] using List.find?_eq_none.mp hf r hr
    | some r' =>
      have hr' := List.mem_of_find?_eq_some hf
      have hk' : key r' = k := by simpa using List.find?_some hf
      rw [List.inj_on_of_nodup_map t.primary hr' hr (hk'.trans hk.symm)]

theorem find?_eq_none (k : κ) : t.find? k = none ↔ ∀ r ∈ t.rows, key r ≠ k := by
  simp [find?, List.find?_eq_none]

/-- A row is what its key finds. -/
theorem find?_key {r : ρ} (h : r ∈ t.rows) : t.find? (key r) = some r := (t.find?_eq_some _ _).mpr ⟨h, rfl⟩

@[simp] theorem find?_empty (k : κ) : (empty : Table ρ κ υ key index).find? k = none := rfl

@[simp] theorem find?_update (f : ρ → ρ) (hk : ∀ r, key (f r) = key r) (hi : ∀ r, index (f r) = index r) (k : κ) :
    (t.update f hk hi).find? k = (t.find? k).map f := by
  show (t.rows.map f).find? _ = (t.rows.find? _).map f
  rw [List.find?_map]
  congr 2
  funext r
  simp [hk]

end Key

/-- Two rows with one index value are one row. -/
theorem eq_of_index_eq {r r' : ρ} {u : υ} (hr : r ∈ t.rows) (hr' : r' ∈ t.rows) (hu : index r = some u)
    (hu' : index r' = some u) : r = r' := by
  obtain ⟨l, hp, hn⟩ := t
  simp only at hr hr'
  clear hp
  induction l with
  | nil => exact absurd hr List.not_mem_nil
  | cons a l ih =>
    have hn' : (l.filterMap index).Nodup := by
      cases ha : index a with
      | none => simpa [List.filterMap_cons, ha] using hn
      | some v =>
        rw [List.filterMap_cons_some ha] at hn
        exact hn.of_cons
    have hfresh : ∀ x ∈ l, index x = some u → index a ≠ some u := by
      intro x hx hxu hau
      rw [List.filterMap_cons_some hau] at hn
      exact (List.nodup_cons.mp hn).1 (List.mem_filterMap.mpr ⟨x, hx, hxu⟩)
    rcases List.mem_cons.mp hr with ha | hr
    · rcases List.mem_cons.mp hr' with ha' | hr'
      · exact ha.trans ha'.symm
      · exact absurd (ha ▸ hu) (hfresh r' hr' hu')
    · rcases List.mem_cons.mp hr' with ha' | hr'
      · exact absurd (ha' ▸ hu') (hfresh r hr hu)
      · exact ih hn' hr hr'

section Index

variable [DecidableEq υ]

theorem lookup?_eq_some (u : υ) (r : ρ) : t.lookup? u = some r ↔ r ∈ t.rows ∧ index r = some u := by
  constructor
  · intro h
    exact ⟨List.mem_of_find?_eq_some h, by simpa using List.find?_some h⟩
  · rintro ⟨hr, hu⟩
    cases hf : t.lookup? u with
    | none => simpa [hu] using List.find?_eq_none.mp hf r hr
    | some r' =>
      have hr' := List.mem_of_find?_eq_some hf
      have hu' : index r' = some u := by simpa using List.find?_some hf
      rw [t.eq_of_index_eq hr' hr hu' hu]

theorem lookup?_eq_none (u : υ) : t.lookup? u = none ↔ ∀ r ∈ t.rows, index r ≠ some u := by
  simp [lookup?, List.find?_eq_none]

end Index

/-! ## Counting the rows of a key -/

section Count

variable [DecidableEq κ]

/-- A key that finds a row meeting a condition has one such row. -/
theorem countP_key_eq_one {k : κ} {r : ρ} {c : ρ → Bool} (h : t.find? k = some r) (hc : c r = true) :
    t.rows.countP (fun r => decide (key r = k) && c r) = 1 := by
  obtain ⟨hr, hk⟩ := (t.find?_eq_some k r).mp h
  obtain ⟨l, hp, hn⟩ := t
  simp only at hr ⊢
  clear h hn
  induction l with
  | nil => exact absurd hr List.not_mem_nil
  | cons a l ih =>
    rw [List.map_cons, List.nodup_cons] at hp
    rcases List.mem_cons.mp hr with ha | hr
    · subst ha
      have hrest : l.countP (fun x => decide (key x = k) && c x) = 0 := by
        rw [List.countP_eq_zero]
        intro x hx
        have : key x ≠ k := fun hxk => hp.1 (by rw [hk, ← hxk]; exact List.mem_map_of_mem hx)
        simp [this]
      rw [List.countP_cons, hrest]
      simp [hk, hc]
    · have : key a ≠ k := fun hak => hp.1 (by rw [hak, ← hk]; exact List.mem_map_of_mem hr)
      rw [List.countP_cons, ih hp.2 hr]
      simp [this]

/-- A key that finds no row meeting a condition has none. -/
theorem countP_key_eq_zero {k : κ} {c : ρ → Bool} (h : ∀ r, t.find? k = some r → c r = false) :
    t.rows.countP (fun r => decide (key r = k) && c r) = 0 := by
  rw [List.countP_eq_zero]
  intro r hr
  by_cases hk : key r = k
  · simp [hk, h r ((t.find?_eq_some k r).mpr ⟨hr, hk⟩)]
  · simp [hk]

end Count

/-! ## What the operations do to the rows -/

@[simp] theorem rows_empty : (empty : Table ρ κ υ key index).rows = [] := rfl

@[simp] theorem rows_update (f : ρ → ρ) (hk : ∀ r, key (f r) = key r) (hi : ∀ r, index (f r) = index r) :
    (t.update f hk hi).rows = t.rows.map f := rfl

theorem ext_rows {t t' : Table ρ κ υ key index} (h : t.rows = t'.rows) : t = t' := by
  cases t
  cases t'
  cases h
  rfl

/-- An update that changes no row leaves the table as it is. -/
theorem update_eq_self (f : ρ → ρ) (hk : ∀ r, key (f r) = key r) (hi : ∀ r, index (f r) = index r)
    (h : ∀ r ∈ t.rows, f r = r) : t.update f hk hi = t := by
  apply ext_rows
  rw [rows_update]
  exact (List.map_congr_left h).trans (List.map_id' _)

variable [DecidableEq κ] [DecidableEq υ]

/-- An insertion that succeeds appends the row, whose key and index value were free. -/
theorem insert_eq_some {r : ρ} {t' : Table ρ κ υ key index} (h : t.insert r = some t') :
    t'.rows = t.rows ++ [r] ∧ t.find? (key r) = none ∧ ∀ u, index r = some u → t.lookup? u = none := by
  unfold insert at h
  split at h
  · rename_i hc
    cases h
    refine ⟨rfl, ?_, ?_⟩
    · rw [find?_eq_none]
      exact fun r' hr' hk => hc.1 (hk ▸ List.mem_map_of_mem hr')
    · intro u hu
      rw [lookup?_eq_none]
      exact fun r' hr' hu' => hc.2 u hu (List.mem_filterMap.mpr ⟨r', hr', hu'⟩)
  · cases h

/-- A row whose key and index value are free is inserted. -/
theorem insert_of_fresh {r : ρ} (hk : t.find? (key r) = none) (hi : ∀ u, index r = some u → t.lookup? u = none) :
    ∃ t', t.insert r = some t' := by
  unfold insert
  rw [dif_pos]
  · exact ⟨_, rfl⟩
  · constructor
    · intro hm
      obtain ⟨r', hr', he⟩ := List.mem_map.mp hm
      exact (t.find?_eq_none _).mp hk r' hr' he
    · intro u hu hm
      obtain ⟨r', hr', he⟩ := List.mem_filterMap.mp hm
      exact (t.lookup?_eq_none _).mp (hi u hu) r' hr' he

/-- What the keys find after an insertion. -/
theorem find?_insert {r : ρ} {t' : Table ρ κ υ key index} (h : t.insert r = some t') (k : κ) :
    t'.find? k = if k = key r then some r else t.find? k := by
  obtain ⟨hrows, hfree, -⟩ := t.insert_eq_some h
  rw [find?, hrows, List.find?_append]
  by_cases hk : k = key r
  · subst hk
    rw [show t.rows.find? _ = none from hfree]
    simp
  · have : ([r].find? fun r => decide (key r = k)) = none := by simp [Ne.symm hk]
    rw [this, Option.or_none, if_neg hk]
    rfl

end Table
