import Mathlib.Algebra.Order.BigOperators.Group.List
import XbowPerso.Feasibility
import XbowPerso.Lib.JsonSize
import XbowPerso.Lib.PairedLists
import XbowPerso.Theorems.ContractRate

/-!
# Whose turn comes

Each call inspects the first programs in an order in which the programs with the flag stand before all the others, and in either class those
that were never inspected stand before those that were. So each class is gone through in its places of a batch: the programs without the
flag have those places only that the programs with the flag leave over.
-/

namespace XbowPerso

namespace Feasibility

open AuditSeal (truthy)
open PairedLists (forall₂_of_mapM forall₂_left exists_of_mapM_ok)
open SortByKey (sortByKey perm_sortByKey pairwise_sortByKey)

/-! ## Lists in two parts -/

/-- What a condition holds for comes first. -/
theorem eq_filter_append {α : Type} {p : α → Bool} {l : List α} (h : l.Pairwise fun a b => p b = true → p a = true) :
    l = l.filter p ++ l.filter fun a => !p a := by
  induction l with
  | nil => rfl
  | cons a l ih =>
    obtain ⟨hhead, htail⟩ := List.pairwise_cons.mp h
    cases ha : p a with
    | true =>
      rw [List.filter_cons_of_pos ha, List.filter_cons_of_neg (by rw [ha]; decide), List.cons_append, ← ih htail]
    | false =>
      have hnone : ∀ b ∈ l, p b = false := fun b hb => Bool.eq_false_iff.mpr fun hp => by rw [hhead b hb hp] at ha; cases ha
      have hall : (a :: l).filter p = [] := by
        rw [List.filter_eq_nil_iff]
        intro b hb
        rcases List.mem_cons.mp hb with rfl | hb
        · rw [ha]
          decide
        · rw [hnone b hb]
          decide
      rw [hall, List.nil_append, List.filter_eq_self.mpr]
      intro b hb
      rcases List.mem_cons.mp hb with rfl | hb
      · rw [ha]
        rfl
      · rw [hnone b hb]
        rfl

/-- What a prefix leaves over of the part that follows another one. -/
theorem length_untaken {α : Type} [DecidableEq α] {a b c : List α} (hnodup : (a ++ (b ++ c)).Nodup) (n : Nat) :
    (b.filter fun x => decide (x ∉ (a ++ (b ++ c)).take n)).length = b.length - (n - a.length) := by
  obtain ⟨-, hbc, hab⟩ := List.nodup_append'.mp hnodup
  obtain ⟨hb, -, hdisjoint⟩ := List.nodup_append'.mp hbc
  have htaken : ∀ x ∈ b, (x ∈ (a ++ (b ++ c)).take n ↔ x ∈ b.take (n - a.length)) := by
    intro x hx
    rw [List.take_append, List.take_append, List.mem_append, List.mem_append]
    constructor
    · rintro (h | h | h)
      · exact absurd (List.mem_append_left c hx) (hab (List.mem_of_mem_take h))
      · exact h
      · exact absurd (List.mem_of_mem_take h) (hdisjoint hx)
    · exact fun h => .inr (.inl h)
  have hfilter : b.filter (fun x => decide (x ∉ (a ++ (b ++ c)).take n)) = b.drop (n - a.length) := by
    rw [List.filter_congr (q := fun x => decide (x ∉ b.take (n - a.length))) fun x hx => by rw [decide_eq_decide, htaken x hx]]
    have hsplit := List.take_append_drop (n - a.length) b
    have hpieces : (b.take (n - a.length)).Disjoint (b.drop (n - a.length)) := by
      rw [← hsplit] at hb
      exact (List.nodup_append'.mp hb).2.2
    conv_lhs => rw [← hsplit, List.filter_append]
    rw [hsplit, List.filter_eq_nil_iff.mpr, List.nil_append, List.filter_eq_self.mpr]
    · exact fun x hx => decide_eq_true fun htake => hpieces htake hx
    · exact fun x hx => by simpa using hx
  rw [hfilter, List.length_drop]

/-! ## Fields -/

variable {py : Python}

variable {fields : Fields} {key : String} {value : Json}

theorem lookup_set_ne {other : String} (h : other ≠ key) :
    lookup (set fields key value) other = lookup fields other := by
  rw [lookup, lookup, set]
  split
  · rw [List.find?_map]
    have hkeys : (fun field : String × Json => decide (field.1 = other)) ∘ (fun field => if field.1 = key then (key, value) else field) =
        fun field => decide (field.1 = other) := by
      funext field
      by_cases hkey : field.1 = key
      · simp [hkey]
      · simp [hkey]
    rw [hkeys]
    cases hfind : fields.find? fun field => decide (field.1 = other) with
    | none => rfl
    | some field =>
      have hother : field.1 = other := by simpa using List.find?_some hfind
      rw [Option.map_some, Option.map_some, if_neg (by rw [hother]; exact h)]
      rfl
  · rw [List.find?_append, List.find?_singleton, if_neg (by simpa using Ne.symm h), Option.or_none]

theorem get_set_ne {other : String} (h : other ≠ key) :
    get (set fields key value) other = get fields other := by
  rw [get, get, lookup_set_ne h]

theorem get_set_self (fields : Fields) (key : String) (value : Json) : get (set fields key value) key = value := by
  rw [get, lookup, set]
  split
  · rename_i hkey
    obtain ⟨field, hmem, hfield⟩ := List.mem_map.mp hkey
    rw [List.find?_map]
    cases hfind : fields.find? ((fun field => decide (field.1 = key)) ∘ fun field => if field.1 = key then (key, value) else field) with
    | none =>
      have hno := List.find?_eq_none.mp hfind field hmem
      simp [hfield] at hno
    | some found =>
      have hfound := List.find?_some hfind
      by_cases hkey : found.1 = key
      · simp [hkey]
      · simp [hkey] at hfound
  · rename_i hkey
    have hnone : (fields.find? fun field => decide (field.1 = key)) = none := by
      rw [List.find?_eq_none]
      intro field hmem hfield
      exact hkey (List.mem_map.mpr ⟨field, hmem, of_decide_eq_true hfield⟩)
    rw [List.find?_append, hnone, Option.none_or, List.find?_singleton, if_pos (decide_eq_true rfl)]
    rfl

variable {handle : String}

theorem keys_set :
    handle ∈ (set fields key value).map (·.1) ↔ handle = key ∨ handle ∈ fields.map (·.1) := by
  rw [set]
  split
  · rename_i hkey
    have hkeys : (fields.map fun field => if field.1 = key then (key, value) else field).map (·.1) = fields.map (·.1) := by
      rw [List.map_map]
      refine List.map_congr_left fun field _ => ?_
      by_cases h : field.1 = key
      · simp [h]
      · simp [h]
    rw [hkeys]
    exact ⟨.inr, fun h => h.elim (fun heq => heq ▸ hkey) id⟩
  · rw [List.map_append, List.mem_append, List.map_singleton, List.mem_singleton, or_comm]

theorem mem_set {field : String × Json} (h : field ∈ set fields key value) :
    field = (key, value) ∨ field ∈ fields := by
  rw [set] at h
  split at h
  · obtain ⟨other, hmem, rfl⟩ := List.mem_map.mp h
    split
    · exact .inl rfl
    · exact .inr hmem
  · rcases List.mem_append.mp h with h | h
    · exact .inr h
    · exact .inl (List.mem_singleton.mp h)

/-! ## The index -/

/-- A record of an inspection: its time was written. -/
def IsRecord (py : Python) (record : Fields) : Prop := textOf py record "checked_at" ≠ ""

theorem isoformat_ne (t : PyDateTime) : t.isoformat ≠ "" := by
  intro h
  have hlist := congrArg String.toList h
  rw [PyDateTime.toList_isoformat] at hlist
  have hlength := congrArg List.length hlist
  simp [PyDateTime.clockText] at hlength

/-- What an inspection records names its program and has a time. -/
theorem inspect_record {answer : Answer} {checkedAt : PyDateTime} {record : Fields}
    (h : inspectHandle py answer checkedAt handle = .ok record) : IsRecord py record := by
  have htime : get record "checked_at" = .str checkedAt.isoformat := by
    cases answer with
    | failure e =>
      cases h
      rfl
    | draft draft =>
      cases h
      rfl
    | raises e => cases h
  rw [IsRecord, textOf, htime, py.str_str, if_pos]
  · exact isoformat_ne checkedAt
  · simpa [truthy] using isoformat_ne checkedAt

theorem inspected_ok {answer : Answer} {checkedAt : PyDateTime} {result : String × Fields}
    (h : ((inspectHandle py answer checkedAt handle).map fun record => (handle, record)) = .ok result) :
    result.1 = handle ∧ inspectHandle py answer checkedAt handle = .ok result.2 := by
  cases hinspect : inspectHandle py answer checkedAt handle with
  | error e =>
    rw [hinspect] at h
    cases h
  | ok record =>
    rw [hinspect] at h
    cases h
    exact ⟨rfl, rfl⟩

/-- The keys of an index. -/
def indexed (index : List (String × Fields)) : List String := index.map (·.1)

/-- The entries of an index of records. -/
structure IsIndex (py : Python) (entries : Fields) : Prop where
  record : ∀ entry ∈ entries, ∃ record, entry.2 = .obj record ∧ IsRecord py record

theorem existingIndex_of {catalog entries : Fields} (hindex : get catalog "feasibility_index" = .obj entries) (h : IsIndex py entries) :
    indexed (existingIndex catalog) = entries.map (·.1) ∧ ∀ entry ∈ existingIndex catalog, IsRecord py entry.2 := by
  rw [existingIndex, hindex]
  constructor
  · rw [indexed, List.map_filterMap]
    clear hindex
    induction entries with
    | nil => rfl
    | cons entry entries ih =>
      obtain ⟨record, hrecord, -⟩ := h.record entry List.mem_cons_self
      rw [List.filterMap_cons_some (b := entry.1) (by rw [hrecord]; rfl), List.map_cons,
        ih ⟨fun other hother => h.record other (List.mem_cons_of_mem _ hother)⟩]
  · intro entry hentry
    obtain ⟨⟨key, value⟩, hmem, hvalue⟩ := List.mem_filterMap.mp hentry
    obtain ⟨record, hobj, hrecord⟩ := h.record _ hmem
    dsimp only at hobj
    subst hobj
    cases hvalue
    exact hrecord

theorem isIndex_existing {catalog : Fields} (h : ∀ entry ∈ existingIndex catalog, IsRecord py entry.2) :
    IsIndex py ((existingIndex catalog).map fun entry => (entry.1, Json.obj entry.2)) where
  record := by
    intro entry hentry
    obtain ⟨other, hmem, rfl⟩ := List.mem_map.mp hentry
    exact ⟨other.2, rfl, h other hmem⟩

/-- Records that are set one after the other. -/
theorem foldl_set {results : List (String × Fields)} {index : Fields} (hindex : IsIndex py index)
    (hresults : ∀ result ∈ results, IsRecord py result.2) :
    IsIndex py (results.foldl (fun index result => set index result.1 (.obj result.2)) index) ∧
      ∀ handle, handle ∈ (results.foldl (fun index result => set index result.1 (.obj result.2)) index).map (·.1) ↔
        handle ∈ index.map (·.1) ∨ handle ∈ results.map (·.1) := by
  induction results generalizing index with
  | nil => exact ⟨hindex, fun handle => by simp⟩
  | cons result results ih =>
    have hnext : IsIndex py (set index result.1 (.obj result.2)) := by
      refine ⟨fun entry hentry => ?_⟩
      rcases mem_set hentry with rfl | hmem
      · exact ⟨result.2, rfl, hresults result List.mem_cons_self⟩
      · exact hindex.record entry hmem
    obtain ⟨hrecords, hkeys⟩ := ih hnext fun other hother => hresults other (List.mem_cons_of_mem _ hother)
    refine ⟨hrecords, fun handle => ?_⟩
    rw [List.foldl_cons, hkeys, keys_set, List.map_cons, List.mem_cons]
    tauto

/-! ## The state of a catalog -/

/-- A catalog of some programs, of which some were inspected. -/
structure Indexes (py : Python) (programs : List Fields) (inspected : List String) (row : CatalogRow) : Prop where
  id : get row.document "id" = .str "current"
  catalogued : openPrograms py row.document = programs
  keys : ∀ handle, handle ∈ indexed (existingIndex row.document) ↔ handle ∈ inspected
  record : ∀ entry ∈ existingIndex row.document, IsRecord py entry.2
  known : ∀ handle ∈ inspected, handle ≠ "" ∧ ∃ program ∈ programs, handleOf py program = handle

/-! ## One call -/

def current : Ident := ⟨"current", by decide, by decide, by decide, by decide⟩

theorem storageIdentifier_current (name : String) : storageIdentifier "current" name = .ok current :=
  identifierOf_text _ current name

variable {row : CatalogRow}

/-- What a save of the catalog leaves under its identifier. -/
theorem saveCatalogState_ok {store saved : Store} {document : Fields} {version : Int}
    (h : saveCatalogState py store document version = .ok saved) (hid : get document "id" = .str "current")
    (hrow : store "current" = some row) : ∃ version', saved "current" = some ⟨set document "id" (.str "current"), version'⟩ := by
  rw [saveCatalogState, hid, py.str_str, storageIdentifier_current] at h
  dsimp only at h
  split at h
  · cases h
  split at h
  · split at h
    · cases h
    split at h
    · cases h
    have hcurrent : store current.text = some row := hrow
    rw [hcurrent] at h
    dsimp only at h
    split at h
    · cases h
    cases h
    exact ⟨_, Function.update_self ..⟩
  · cases h

/-- The calls that are counted. -/
def Outcome.succeeded : Outcome → Bool
  | .empty => true
  | .refreshed _ => true
  | _ => false

/-- The programs that a call has inspected. -/
def Outcome.checked : Outcome → List String
  | .refreshed handles => handles
  | _ => []

theorem mem_selectedHandles {catalog : Fields} {batchSize : Option Int}
    (h : handle ∈ selectedHandles py catalog batchSize) :
    handle ≠ "" ∧ ∃ program ∈ openPrograms py catalog, handleOf py program = handle := by
  obtain ⟨hmem, hne⟩ := List.mem_filter.mp (List.mem_of_mem_take h)
  obtain ⟨program, hprogram, rfl⟩ := List.mem_map.mp hmem
  exact ⟨of_decide_eq_true hne, program, perm_sortByKey.mem_iff.mp hprogram, rfl⟩

variable {programs : List Fields}

/-- A call that succeeds inspects the programs that are selected. -/
theorem refresh_indexes {pass : Pass} {store store' : Store} {batchSize : Option Int} {outcome : Outcome}
    {inspected : List String} (hrow : store "current" = some row) (h : Indexes py programs inspected row)
    (hundisturbed : pass.meanwhile store = store)
    (hrefresh : refreshFeasibilityBatch py pass store batchSize = (.ok outcome, store')) (hsucceeded : outcome.succeeded = true) :
    outcome.checked = selectedHandles py row.document batchSize ∧
      ∃ row', store' "current" = some row' ∧ Indexes py programs (inspected ++ outcome.checked) row' := by
  unfold refreshFeasibilityBatch at hrefresh
  rw [hrow] at hrefresh
  dsimp only at hrefresh
  split at hrefresh
  · rename_i hnone
    cases hrefresh
    refine ⟨hnone.symm, row, hrow, ?_⟩
    have hnil : Outcome.empty.checked = [] := rfl
    rwa [hnil, List.append_nil]
  split at hrefresh
  · cases hrefresh
  rename_i results hresults
  rw [hundisturbed] at hrefresh
  split at hrefresh
  · cases hrefresh
    cases hsucceeded
  · cases hrefresh
  rename_i saved hsaved
  cases hrefresh
  refine ⟨rfl, ?_⟩
  have hrecords : ∀ result ∈ results, IsRecord py result.2 := by
    intro result hresult
    obtain ⟨handle, -, hinspect⟩ := exists_of_mapM_ok hresults hresult
    exact inspect_record (inspected_ok hinspect).2
  have hnames : ∀ handle, handle ∈ results.map (·.1) ↔ handle ∈ selectedHandles py row.document batchSize := by
    intro handle
    rw [← (pass.completed_perm (selectedHandles py row.document batchSize)).mem_iff, List.mem_map]
    constructor
    · rintro ⟨result, hresult, rfl⟩
      obtain ⟨other, hother, hinspect⟩ := exists_of_mapM_ok hresults hresult
      rwa [(inspected_ok hinspect).1]
    · intro hmem
      obtain ⟨result, hresult, hinspect⟩ := forall₂_left (forall₂_of_mapM hresults) hmem
      exact ⟨result, hresult, (inspected_ok hinspect).1⟩
  obtain ⟨version, hstored⟩ := saveCatalogState_ok hsaved
    (by rw [get_set_ne (by decide), get_set_ne (by decide), get_set_ne (by decide), h.id]) hrow
  refine ⟨_, hstored, ?_⟩
  have hindex : get (set (set (set (set row.document "feasibility_index" (.obj (updatedIndex py row.document results)))
      "feasibility_updated_at" (.str pass.indexedAt.isoformat)) "updated_at" (.str pass.updatedAt.isoformat)) "id" (.str "current"))
      "feasibility_index" = .obj (updatedIndex py row.document results) := by
    rw [get_set_ne (by decide), get_set_ne (by decide), get_set_ne (by decide), get_set_self]
  obtain ⟨hupdated, hupdatedKeys⟩ := foldl_set (isIndex_existing h.record) hrecords
  have hisIndex : IsIndex py (updatedIndex py row.document results) :=
    ⟨fun entry hentry => hupdated.record entry (List.mem_filter.mp hentry).1⟩
  obtain ⟨hkeys, hrecord⟩ := existingIndex_of hindex hisIndex
  have hknown : ∀ handle ∈ inspected ++ selectedHandles py row.document batchSize,
      handle ≠ "" ∧ ∃ program ∈ programs, handleOf py program = handle := by
    intro handle hmem
    rcases List.mem_append.mp hmem with hmem | hmem
    · exact h.known handle hmem
    · rw [← h.catalogued]
      exact mem_selectedHandles hmem
  refine ⟨?_, ?_, fun handle => ?_, hrecord, hknown⟩
  · exact get_set_self ..
  · rw [← h.catalogued, openPrograms, openPrograms, get_set_ne (by decide), get_set_ne (by decide), get_set_ne (by decide),
      get_set_ne (by decide)]
  · rw [hkeys, updatedIndex]
    have hold : handle ∈ ((existingIndex row.document).map fun entry => (entry.1, Json.obj entry.2)).map (·.1) ↔ handle ∈ inspected := by
      rw [List.map_map, ← h.keys]
      rfl
    constructor
    · intro hmem
      obtain ⟨entry, hentry, rfl⟩ := List.mem_map.mp hmem
      have hboth := (hupdatedKeys entry.1).mp (List.mem_map.mpr ⟨entry, (List.mem_filter.mp hentry).1, rfl⟩)
      rw [hold, hnames] at hboth
      exact List.mem_append.mpr hboth
    · intro hmem
      have hboth := (hupdatedKeys handle).mpr (by
        rw [hold, hnames]
        exact List.mem_append.mp hmem)
      obtain ⟨entry, hentry, rfl⟩ := List.mem_map.mp hboth
      obtain ⟨hne, program, hprogram, hhandle⟩ := hknown _ hmem
      refine List.mem_map.mpr ⟨entry, List.mem_filter.mpr ⟨hentry, ?_⟩, rfl⟩
      rw [Bool.and_eq_true, decide_eq_true_eq, List.any_eq_true]
      exact ⟨hne, program, by rw [h.catalogued]; exact hprogram, decide_eq_true hhandle⟩

/-! ## The order of the turns -/

theorem not_lt_empty (s : String) : ¬ s < "" := by
  rw [String.lt_iff_toList_lt]
  exact List.not_lt_nil _

variable {existing : List (String × Fields)}

theorem checkedSortKey_new (h : handle ∉ indexed existing) :
    checkedSortKey py handle existing = toLex (0, toLex ("", handle)) := by
  have hnone : (existing.find? fun entry => decide (entry.1 = handle)) = none := by
    rw [List.find?_eq_none]
    intro entry hentry heq
    exact h (List.mem_map.mpr ⟨entry, hentry, of_decide_eq_true heq⟩)
  rw [checkedSortKey, hnone]

theorem checkedSortKey_old (hrecord : ∀ entry ∈ existing, IsRecord py entry.2)
    (h : handle ∈ indexed existing) :
    ∃ rank time, time ≠ "" ∧ checkedSortKey py handle existing = toLex (rank, toLex (time, handle)) := by
  rw [checkedSortKey]
  cases hfind : existing.find? fun entry => decide (entry.1 = handle) with
  | none =>
    obtain ⟨entry, hentry, heq⟩ := List.mem_map.mp h
    exact absurd (decide_eq_true heq) (List.find?_eq_none.mp hfind entry hentry)
  | some entry => exact ⟨_, _, hrecord entry (List.mem_of_find?_eq_some hfind), rfl⟩

/-- The programs with the flag come first. -/
theorem gold_of_le {a b : Fields} (h : sortKey py existing a ≤ sortKey py existing b)
    (hb : isGold b = true) : isGold a = true := by
  rw [sortKey, sortKey, if_pos hb, Prod.Lex.toLex_le_toLex] at h
  by_contra ha
  rw [if_neg ha] at h
  rcases h with h | ⟨h, -⟩
  · exact absurd h (show ¬ 1 < 0 by decide)
  · exact absurd h (show ¬ 1 = 0 by decide)

/-- Of two programs with one flag, one that was never inspected comes first. -/
theorem new_of_le (hrecord : ∀ entry ∈ existing, IsRecord py entry.2) {a b : Fields}
    (hflag : isGold a = isGold b) (h : sortKey py existing a ≤ sortKey py existing b) (hb : handleOf py b ∉ indexed existing) :
    handleOf py a ∉ indexed existing := by
  intro ha
  obtain ⟨rank, time, htime, hkey⟩ := checkedSortKey_old hrecord ha
  rw [sortKey, sortKey, hflag, checkedSortKey_new hb, hkey, Prod.Lex.toLex_le_toLex] at h
  obtain h | ⟨-, h⟩ := h
  · exact lt_irrefl _ h
  rw [Prod.Lex.toLex_le_toLex] at h
  have hle : toLex (rank, toLex (time, handleOf py a)) ≤ toLex (0, toLex ("", handleOf py b)) := by
    rcases h with h | ⟨h, -⟩
    · exact le_of_lt h
    · exact le_of_eq h
  rw [Prod.Lex.toLex_le_toLex] at hle
  obtain hrank | ⟨-, hle⟩ := hle
  · exact absurd hrank (Nat.not_lt_zero _)
  rw [Prod.Lex.toLex_le_toLex] at hle
  obtain hlt | ⟨heq, -⟩ := hle
  · exact not_lt_empty _ hlt
  · exact htime heq

/-! ## What is left -/

/-- The programs with a flag or without it that were not inspected. -/
def left (py : Python) (programs : List Fields) (gold : Bool) (inspected : List String) : List Fields :=
  programs.filter fun program => decide (isGold program = gold) && decide (handleOf py program ∉ inspected)

/-- How many programs have the flag. -/
def goldCount (programs : List Fields) : Nat := programs.countP isGold

theorem length_left_nil (gold : Bool) (programs : List Fields) :
    (left py programs gold []).length = if gold = true then goldCount programs else programs.length - goldCount programs := by
  have hleft : left py programs gold [] = programs.filter fun program => decide (isGold program = gold) :=
    List.filter_congr fun program _ => by simp
  rw [hleft, ← List.countP_eq_length_filter]
  cases gold with
  | true =>
    rw [if_pos rfl, goldCount]
    exact List.countP_congr fun program _ => by simp
  | false =>
    have hsplit := List.length_eq_countP_add_countP isGold (l := programs)
    have hothers : (programs.countP fun program => decide (isGold program = false)) =
        programs.countP fun program => decide ¬ isGold program = true :=
      List.countP_congr fun program _ => by simp
    rw [if_neg (by decide), hothers, goldCount]
    omega

theorem all_inspected_iff {inspected : List String} :
    (∀ program ∈ programs, handleOf py program ∈ inspected) ↔
      (left py programs true inspected).length = 0 ∧ (left py programs false inspected).length = 0 := by
  rw [List.length_eq_zero_iff, List.length_eq_zero_iff, left, left, List.filter_eq_nil_iff, List.filter_eq_nil_iff]
  constructor
  · exact fun h => ⟨fun program hmem => by simp [h program hmem], fun program hmem => by simp [h program hmem]⟩
  · rintro ⟨hgold, hothers⟩ program hmem
    by_contra hnew
    cases hflag : isGold program with
    | true => exact hgold program hmem (by simp [hflag, hnew])
    | false => exact hothers program hmem (by simp [hflag, hnew])

/-- The programs of a catalog have handles of their own. -/
structure Named (py : Python) (programs : List Fields) : Prop where
  distinct : (programs.map (handleOf py)).Nodup
  named : ∀ program ∈ programs, handleOf py program ≠ ""

/-- What a batch leaves of the part of the sorted programs that follows another one. -/
theorem length_left_part {sorted a b c : List Fields} (hnamed : Named py sorted) (hsorted : sorted = a ++ (b ++ c)) {n : Nat}
    {gold : Bool} {inspected : List String} (hb : left py sorted gold inspected = b) :
    (left py sorted gold (inspected ++ (sorted.take n).map (handleOf py))).length =
      (left py sorted gold inspected).length - (n - a.length) := by
  have hnodup := hnamed.distinct
  rw [hsorted, List.map_append, List.map_append] at hnodup
  have huntaken := length_untaken hnodup n
  rw [List.length_map, List.length_map, List.filter_map, List.length_map, ← List.map_append, ← List.map_append, ← hsorted, ← List.map_take,
    ← hb] at huntaken
  rw [← huntaken]
  refine congrArg List.length ?_
  rw [left, left, List.filter_filter]
  refine List.filter_congr fun program _ => ?_
  rw [Function.comp_apply, ← Bool.decide_and, ← Bool.decide_and, ← Bool.decide_and, decide_eq_decide, List.mem_append, not_or]
  tauto

theorem left_perm {sorted : List Fields} (h : sorted.Perm programs) (gold : Bool) (inspected : List String) :
    (left py sorted gold inspected).length = (left py programs gold inspected).length :=
  (h.filter _).length_eq

variable {batch : Nat}

/-- A call gives the programs with the flag the whole batch, and the others what these leave of it. -/
theorem length_left_step {inspected : List String} (h : Indexes py programs inspected row)
    (hnamed : Named py programs) (hbatch : 1 ≤ batch ∧ batch ≤ 24) :
    (left py programs true (inspected ++ selectedHandles py row.document (some (batch : Int)))).length =
        (left py programs true inspected).length - batch ∧
      (left py programs false (inspected ++ selectedHandles py row.document (some (batch : Int)))).length =
        (left py programs false inspected).length - (batch - goldCount programs) := by
  obtain ⟨sorted, hsorted⟩ : ∃ sorted, sorted = sortByKey (sortKey py (existingIndex row.document)) programs := ⟨_, rfl⟩
  have hperm : sorted.Perm programs := hsorted ▸ perm_sortByKey
  have hnamed' : Named py sorted :=
    ⟨(hperm.map _).nodup_iff.mpr hnamed.distinct, fun program hmem => hnamed.named program (hperm.mem_iff.mp hmem)⟩
  have hselected : selectedHandles py row.document (some (batch : Int)) = (sorted.take batch).map (handleOf py) := by
    have hlimit : (max 1 (min 24 (batchLimit py row.document (some (batch : Int))))).toNat = batch := by
      rw [batchLimit, Option.getD_some]
      omega
    rw [selectedHandles, hlimit, h.catalogued, ← hsorted, List.filter_eq_self.mpr, List.map_take]
    intro handle hmem
    obtain ⟨program, hprogram, rfl⟩ := List.mem_map.mp hmem
    exact decide_eq_true (hnamed'.named program hprogram)
  have hpairwise : sorted.Pairwise fun a b => sortKey py (existingIndex row.document) a ≤ sortKey py (existingIndex row.document) b :=
    hsorted ▸ pairwise_sortByKey
  have hnew : ∀ {a b : Fields}, isGold a = isGold b →
      sortKey py (existingIndex row.document) a ≤ sortKey py (existingIndex row.document) b →
      handleOf py b ∉ inspected → handleOf py a ∉ inspected := by
    intro a b hflag hle hb ha
    exact new_of_le h.record hflag hle (fun hmem => hb ((h.keys _).mp hmem)) ((h.keys _).mpr ha)
  -- the flag splits the list, and in either class the inspections do
  have hclasses := eq_filter_append (p := isGold) (hpairwise.imp fun hle hb => gold_of_le hle hb)
  have hclass : ∀ p : Fields → Bool, (∀ a b, p a = true → p b = true → isGold a = isGold b) → sorted.filter p =
      (sorted.filter p).filter (fun a => decide (handleOf py a ∉ inspected)) ++
        (sorted.filter p).filter fun a => !decide (handleOf py a ∉ inspected) := by
    intro p hp
    refine eq_filter_append ((hpairwise.filter p).imp_of_mem fun ha hb hle hnewb => ?_)
    have hflag := hp _ _ (List.mem_filter.mp ha).2 (List.mem_filter.mp hb).2
    exact decide_eq_true (hnew hflag hle (of_decide_eq_true hnewb))
  have hgold := hclass isGold fun a b ha hb => by rw [ha, hb]
  have hothers := hclass (fun a => !isGold a) fun a b ha hb => by rw [Bool.not_eq_true'] at ha hb; rw [ha, hb]
  have hgoldLeft : left py sorted true inspected = (sorted.filter isGold).filter fun a => decide (handleOf py a ∉ inspected) := by
    rw [left, List.filter_filter]
    exact List.filter_congr fun a _ => by simp [Bool.and_comm]
  have hothersLeft : left py sorted false inspected = (sorted.filter fun a => !isGold a).filter fun a => decide (handleOf py a ∉ inspected) := by
    rw [left, List.filter_filter]
    exact List.filter_congr fun a _ => by cases isGold a <;> simp
  have hcount : (sorted.filter isGold).length = goldCount programs := by
    rw [← List.countP_eq_length_filter]
    exact hperm.countP_eq _
  have hfirst := hclasses
  rw [hgold, List.append_assoc, ← List.nil_append (List.filter _ _ ++ _)] at hfirst
  have hsecond := hclasses
  rw [hothers] at hsecond
  rw [hselected, ← left_perm hperm, ← left_perm hperm, ← left_perm hperm, ← left_perm hperm]
  refine ⟨length_left_part hnamed' hfirst hgoldLeft, ?_⟩
  rw [length_left_part hnamed' hsecond hothersLeft, hcount]

/-! ## Runs -/

/-- Calls one after the other, from a table. -/
structure Run (py : Python) (batchSize : Option Int) where
  pass : Nat → Pass
  store : Store

namespace Run

variable {batchSize : Option Int}

/-- The table before a call. -/
def storeAt (run : Run py batchSize) : Nat → Store
  | 0 => run.store
  | k + 1 => (refreshFeasibilityBatch py (run.pass k) (run.storeAt k) batchSize).2

def outcomeAt (run : Run py batchSize) (k : Nat) : Except PyError Outcome :=
  (refreshFeasibilityBatch py (run.pass k) (run.storeAt k) batchSize).1

def checkedAt (run : Run py batchSize) (k : Nat) : List String :=
  match run.outcomeAt k with
  | .ok outcome => outcome.checked
  | .error _ => []

/-- The programs that were inspected before a call. -/
def inspected (run : Run py batchSize) : Nat → List String
  | 0 => []
  | k + 1 => run.inspected k ++ run.checkedAt k

theorem step_eq (run : Run py batchSize) {k : Nat} {outcome : Outcome} {store : Store}
    (h : refreshFeasibilityBatch py (run.pass k) (run.storeAt k) batchSize = (.ok outcome, store)) :
    run.outcomeAt k = .ok outcome ∧ run.storeAt (k + 1) = store :=
  ⟨congrArg Prod.fst h, congrArg Prod.snd h⟩

/-- A call succeeds, and no other writer has changed the table in it. -/
def Succeeds (run : Run py batchSize) (k : Nat) : Prop :=
  (∃ outcome, run.outcomeAt k = .ok outcome ∧ outcome.succeeded = true) ∧ (run.pass k).meanwhile (run.storeAt k) = run.storeAt k

end Run

/-- A catalog that was saved, of which nothing was inspected. -/
structure Fresh (py : Python) (row : CatalogRow) : Prop where
  id : get row.document "id" = .str "current"
  index : existingIndex row.document = []
  named : Named py (openPrograms py row.document)

theorem Fresh.indexes (h : Fresh py row) : Indexes py (openPrograms py row.document) [] row where
  id := h.id
  catalogued := rfl
  keys := fun handle => by rw [h.index]; rfl
  record := fun entry hentry => absurd (h.index ▸ hentry) List.not_mem_nil
  known := fun handle hmem => absurd hmem List.not_mem_nil

/-- What is left of either class after some calls. -/
theorem left_of_run {run : Run py (some (batch : Int))} (hbatch : 1 ≤ batch ∧ batch ≤ 24)
    (hrow : run.store "current" = some row) (hfresh : Fresh py row) {k : Nat} (hsucceeds : ∀ j < k, run.Succeeds j) :
    ∃ row', run.storeAt k "current" = some row' ∧ Indexes py (openPrograms py row.document) (run.inspected k) row' ∧
      (left py (openPrograms py row.document) true (run.inspected k)).length = goldCount (openPrograms py row.document) - k * batch ∧
      (left py (openPrograms py row.document) false (run.inspected k)).length =
        (openPrograms py row.document).length - goldCount (openPrograms py row.document) -
          k * (batch - goldCount (openPrograms py row.document)) := by
  induction k with
  | zero =>
    have hgold : (left py (openPrograms py row.document) true []).length = _ := length_left_nil true _
    have hothers : (left py (openPrograms py row.document) false []).length = _ := length_left_nil false _
    rw [if_pos rfl] at hgold
    rw [if_neg (by decide)] at hothers
    exact ⟨row, hrow, hfresh.indexes, by simpa [Run.inspected] using hgold, by simpa [Run.inspected] using hothers⟩
  | succ k ih =>
    obtain ⟨row', hrow', hindexes, hgold, hothers⟩ := ih fun j hj => hsucceeds j (Nat.lt_succ_of_lt hj)
    obtain ⟨⟨outcome, houtcome, hsucceeded⟩, hundisturbed⟩ := hsucceeds k (Nat.lt_succ_self k)
    have hrefresh : refreshFeasibilityBatch py (run.pass k) (run.storeAt k) (some (batch : Int)) = (.ok outcome, run.storeAt (k + 1)) :=
      Prod.ext houtcome rfl
    obtain ⟨hchecked, row'', hrow'', hnext⟩ := refresh_indexes hrow' hindexes hundisturbed hrefresh hsucceeded
    have hinspected : run.inspected (k + 1) = run.inspected k ++ outcome.checked := by
      rw [Run.inspected, Run.checkedAt, houtcome]
    obtain ⟨hgold', hothers'⟩ := length_left_step hindexes hfresh.named hbatch
    rw [← hchecked, ← hinspected] at hgold' hothers'
    refine ⟨row'', hrow'', hinspected ▸ hnext, ?_, ?_⟩
    · rw [hgold', hgold, Nat.succ_mul]
      omega
    · rw [hothers', hothers, Nat.succ_mul]
      omega

/-- Every program was inspected after some calls just when they had places enough for either class. -/
theorem all_inspected_of_run {run : Run py (some (batch : Int))} (hbatch : 1 ≤ batch ∧ batch ≤ 24)
    (hrow : run.store "current" = some row) (hfresh : Fresh py row) {k : Nat} (hsucceeds : ∀ j < k, run.Succeeds j) :
    (∀ program ∈ openPrograms py row.document, handleOf py program ∈ run.inspected k) ↔
      goldCount (openPrograms py row.document) ≤ k * batch ∧
        (openPrograms py row.document).length - goldCount (openPrograms py row.document) ≤
          k * (batch - goldCount (openPrograms py row.document)) := by
  obtain ⟨-, -, -, hgold, hothers⟩ := left_of_run hbatch hrow hfresh hsucceeds
  rw [all_inspected_iff, hgold, hothers]
  omega

/-! ## Fairness -/

/-- `ceil(n / b)` -/
def ceilDiv (n b : Nat) : Nat := (n + b - 1) / b

theorem le_ceilDiv_mul (n : Nat) {b : Nat} (hb : 1 ≤ b) : n ≤ ceilDiv n b * b := by
  rw [ceilDiv]
  have hdiv := Nat.div_add_mod (n + b - 1) b
  have hmod := Nat.mod_lt (n + b - 1) hb
  rw [Nat.mul_comm] at hdiv
  omega

theorem inspected_in_turn {batch : Nat} (run : Run py (some (batch : Int))) {row : CatalogRow} (hbatch : 1 ≤ batch ∧ batch ≤ 24)
    (hrow : run.store "current" = some row) (hfresh : Fresh py row) (hsucceeds : ∀ k, run.Succeeds k) :
    let programs := openPrograms py row.document
    let calls := ceilDiv programs.length batch
    (((∀ program ∈ programs, handleOf py program ∈ run.inspected calls) ∧
        ∀ program ∈ programs, ∃ k, handleOf py program ∈ run.inspected k) ↔
      goldCount programs = programs.length ∨ programs.length - goldCount programs ≤ calls * (batch - goldCount programs)) ∧
    ((∀ program ∈ programs, ∃ k, handleOf py program ∈ run.inspected k) ↔
      goldCount programs = programs.length ∨ goldCount programs < batch) := by
  intro programs calls
  have hle : goldCount programs ≤ programs.length := List.countP_le_length
  have hcalls : programs.length ≤ calls * batch := le_ceilDiv_mul _ hbatch.1
  have hall : ∀ k, _ := fun k => all_inspected_of_run hbatch hrow hfresh (k := k) fun j _ => hsucceeds j
  have hkeeps : ∀ {j k : Nat} {handle : String}, j ≤ k → handle ∈ run.inspected j → handle ∈ run.inspected k := by
    intro j k handle hjk hmem
    induction k, hjk using Nat.le_induction with
    | base => exact hmem
    | succ k _ ih => exact List.mem_append_left _ ih
  have hever : (∀ program ∈ programs, ∃ k, handleOf py program ∈ run.inspected k) ↔
      ∃ k, ∀ program ∈ programs, handleOf py program ∈ run.inspected k := by
    constructor
    · intro h
      choose! turn hturn using h
      refine ⟨(programs.map turn).sum, fun program hmem => hkeeps ?_ (hturn program hmem)⟩
      exact List.single_le_sum (fun _ _ => Nat.zero_le _) _ (List.mem_map_of_mem hmem)
    · rintro ⟨k, h⟩ program hmem
      exact ⟨k, h program hmem⟩
  constructor
  · rw [hall calls]
    constructor
    · rintro ⟨⟨-, hothers⟩, -⟩
      exact .inr hothers
    · intro h
      have hboth : goldCount programs ≤ calls * batch ∧
          programs.length - goldCount programs ≤ calls * (batch - goldCount programs) := by
        refine ⟨hle.trans hcalls, ?_⟩
        rcases h with h | h
        · rw [h, Nat.sub_self]
          exact Nat.zero_le _
        · exact h
      exact ⟨hboth, hever.mpr ⟨calls, (hall calls).mpr hboth⟩⟩
  · rw [hever]
    constructor
    · rintro ⟨k, h⟩
      obtain ⟨-, hothers⟩ := (hall k).mp h
      by_contra hno
      rw [not_or, Nat.not_lt] at hno
      have hzero : batch - goldCount programs = 0 := Nat.sub_eq_zero_of_le hno.2
      have hrest : programs.length - goldCount programs ≤ k * (batch - goldCount programs) := hothers
      rw [hzero, Nat.mul_zero] at hrest
      omega
    · intro h
      refine ⟨programs.length, (hall _).mpr ⟨hle.trans (Nat.le_mul_of_pos_right _ hbatch.1), ?_⟩⟩
      rcases h with h | h
      · rw [show (openPrograms py row.document).length - goldCount (openPrograms py row.document) = 0 from
          Nat.sub_eq_zero_of_le (le_of_eq h.symm)]
        exact Nat.zero_le _
      · exact (Nat.sub_le _ _).trans (Nat.le_mul_of_pos_right _ (Nat.sub_pos_of_lt h))

/-! ## Two programs, one of them with the flag -/

def samplePython : Python where
  unicode := ExecutionContract.sampleUnicode
  str := fun value =>
    match value with
    | .str s => s
    | _ => "-"
  str_str _ := rfl
  storage := .default
  initialBatchSize := 12
  regularBatchSize := 4

def sampleProgram (handle : String) (gold : Bool) : Json :=
  .obj [("handle", .str handle), ("offers_bounties", .bool true), ("gold_standard_safe_harbor", .bool gold)]

def sampleCatalog (index : Fields) : Fields :=
  [("id", .str "current"), ("programs", .arr [sampleProgram "plain" false, sampleProgram "gold" true]), ("fingerprint", .str "f"),
    ("checked_at", .str ""), ("updated_at", .str (PyDateTime.isoformat ⟨0⟩)), ("feasibility_index", .obj index),
    ("feasibility_updated_at", .str (PyDateTime.isoformat ⟨0⟩))]

/-- Every program answers that there were too many requests, always at one time of the clock. -/
def samplePass : Pass where
  answer := fun _ => .failure ⟨"too many requests", some 429⟩
  checkedAt := fun _ => ⟨0⟩
  completed := id
  completed_perm := fun handles => .refl handles
  indexedAt := ⟨0⟩
  updatedAt := ⟨0⟩
  meanwhile := id

theorem meanwhile_sample (store : Store) : samplePass.meanwhile store = store := rfl

def sampleRecord (handle : String) : Fields :=
  [("handle", .str handle), ("status", .str "unavailable"), ("project_compatible", .null), ("blockers", .arr [.str "review_unavailable"]),
    ("failure_reason", .str "hackerone_rate_limited"), ("retryable", .bool true), ("upstream_status", .int 429),
    ("checked_at", .str (PyDateTime.isoformat ⟨0⟩)), ("contains_secrets", .bool false)]

/-- The index after some inspections. -/
def sampleIndex (handles : List String) : Fields := handles.map fun handle => (handle, .obj (sampleRecord handle))

def sampleStore (index : Fields) (version : Int) : Store := fun id => if id = "current" then some ⟨sampleCatalog index, version⟩ else none

def sampleRun (batch : Nat) : Run samplePython (some (batch : Int)) := ⟨fun _ => samplePass, sampleStore [] 1⟩

theorem fresh_sample : Fresh samplePython ⟨sampleCatalog [], 1⟩ := ⟨rfl, rfl, by decide +kernel, by decide +kernel⟩

theorem saveCatalogState_sample (index index' : Fields) (version : Int)
    (hsize : Json.byteLength (Json.obj (sampleCatalog index')).chars ≤ samplePython.storage.maxDocumentBytes) :
    saveCatalogState samplePython (sampleStore index version) (sampleCatalog index') version = .ok (sampleStore index' (version + 1)) := by
  have hid : get (sampleCatalog index') "id" = .str "current" := rfl
  have hset : set (sampleCatalog index') "id" (.str "current") = sampleCatalog index' := rfl
  have hcurrent : storageIdentifier (samplePython.str (.str "current")) "hackerone_catalog_id" = .ok current := storageIdentifier_current _
  have htext : current.text = "current" := rfl
  have hprograms : get (sampleCatalog index') "programs" = .arr [sampleProgram "plain" false, sampleProgram "gold" true] := rfl
  have hrow : sampleStore index version "current" = some ⟨sampleCatalog index, version⟩ := rfl
  have hrequired : requiredFields.all (fun key => (lookup (sampleCatalog index') key).isSome) = true := rfl
  have hbytes : ¬ samplePython.storage.maxDocumentBytes < (Json.obj (sampleCatalog index')).dumps.utf8ByteSize := by
    rw [Json.dumps, Json.utf8ByteSize_ofList]
    exact Nat.not_lt.mpr hsize
  rw [saveCatalogState, if_neg (not_not.mpr hrequired), hid, hcurrent]
  dsimp only
  rw [htext, hset, hprograms]
  dsimp only
  rw [if_neg (by decide), if_neg hbytes, hrow]
  dsimp only
  rw [if_neg (not_not.mpr rfl)]
  refine congrArg Except.ok (funext fun id => ?_)
  by_cases h : id = "current"
  · rw [h, Function.update_self]
    rfl
  · rw [Function.update_of_ne h, sampleStore, sampleStore, if_neg h, if_neg h]

/-- What a call does on a catalog with an index, by what it selects and what it saves. -/
theorem refresh_sample {batch : Int} (version : Int) {index index' : Fields} {handles : List String} (hne : handles ≠ [])
    (hselected : selectedHandles samplePython (sampleCatalog index) (some batch) = handles)
    (hinspected : handles.mapM (fun handle => (inspectHandle samplePython (samplePass.answer handle) (samplePass.checkedAt handle) handle).map
      fun record => (handle, record)) = .ok (handles.map fun handle => (handle, sampleRecord handle)))
    (hupdated : updatedIndex samplePython (sampleCatalog index) (handles.map fun handle => (handle, sampleRecord handle)) = index')
    (hsize : Json.byteLength (Json.obj (sampleCatalog index')).chars ≤ samplePython.storage.maxDocumentBytes) :
    refreshFeasibilityBatch samplePython samplePass (sampleStore index version) (some batch) =
      (.ok (.refreshed handles), sampleStore index' (version + 1)) := by
  have hrow : sampleStore index version "current" = some ⟨sampleCatalog index, version⟩ := rfl
  have hcompleted : samplePass.completed handles = handles := rfl
  have hdocument : set (set (set (sampleCatalog index) "feasibility_index" (.obj index')) "feasibility_updated_at"
      (.str samplePass.indexedAt.isoformat)) "updated_at" (.str samplePass.updatedAt.isoformat) = sampleCatalog index' := rfl
  unfold refreshFeasibilityBatch
  rw [hrow]
  dsimp only
  rw [hselected, if_neg hne, hcompleted, hinspected]
  dsimp only
  rw [hupdated, hdocument, meanwhile_sample, saveCatalogState_sample index index' version hsize]

theorem succeeds_sample {k : Nat} {outcome : Outcome} (h : (sampleRun batch).outcomeAt k = .ok outcome)
    (hsucceeded : outcome.succeeded = true) : (sampleRun batch).Succeeds k :=
  ⟨⟨outcome, h, hsucceeded⟩, meanwhile_sample _⟩

theorem inspected_handles (handles : List String) :
    handles.mapM (fun handle => (inspectHandle samplePython (samplePass.answer handle) (samplePass.checkedAt handle) handle).map
      fun record => (handle, record)) = .ok (handles.map fun handle => (handle, sampleRecord handle)) := by
  induction handles with
  | nil => rfl
  | cons handle handles ih =>
    rw [List.mapM_cons, ih]
    rfl

/-- A batch in which the handles are selected, first and ever after. -/
theorem storeAt_sample {handles : List String} (hne : handles ≠ [])
    (hselected : ∀ index, index = [] ∨ index = sampleIndex handles →
      selectedHandles samplePython (sampleCatalog index) (some (batch : Int)) = handles ∧
        updatedIndex samplePython (sampleCatalog index) (handles.map fun handle => (handle, sampleRecord handle)) = sampleIndex handles)
    (hsize : Json.byteLength (Json.obj (sampleCatalog (sampleIndex handles))).chars ≤ samplePython.storage.maxDocumentBytes) (k : Nat) :
    (sampleRun batch).outcomeAt k = .ok (.refreshed handles) ∧
      (sampleRun batch).storeAt (k + 1) = sampleStore (sampleIndex handles) (k + 2) := by
  induction k with
  | zero =>
    obtain ⟨hselect, hupdated⟩ := hselected [] (.inl rfl)
    exact Run.step_eq (sampleRun batch) (refresh_sample _ hne hselect (inspected_handles _) hupdated hsize)
  | succ k ih =>
    obtain ⟨hselect, hupdated⟩ := hselected (sampleIndex handles) (.inr rfl)
    have hnext := refresh_sample (k + 2) hne hselect (inspected_handles _) hupdated hsize
    rw [← ih.2] at hnext
    have hversion : ((k : Int) + 2 + 1) = ((k + 1 : Nat) : Int) + 2 := by omega
    rw [hversion] at hnext
    exact Run.step_eq (sampleRun batch) hnext

/-- A batch of two inspects both programs. -/
theorem outcomeAt_two (k : Nat) : (sampleRun 2).outcomeAt k = .ok (.refreshed ["gold", "plain"]) := by
  refine (storeAt_sample (List.cons_ne_nil _ _) (fun index hindex => ?_) (by decide +kernel) k).1
  rcases hindex with rfl | rfl
  · exact ⟨by decide +kernel, rfl⟩
  · exact ⟨by decide +kernel, rfl⟩

/-- A batch of one inspects the program with the flag. -/
theorem outcomeAt_one (k : Nat) : (sampleRun 1).outcomeAt k = .ok (.refreshed ["gold"]) := by
  refine (storeAt_sample (List.cons_ne_nil _ _) (fun index hindex => ?_) (by decide +kernel) k).1
  rcases hindex with rfl | rfl
  · exact ⟨by decide +kernel, rfl⟩
  · exact ⟨by decide +kernel, rfl⟩

theorem inspected_in_turn_sample :
    (∀ program ∈ openPrograms samplePython (sampleCatalog []), ∃ k, handleOf samplePython program ∈ (sampleRun 2).inspected k) ↔
      goldCount (openPrograms samplePython (sampleCatalog [])) = (openPrograms samplePython (sampleCatalog [])).length ∨
        goldCount (openPrograms samplePython (sampleCatalog [])) < 2 :=
  (inspected_in_turn (sampleRun 2) (by decide) (show _ = some ⟨sampleCatalog [], 1⟩ from rfl) fresh_sample fun k =>
    succeeds_sample (outcomeAt_two k) rfl).2

theorem not_inspected (k : Nat) : "plain" ∉ (sampleRun 1).inspected k := by
  induction k with
  | zero => exact List.not_mem_nil
  | succ k ih =>
    rw [Run.inspected, Run.checkedAt, outcomeAt_one, List.mem_append, not_or]
    exact ⟨ih, by decide⟩

/-- The program with the flag has the only place of each batch. -/
theorem flag_starves : ¬ ∀ (py : Python) (batch : Nat) (run : Run py (some (batch : Int))) (row : CatalogRow),
    1 ≤ batch ∧ batch ≤ 24 → run.store "current" = some row → Fresh py row → (∀ k, run.Succeeds k) →
      (∀ program ∈ openPrograms py row.document,
          handleOf py program ∈ run.inspected (ceilDiv (openPrograms py row.document).length batch)) ∧
        ∀ program ∈ openPrograms py row.document, ∃ k, handleOf py program ∈ run.inspected k := by
  intro h
  have hplain : [("handle", Json.str "plain"), ("offers_bounties", .bool true), ("gold_standard_safe_harbor", .bool false)] ∈
      openPrograms samplePython (sampleCatalog []) := List.mem_cons_self
  obtain ⟨k, hk⟩ := (h samplePython 1 (sampleRun 1) ⟨sampleCatalog [], 1⟩ (by decide) rfl fresh_sample fun k =>
    succeeds_sample (outcomeAt_one k) rfl).2 _ hplain
  exact not_inspected k hk

end Feasibility

end XbowPerso
