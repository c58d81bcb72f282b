import XbowPerso.ObservationGraph

/-!
# Rebuilding a graph from records in any order

Records of which each has its parents before it, in some order, are rebuilt from every order: what a pass leaves pending has a first
record in the good order, and the next pass takes it.
-/

namespace XbowPerso

namespace ObservationGraph

variable {graph : ObservationGraph} {o x : Observation} {records pending : List Observation}

/-- Each observation comes after its parents. -/
def Rooted (records : List Observation) : Prop :=
  ∀ before o after, records = before ++ o :: after → ∀ p ∈ o.parentIds, p ∈ before.map Observation.id

/-! ## Adding one observation -/

theorem missing_eq_nil : graph.missing o = [] ↔ ∀ p ∈ o.parentIds, ∃ x, graph.items.get? p = some x := by
  unfold missing
  simp only [List.filter_eq_nil_iff, Option.isNone_iff_eq_none, ← Option.ne_none_iff_exists', ne_eq]

theorem id_mem_of_get? {id : String} (h : graph.items.get? id = some x) : x ∈ graph.values ∧ x.id = id := by
  have hkey : id = x.id := graph.keyed _ (Dict.mem_entries.mpr h)
  exact ⟨mem_values.mpr (hkey ▸ h), hkey.symm⟩

/-- A new observation whose parents are there goes to the end. -/
theorem add_of_new (hmissing : graph.missing o = []) (hnew : o.id ∉ graph.values.map Observation.id) :
    add graph o = .ok (graph.put o) ∧ (graph.put o).values = graph.values ++ [o] := by
  have hget : graph.items.get? o.id = none := by
    rw [Option.eq_none_iff_forall_ne_some]
    intro x hx
    obtain ⟨hmem, hid⟩ := id_mem_of_get? hx
    exact hnew (List.mem_map.mpr ⟨x, hmem, hid⟩)
  refine ⟨?_, Dict.values_set_of_not_mem (Dict.get?_eq_none.mp hget)⟩
  unfold add
  rw [if_neg (not_not.mpr hmissing), hget]

/-! ## A pass -/

variable {l : List Observation}

/-- A pass over new observations succeeds, and takes every observation that was ready when it began. -/
theorem pass_of_new {skipped : List Observation} (hnodup : (l.map Observation.id).Nodup)
    (hperm : (graph.values ++ (skipped ++ pending)).Perm l) :
    ∃ graph' remaining, pass graph pending = .ok (graph', remaining) ∧ (graph'.values ++ (skipped ++ remaining)).Perm l ∧
      remaining.length ≤ pending.length ∧ ((∃ o ∈ pending, graph.missing o = []) → remaining.length < pending.length) := by
  induction pending generalizing graph skipped with
  | nil => exact ⟨graph, [], rfl, hperm, le_rfl, fun ⟨_, ho, _⟩ => absurd ho List.not_mem_nil⟩
  | cons o pending ih =>
    unfold pass
    by_cases hmissing : graph.missing o = []
    · have hfront : (graph.values ++ (skipped ++ o :: pending)).Perm ((graph.values ++ [o]) ++ (skipped ++ pending)) := by
        rw [List.append_assoc]
        exact List.Perm.append_left _ List.perm_middle
      have hnew : o.id ∉ graph.values.map Observation.id := by
        have hids := (((hfront.symm.trans hperm).map Observation.id).nodup_iff).mpr hnodup
        rw [List.map_append, List.map_append] at hids
        have hpart := (List.nodup_append.mp hids).1
        intro hmem
        exact (List.nodup_append.mp hpart).2.2 _ hmem _ (List.mem_singleton.mpr rfl) rfl
      obtain ⟨hadd, hvalues⟩ := add_of_new hmissing hnew
      have hput : ((graph.put o).values ++ (skipped ++ pending)).Perm l := by
        rw [hvalues]
        exact hfront.symm.trans hperm
      obtain ⟨graph', remaining, hpass, hrest, hle, -⟩ := ih hput
      rw [if_pos hmissing, hadd]
      exact ⟨graph', remaining, hpass, hrest, Nat.le_succ_of_le hle, fun _ => Nat.lt_succ_of_le hle⟩
    · have hshift : (graph.values ++ ((skipped ++ [o]) ++ pending)).Perm l := by
        rwa [List.append_assoc, List.singleton_append]
      obtain ⟨graph', remaining, hpass, hrest, hle, hlt⟩ := ih hshift
      rw [if_neg hmissing, hpass]
      refine ⟨graph', o :: remaining, rfl, ?_, Nat.succ_le_succ hle, ?_⟩
      · rwa [List.append_assoc, List.singleton_append] at hrest
      · rintro ⟨o', ho', hready⟩
        rcases List.mem_cons.mp ho' with rfl | ho'
        · exact absurd hready hmissing
        · exact Nat.succ_lt_succ (hlt ⟨o', ho', hready⟩)

/-- The first of the pending observations in an order that has every parent before its children is ready. -/
theorem exists_ready (hnodup : (l.map Observation.id).Nodup) (hrooted : Rooted l)
    (hperm : (graph.values ++ pending).Perm l) (hpending : pending ≠ []) : ∃ o ∈ pending, graph.missing o = [] := by
  obtain ⟨y, hy⟩ := List.exists_mem_of_ne_nil pending hpending
  have hyl : y ∈ l := hperm.subset (List.mem_append_right _ hy)
  have hsome : (l.find? fun o => decide (o.id ∈ pending.map Observation.id)).isSome = true :=
    List.find?_isSome.mpr ⟨y, hyl, decide_eq_true (List.mem_map.mpr ⟨y, hy, rfl⟩)⟩
  obtain ⟨o, hfind⟩ := Option.isSome_iff_exists.mp hsome
  obtain ⟨hid, before, after, hsplit, hbefore⟩ := List.find?_eq_some_iff_append.mp hfind
  obtain ⟨o', ho', heq⟩ := List.mem_map.mp (of_decide_eq_true hid)
  have hol : o ∈ l := by
    rw [hsplit]
    exact List.mem_append_right _ List.mem_cons_self
  have hsame : o' = o := List.inj_on_of_nodup_map hnodup (hperm.subset (List.mem_append_right _ ho')) hol heq
  refine ⟨o, hsame ▸ ho', missing_eq_nil.mpr fun p hp => ?_⟩
  obtain ⟨x, hx, rfl⟩ := List.mem_map.mp (hrooted before o after hsplit p hp)
  have hxl : x ∈ l := by
    rw [hsplit]
    exact List.mem_append_left _ hx
  -- what stands before the first pending observation is in the graph
  rcases List.mem_append.mp (hperm.symm.subset hxl) with hvalue | hpend
  · exact ⟨x, mem_values.mp hvalue⟩
  · have hnot := hbefore x hx
    rw [decide_eq_true (List.mem_map.mpr ⟨x, hpend, rfl⟩)] at hnot
    cases hnot

/-! ## All passes -/

theorem passes_of_rooted (hnodup : (l.map Observation.id).Nodup) (hrooted : Rooted l) {rounds : Nat}
    (hrounds : pending.length ≤ rounds) (hperm : (graph.values ++ pending).Perm l) :
    ∃ graph', passes rounds graph pending = .ok graph' ∧ graph'.values.Perm l := by
  induction rounds generalizing graph pending with
  | zero =>
    have hnil : pending = [] := List.length_eq_zero_iff.mp (Nat.le_zero.mp hrounds)
    subst hnil
    rw [List.append_nil] at hperm
    exact ⟨graph, rfl, hperm⟩
  | succ rounds ih =>
    cases hp : pending with
    | nil =>
      subst hp
      rw [List.append_nil] at hperm
      exact ⟨graph, rfl, hperm⟩
    | cons o rest =>
      rw [← hp]
      have hne : pending ≠ [] := by
        rw [hp]
        exact List.cons_ne_nil o rest
      have hnone : (graph.values ++ ([] ++ pending)).Perm l := hperm
      obtain ⟨graph', remaining, hpass, hrest, -, hlt⟩ := pass_of_new hnodup hnone
      have hlt := hlt (exists_ready hnodup hrooted hperm hne)
      have hle : remaining.length ≤ rounds := by omega
      obtain ⟨result, hresult, hvalues⟩ := ih hle hrest
      refine ⟨result, ?_, hvalues⟩
      rw [passes, hpass]
      · dsimp only
        rw [if_neg (Nat.ne_of_lt hlt)]
        exact hresult
      · exact hne

/-- Rooted records are rebuilt from every order of them. -/
theorem fromRecords_perm (hnodup : (l.map Observation.id).Nodup) (hrooted : Rooted l)
    (hperm : records.Perm l) : ∃ graph, fromRecords records = .ok graph ∧ graph.values.Perm l :=
  passes_of_rooted hnodup hrooted le_rfl hperm

/-! ## The observations without parents -/

/-- Whether an observation has no parents. -/
def isRoot (o : Observation) : Bool := decide (o.parentIds = [])

theorem missing_of_isRoot (h : isRoot o = true) : graph.missing o = [] := by
  unfold missing
  rw [of_decide_eq_true h, List.filter_nil]

variable {graph' : ObservationGraph}

/-- A pass over new observations takes those without parents, in their order. -/
theorem pass_roots {remaining : List Observation}
    (hnodup : ((graph.values ++ pending).map Observation.id).Nodup) (h : pass graph pending = .ok (graph', remaining)) :
    graph'.values.filter isRoot = graph.values.filter isRoot ++ pending.filter isRoot ∧ remaining.filter isRoot = [] ∧
      (graph'.values ++ remaining).Perm (graph.values ++ pending) := by
  induction pending generalizing graph graph' remaining with
  | nil =>
    cases h
    exact ⟨(List.append_nil _).symm, rfl, List.Perm.refl _⟩
  | cons o pending ih =>
    unfold pass at h
    split at h
    · rename_i hmissing
      have hnew : o.id ∉ graph.values.map Observation.id := by
        rw [List.map_append, List.nodup_append] at hnodup
        exact fun hmem => hnodup.2.2 _ hmem _ (List.mem_cons_self ..) rfl
      obtain ⟨hadd, hvalues⟩ := add_of_new hmissing hnew
      rw [hadd] at h
      have hshift : (graph.put o).values ++ pending = graph.values ++ o :: pending := by
        rw [hvalues, List.append_assoc, List.singleton_append]
      obtain ⟨hfilter, hrest, hperm⟩ := ih (hshift ▸ hnodup) h
      refine ⟨?_, hrest, hshift ▸ hperm⟩
      rw [hfilter, hvalues, List.filter_append, List.append_assoc, ← List.filter_append, List.singleton_append]
    · rename_i hmissing
      split at h
      · cases h
      rename_i graph₁ remaining₁ hpass
      cases h
      have hroot : isRoot o = false := by
        rw [Bool.eq_false_iff]
        exact fun ho => hmissing (missing_of_isRoot ho)
      have hpermute : (graph.values ++ o :: pending).Perm (o :: (graph.values ++ pending)) := List.perm_middle
      have hnodup' := ((hpermute.map Observation.id).nodup_iff.mp hnodup).of_cons
      obtain ⟨hfilter, hrest, hperm⟩ := ih hnodup' hpass
      refine ⟨?_, ?_, (List.perm_middle.trans (hperm.cons o)).trans hpermute.symm⟩
      · rw [hfilter, List.filter_cons_of_neg (by rw [hroot]; exact Bool.false_ne_true)]
      · rw [List.filter_cons_of_neg (by rw [hroot]; exact Bool.false_ne_true), hrest]

theorem passes_roots {rounds : Nat} (hnodup : ((graph.values ++ pending).map Observation.id).Nodup)
    (h : passes rounds graph pending = .ok graph') :
    graph'.values.filter isRoot = graph.values.filter isRoot ++ pending.filter isRoot := by
  induction rounds generalizing graph pending with
  | zero =>
    cases pending with
    | nil =>
      cases h
      exact (List.append_nil _).symm
    | cons o pending => cases h
  | succ rounds ih =>
    cases pending with
    | nil =>
      cases h
      exact (List.append_nil _).symm
    | cons o pending =>
      unfold passes at h
      split at h
      · cases h
      rename_i graph₁ remaining hpass
      split at h
      · cases h
      obtain ⟨hfilter, hrest, hperm⟩ := pass_roots hnodup hpass
      rw [ih ((hperm.map Observation.id).nodup_iff.mpr hnodup) h, hfilter, hrest, List.append_nil]

/-- Rebuilding keeps the order of the observations without parents. -/
theorem fromRecords_roots (hnodup : (records.map Observation.id).Nodup)
    (h : fromRecords records = .ok graph') : graph'.values.filter isRoot = records.filter isRoot :=
  passes_roots (show ((empty.values ++ records).map Observation.id).Nodup from hnodup) h

end ObservationGraph

end XbowPerso
