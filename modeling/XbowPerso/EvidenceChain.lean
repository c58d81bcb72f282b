import Mathlib.Data.List.Sort
import XbowPerso.ObservationGraph

/-!
# Evidence chains

`build_evidence_chains` walks from each finding up to its ancestors, collects the validations and the evidence below it, and lists what
the chain lacks. The walk stops at a parent that is on its path.
-/

namespace XbowPerso

namespace ObservationGraph

variable (graph : ObservationGraph)

/-- `sorted(set(ids))`. -/
def sortedIds (ids : List String) : List String := ids.dedup.insertionSort fun a b => a ≤ b

/-! ## The ancestry -/

/-- What the walk has met: the ancestors, the references to nothing, and whether it came back. -/
structure Ancestry where
  ancestors : List String
  dangling : List String
  cycleDetected : Bool

/-- A parent is met. -/
def Ancestry.meet (found : Ancestry) (parent : String) : Ancestry := { found with ancestors := found.ancestors ++ [parent] }

/-- `visit`, from an observation that was reached along a path. -/
def visit (root : String) : Nat → Ancestry → String → List String → Ancestry
  | 0, found, _, _ => found
  | fuel + 1, found, current, path =>
    match graph.items.get? current with
    | none => { found with dangling := found.dangling ++ [current] }
    | some o =>
      o.parentIds.foldl (fun found parent =>
        if parent ∈ path ∨ parent = root then { found.meet parent with cycleDetected := true }
        else visit root fuel (found.meet parent) parent (path ++ [current])) found

/-- More steps than a path can have: an observation follows itself at most once, and comes back no other way. -/
def pathBound : Nat := 2 * graph.items.size + 2

/-- `_ancestry_integrity`. -/
def ancestryIntegrity (root : String) : List String × List String × Bool :=
  match graph.items.get? root with
  | none => ([], [], false)
  | some _ =>
    let found := visit graph root graph.pathBound ⟨[], [], false⟩ root []
    (sortedIds found.ancestors, sortedIds found.dangling, found.cycleDetected)

/-! ## The chains -/

/-- `EvidenceChain`. -/
structure EvidenceChain where
  findingId : String
  ancestorIds : List String
  validationIds : List String
  evidenceIds : List String
  sourceCount : Nat
  danglingParentIds : List String
  cycleDetected : Bool
  independentValidationObserved : Bool

/-- What a chain lacks. -/
def EvidenceChain.issues (chain : EvidenceChain) : List String :=
  (if chain.ancestorIds = [] then ["missing_upstream_context"] else []) ++
    (if chain.danglingParentIds = [] then [] else ["dangling_parent_reference"]) ++
    (if chain.cycleDetected then ["ancestry_cycle"] else []) ++
    (if chain.validationIds = [] then ["missing_validation"] else []) ++
    (if chain.independentValidationObserved then [] else ["missing_independent_observed_validation"]) ++
    (if chain.evidenceIds = [] then ["missing_evidence"] else []) ++
    (if chain.sourceCount < 2 then ["low_source_diversity"] else [])

def EvidenceChain.complete (chain : EvidenceChain) : Bool := chain.issues.isEmpty

/-- The sources of some observations; a blank one does not count. -/
def sources (ids : List String) : List String :=
  (ids.filterMap fun id => (graph.items.get? id).map Observation.source).filter fun source => PyText.strip source ≠ ""

/-- The chain of a finding. -/
def evidenceChain (finding : Observation) : EvidenceChain :=
  let validationIds := sortedIds (((graph.byKind .validation).filter fun o => finding.id ∈ o.parentIds).map Observation.id)
  let evidenceIds := sortedIds (((graph.byKind .evidence).filter fun o =>
    decide (finding.id ∈ o.parentIds) || o.parentIds.any fun p => decide (p ∈ validationIds)).map Observation.id)
  let ancestry := graph.ancestryIntegrity finding.id
  { findingId := finding.id
    ancestorIds := ancestry.1
    validationIds := validationIds
    evidenceIds := evidenceIds
    sourceCount := (graph.sources (finding.id :: (ancestry.1 ++ validationIds ++ evidenceIds))).dedup.length
    danglingParentIds := ancestry.2.1
    cycleDetected := ancestry.2.2
    independentValidationObserved := decide (finding.id ∈ graph.analyzeValidationState.observedIndependentFindingIds) }

/-- `build_evidence_chains`, in the order of the findings; its users find a chain by its finding. -/
def buildEvidenceChains : List EvidenceChain := (graph.byKind .finding).map graph.evidenceChain

/-! ## The walk ends -/

variable {graph}

/-- The observations that are neither on the path nor at its end. -/
def unmet (graph : ObservationGraph) (path : List String) : List String := graph.items.keys.filter fun id => decide (id ∉ path)

/-- How many steps can follow. -/
def stepsLeft (graph : ObservationGraph) (current : String) (path : List String) : Nat :=
  if (graph.items.get? current).isNone then 0
  else 2 * (graph.unmet (path ++ [current])).length + (if current ∈ path then 1 else 2)

theorem length_unmet_lt {path : List String} {id : String} (hid : (graph.items.get? id).isNone = false) (hpath : id ∉ path) :
    (graph.unmet (path ++ [id])).length < (graph.unmet path).length := by
  have hkey : id ∈ graph.items.keys := by
    cases hget : graph.items.get? id with
    | none => rw [hget] at hid; cases hid
    | some o => exact Dict.mem_keys.mpr ⟨o, Dict.mem_entries.mpr hget⟩
  have hsub : (graph.unmet (path ++ [id])).Sublist (graph.unmet path) := by
    refine List.monotone_filter_right _ fun x hx => ?_
    simp only [List.mem_append, not_or, decide_eq_true_eq] at hx ⊢
    exact hx.1
  refine lt_of_le_of_ne hsub.length_le fun heq => ?_
  have hmem : id ∈ graph.unmet (path ++ [id]) := by
    rw [hsub.eq_of_length heq]
    exact List.mem_filter.mpr ⟨hkey, decide_eq_true hpath⟩
  simp [unmet] at hmem

/-- A parent that is not on the path leaves fewer steps. -/
theorem stepsLeft_lt {current parent : String} {path : List String} (hcurrent : (graph.items.get? current).isNone = false)
    (hpath : parent ∉ path) : graph.stepsLeft parent (path ++ [current]) < graph.stepsLeft current path := by
  unfold stepsLeft
  rw [hcurrent]
  by_cases hparent : (graph.items.get? parent).isNone = true
  · rw [if_pos hparent, if_neg Bool.false_ne_true]
    split <;> omega
  · rw [if_neg hparent, if_neg Bool.false_ne_true]
    rw [Bool.not_eq_true] at hparent
    by_cases hsame : parent = current
    · -- an observation that is its own parent
      subst hsame
      have hmem : parent ∈ path ++ [parent] := List.mem_append_right _ (List.mem_singleton.mpr rfl)
      have hunmet : graph.unmet (path ++ [parent] ++ [parent]) = graph.unmet (path ++ [parent]) := by
        unfold unmet
        refine List.filter_congr fun x _ => ?_
        simp
      rw [hunmet, if_pos hmem, if_neg hpath]
      omega
    · have hnew : parent ∉ path ++ [current] := by
        rw [List.mem_append, List.mem_singleton]
        exact fun h => h.elim hpath hsame
      have hlt := length_unmet_lt hparent hnew
      rw [if_neg hnew]
      split <;> omega

/-- With enough steps one step more changes nothing. -/
theorem visit_succ (root : String) (fuel : Nat) (found : Ancestry) (current : String) (path : List String)
    (h : graph.stepsLeft current path < fuel) :
    visit graph root (fuel + 1) found current path = visit graph root fuel found current path := by
  induction fuel generalizing found current path with
  | zero => exact absurd h (Nat.not_lt_zero _)
  | succ fuel ih =>
    rw [visit, visit.eq_2]
    cases hget : graph.items.get? current with
    | none => rfl
    | some o =>
      have hcurrent : (graph.items.get? current).isNone = false := by rw [hget]; rfl
      refine List.foldl_ext _ _ _ fun found parent _ => ?_
      by_cases hback : parent ∈ path ∨ parent = root
      · rw [if_pos hback, if_pos hback]
      · rw [if_neg hback, if_neg hback]
        have hlt := stepsLeft_lt hcurrent fun hpath => hback (Or.inl hpath)
        exact ih _ _ _ (by omega)

theorem stepsLeft_lt_pathBound (root : String) : graph.stepsLeft root [] < graph.pathBound := by
  have hle : (graph.unmet []).length ≤ graph.items.size :=
    (List.length_filter_le _ _).trans_eq graph.items.size_eq_length_keys.symm
  unfold stepsLeft pathBound
  by_cases hnone : (graph.items.get? root).isNone = true
  · rw [if_pos hnone]
    omega
  · have hlt : (graph.unmet ([] ++ [root])).length < (graph.unmet []).length :=
      length_unmet_lt (Bool.not_eq_true _ ▸ hnone) List.not_mem_nil
    rw [if_neg hnone, if_neg List.not_mem_nil]
    omega

/-- The walk ends on every graph: more steps than it is given change nothing. -/
theorem visit_of_pathBound_le (root : String) (found : Ancestry) {fuel : Nat} (h : graph.pathBound ≤ fuel) :
    visit graph root fuel found root [] = visit graph root graph.pathBound found root [] := by
  induction fuel, h using Nat.le_induction with
  | base => rfl
  | succ fuel h ih =>
    rw [← ih]
    exact visit_succ root fuel found root [] (lt_of_lt_of_le (stepsLeft_lt_pathBound root) h)

end ObservationGraph

end XbowPerso
