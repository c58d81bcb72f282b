import XbowPerso.Lib.Dict
import XbowPerso.Observation

/-!
# The observation graph and the state of validation

`ObservationGraph.add` takes an observation whose parents are there, `from_records` rebuilds a graph in passes over what is pending,
and `analyze_validation_state` reads off which findings an independent validation with evidence backs.
-/

namespace XbowPerso

/-- A graph: `_items`, each observation under its identifier. -/
structure ObservationGraph where
  items : Dict String Observation
  keyed : ∀ e ∈ items.entries, e.1 = e.2.id

namespace Observation

/-- `==` of two observations. -/
def pyEq (a b : Observation) : Bool :=
  decide (a.id = b.id) && decide (a.kind = b.kind) && decide (a.value = b.value) && decide (a.source = b.source) &&
    decide (a.parentIds = b.parentIds) && Json.pyEq (.obj a.metadata) (.obj b.metadata)

/-- `metadata.get(key)`. -/
def metadataGet (o : Observation) (key : String) : Json :=
  match o.metadata.find? fun field => decide (field.1 = key) with
  | some (_, value) => value
  | none => .null

/-- `metadata.get(key) == text`. -/
def metadataIs (o : Observation) (key text : String) : Bool :=
  match o.metadata.find? fun field => decide (field.1 = key) with
  | some (_, .str s) => decide (s = text)
  | _ => false

end Observation

/-- A record as `from_records` reads it. -/
def ObservationRow.toObservation (r : ObservationRow) : Observation :=
  ⟨r.id.text, r.kind.word, r.value, r.source, r.parentIds.map Ident.text, r.metadata⟩

namespace ObservationGraph

def empty : ObservationGraph := ⟨.empty, fun _ h => absurd h List.not_mem_nil⟩

/-- `values`. -/
def values (graph : ObservationGraph) : List Observation := graph.items.values

theorem keyed_set (graph : ObservationGraph) (o : Observation) : ∀ e ∈ (graph.items.set o.id o).entries, e.1 = e.2.id := by
  rintro ⟨k, v⟩ he
  have hget := Dict.mem_entries.mp he
  rw [Dict.get?_set] at hget
  by_cases hk : k = o.id
  · rw [if_pos hk] at hget
    rw [hk, ← Option.some.inj hget]
  · rw [if_neg hk] at hget
    exact graph.keyed _ (Dict.mem_entries.mpr hget)

/-- `self._items[observation.id] = observation`. -/
def put (graph : ObservationGraph) (o : Observation) : ObservationGraph := ⟨graph.items.set o.id o, graph.keyed_set o⟩

/-- The parents of an observation that are not there. -/
def missing (graph : ObservationGraph) (o : Observation) : List String := o.parentIds.filter fun p => (graph.items.get? p).isNone

/-- `add`. -/
def add (graph : ObservationGraph) (o : Observation) : Except PyError ObservationGraph :=
  if graph.missing o ≠ [] then .error (.valueError ("unknown parent observation(s): " ++ ", ".intercalate (graph.missing o)))
  else
    match graph.items.get? o.id with
    | some existing =>
      if existing.pyEq o then .ok (graph.put o)
      else .error (.valueError ("observation id already exists with different content: " ++ o.id))
    | none => .ok (graph.put o)

/-- A pass over the pending observations: the graph, and what is pending still. -/
def pass : ObservationGraph → List Observation → Except PyError (ObservationGraph × List Observation)
  | graph, [] => .ok (graph, [])
  | graph, o :: pending =>
    if graph.missing o = [] then
      match add graph o with
      | .error e => .error e
      | .ok graph => pass graph pending
    else
      match pass graph pending with
      | .error e => .error e
      | .ok (graph, remaining) => .ok (graph, o :: remaining)

/-- Passes until nothing is pending. A pass that makes no progress raises, so there are no more passes than observations. -/
def passes : Nat → ObservationGraph → List Observation → Except PyError ObservationGraph
  | _, graph, [] => .ok graph
  | 0, _, _ => .error (.valueError "observation records contain missing or cyclic parents")
  | rounds + 1, graph, pending =>
    match pass graph pending with
    | .error e => .error e
    | .ok (graph, remaining) =>
      if remaining.length = pending.length then .error (.valueError "observation records contain missing or cyclic parents")
      else passes rounds graph remaining

/-- `from_records`. -/
def fromRecords (records : List Observation) : Except PyError ObservationGraph := passes records.length empty records

/-- `by_kind`. -/
def byKind (graph : ObservationGraph) (kind : ObservationKind) : List Observation := graph.values.filter fun o => o.kind = kind.word

/-! ## The state of validation -/

/-- `ValidationState`. -/
structure ValidationState where
  findingIds : List String
  attemptedFindingIds : List String
  observedIndependentFindingIds : List String
  evidenceBackedIndependentFindingIds : List String

namespace ValidationState

variable (state : ValidationState)

def unresolvedFindingIds : List String := state.findingIds.filter fun id => decide (id ∉ state.observedIndependentFindingIds)

def unattemptedFindingIds : List String := state.unresolvedFindingIds.filter fun id => decide (id ∉ state.attemptedFindingIds)

def unevidencedFindingIds : List String :=
  state.observedIndependentFindingIds.filter fun id => decide (id ∉ state.evidenceBackedIndependentFindingIds)

def allEvidenceBackedIndependently : Bool :=
  decide (state.findingIds ≠ []) &&
    (state.findingIds.all (fun id => decide (id ∈ state.evidenceBackedIndependentFindingIds)) &&
      state.evidenceBackedIndependentFindingIds.all fun id => decide (id ∈ state.findingIds))

end ValidationState

/-- `finding_by_id.get`. -/
def findingById? (graph : ObservationGraph) (id : String) : Option Observation := (graph.byKind .finding).find? fun o => o.id = id

/-- `evidence_parent_ids`. -/
def evidenceParentIds (graph : ObservationGraph) : List String := (graph.byKind .evidence).flatMap Observation.parentIds

/-- A validation attempts each finding among its parents. -/
def attempts (graph : ObservationGraph) (_validation : Observation) (parent : String) : Bool := (graph.findingById? parent).isSome

/-- A validation that speaks for a finding: it observed the finding, and comes from another source. -/
def observesIndependently (graph : ObservationGraph) (validation : Observation) (parent : String) : Bool :=
  match graph.findingById? parent with
  | none => false
  | some finding => decide (validation.value = "observed") && decide (validation.source ≠ finding.source)

/-- Evidence is attached to a validation that speaks for a finding. -/
def backsIndependently (graph : ObservationGraph) (validation : Observation) (parent : String) : Bool :=
  graph.observesIndependently validation parent && decide (validation.id ∈ graph.evidenceParentIds)

/-- The parents of validations that a test picks. -/
def validated (graph : ObservationGraph) (test : Observation → String → Bool) : List String :=
  (graph.byKind .validation).flatMap fun validation => validation.parentIds.filter (test validation)

/-- `analyze_validation_state`. -/
def analyzeValidationState (graph : ObservationGraph) : ValidationState where
  findingIds := (graph.byKind .finding).map Observation.id
  attemptedFindingIds := graph.validated graph.attempts
  observedIndependentFindingIds := graph.validated graph.observesIndependently
  evidenceBackedIndependentFindingIds := graph.validated graph.backsIndependently

/-! ## What the graph then holds -/

/-- A validation by another source than the discoverer observed the finding, with evidence attached to it. -/
def Evidenced (graph : ObservationGraph) (finding : Observation) : Prop :=
  ∃ validation ∈ graph.byKind .validation, ∃ evidence ∈ graph.byKind .evidence,
    validation.value = "observed" ∧ finding.id ∈ validation.parentIds ∧ validation.source ≠ finding.source ∧
      validation.id ∈ evidence.parentIds

theorem mem_values {graph : ObservationGraph} {o : Observation} : o ∈ graph.values ↔ graph.items.get? o.id = some o := by
  rw [← Dict.mem_entries]
  constructor
  · intro h
    obtain ⟨⟨k, v⟩, he, rfl⟩ := List.mem_map.mp h
    have hkey : k = v.id := graph.keyed _ he
    rwa [← hkey]
  · intro h
    exact List.mem_map.mpr ⟨_, h, rfl⟩

/-- An identifier finds its finding. -/
theorem findingById?_of_mem {graph : ObservationGraph} {o : Observation} (h : o ∈ graph.byKind .finding) :
    graph.findingById? o.id = some o := by
  cases hf : graph.findingById? o.id with
  | none =>
    have hne := List.find?_eq_none.mp hf o h
    simp at hne
  | some o' =>
    have hid : o'.id = o.id := by simpa using List.find?_some hf
    have hmem := (List.mem_filter.mp (List.mem_of_find?_eq_some hf)).1
    have hget := mem_values.mp hmem
    rw [hid, mem_values.mp (List.mem_filter.mp h).1] at hget
    exact hget.symm

/-- A finding that the state counts as backed is evidenced. -/
theorem evidenced_of_backed {graph : ObservationGraph} {o : Observation} (h : o ∈ graph.byKind .finding)
    (hback : o.id ∈ graph.analyzeValidationState.evidenceBackedIndependentFindingIds) : graph.Evidenced o := by
  obtain ⟨validation, hv, hfilter⟩ := List.mem_flatMap.mp hback
  obtain ⟨hparent, htest⟩ := List.mem_filter.mp hfilter
  obtain ⟨hobserves, hattached⟩ := Bool.and_eq_true_iff.mp htest
  unfold observesIndependently at hobserves
  rw [findingById?_of_mem h] at hobserves
  obtain ⟨hvalue, hsource⟩ := Bool.and_eq_true_iff.mp hobserves
  obtain ⟨evidence, he, hep⟩ := List.mem_flatMap.mp (of_decide_eq_true hattached)
  exact ⟨validation, hv, evidence, he, of_decide_eq_true hvalue, hparent, of_decide_eq_true hsource, hep⟩

end ObservationGraph

end XbowPerso
