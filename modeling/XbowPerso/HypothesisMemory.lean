import XbowPerso.ManifestAdmission
import XbowPerso.Planner

/-!
# Hypotheses over the observation graph, and their snapshots

`build_hypotheses` sums up the recorded findings of a graph, each `advance_campaign` stores the result under the fingerprint of what
it was read from, and `summarize_hypothesis_stability` classifies the findings by the snapshots that were stored. Confidences and
scores have at most two decimals and are given in hundredths.
-/

namespace XbowPerso

namespace HypothesisMemory

/-! ## Hypotheses -/

inductive Status where
  | unvalidated
  | partiallySupported
  | supported
  deriving DecidableEq

def Status.word : Status → String
  | .unvalidated => "unvalidated"
  | .partiallySupported => "partially_supported"
  | .supported => "supported"

/-- `Hypothesis` -/
structure Hypothesis where
  id : String
  findingId : String
  statement : String
  confidence : Nat
  status : Status
  graphFingerprint : String
  evidenceIds : List String

/-- The set with the observations that have a parent in it, in order: one that was added counts for the next. -/
def addLinked (relevant : List String) : List Observation → List String
  | [] => relevant
  | o :: os => if o.parentIds.any (fun p => decide (p ∈ relevant)) = true then addLinked (o.id :: relevant) os else addLinked relevant os

/-- `relevant_ids` -/
def relevantIds (graph : ObservationGraph) : List String :=
  addLinked (addLinked ((graph.byKind .finding).map (·.id)) (graph.byKind .validation)) (graph.byKind .evidence)

/-- The relevant observations, by their identifiers. -/
def relevant (graph : ObservationGraph) : List Observation :=
  (graph.values.insertionSort fun a b => a.id ≤ b.id).filter fun o => decide (o.id ∈ relevantIds graph)

def record (o : Observation) : Json :=
  .obj [("id", .str o.id), ("kind", .str o.kind), ("value", .str o.value), ("source", .str o.source),
    ("parent_ids", .arr (o.parentIds.map .str)), ("metadata", .obj o.metadata)]

/-- The text that is hashed. -/
def fingerprintText (graph : ObservationGraph) : String := (Json.arr ((relevant graph).map record)).dumpsSorted

variable (sha : Sha256)

/-- `hexdigest()[:20]` -/
def digest (text : String) : String := String.ofList ((sha.hex (utf8 text)).toList.take 20)

/-- `hypothesis_graph_fingerprint` -/
def hypothesisGraphFingerprint (graph : ObservationGraph) : String := digest sha (fingerprintText graph)

def linkedValidations (graph : ObservationGraph) (finding : Observation) : List Observation :=
  (graph.byKind .validation).filter fun v => decide (finding.id ∈ v.parentIds) && decide (v.source ≠ finding.source)

def linkedEvidence (graph : ObservationGraph) (finding : Observation) : List Observation :=
  (graph.byKind .evidence).filter fun e =>
    e.parentIds.any fun p => decide (p ∈ (linkedValidations graph finding).map (·.id))

def isObserved (graph : ObservationGraph) (finding : Observation) : Bool :=
  (linkedValidations graph finding).any fun v => decide (v.value = "observed")

def confidence (graph : ObservationGraph) (finding : Observation) : Nat :=
  min 95 (35 + (if isObserved graph finding then 40 else 0) + (if linkedEvidence graph finding ≠ [] then 20 else 0))

def status (graph : ObservationGraph) (finding : Observation) : Status :=
  if isObserved graph finding = true ∧ linkedEvidence graph finding ≠ [] then .supported
  else if linkedValidations graph finding ≠ [] then .partiallySupported
  else .unvalidated

def hypothesis (graph : ObservationGraph) (finding : Observation) : Hypothesis where
  id := "hypothesis:" ++ finding.id
  findingId := AdaptivePlanner.campaignFindingId finding
  statement := "Recorded finding " ++ finding.value ++ " requires independent evidence correlation."
  confidence := confidence graph finding
  status := status graph finding
  graphFingerprint := hypothesisGraphFingerprint sha graph
  evidenceIds := ((linkedEvidence graph finding).map (·.id)).insertionSort (· ≤ ·)

/-- The order of the key `(-confidence, id)`. -/
def Sooner (a b : Hypothesis) : Prop := b.confidence < a.confidence ∨ b.confidence = a.confidence ∧ a.id ≤ b.id

instance : DecidableRel Sooner := fun _ _ => inferInstanceAs (Decidable (_ ∨ _ ∧ _))

/-- `build_hypotheses` -/
def buildHypotheses (graph : ObservationGraph) : List Hypothesis :=
  ((graph.byKind .finding).map (hypothesis sha graph)).insertionSort Sooner

/-! ## Snapshots -/

def twoDigits (c : Nat) : List (Fin 10) := [⟨c / 10 % 10, Nat.mod_lt _ (Nat.succ_pos 9)⟩, ⟨c % 10, Nat.mod_lt _ (Nat.succ_pos 9)⟩]

theorem twoDigits_float (c : Nat) : twoDigits c ≠ [] ∨ (none : Option (Bool × List (Fin 10))).isSome = true :=
  .inl (List.cons_ne_nil _ _)

theorem twoDigits_exponent (e : Bool × List (Fin 10)) (h : none = some e) : e.2 ≠ [] := by
  cases h

/-- A confidence below one, for a last digit other than zero. -/
def hundredths (c : Nat) : Json := .float ⟨false, 0, twoDigits c, none, twoDigits_float c, twoDigits_exponent⟩

/-- `to_dict` -/
def Hypothesis.toDict (h : Hypothesis) : Json :=
  .obj [("id", .str h.id), ("finding_id", .str h.findingId), ("statement", .str h.statement),
    ("confidence", hundredths h.confidence), ("status", .str h.status.word), ("graph_fingerprint", .str h.graphFingerprint),
    ("evidence_ids", .arr (h.evidenceIds.map .str))]

/-- The document of a snapshot. -/
def encodeSnapshot (fingerprint : String) (hypotheses : List Hypothesis) : String :=
  (Json.obj [("graph_fingerprint", .str fingerprint), ("hypotheses", .arr (hypotheses.map Hypothesis.toDict))]).dumpsSorted

/-- A row of `hypothesis_snapshots`, with the hypotheses that its document holds. -/
structure SnapshotRow where
  fingerprint : String
  hypotheses : List Hypothesis
  createdAt : Nat

def SnapshotRow.document (row : SnapshotRow) : String := encodeSnapshot row.fingerprint row.hypotheses

/-- The campaign, and `_max_campaign_document_bytes`. -/
structure SnapshotSettings where
  campaignId : String
  maxBytes : Nat

/-- `put_hypothesis_snapshot`; the campaign has a row or not. -/
def putHypothesisSnapshot (settings : SnapshotSettings) (known : Bool) (rows : List SnapshotRow) (fingerprint : String)
    (hypotheses : List Hypothesis) (now : Nat) : Except PyError (List SnapshotRow) :=
  if settings.maxBytes < (encodeSnapshot fingerprint hypotheses).utf8ByteSize then
    .error (.valueError "hypothesis snapshot exceeds size limit")
  else if known = false then .error (.keyError settings.campaignId)
  else
    match rows.find? fun row => decide (row.fingerprint = fingerprint) with
    | some row =>
      if row.document = encodeSnapshot fingerprint hypotheses then .ok rows
      else .error (.valueError "graph fingerprint reused with different hypothesis snapshot")
    | none => .ok (rows ++ [⟨fingerprint, hypotheses, now⟩])

/-- `list_hypothesis_snapshots`: the newest first. -/
def listHypothesisSnapshots (rows : List SnapshotRow) (limit : Nat) : List SnapshotRow :=
  (rows.insertionSort fun a b => b.createdAt ≤ a.createdAt).take limit

/-! ## Stability -/

/-- An entry of the timeline of a finding. -/
structure Moment where
  status : Status
  confidence : Nat
  createdAt : Nat

/-- `timeline` -/
def timeline (ordered : List SnapshotRow) (findingId : String) : List Moment :=
  ordered.filterMap fun row =>
    (row.hypotheses.find? fun h => decide (h.findingId = findingId)).map fun h => ⟨h.status, h.confidence, row.createdAt⟩

/-- `stable_streak` -/
def stableStreak (latest : Moment) (moments : List Moment) : Nat :=
  1 + (moments.dropLast.reverse.takeWhile fun m => decide (m.status = latest.status) && decide (m.confidence = latest.confidence)).length

/-- `status_transitions` -/
def statusTransitions : List Moment → Nat
  | a :: b :: moments => (if a.status ≠ b.status then 1 else 0) + statusTransitions (b :: moments)
  | _ => 0

/-- The sign of a change of confidence. -/
def direction (a b : Moment) : Int := if a.confidence < b.confidence then 1 else if b.confidence < a.confidence then -1 else 0

/-- `confidence_reversals`, after a direction. -/
def confidenceReversals (previous : Int) : List Moment → Nat
  | a :: b :: moments =>
    if direction a b = 0 then confidenceReversals previous (b :: moments)
    else (if previous ≠ 0 ∧ direction a b ≠ previous then 1 else 0) + confidenceReversals (direction a b) (b :: moments)
  | _ => 0

inductive Stability where
  | contradictory
  | stable
  | fresh
  | evolving
  deriving DecidableEq

/-- An item of `summarize_hypothesis_stability`. -/
structure Summary where
  findingId : String
  stability : Stability
  stabilityScore : Int
  observedSnapshots : Nat
  stableStreak : Nat
  statusTransitions : Nat
  confidenceReversals : Nat
  latest : Moment
  firstSeenAt : Nat

def stabilityOf (moments : List Moment) (streak : Nat) : Stability :=
  if 0 < confidenceReversals 0 moments ∨ 2 ≤ statusTransitions moments then .contradictory
  else if 3 ≤ streak then .stable
  else if moments.length = 1 then .fresh
  else .evolving

/-- The score in hundredths. -/
def scoreOf (moments : List Moment) (streak : Nat) : Int :=
  max 0 (min 100 (40 + min 35 ((streak - 1 : Nat) * 15 : Int) + min 20 ((moments.length - 1 : Nat) * 5 : Int) -
    min 50 (confidenceReversals 0 moments * 25 + (statusTransitions moments - 1 : Nat) * 15 : Int)))

/-- The item of a finding, when it has a timeline. -/
def summarizeFinding (ordered : List SnapshotRow) (findingId : String) : Option Summary :=
  match timeline ordered findingId with
  | [] => none
  | first :: rest =>
    let moments := first :: rest
    let latest := moments.getLast (List.cons_ne_nil _ _)
    let streak := HypothesisMemory.stableStreak latest moments
    some ⟨findingId, stabilityOf moments streak, scoreOf moments streak, moments.length, streak, statusTransitions moments,
      confidenceReversals 0 moments, latest, first.createdAt⟩

/-- The order of the key `(contradictory, -stability_score, finding_id)`. -/
def Steadier (a b : Summary) : Prop :=
  (a.stability ≠ .contradictory ∧ b.stability = .contradictory) ∨
    (decide (a.stability = .contradictory) = decide (b.stability = .contradictory) ∧
      (b.stabilityScore < a.stabilityScore ∨ b.stabilityScore = a.stabilityScore ∧ a.findingId ≤ b.findingId))

instance : DecidableRel Steadier := fun _ _ => inferInstanceAs (Decidable (_ ∨ _))

/-- `summarize_hypothesis_stability`, of snapshots with the newest first. -/
def summarizeHypothesisStability (snapshots : List SnapshotRow) : List Summary :=
  let ordered := snapshots.reverse
  let findingIds := ((ordered.flatMap fun row => row.hypotheses.map (·.findingId)).dedup).insertionSort (· ≤ ·)
  (findingIds.filterMap (summarizeFinding ordered)).insertionSort Steadier

/-! ## A history -/

/-- A run of `advance_campaign`: the graph that `_result` loads again, when it stores the hypotheses, and whether the campaign has a
row. The metadata of an observation are a dictionary. -/
structure Turn where
  graph : ObservationGraph
  now : Nat
  known : Bool
  distinct : ∀ o ∈ graph.values, (Json.obj o.metadata).Distinct

/-- The end of `_result`: the snapshot is stored when there are hypotheses. -/
def store (settings : SnapshotSettings) (rows : List SnapshotRow) (t : Turn) : Except PyError (List SnapshotRow) :=
  match buildHypotheses sha t.graph with
  | [] => .ok rows
  | first :: rest => putHypothesisSnapshot settings t.known rows first.graphFingerprint (first :: rest) t.now

/-- The rows after a run; a run that raises leaves them. -/
def rowsAfter (settings : SnapshotSettings) (rows : List SnapshotRow) (t : Turn) : List SnapshotRow :=
  match store sha settings rows t with
  | .ok rows => rows
  | .error _ => rows

/-- The rows after a history. -/
def rowsOf (settings : SnapshotSettings) (history : List Turn) : List SnapshotRow := history.foldl (rowsAfter sha settings) []

end HypothesisMemory

end XbowPerso
