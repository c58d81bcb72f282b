import Mathlib.Data.Prod.Lex
import XbowPerso.AuditSeal
import XbowPerso.ObservationGraph

/-!
# The circuit breaker of a campaign

`record_circuit_open` and `record_circuit_reset` put observations, and `circuit_breaker_state` reads the breaker off the graph rebuilt
from the rows: the latest of them by time, in the order of the rows where times are equal.
-/

namespace XbowPerso

/-- What the breaker takes from the interpreter. -/
structure BreakerEnv where
  sha : Sha256
  /-- `str(value)` -/
  str : Json → String
  str_str : ∀ s, str (.str s) = s

namespace CircuitBreaker

/-! ## The rows with the time of their insertion -/

/-- A row of the table with its column `created_at`. -/
structure StampedRow where
  row : ObservationRow
  createdAt : String

/-- `ORDER BY created_at,id`. -/
def StampedRow.key (r : StampedRow) : String ×ₗ String := toLex (r.createdAt, r.row.id.text)

/-- `list_observations`, as records. -/
def listObservations (rows : List StampedRow) : List Observation :=
  (rows.insertionSort fun a b => a.key ≤ b.key).map fun r => r.row.toObservation

/-- `put_observation` at a time of the clock. What is there already keeps its `created_at`. -/
def putObservation (cfg : ObservationSettings) (rows : List StampedRow) (o : Observation) (now : String) :
    Except PyError (List StampedRow) :=
  match o.prepare cfg with
  | .error e => .error e
  | .ok row =>
    match Observations.insert (rows.map StampedRow.row) row with
    | .error e => .error e
    | .ok _ => .ok (if row.id ∈ rows.map (fun r => r.row.id) then rows else rows ++ [⟨row, now⟩])

/-! ## The state -/

def memoryType : String := "campaign_circuit_breaker"

/-- `_breaker_id`. -/
def breakerId (env : BreakerEnv) (reason : String) : String :=
  "breaker:" ++ String.ofList ((env.sha.hex (utf8 reason)).toList.take 24)

/-- What `circuit_breaker_state` returns. -/
structure BreakerState where
  isOpen : Bool
  reason : Json
  openedAt : Json
  resetAt : Json

/-- `str(item.metadata.get(key) or "")`. -/
def metadataText (env : BreakerEnv) (o : Observation) (key : String) : String :=
  if AuditSeal.truthy (o.metadataGet key) then env.str (o.metadataGet key) else ""

/-- An observation of the breaker. -/
def isEvent (o : Observation) : Bool := decide (o.kind = ObservationKind.evidence.word) && o.metadataIs "memory_type" memoryType

/-- The observations of the breaker in a graph. -/
def events (graph : ObservationGraph) : List Observation :=
  (graph.byKind .evidence).filter fun o => o.metadataIs "memory_type" memoryType

/-- `ordered`. -/
def ordered (env : BreakerEnv) (events : List Observation) : List Observation :=
  events.insertionSort fun a b => metadataText env a "at" ≤ metadataText env b "at"

/-- `circuit_breaker_state`. -/
def circuitBreakerState (env : BreakerEnv) (graph : ObservationGraph) : BreakerState :=
  match (ordered env (events graph)).getLast? with
  | none => ⟨false, .null, .null, .null⟩
  | some latest =>
    let state := metadataText env latest "state"
    ⟨decide (state = "open"), if state = "open" then latest.metadataGet "reason" else .null,
      if state = "open" then latest.metadataGet "at" else .null, if state = "reset" then latest.metadataGet "at" else .null⟩

/-! ## Opening and resetting -/

def openObservation (env : BreakerEnv) (reason time : String) : Observation where
  id := breakerId env ("open:" ++ reason ++ ":" ++ time)
  kind := "evidence"
  value := "open"
  source := "orchestrator"
  parentIds := []
  metadata := [("memory_type", .str memoryType), ("state", .str "open"), ("reason", .str reason), ("at", .str time),
    ("operator_reset_required", .bool true)]

def resetObservation (env : BreakerEnv) (openedAt : Json) (time : String) : Observation where
  id := breakerId env ("reset:" ++ env.str openedAt ++ ":" ++ time)
  kind := "evidence"
  value := "reset"
  source := "operator"
  parentIds := []
  metadata := [("memory_type", .str memoryType), ("state", .str "reset"), ("at", .str time), ("operator_reset", .bool true)]

/-- `circuit_breaker_state(ObservationGraph.from_records(store.list_observations(campaign_id)))`. -/
def currentState (env : BreakerEnv) (rows : List StampedRow) : Except PyError BreakerState :=
  match ObservationGraph.fromRecords (listObservations rows) with
  | .error e => .error e
  | .ok graph => .ok (circuitBreakerState env graph)

/-- `record_circuit_open`: the rows, and what is returned. -/
def recordCircuitOpen (env : BreakerEnv) (cfg : ObservationSettings) (rows : List StampedRow) (reason time now : String) :
    Except PyError (List StampedRow × BreakerState) :=
  match currentState env rows with
  | .error e => .error e
  | .ok current =>
    if current.isOpen then .ok (rows, current)
    else
      match putObservation cfg rows (openObservation env reason time) now with
      | .error e => .error e
      | .ok rows => .ok (rows, ⟨true, .str reason, .str time, .null⟩)

/-- `record_circuit_reset`. -/
def recordCircuitReset (env : BreakerEnv) (cfg : ObservationSettings) (rows : List StampedRow) (time now : String) :
    Except PyError (List StampedRow × BreakerState) :=
  match currentState env rows with
  | .error e => .error e
  | .ok current =>
    if current.isOpen = false then .ok (rows, current)
    else
      match putObservation cfg rows (resetObservation env current.openedAt time) now with
      | .error e => .error e
      | .ok rows => .ok (rows, ⟨false, .null, .null, .str time⟩)

/-- What is done to the rows of a campaign: the breaker is opened or reset at a recorded time, or another component records an
observation of its own. `now` is the time of the clock at the insertion. -/
inductive Operation where
  | open (reason time now : String)
  | reset (time now : String)
  | record (o : Observation) (now : String) (other : isEvent o = false)

def step (env : BreakerEnv) (cfg : ObservationSettings) (rows : List StampedRow) : Operation → Except PyError (List StampedRow)
  | .open reason time now => (recordCircuitOpen env cfg rows reason time now).map Prod.fst
  | .reset time now => (recordCircuitReset env cfg rows time now).map Prod.fst
  | .record o now _ => putObservation cfg rows o now

/-- The operations one after another, each of which succeeds. -/
def run (env : BreakerEnv) (cfg : ObservationSettings) : List StampedRow → List Operation → Except PyError (List StampedRow)
  | rows, [] => .ok rows
  | rows, op :: ops =>
    match step env cfg rows op with
    | .error e => .error e
    | .ok rows => run env cfg rows ops

/-- The recorded time of an operation on the breaker. -/
def Operation.time? : Operation → Option String
  | .open _ time _ => some time
  | .reset time _ => some time
  | .record _ _ _ => none

/-- Whether an operation on the breaker is an open. -/
def Operation.opens? : Operation → Option Bool
  | .open _ _ _ => some true
  | .reset _ _ => some false
  | .record _ _ _ => none

end CircuitBreaker

end XbowPerso
