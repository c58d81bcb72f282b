import XbowPerso.Identifier
import XbowPerso.Lib.PyDateTime

/-!
# The lease of the incident observer and the fenced incident store

The one row of `incident_observer_lease` and the one row of `operational_incidents`, in one database. Each call is one transaction.
The expiry of a lease is kept as the text that `isoformat` writes, which reading gives back as the same time.
-/

namespace XbowPerso

namespace ObserverLease

/-- The row of the lease. -/
structure Lease where
  owner : Option String
  expiresAt : Option PyDateTime
  generation : Int
  deriving DecidableEq

/-- The database: the lease, and the document of the incidents with its version. -/
structure State where
  lease : Lease
  document : String
  version : Int
  deriving DecidableEq

/-- The database after `_init` of both. -/
def State.init : State := ⟨⟨none, none, 0⟩, "[]", 1⟩

/-- What a call returns: a generation or nothing, whether a row was changed, or a version. -/
inductive Answer where
  | generation (g : Option Int)
  | changed (b : Bool)
  | version (v : Int)
  deriving DecidableEq

/-- The lease is held past a time. -/
def Lease.activeAt (lease : Lease) (current : PyDateTime) : Bool :=
  match lease.expiresAt with
  | none => false
  | some expires => decide (current.microseconds < expires.microseconds)

/-- `acquire`. -/
def acquire (s : State) (owner : String) (ttlSeconds : Int) (now : PyDateTime) : State × Except PyError Answer :=
  if owner = "" ∨ 128 < owner.length then (s, .error (.valueError "owner must contain 1..128 characters"))
  else if ttlSeconds < 10 ∨ 3600 < ttlSeconds then (s, .error (.valueError "ttl_seconds must be between 10 and 3600"))
  else
    match now.addSeconds ttlSeconds with
    | none => (s, .error (.overflowError "date value out of range"))
    | some expires =>
      if s.lease.owner ≠ none ∧ s.lease.owner ≠ some owner ∧ s.lease.activeAt now = true then (s, .ok (.generation none))
      else
        let generation := s.lease.generation + if s.lease.owner = some owner then 0 else 1
        ({ s with lease := ⟨some owner, some expires, generation⟩ }, .ok (.generation (some generation)))

/-- `heartbeat`. The expiry is compared as a text. -/
def heartbeat (s : State) (owner : String) (generation ttlSeconds : Int) (now : PyDateTime) : State × Except PyError Answer :=
  match now.addSeconds ttlSeconds with
  | none => (s, .error (.overflowError "date value out of range"))
  | some expires =>
    if s.lease.owner = some owner ∧ s.lease.generation = generation ∧
        (s.lease.expiresAt.any fun t => decide (now.isoformat < t.isoformat)) = true then
      ({ s with lease := { s.lease with expiresAt := some expires } }, .ok (.changed true))
    else (s, .ok (.changed false))

/-- `is_current`. -/
def isCurrent (lease : Lease) (owner : String) (generation : Int) (now : PyDateTime) : Bool :=
  decide (lease.owner = some owner) && decide (lease.generation = generation) && lease.activeAt now

/-- `release`. -/
def release (s : State) (owner : String) (generation : Option Int) : State × Except PyError Answer :=
  if s.lease.owner = some owner ∧ (generation = none ∨ generation = some s.lease.generation) then
    ({ s with lease := { s.lease with owner := none, expiresAt := none } }, .ok (.changed true))
  else (s, .ok (.changed false))

/-- The update of `IncidentStore.write`, after the fence. -/
def update (s : State) (document : String) (expectedVersion : Int) : State × Except PyError Answer :=
  if s.version = expectedVersion then ({ s with document := document, version := s.version + 1 }, .ok (.version (s.version + 1)))
  else (s, .error (.runtimeError "incident history changed concurrently"))

/-- `IncidentStore.write`, given the encoded history. -/
def write (s : State) (document : String) (expectedVersion : Int) (fenceOwner : Option String) (fenceGeneration : Option Int)
    (now : PyDateTime) : State × Except PyError Answer :=
  if 2 * 1024 * 1024 < document.utf8ByteSize then (s, .error (.valueError "incident history document exceeds 2 MiB"))
  else
    match fenceOwner, fenceGeneration with
    | none, none => update s document expectedVersion
    | some owner, some generation =>
      if owner = "" then (s, .error (.runtimeError "incomplete incident observer fence"))
      else if s.lease.owner ≠ some owner ∨ s.lease.generation ≠ generation ∨ s.lease.activeAt now = false then
        (s, .error (.runtimeError "incident observer leadership fence is stale"))
      else update s document expectedVersion
    | _, _ => (s, .error (.runtimeError "incomplete incident observer fence"))

/-- A call of an observer. -/
inductive Call where
  | acquire (owner : String) (ttlSeconds : Int) (now : PyDateTime)
  | heartbeat (owner : String) (generation ttlSeconds : Int) (now : PyDateTime)
  | release (owner : String) (generation : Option Int)
  | write (document : String) (expectedVersion : Int) (fenceOwner : Option String) (fenceGeneration : Option Int) (now : PyDateTime)

/-- A call, as a transaction. -/
def call (s : State) : Call → State × Except PyError Answer
  | .acquire owner ttlSeconds now => acquire s owner ttlSeconds now
  | .heartbeat owner generation ttlSeconds now => heartbeat s owner generation ttlSeconds now
  | .release owner generation => release s owner generation
  | .write document expectedVersion fenceOwner fenceGeneration now => write s document expectedVersion fenceOwner fenceGeneration now

/-- The state after some calls. -/
def run (s : State) (calls : List Call) : State := calls.foldl (fun s c => (call s c).1) s

end ObserverLease

end XbowPerso
