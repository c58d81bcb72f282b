import Mathlib.Data.List.Basic

/-!
# Incidents of the operational domains

`domain_incident_lifecycle`: each snapshot opens, refreshes or resolves one incident for each domain, in a history that the domains share
and that keeps its last thousand records.
-/

namespace XbowPerso

namespace DomainIncidents

/-- `DOMAINS` -/
inductive Domain where
  | workload | controlPlane | observability
  deriving Repr, DecidableEq

def Domain.all : List Domain := [.workload, .controlPlane, .observability]

/-- `MAX_HISTORY` -/
def maxHistory : Nat := 1000

/-- What the lifecycle reads of an incident of a snapshot. -/
structure Incident where
  fingerprint : String
  dedupeKey : String
  severity : String
  deriving Repr, DecidableEq

/-- A snapshot with the time at which it is applied, as `_now` writes it. -/
structure Snapshot where
  timestamp : String
  incidents : Domain → Option Incident

inductive Status where
  | opened | resolved
  deriving Repr, DecidableEq

structure Record where
  domain : Domain
  fingerprint : String
  dedupeKey : String
  severity : String
  status : Status
  openedAt : String
  lastSeenAt : String
  acknowledgedAt : Option String
  resolvedAt : Option String
  deriving Repr, DecidableEq

namespace Record

/-- An incident of the domain that is not resolved. -/
def unresolved (domain : Domain) (r : Record) : Bool :=
  r.domain = domain && r.status ≠ .resolved

def resolve (timestamp : String) (r : Record) : Record :=
  { r with status := .resolved, resolvedAt := some timestamp }

def refresh (severity timestamp : String) (r : Record) : Record :=
  { r with severity := severity, lastSeenAt := timestamp }

def ofIncident (domain : Domain) (incident : Incident) (timestamp : String) : Record :=
  { domain := domain, fingerprint := incident.fingerprint, dedupeKey := incident.dedupeKey, severity := incident.severity,
    status := .opened, openedAt := timestamp, lastSeenAt := timestamp, acknowledgedAt := none, resolvedAt := none }

end Record

/-- `history[-MAX_HISTORY:]` -/
def keepLast (history : List Record) : List Record :=
  history.drop (history.length - maxHistory)

/-- The last unresolved incident of the domain. -/
def lastActive (items : List Record) (domain : Domain) : Option Record :=
  items.reverse.find? (Record.unresolved domain)

def updateFirst (p : Record → Bool) (f : Record → Record) : List Record → List Record
  | [] => []
  | r :: items => if p r then f r :: items else r :: updateFirst p f items

/-- The assignments to the fields of the record that `lastActive` finds. -/
def updateActive (domain : Domain) (f : Record → Record) (items : List Record) : List Record :=
  (updateFirst (Record.unresolved domain) f items.reverse).reverse

/-- One round of the loop of `apply_domain_incidents`. -/
def applyDomain (snapshot : Snapshot) (items : List Record) (domain : Domain) : List Record :=
  match snapshot.incidents domain with
  | none => updateActive domain (Record.resolve snapshot.timestamp) items
  | some incident =>
    match lastActive items domain with
    | some active =>
      if active.fingerprint = incident.fingerprint then
        updateActive domain (Record.refresh incident.severity snapshot.timestamp) items
      else
        updateActive domain (Record.resolve snapshot.timestamp) items ++ [Record.ofIncident domain incident snapshot.timestamp]
    | none => items ++ [Record.ofIncident domain incident snapshot.timestamp]

/-- `apply_domain_incidents` -/
def applyDomainIncidents (history : List Record) (snapshot : Snapshot) : List Record :=
  keepLast (Domain.all.foldl (applyDomain snapshot) (keepLast history))

/-- `active_incidents_by_domain` -/
def activeIncidentsByDomain (history : List Record) (domain : Domain) : Option Record :=
  lastActive (keepLast history) domain

/-- The history after the snapshots, from the empty one. -/
def historyOf (run : List Snapshot) : List Record :=
  run.foldl applyDomainIncidents []

/-! ## What the lifecycle is for -/

/-- The incident of the last snapshot. -/
def current (domain : Domain) (run : List Snapshot) : Option Incident :=
  run.getLast?.bind fun s => s.incidents domain

/-- The snapshot has an incident of the domain with the fingerprint. -/
def Snapshot.carries (domain : Domain) (fingerprint : String) (s : Snapshot) : Bool :=
  (s.incidents domain).any fun incident => incident.fingerprint = fingerprint

/-- The time of the first snapshot of the streak of the fingerprint with which the run ends. -/
def streakStart (domain : Domain) (fingerprint : String) (run : List Snapshot) : Option String :=
  (run.reverse.takeWhile (Snapshot.carries domain fingerprint)).getLast?.map Snapshot.timestamp

/-- The history says about the domain what the snapshots say. -/
structure Tracks (domain : Domain) (run : List Snapshot) (history : List Record) : Prop where
  present : (activeIncidentsByDomain history domain).isSome = (current domain run).isSome
  carries : ∀ active incident, activeIncidentsByDomain history domain = some active → current domain run = some incident →
    active.fingerprint = incident.fingerprint ∧ active.severity = incident.severity ∧
      streakStart domain incident.fingerprint run = some active.openedAt
  single : (history.filter (Record.unresolved domain)).length ≤ 1

/-- The records that a snapshot adds to the history. -/
def opens (snapshot : Snapshot) (history : List Record) (domain : Domain) : Option Record :=
  (snapshot.incidents domain).bind fun incident =>
    if (lastActive history domain).any fun active => active.fingerprint = incident.fingerprint then none
    else some (Record.ofIncident domain incident snapshot.timestamp)

/-- The records that a snapshot pushes out of the history. -/
def pushedOut (snapshot : Snapshot) (history : List Record) : List Record :=
  history.take (history.length + (Domain.all.filterMap (opens snapshot history)).length - maxHistory)

/-- No record that is pushed out is an unresolved incident that the snapshot continues. -/
def KeepsActive (history : List Record) (snapshot : Snapshot) : Prop :=
  ∀ r ∈ pushedOut snapshot history, r.status = .resolved ∨ snapshot.carries r.domain r.fingerprint = false

end DomainIncidents

end XbowPerso
