import XbowPerso.CircuitBreaker
import XbowPerso.ObserverLease
import XbowPerso.SqliteQueue

/-!
# Times as texts

`utcnow` gives the time of the clock as a text. The queue selects stale leases and the oldest job by the texts in its columns, the lease
of the observer is renewed by a comparison of texts, and the circuit breaker sorts its events by theirs.
-/

namespace XbowPerso

namespace TextClock

/-- A time that a `datetime` in UTC can have. -/
abbrev Instant := { t : PyDateTime // t.InRange }

/-- `utcnow` at a reading of the clock. -/
def utcnow (now : Instant) : String := now.1.isoformat

/-! ## The columns of the queue -/

/-- What the selects read of a row of the table `jobs`. -/
structure JobRow where
  id : Ident
  kind : JobKind
  status : JobStatus
  attempts : Int
  maxAttempts : Int
  createdAt : String
  claimedAt : Option String
  deriving DecidableEq

/-- A job whose readings of the clock are times. -/
structure TimedJob where
  job : Job
  created : Instant
  claimed : Option Instant
  createdAt_eq : job.createdAt = created.1.microseconds
  claimedAt_eq : job.claimedAt = claimed.map fun t => (t.1.microseconds : Int)

/-- The row of a job. -/
def TimedJob.row (j : TimedJob) : JobRow where
  id := j.job.id
  kind := j.job.kind
  status := j.job.status
  attempts := j.job.attempts
  maxAttempts := j.job.maxAttempts
  createdAt := utcnow j.created
  claimedAt := j.claimed.map utcnow

/-- `status='running' AND claimed_at IS NOT NULL AND claimed_at < ?` -/
def isStale (cutoff : String) (row : JobRow) : Bool :=
  decide (row.status = .running) && row.claimedAt.any fun claimed => decide (claimed < cutoff)

/-- The select of `_recover_expired_leases`. -/
def selectStale (cfg : QueueSettings) (now : Instant) (rows : List JobRow) : Except PyError (List JobRow) :=
  match now.1.addSeconds (-cfg.leaseSeconds) with
  | none => .error (.overflowError "date value out of range")
  | some cutoff => .ok (rows.filter (isStale cutoff.isoformat))

/-- `status='queued' AND … AND attempts < max_attempts` -/
def isClaimable (p : JobKind → Bool) (row : JobRow) : Bool :=
  decide (row.status = .queued) && p row.kind && decide (row.attempts < row.maxAttempts)

/-- `ORDER BY created_at LIMIT 1` -/
def selectOldest (p : JobKind → Bool) (rows : List JobRow) : Option JobRow := (rows.filter (isClaimable p)).argmin JobRow.createdAt

/-- `ORDER BY created_at,id LIMIT 1` -/
def selectOldestById (p : JobKind → Bool) (rows : List JobRow) : Option JobRow :=
  (rows.filter (isClaimable p)).argmin fun row => toLex (row.createdAt, row.id)

/-! ## The events of the breaker -/

/-- An event of the breaker with its time. -/
structure TimedEvent where
  observation : Observation
  time : Instant
  at_eq : observation.metadataGet "at" = .str (utcnow time)

end TextClock

end XbowPerso
