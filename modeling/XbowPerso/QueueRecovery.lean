import XbowPerso.SqliteQueue
import XbowPerso.RedisQueue
import XbowPerso.ReviewEvidence

/-!
# The assessment of the queue before a restart

`recovery_snapshot` of both backends lists the lease and retry fields of the jobs, and `analyze_queue_recovery` says what is wrong
with them. A time is its number of microseconds, as in the records of the jobs.
-/

namespace XbowPerso

/-- The word of a status in a row or a hash. -/
def JobStatus.word : JobStatus → String
  | queued => "queued"
  | running => "running"
  | completed => "completed"
  | failed => "failed"
  | cancelled => "cancelled"

namespace QueueRecovery

/-- What a field that should hold a time holds: nothing, a text that `_parse_timestamp` does not read, or a time. -/
inductive TimeField where
  | blank | unreadable | time (t : Int)
  deriving DecidableEq

/-- A row of `recovery_snapshot`; its numbers are as `_parse_int` reads them. -/
structure SnapshotRow where
  id : Option String
  status : Option String
  attempts : Option Int
  maxAttempts : Option Int
  claimedBy : Option String
  claimedAt : TimeField
  deriving DecidableEq

/-- The row of a job. -/
def SnapshotRow.ofJob (j : Job) : SnapshotRow where
  id := some j.id.text
  status := some j.status.word
  attempts := some j.attempts
  maxAttempts := some j.maxAttempts
  claimedBy := j.claimedBy.map Ident.text
  claimedAt := match j.claimedAt with
    | none => .blank
    | some t => .time t

/-- The row of an identifier without a hash. -/
def SnapshotRow.missing (id : Ident) : SnapshotRow := ⟨some id.text, none, none, none, none, .blank⟩

inductive Severity where
  | critical | warning
  deriving DecidableEq

inductive IssueCode where
  | duplicateJobId | unknownStatus | runningWithoutOwner | runningWithoutClaimTimestamp | invalidClaimTimestamp
  | claimTimestampInFuture | expiredRunningLease | nonRunningJobHasLeaseFields | invalidRetryState
  | queuedRetryBudgetExhausted | assessmentTruncated
  deriving DecidableEq

namespace IssueCode

def severity : IssueCode → Severity
  | expiredRunningLease => .warning
  | _ => .critical

end IssueCode

/-- An entry of `issues`; its severity is that of its code. -/
structure Issue where
  jobId : Option String
  code : IssueCode
  deriving DecidableEq

/-- What `analyze_queue_recovery` returns, without its constant fields. -/
structure Report where
  jobsTotal : Int
  jobsAssessed : Nat
  jobsByStatus : List (String × Nat)
  issuesTotal : Nat
  criticalIssues : Nat
  warningIssues : Nat
  issues : List Issue
  issueDetailsTruncated : Bool
  safeToResume : Bool
  assessmentTruncated : Bool
  deriving DecidableEq

/-- `MAX_RECOVERY_JOBS` -/
def maxRecoveryJobs : Nat := 5000

/-- `MAX_ISSUE_DETAILS` -/
def maxIssueDetails : Nat := 200

/-- `sorted(_KNOWN_STATUSES)` -/
def knownStatuses : List String := ["cancelled", "completed", "failed", "queued", "running"]

/-- `timedelta(minutes=5)` -/
def futureTolerance : Int := 300 * 1000000

variable (u : Unicode)

/-- `str(job.get("id") or "")[:200]` -/
def SnapshotRow.jobId (row : SnapshotRow) : String := String.ofList ((row.id.getD "").toList.take 200)

/-- `str(job.get("status") or "unknown").strip().lower()` -/
def SnapshotRow.statusText (row : SnapshotRow) : String :=
  ReviewEvidence.folded u (match row.status with
    | none => "unknown"
    | some status => if status = "" then "unknown" else status)

/-- `bool(str(job.get("claimed_by") or "").strip())` -/
def SnapshotRow.hasOwner (row : SnapshotRow) : Bool := decide (PyText.strip (row.claimedBy.getD "") ≠ "")

/-- The checks of the lease of a running job. -/
def runningIssues (current lease : Int) (row : SnapshotRow) : List IssueCode :=
  (if row.hasOwner then [] else [.runningWithoutOwner]) ++
    match row.claimedAt with
    | .blank => [.runningWithoutClaimTimestamp]
    | .unreadable => [.invalidClaimTimestamp]
    | .time t =>
      if current + futureTolerance < t then [.claimTimestampInFuture]
      else if t < current - lease then [.expiredRunningLease]
      else []

/-- The checks of the attempts. -/
def retryIssues (row : SnapshotRow) : List IssueCode :=
  match row.attempts, row.maxAttempts with
  | some attempts, some maxAttempts =>
    if 1 ≤ maxAttempts ∧ 0 ≤ attempts ∧ attempts ≤ maxAttempts then
      if row.statusText u = "queued" ∧ maxAttempts ≤ attempts then [.queuedRetryBudgetExhausted] else []
    else [.invalidRetryState]
  | _, _ => [.invalidRetryState]

/-- What one turn of the loop appends to `issues`, given the identifiers seen before. -/
def rowIssues (current lease : Int) (seen : List String) (row : SnapshotRow) : List IssueCode :=
  (if row.jobId ∈ seen ∧ row.jobId ≠ "" then [.duplicateJobId] else []) ++
    (if row.statusText u ∈ knownStatuses then [] else [.unknownStatus]) ++
    (if row.statusText u = "running" then runningIssues current lease row
      else if row.hasOwner ∨ row.claimedAt ≠ .blank then [.nonRunningJobHasLeaseFields]
      else []) ++
    retryIssues u row

/-- The loop over the rows. -/
def assess (current lease : Int) : List String → List SnapshotRow → List Issue
  | _, [] => []
  | seen, row :: rows =>
    (rowIssues u current lease seen row).map (Issue.mk (some row.jobId)) ++
      assess current lease (if row.jobId ∈ seen ∨ row.jobId = "" then seen else row.jobId :: seen) rows

/-- `status_counts` -/
def statusCounts (rows : List SnapshotRow) : List (String × Nat) :=
  knownStatuses.map (fun status => (status, rows.countP fun row => decide (row.statusText u = status))) ++
    [("unknown", rows.countP fun row => decide (row.statusText u ∉ knownStatuses))]

/-- `analyze_queue_recovery` -/
def analyzeQueueRecovery (jobs : List SnapshotRow) (leaseSeconds : Int) (totalJobs : Option Int) (now : Int) :
    Except PyError Report :=
  if 60 ≤ leaseSeconds ∧ leaseSeconds ≤ 86400 then
    let total : Int := match totalJobs with
      | none => jobs.length
      | some total => max 0 total
    let truncated := decide (jobs.length < total)
    let issues := assess u now (leaseSeconds * 1000000) [] jobs ++
      if truncated then [⟨none, .assessmentTruncated⟩] else []
    .ok {
      jobsTotal := total
      jobsAssessed := jobs.length
      jobsByStatus := statusCounts u jobs
      issuesTotal := issues.length
      criticalIssues := issues.countP fun issue => decide (issue.code.severity = .critical)
      warningIssues := issues.countP fun issue => decide (issue.code.severity = .warning)
      issues := issues.take maxIssueDetails
      issueDetailsTruncated := decide (maxIssueDetails < issues.length)
      safeToResume := issues.isEmpty
      assessmentTruncated := truncated }
  else .error (.valueError "lease_seconds must be between 60 and 86400")

/-! ## The snapshots -/

/-- The check of the limit that both backends make. -/
def bounded {α : Type} (limit : Nat) (rows : List α) : Except PyError (List α) :=
  if 1 ≤ limit ∧ limit ≤ 5000 then .ok (rows.take limit)
  else .error (.valueError "recovery snapshot limit must be between 1 and 5000")

/-- The rows of the table in the order of `ORDER BY created_at,id`. -/
def sqliteRows (q : SqliteQueue) : List Job :=
  q.rows.insertionSort fun a b => toLex (a.createdAt, a.id) ≤ toLex (b.createdAt, b.id)

/-- `recovery_snapshot` of the SQLite queue. -/
def sqliteSnapshot (limit : Nat) (q : SqliteQueue) : Except PyError (List SnapshotRow) :=
  (bounded limit (sqliteRows q)).map (List.map .ofJob)

/-- The members of the set of all jobs, sorted. -/
def redisIds (s : RedisQueue) : List Ident := s.all.insertionSort (· ≤ ·)

/-- The fields that `hmget` gives for a member. -/
def redisRow (s : RedisQueue) (id : Ident) : SnapshotRow :=
  match s.jobs id with
  | none => .missing id
  | some j => { SnapshotRow.ofJob j with id := some id.text }

/-- `recovery_snapshot` of the Redis queue. -/
def redisSnapshot (limit : Nat) (s : RedisQueue) : Except PyError (List SnapshotRow) :=
  (bounded limit (redisIds s)).map (List.map (redisRow s))

/-- `queue_recovery_assessment` over the SQLite queue. -/
def sqliteAssessment (cfg : QueueSettings) (now : Int) (q : SqliteQueue) : Except PyError Report :=
  match sqliteSnapshot maxRecoveryJobs q with
  | .error e => .error e
  | .ok jobs => analyzeQueueRecovery u jobs cfg.leaseSeconds (some q.rows.length) now

/-- `queue_recovery_assessment` over the Redis queue. -/
def redisAssessment (cfg : QueueSettings) (now : Int) (s : RedisQueue) : Except PyError Report :=
  match redisSnapshot maxRecoveryJobs s with
  | .error e => .error e
  | .ok jobs => analyzeQueueRecovery u jobs cfg.leaseSeconds (some s.all.length) now

end QueueRecovery

end XbowPerso
