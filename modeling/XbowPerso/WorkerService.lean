import XbowPerso.CampaignAudit
import XbowPerso.SealedChain
import XbowPerso.SqliteQueue

/-!
# One job of the worker

`process_one` verifies the job that it claimed, runs the handler of its kind, lets the planner go on, and only then finishes the job. What
any of these raises decides how the job is finished; what became of it is recorded in the campaign. The handlers, the planner, and what
other processes do to the queue meanwhile are given.
-/

namespace XbowPerso

namespace WorkerService

open AuditSeal

/-! ## The body of the attempt -/

/-- What is raised, as `process_one` tells it apart. -/
inductive Raised where
  | campaignCancelled (message : String)
  | campaignConflict (message : String)
  /-- `StaleValidationJobError` or `StaleBrowserJobError` -/
  | staleJob (message : String)
  /-- A policy error, a `ValueError` or a `KeyError`. -/
  | rejected (message : String)
  | other (message : String)

/-- The step of the planner: whether its lock was acquired, and what reading the campaign and `advance_campaign` then do. -/
structure PlannerStep where
  acquire : Except Raised Bool
  advance : Except Raised Unit

def PlannerStep.run (p : PlannerStep) : Except Raised Unit :=
  match p.acquire with
  | .error e => .error e
  | .ok false => .ok ()
  | .ok true => p.advance

/-- The kinds that have a handler. -/
def handledKinds : List JobKind := [.strixScan, .nucleiScan, .independentValidation, .browserFlow, .reconTask, .report]

/-- What happens between the claim and the end of a job. -/
structure Attempt where
  job : Job
  workerId : Ident
  /-- `_verify_policy_bound_job` -/
  verified : Except Raised Unit
  /-- The handler of the job's kind. -/
  handler : Except Raised Unit
  planner : PlannerStep
  /-- A renewal of the lease failed. -/
  leaseLost : Bool

/-- The body of the `try`. -/
def Attempt.outcome (a : Attempt) : Except Raised Unit := do
  a.verified
  if a.job.kind ∈ handledKinds then a.handler else .error (.rejected "unsupported job kind")
  a.planner.run
  if a.leaseLost then .error (.other "worker lost job lease during execution") else .ok ()

/-- The word of a status. -/
def statusWord : JobStatus → String
  | .queued => "queued"
  | .running => "running"
  | .completed => "completed"
  | .failed => "failed"
  | .cancelled => "cancelled"

/-- What is given to `_record_worker_outcome`. -/
structure Conclusion where
  finished : Job
  success : Bool
  status : String

/-- The end of `process_one` on the queue: how the job is finished, and what is then recorded of it. -/
def Attempt.conclude (env : Reading) (q : SqliteQueue) (a : Attempt) : Except PyError (Option Conclusion × SqliteQueue) :=
  match a.outcome with
  | .ok () => (q.finish env a.job.id.text a.workerId.text true none).map fun r =>
      (r.1.map fun j => ⟨j, true, statusWord j.status⟩, r.2)
  | .error (.campaignCancelled message) | .error (.staleJob message) =>
    (q.cancelOwned env a.job.id.text a.workerId.text message).map fun r =>
      (r.1.map fun j => ⟨j, false, "cancelled"⟩, r.2)
  | .error (.campaignConflict message) =>
    (q.finish env a.job.id.text a.workerId.text false (some ("campaign state changed concurrently: " ++ message))).map
      fun r => (r.1.map fun j => ⟨j, false, statusWord j.status⟩, r.2)
  | .error (.rejected message) | .error (.other message) =>
    (q.finish env a.job.id.text a.workerId.text false (some message)).map fun r =>
      (r.1.map fun j => ⟨j, false, statusWord j.status⟩, r.2)

/-! ## The outcome of a worker -/

/-- `_ALLOWED_JOB_STATUSES` -/
def allowedStatuses : List String := ["queued", "completed", "failed", "cancelled"]

def baseOutcome (jobId : String) (c : Conclusion) : AuditEntry :=
  ((((((⟨.empty, distinct_empty⟩ : AuditEntry).set "type" (.str "worker_outcome") (distinct_str _)).set "job_id" (.str jobId)
    (distinct_str _)).set "job_kind" (.str c.finished.kind.word) (distinct_str _)).set "success" (.bool c.success)
    (distinct_bool _)).set "status" (.str c.status) (distinct_str _)).set "attempts" (.int c.finished.attempts) (distinct_int _)

/-- `worker_outcome_event`; `canonical` is `canonical_scan_job_id`. -/
def workerOutcomeEvent (canonical : String → Option String) (c : Conclusion) : Except PyError AuditEntry :=
  if c.finished.kind ∉ handledKinds then .error (.valueError "unsupported job kind")
  else if c.status ∉ allowedStatuses then .error (.valueError "unsupported job status")
  else if ¬ (0 ≤ c.finished.attempts ∧ c.finished.attempts ≤ 5) then .error (.valueError "invalid job attempts")
  else
    match canonical c.finished.id.text with
    | none => .error (.valueError "invalid job identity")
    | some jobId => .ok (baseOutcome jobId c)

/-- `max(sealed, key=audit_seq)`: the first of the entries with the greatest number. -/
def latest : List AuditEntry → Option AuditEntry
  | [] => none
  | item :: items => some (items.foldl (fun best item =>
      if SealedChain.seq WorkerAudit.format best < SealedChain.seq WorkerAudit.format item then item else best) item)

/-- `next_worker_audit_link` -/
def nextWorkerAuditLink (env : AuditEnv) (events : List AuditEntry) : Int × Json :=
  match latest (events.filter fun item => (item.get "type").pyEq (.str "worker_outcome") && SealedChain.isSealed WorkerAudit.format item) with
  | none => (1, .null)
  | some last => (SealedChain.seq WorkerAudit.format last + 1, .str (env.str (last.get "worker_hash")))

theorem nextWorkerAuditLink_distinct (env : AuditEnv) (events : List AuditEntry) : (nextWorkerAuditLink env events).2.Distinct := by
  unfold nextWorkerAuditLink
  split
  · trivial
  · trivial

/-- `seal_worker_outcome_event` -/
def sealWorkerOutcomeEvent (env : AuditEnv) (secret : ResolvedSecret) (event : AuditEntry) (events : List AuditEntry) :
    Except PyError AuditEntry :=
  let linked := (event.set "audit_seq" (.int (nextWorkerAuditLink env events).1) (distinct_int _)).set "previous_worker_hash"
    (nextWorkerAuditLink env events).2 (nextWorkerAuditLink_distinct env events)
  let canonical := WorkerAudit.canonicalWorkerEvent linked
  match secret with
  | .error e => .error e
  | .ok _ => .ok (((linked.set "worker_hash" (.str (env.sha.hex canonical)) (distinct_str _)).set "worker_signature_alg"
      (sign env secret.key canonical).1 (sign_distinct env _ _).1).set "worker_signature" (sign env secret.key canonical).2
      (sign_distinct env _ _).2)

/-- One try to record an outcome: the events of the campaign that is read, if there is one, and whether its save goes through. -/
structure Try where
  events : Option (List AuditEntry)
  saved : Bool
  time : String

/-- An outcome of the job with that status is recorded already. -/
def isRecorded (event : AuditEntry) (events : List AuditEntry) : Bool :=
  events.any fun item => (item.get "type").pyEq (.str "worker_outcome") && (item.get "job_id").pyEq (event.get "job_id") &&
    (item.get "status").pyEq (event.get "status")

/-- The loop of `_record_worker_outcome`: whether it is recorded, and the events that are saved. -/
def recordTries (env : AuditEnv) (secret : ResolvedSecret) (event : AuditEntry) : List Try → Except PyError (Bool × Option (List AuditEntry))
  | [] => .ok (false, none)
  | t :: tries =>
    match t.events with
    | none => .ok (false, none)
    | some events =>
      if isRecorded event events then .ok (true, none)
      else
        match sealWorkerOutcomeEvent env secret (event.set "at" (.str t.time) (distinct_str _)) events with
        | .error e => .error e
        | .ok sealedEvent =>
          match CampaignAudit.sealCampaignEvent env secret sealedEvent events with
          | .error e => .error e
          | .ok sealedEvent => if t.saved then .ok (true, some (events ++ [sealedEvent])) else recordTries env secret event tries

/-- `_record_worker_outcome`, which tries three times. -/
def recordWorkerOutcome (env : AuditEnv) (secret : ResolvedSecret) (canonical : String → Option String) (c : Conclusion)
    (first second third : Try) : Except PyError (Bool × Option (List AuditEntry)) :=
  match workerOutcomeEvent canonical c with
  | .error e => .error e
  | .ok event => recordTries env secret event [first, second, third]

end WorkerService

end XbowPerso
