import XbowPerso.Orchestrator
import XbowPerso.ApiOutbox

/-!
# A cancellation during a start

`start_campaign` records its intent, reads the campaign again, lets the planner enqueue jobs one after the other, and records that it
started; `cancel_campaign` saves the campaign as cancelled and then sweeps the queue. The two come in between each other.
-/

namespace XbowPerso

namespace CancelStart

open Outbox (CampaignState)

open Orchestrator (JobSpec)

/-- What the two requests read and change of the campaign. -/
structure Campaign where
  state : CampaignState
  /-- `_pending_campaign_start_request`: a start that was requested and has not been recorded. -/
  pendingStart : Option String

/-- Where `start_campaign` is. -/
inductive StartPhase where
  | idle
  /-- The policy has blocked it: it saves an event. -/
  | blocking (version : Nat) (campaign : Campaign)
  /-- `_record_campaign_start_intent` -/
  | intending (version : Nat) (campaign : Campaign) (requestId : String)
  | intended (requestId : String)
  /-- `advance_campaign`, with the jobs that are left to enqueue and those that it has. -/
  | enqueueing (requestId : String) (left : List JobSpec) (jobs : List Job)
  /-- `_reconcile_campaign_started` -/
  | reconciling (requestId : String) (jobs : List Job) (attempts : Nat)
  | recording (version : Nat) (campaign : Campaign) (requestId : String) (jobs : List Job) (attempts : Nat)
  | finished

/-- Where `cancel_campaign` is. -/
inductive CancelPhase where
  | idle
  | saving (version : Nat) (campaign : Campaign)
  | sweeping
  /-- It has swept the queue and answers. -/
  | swept
  /-- It answers without a sweep. -/
  | finished

structure System where
  version : Nat
  campaign : Campaign
  queue : SqliteQueue
  start : StartPhase
  cancel : CancelPhase

variable (cfg : QueueSettings) (id : Ident)

inductive Action where
  /-- It reads the campaign, with the policy's answer and a fresh identifier. -/
  | start (allowed : Bool) (uuid : String)
  | saveStart
  /-- It reads the campaign again, and the planner decides on its jobs. -/
  | plan (specs : List JobSpec)
  | enqueue (reading : Reading)
  /-- The planner has enqueued its jobs. -/
  | planned
  | reconcile
  | cancel
  | saveCancel
  | sweep (reading : Reading)

/-- `jobs.get_by_dedupe(campaign.id, "strix_scan", f"api:start:{request_id}")` -/
def legacyJob (q : SqliteQueue) (requestId : String) : Option Job :=
  q.rows.find? fun j => decide (j.campaignId = id) && decide (j.kind = .strixScan) &&
    decide (j.dedupeKey.map Ident.text = some ("api:start:" ++ requestId))

/-- A save of the start under the version that it has read. -/
def System.saveStart (s : System) (version : Nat) (campaign : Campaign) (saved conflict : StartPhase) : System :=
  if version = s.version then { s with version := s.version + 1, campaign := campaign, start := saved } else { s with start := conflict }

/-- One step. What is raised ends the request. -/
def step (s : System) : Action → System
  | .start allowed uuid =>
    match s.start with
    | .idle =>
      if s.campaign.state ≠ .ready ∧ s.campaign.state ≠ .failed then { s with start := .finished }
      else if allowed = false then { s with start := .blocking s.version s.campaign }
      else
        match s.campaign.pendingStart with
        | some requestId => { s with start := .intended requestId }
        | none => { s with start := .intending s.version { s.campaign with pendingStart := some uuid } uuid }
    | _ => s
  | .saveStart =>
    match s.start with
    | .blocking version campaign => s.saveStart version campaign .finished .finished
    | .intending version campaign requestId => s.saveStart version campaign (.intended requestId) .finished
    | .recording version campaign requestId jobs attempts =>
      s.saveStart version campaign .finished (.reconciling requestId jobs attempts)
    | _ => s
  | .plan specs =>
    match s.start with
    | .intended requestId =>
      match legacyJob id s.queue requestId with
      | some job => { s with start := .reconciling requestId [job] 3 }
      | none => { s with start := .enqueueing requestId specs [] }
    | _ => s
  | .enqueue reading =>
    match s.start with
    | .enqueueing requestId (spec :: left) jobs =>
      match s.queue.enqueue cfg reading id.text spec.kind.word spec.payload 2 (some spec.dedupeKey) with
      | .error _ => { s with start := .finished }
      | .ok (job, queue) => { s with queue := queue, start := .enqueueing requestId left (jobs ++ [job]) }
    | _ => s
  | .planned =>
    match s.start with
    | .enqueueing requestId [] jobs =>
      if jobs.isEmpty || jobs.any fun job => (s.queue.get job.id).isNone then { s with start := .finished }
      else { s with start := .reconciling requestId jobs 3 }
    | _ => s
  | .reconcile =>
    match s.start with
    | .reconciling _ _ 0 => { s with start := .finished }
    | .reconciling requestId jobs (attempts + 1) =>
      if s.campaign.pendingStart ≠ some requestId then { s with start := .finished }
      else if s.campaign.state ≠ .ready ∧ s.campaign.state ≠ .failed ∧ s.campaign.state ≠ .running then { s with start := .finished }
      else { s with start := .recording s.version ⟨.running, none⟩ requestId jobs attempts }
    | _ => s
  | .cancel =>
    match s.cancel with
    | .idle =>
      if s.campaign.state = .completed ∨ s.campaign.state = .cancelled then { s with cancel := .finished }
      else { s with cancel := .saving s.version { s.campaign with state := .cancelled } }
    | _ => s
  | .saveCancel =>
    match s.cancel with
    | .saving version campaign =>
      if version = s.version then { s with version := s.version + 1, campaign := campaign, cancel := .sweeping }
      else { s with cancel := .finished }
    | _ => s
  | .sweep reading =>
    match s.cancel with
    | .sweeping =>
      match s.queue.cancelQueued reading id.text with
      | .error _ => { s with cancel := .finished }
      | .ok (_, queue) => { s with queue := queue, cancel := .swept }
    | _ => s

/-- The steps of a run, one after the other. -/
def steps (s : System) (l : List Action) : System := l.foldl (step cfg id) s

end CancelStart

end XbowPerso
