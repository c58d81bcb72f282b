import XbowPerso.ApiOutbox
import Mathlib.Logic.Function.Basic

/-!
# Batches of HackerOne campaigns

`reconcile_hackerone_batch` looks whether the running members of a batch have finished and starts the next ones;
`cancel_hackerone_batch` cancels the campaign of each member and then stores the batch as cancelled. The batch and each campaign are
saved under the version that was read. Campaign starts, planner runs and workers save the campaigns in between.
-/

namespace XbowPerso

namespace HackerOneBatch

open Outbox (CampaignState)

/-! ## Batches -/

inductive MemberStatus where
  | ready | running | done | review | blocked | cancelled
  deriving DecidableEq

/-- `_TERMINAL_MEMBER_STATES` -/
def MemberStatus.terminal : MemberStatus → Bool
  | ready | running => false
  | done | review | blocked | cancelled => true

inductive Mode where
  | sequential | parallel
  deriving DecidableEq

inductive BatchState where
  | queued | running | completed | cancelled
  deriving DecidableEq

/-- A member; its next try of the remote revalidation is due at a time that only the clock reads. -/
structure Member where
  campaignId : String
  status : MemberStatus
  reason : Option String
  attempts : Option Nat

structure Batch where
  mode : Mode
  state : BatchState
  members : List Member

/-- `_batch_state` -/
def batchState (members : List Member) : BatchState :=
  if members ≠ [] ∧ members.all (fun m => m.status.terminal) = true then .completed
  else if members.any (fun m => decide (m.status = .running)) = true then .running
  else .queued

/-! ## One member -/

/-- `campaign_job_status_counts` -/
structure JobCounts where
  queued : Nat
  running : Nat
  completed : Nat
  failed : Nat
  cancelled : Nat

/-- `_member_finished`: the status of a member that has finished. -/
def memberFinished (state : Option CampaignState) (counts : JobCounts) : Option MemberStatus :=
  match state with
  | none => some .blocked
  | some .cancelled => some .cancelled
  | some .failed => some .blocked
  | some .completed => some .done
  | some _ =>
    if 0 < counts.queued ∨ 0 < counts.running then none
    else if counts.completed + counts.failed + counts.cancelled = 0 then none
    else if 0 < counts.failed then some .review
    else some .done

/-- What `start_campaign` raises. -/
inductive StartError where
  | http (status : Nat) (detail : String)
  | other (name : String)

/-- `_start_member`, from what the remote revalidation gives, how `start_campaign` ends, and the state that is read when it raised. -/
def startMember (remote : Option (MemberStatus × String)) (outcome : Except StartError Unit) (state : Option CampaignState) :
    MemberStatus × Option String :=
  match remote with
  | some (status, reason) => (status, some reason)
  | none =>
    match outcome with
    | .ok () => (.running, none)
    | .error (.http status detail) =>
      match state with
      | some .running => (.running, none)
      | some .completed => (.done, none)
      | some .cancelled => (.cancelled, none)
      | state =>
        if status = 409 ∧ (state = some .ready ∨ state = some .failed) then (.ready, some "start_conflict_retry")
        else (.blocked, some detail)
    | .error (.other name) => (.blocked, some name)

/-- `_REMOTE_REVALIDATION_MAX_ATTEMPTS` -/
def maxAttempts : Nat := 8

/-- `_schedule_retry` -/
def scheduleRetry (m : Member) : Member :=
  let attempts := m.attempts.getD 0 + 1
  if maxAttempts ≤ attempts then
    { m with status := .review, reason := some "remote_revalidation_retry_exhausted", attempts := none }
  else { m with status := .ready, reason := some "remote_revalidation_unavailable", attempts := some attempts }

/-- A member after its start was tried. -/
def Member.started (m : Member) (result : MemberStatus × Option String) : Member :=
  if result = (.ready, some "remote_revalidation_unavailable") then scheduleRetry m
  else
    let reason := (result.2.filter fun r => decide (r ≠ "")).map fun r => String.ofList (r.toList.take 500)
    { m with status := result.1, reason := reason, attempts := none }

/-! ## Campaigns -/

/-- What saves a campaign, by what it does to its state. -/
inductive Operation where
  /-- A save that keeps the state. -/
  | keep
  /-- The end of a start that no batch asked for, `_reconcile_campaign_started`, or the repair of an outbox. -/
  | start
  /-- `_reconcile_pentagi_dispatch` -/
  | dispatch
  | addFinding
  /-- The campaign is completed with its last finding, or with its report. -/
  | complete
  /-- `_ensure_completion_report` -/
  | ensureCompletionReport
  | cancel
  /-- A scan of the worker saves its results, or what a dry run gave. -/
  | scan (state : CampaignState)
  deriving DecidableEq

/-- The state that is saved over the one that was read, where the operation does not refuse. -/
def Operation.apply : Operation → CampaignState → Option CampaignState
  | keep, state => some state
  | start, state => if state = .ready ∨ state = .failed ∨ state = .running then some .running else none
  | dispatch, state =>
    if state = .cancelled then none else if state = .ready ∨ state = .failed then some .running else some state
  | addFinding, state => if state = .cancelled ∨ state = .completed then none else some .validating
  | complete, state => if state = .cancelled then none else some .completed
  | ensureCompletionReport, _ => some .completed
  | cancel, state => if state = .completed ∨ state = .cancelled then none else some .cancelled
  | scan next, state =>
    if state = .cancelled then none else if next = .ready ∨ next = .validating ∨ next = .completed then some next else none

/-- A stored campaign. -/
structure Stored where
  version : Nat
  state : CampaignState

/-! ## The system -/

/-- Where a request, a job or a reconciler is. -/
inductive Phase where
  | idle
  /-- It has read a campaign, and saves it with this state. -/
  | editing (campaignId : String) (version : Nat) (state : CampaignState)
  /-- A reconciler looks whether the running members have finished; the members before are visited. -/
  | finishing (version : Nat) (batch : Batch) (visited rest : List Member) (changed : Bool)
  /-- It starts members; in a sequential batch it has to find one that is ready. -/
  | starting (version : Nat) (batch : Batch) (visited rest : List Member) (changed : Bool)
  /-- `start_campaign` has read the campaign of the member, and comes to `_reconcile_campaign_started`. -/
  | startingMember (version : Nat) (batch : Batch) (visited : List Member) (member : Member) (rest : List Member)
  /-- It has read the campaign again, and saves it as running. -/
  | savingStart (version : Nat) (batch : Batch) (visited : List Member) (member : Member) (rest : List Member) (campaignVersion : Nat)
  | saving (version : Nat) (batch : Batch)
  /-- The batch is being cancelled; the members before are visited. -/
  | cancelling (version : Nat) (batch : Batch) (visited rest : List Member)
  /-- `cancel_campaign` has read the campaign of the member. -/
  | cancellingMember (version : Nat) (batch : Batch) (visited : List Member) (member : Member) (rest : List Member)
      (campaignVersion : Nat)

structure System where
  batchVersion : Nat
  batch : Batch
  campaigns : String → Option Stored
  phase : Nat → Phase

def System.setPhase (s : System) (h : Nat) (p : Phase) : System := { s with phase := Function.update s.phase h p }

/-- `save_campaign` under an expected version. -/
def System.saveCampaign (s : System) (id : String) (version : Nat) (state : CampaignState) : System :=
  match s.campaigns id with
  | some stored =>
    if version = stored.version then { s with campaigns := Function.update s.campaigns id (some ⟨version + 1, state⟩) } else s
  | none => s

/-- `save_hackerone_batch` under an expected version. -/
def System.saveBatch (s : System) (version : Nat) (batch : Batch) : System :=
  if version = s.batchVersion then { s with batchVersion := s.batchVersion + 1, batch := batch } else s

/-- What a reconciler finds when it comes to a member: whether a retry is due, the remote revalidation, and the text of a refusal. -/
structure StartCircumstances where
  due : Bool
  remote : Option (MemberStatus × String)
  detail : String

inductive Action where
  /-- Someone reads a campaign to save it. -/
  | read (h : Nat) (campaignId : String) (operation : Operation)
  | save (h : Nat)
  | reconcile (h : Nat)
  | finish (h : Nat) (counts : JobCounts)
  | start (h : Nat) (c : StartCircumstances)
  /-- `_reconcile_campaign_started` reads the campaign, unless `start_campaign` ends: it raises, also when the tries are used up, or finds
  the event of the same request. -/
  | readStart (h : Nat) (ends : Option (Except StartError Unit)) (detail : String)
  | saveStart (h : Nat)
  | saveBatch (h : Nat)
  /-- `cancel_hackerone_batch` reads the batch. -/
  | cancelBatch (h : Nat)
  /-- It comes to the next member; `cancel_campaign` may raise before its save, or after it. -/
  | cancelMember (h : Nat) (raises : Option String)
  | saveCancelled (h : Nat) (raises : Option String)
  | crash (h : Nat)

/-- The state of the campaign of a member. -/
def System.campaignState (s : System) (m : Member) : Option CampaignState := (s.campaigns m.campaignId).map Stored.state

/-- The start of a member has ended: a sequential batch starts no other one. -/
def System.tried (s : System) (h version : Nat) (batch : Batch) (visited : List Member) (m : Member) (rest : List Member)
    (result : MemberStatus × Option String) : System :=
  if batch.mode = .sequential then s.setPhase h (.starting version batch (visited ++ m.started result :: rest) [] true)
  else s.setPhase h (.starting version batch (visited ++ [m.started result]) rest true)

/-- A member as the cancellation leaves it. -/
def Member.cancelled (m : Member) (reason : Option String) : Member :=
  { m with status := .cancelled, reason := reason.or m.reason }

/-- The status of a member that the cancellation passes over. -/
def MemberStatus.skipped : MemberStatus → Bool
  | done | cancelled => true
  | _ => false

/-- One step. -/
def step (s : System) : Action → System
  | .read h id operation =>
    match s.phase h, s.campaigns id with
    | .idle, some stored =>
      match operation.apply stored.state with
      | none => s
      | some state => s.setPhase h (.editing id stored.version state)
    | _, _ => s
  | .save h =>
    match s.phase h with
    | .editing id version state => (s.setPhase h .idle).saveCampaign id version state
    | _ => s
  | .reconcile h =>
    match s.phase h with
    | .idle =>
      if s.batch.state = .completed ∨ s.batch.state = .cancelled then s
      else s.setPhase h (.finishing s.batchVersion s.batch [] s.batch.members false)
    | _ => s
  | .finish h counts =>
    match s.phase h with
    | .finishing version batch visited [] changed => s.setPhase h (.starting version batch [] visited changed)
    | .finishing version batch visited (m :: rest) changed =>
      if m.status = .running then
        match memberFinished (s.campaignState m) counts with
        | some status => s.setPhase h (.finishing version batch (visited ++ [{ m with status := status }]) rest true)
        | none => s.setPhase h (.finishing version batch (visited ++ [m]) rest changed)
      else s.setPhase h (.finishing version batch (visited ++ [m]) rest changed)
    | _ => s
  | .start h c =>
    match s.phase h with
    | .starting version batch visited [] changed =>
      if changed = false ∧ batchState visited = batch.state then s.setPhase h .idle
      else s.setPhase h (.saving version { batch with members := visited, state := batchState visited })
    | .starting version batch visited (m :: rest) changed =>
      let waits := batch.mode = .sequential ∧ ((visited ++ m :: rest).any fun x => decide (x.status = .running)) = true
      if m.status ≠ .ready ∨ waits then s.setPhase h (.starting version batch (visited ++ [m]) rest changed)
      else if c.due = false then
        if batch.mode = .sequential then s.setPhase h (.starting version batch (visited ++ m :: rest) [] changed)
        else s.setPhase h (.starting version batch (visited ++ [m]) rest changed)
      else
        let state := s.campaignState m
        if c.remote = none ∧ (state = some .ready ∨ state = some .failed) then
          s.setPhase h (.startingMember version batch visited m rest)
        else
          let status := if state = none then 404 else 409
          s.tried h version batch visited m rest (startMember c.remote (.error (.http status c.detail)) state)
    | _ => s
  | .readStart h ends detail =>
    match s.phase h with
    | .startingMember version batch visited m rest =>
      match ends with
      | some outcome => s.tried h version batch visited m rest (startMember none outcome (s.campaignState m))
      | none =>
        match s.campaigns m.campaignId with
        | none => s.tried h version batch visited m rest (startMember none (.error (.http 404 detail)) none)
        | some stored =>
          if stored.state = .ready ∨ stored.state = .failed ∨ stored.state = .running then
            s.setPhase h (.savingStart version batch visited m rest stored.version)
          else s.tried h version batch visited m rest (startMember none (.error (.http 409 detail)) (some stored.state))
    | _ => s
  | .saveStart h =>
    match s.phase h with
    | .savingStart version batch visited m rest campaignVersion =>
      if (s.campaigns m.campaignId).map Stored.version = some campaignVersion then
        (s.saveCampaign m.campaignId campaignVersion .running).tried h version batch visited m rest
          (startMember none (.ok ()) (some .running))
      else s.setPhase h (.startingMember version batch visited m rest)
    | _ => s
  | .saveBatch h =>
    match s.phase h with
    | .saving version batch => (s.setPhase h .idle).saveBatch version batch
    | _ => s
  | .cancelBatch h =>
    match s.phase h with
    | .idle => if s.batch.state = .cancelled then s else s.setPhase h (.cancelling s.batchVersion s.batch [] s.batch.members)
    | _ => s
  | .cancelMember h raises =>
    match s.phase h with
    | .cancelling version batch visited [] => s.setPhase h (.saving version { batch with members := visited, state := .cancelled })
    | .cancelling version batch visited (m :: rest) =>
      if m.status.skipped then s.setPhase h (.cancelling version batch (visited ++ [m]) rest)
      else
        match s.campaigns m.campaignId with
        | none => s.setPhase h (.cancelling version batch (visited ++ [m.cancelled (some "Campaign not found")]) rest)
        | some stored =>
          if stored.state = .completed then
            s.setPhase h (.cancelling version batch (visited ++ [m.cancelled (some "Completed campaign cannot be cancelled")]) rest)
          else if stored.state = .cancelled ∨ raises.isSome = true then
            s.setPhase h (.cancelling version batch (visited ++ [m.cancelled raises]) rest)
          else s.setPhase h (.cancellingMember version batch visited m rest stored.version)
    | _ => s
  | .saveCancelled h raises =>
    match s.phase h with
    | .cancellingMember version batch visited m rest campaignVersion =>
      let overtaken := (s.campaigns m.campaignId).map Stored.version ≠ some campaignVersion
      let reason := if overtaken then some "Campaign changed concurrently; reload and retry" else raises
      (s.setPhase h (.cancelling version batch (visited ++ [m.cancelled reason]) rest)).saveCampaign m.campaignId campaignVersion .cancelled
    | _ => s
  | .crash h => s.setPhase h .idle

/-- The steps of a run, one after the other. -/
def steps (s : System) (l : List Action) : System := l.foldl step s

end HackerOneBatch

end XbowPerso

/-!
## One pass over a batch

`reconcile_hackerone_batch` of a reconciler that no other writer overtakes, from what it finds for each member: the batch that is stored
after the pass, and the starts that were tried in it.
-/

namespace XbowPerso

namespace HackerOneBatch

open Outbox (CampaignState)

/-! ## A pass -/

/-- What a pass finds for a member: the state of its campaign and its jobs, whether a retry is due, the remote revalidation, how
`start_campaign` ends, and the state that is read when it raised. -/
structure Look where
  state : Option CampaignState
  counts : JobCounts
  due : Bool
  remote : Option (MemberStatus × String)
  outcome : Except StartError Unit
  stateAfter : Option CampaignState

/-- What `_start_member` returns. -/
def Look.result (look : Look) : MemberStatus × Option String := startMember look.remote look.outcome look.stateAfter

/-- A try to start a member. -/
structure Attempt where
  index : Nat
  result : MemberStatus × Option String

/-- The remote revalidation was not available. -/
def Attempt.unavailable (a : Attempt) : Bool := decide (a.result = (.ready, some "remote_revalidation_unavailable"))

/-- The loop over the running members. -/
def finishMember (look : Look) (m : Member) : Member :=
  if m.status = .running then
    match memberFinished look.state look.counts with
    | some status => { m with status := status }
    | none => m
  else m

/-- A member that is tried, and the others as they are. -/
def tryMember (looks : Nat → Look) (members : List Member) (i : Nat) : List Member :=
  members.mapIdx fun j m => if j = i then m.started (looks j).result else m

/-- The start of a sequential batch. -/
def startNext (looks : Nat → Look) (members : List Member) : List Member × List Attempt :=
  if members.any (fun m => decide (m.status = .running)) = true then (members, [])
  else
    match members.findIdx? fun m => decide (m.status = .ready) with
    | none => (members, [])
    | some i => if (looks i).due then (tryMember looks members i, [⟨i, (looks i).result⟩]) else (members, [])

/-- Members that a parallel batch tries. -/
def isTried (looks : Nat → Look) (i : Nat) (m : Member) : Bool := decide (m.status = .ready) && (looks i).due

/-- The start of a parallel batch. -/
def startAll (looks : Nat → Look) (members : List Member) : List Member × List Attempt :=
  (members.mapIdx fun i m => if isTried looks i m then m.started (looks i).result else m,
    ((members.mapIdx fun i m => if isTried looks i m then some (Attempt.mk i (looks i).result) else none).filterMap id))

/-- `reconcile_hackerone_batch` without another writer: the batch that is stored after it, and the starts that were tried. -/
def reconcile (looks : Nat → Look) (b : Batch) : Batch × List Attempt :=
  if b.state = .completed ∨ b.state = .cancelled then (b, [])
  else
    let members := b.members.mapIdx fun i m => finishMember (looks i) m
    let started := match b.mode with
      | .sequential => startNext looks members
      | .parallel => startAll looks members
    ({ b with members := started.1, state := batchState started.1 }, started.2)

/-- The batch after some passes. -/
def batchAfter (b : Batch) (run : List (Nat → Look)) : Batch := run.foldl (fun b looks => (reconcile looks b).1) b

/-- The starts that were tried, one pass after the other. -/
def attemptsOf (b : Batch) : List (Nat → Look) → List Attempt
  | [] => []
  | looks :: run => (reconcile looks b).2 ++ attemptsOf (reconcile looks b).1 run

/-- How often a member was tried in a row without a remote revalidation, up to the last try. -/
def streak (i : Nat) (attempts : List Attempt) : Nat :=
  ((attempts.filter fun a => decide (a.index = i)).reverse.takeWhile Attempt.unavailable).length

end HackerOneBatch

end XbowPerso
