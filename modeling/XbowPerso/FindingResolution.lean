import XbowPerso.ApiOutbox
import XbowPerso.ReportApproval

/-!
# The resolution of findings

`validate_finding` resolves a finding, and completes the campaign with the last one; the other requests and the worker add findings, edit
what a review says of them, and save what they observed. Each of them saves under the version that it has read, and others come in
between.
-/

namespace XbowPerso

namespace FindingResolution

open AuditSeal

open Outbox (CampaignState)

open ReportApproval (textEntry hasText)

/-! ## Campaigns -/

inductive FindingStatus where
  | candidate | validationRequired | confirmed | rejected
  deriving DecidableEq

def FindingStatus.resolved : FindingStatus → Bool
  | confirmed | rejected => true
  | _ => false

/-- What a review edits. -/
structure ReviewMetadata where
  summary : String
  impact : String
  reproductionSteps : List String
  remediation : String
  cwe : Json
  cvss : Json

def ReviewMetadata.same (a b : ReviewMetadata) : Bool :=
  decide (a.summary = b.summary) && decide (a.impact = b.impact) && decide (a.reproductionSteps = b.reproductionSteps) &&
    decide (a.remediation = b.remediation) && a.cwe.pyEq b.cwe && a.cvss.pyEq b.cvss

/-- A finding; its other fields are one value. -/
structure Finding where
  id : String
  asset : String
  status : FindingStatus
  discoveredBy : String
  validatedBy : Option String
  review : ReviewMetadata
  content : Json

/-- The comparison of a finding that is sent again, where status and validator are taken from the stored one. -/
def Finding.same (a b : Finding) : Bool :=
  decide (a.id = b.id) && decide (a.asset = b.asset) && decide (a.discoveredBy = b.discoveredBy) && a.review.same b.review &&
    a.content.pyEq b.content

/-- What the requests read and change of a campaign: its findings have an identifier each. -/
structure Campaign where
  state : CampaignState
  findings : Dict String Finding
  events : List AuditEntry

/-- `campaign.findings and all(item.status in {"confirmed", "rejected"} ...)` -/
def Campaign.allResolved (c : Campaign) : Bool := !c.findings.entries.isEmpty && c.findings.values.all fun f => f.status.resolved

inductive ApiError where
  | http (status : Nat) (detail : String)
  | raised (error : PyError)

variable (env : AuditEnv) (secret : ResolvedSecret)

/-- `append_campaign_event` -/
def Campaign.append (c : Campaign) (event : AuditEntry) : Except ApiError Campaign :=
  match CampaignAudit.sealCampaignEvent env secret event c.events with
  | .error e => .error (.raised e)
  | .ok sealedEvent => .ok { c with events := c.events ++ [sealedEvent] }

/-- A finding takes the place of the one under its identifier, or is added. -/
def Campaign.setFinding (c : Campaign) (id : String) (finding : Finding) : Campaign :=
  { c with findings := c.findings.set id finding }

/-- `_append_event_once`: an event of the type with the job is there already, or it is appended. -/
def Campaign.appendOnce (c : Campaign) (event : AuditEntry) : Except ApiError Campaign :=
  if truthy (event.get "job_id") && c.events.any fun e => (e.get "type").pyEq (event.get "type") && (e.get "job_id").pyEq (event.get "job_id")
  then .ok c
  else c.append env secret event

/-- `has_event` -/
def hasEvent (events : List AuditEntry) (type : String) (identity : List (String × String)) : Bool :=
  events.any fun event => hasText event "type" type && identity.all fun f => hasText event f.1 f.2

def rejectCancelledCampaign (c : Campaign) : Except ApiError Unit :=
  if c.state = .cancelled then .error (.http 409 "Campaign is cancelled") else .ok ()

def rejectNewFindingsForClosedCampaign (c : Campaign) : Except ApiError Unit :=
  if c.state = .cancelled then .error (.http 409 "Cannot add findings to cancelled campaign")
  else if c.state = .completed then .error (.http 409 "Cannot add findings to completed campaign")
  else .ok ()

/-! ## The resolution of a finding -/

/-- The identity of the report of the completion. -/
def completionIdentity : List (String × String) :=
  [("request_id", "report:generic:completed"), ("platform", "generic"), ("purpose", "campaign_completion")]

def reportRequestedEvent (time : String) : AuditEntry :=
  textEntry ([("type", "report_requested")] ++ completionIdentity ++ [("at", time)])

/-- A request to resolve a finding, with what `_has_evidence_backed_independent_validation` finds. -/
structure Validation where
  findingId : String
  confirmed : Bool
  validator : String
  backed : Bool
  time : String

def Validation.desiredStatus (v : Validation) : FindingStatus := if v.confirmed then .confirmed else .rejected

/-- What `validate_finding` does with the campaign that it has read. -/
inductive Validated where
  | unchanged
  /-- It goes on to `_ensure_completion_report` with the campaign. -/
  | completion
  /-- It saves the campaign, and goes on if it completed it. -/
  | resolved (campaign : Campaign) (complete : Bool)

/-- `validate_finding`, until the campaign is saved. -/
def validateFinding (c : Campaign) (v : Validation) : Except ApiError Validated := do
  rejectCancelledCampaign c
  match c.findings.get? v.findingId with
  | none => .error (.http 404 "Finding not found")
  | some finding =>
    if v.validator = finding.discoveredBy then .error (.http 409 "Discovery agent cannot validate its own finding")
    else if v.backed = false then
      .error (.http 409 "Finding requires evidence-backed independent validation before resolution")
    else if finding.status = v.desiredStatus ∧ finding.validatedBy = some v.validator then
      .ok (if c.allResolved then .completion else .unchanged)
    else if finding.status.resolved = true ∧ finding.status ≠ v.desiredStatus then
      .error (.http 409 "Finding already has a conflicting validation result")
    else
      let event := (textEntry [("type", "finding_validated"), ("finding_id", finding.id)]).set "confirmed" (.bool v.confirmed)
        (distinct_bool _) |>.set "validator" (.str v.validator) (distinct_str _) |>.set "at" (.str v.time) (distinct_str _)
      let c := c.setFinding v.findingId { finding with status := v.desiredStatus, validatedBy := some v.validator }
      let resolved ← c.append env secret event
      if resolved.allResolved then
        let requested ← resolved.append env secret (reportRequestedEvent v.time)
        return .resolved { requested with state := .completed } true
      else return .resolved resolved false

/-- What one part of the completion does with the campaign that it has read. -/
inductive Completion where
  | done
  | save (campaign : Campaign)
  | next

/-- `_ensure_completion_report`, until the report is queued. -/
def ensureCompletionReport (c : Campaign) (time : String) : Except ApiError Completion :=
  if hasEvent c.events "campaign_completed" completionIdentity then .ok .done
  else if hasEvent c.events "report_requested" completionIdentity = false then
    match c.append env secret (reportRequestedEvent time) with
    | .error e => .error e
    | .ok c => .ok (.save { c with state := .completed })
  else if c.state ≠ .completed then .ok (.save { c with state := .completed })
  else .ok .next

/-- One try of `_reconcile_report_job` for the report of the completion. -/
def reconcileReportJob (c : Campaign) (jobId time : String) : Except ApiError Completion := do
  rejectCancelledCampaign c
  let identity := completionIdentity ++ [("job_id", jobId)]
  if hasEvent c.events "campaign_completed" identity then .ok .done
  else
    let c ← c.append env secret (textEntry ([("type", "campaign_completed")] ++ identity ++ [("report_job_id", jobId), ("at", time)]))
    return .save { c with state := .completed }

/-! ## The other requests, and the worker -/

/-- What else reads a campaign and saves it. -/
inductive Edit where
  /-- `add_finding`, until the validation is queued. -/
  | addFinding (finding : Finding) (inScope : Bool) (time : String)
  /-- `_reconcile_validation_queued` -/
  | reconcileValidationQueued (findingId jobId time : String)
  /-- `update_finding_review_metadata` -/
  | updateFindingReviewMetadata (findingId reviewer time : String) (review : ReviewMetadata)
  /-- `process_validation`, with its events. -/
  | processValidation (findingId : String) (observed : AuditEntry) (failed : Option AuditEntry)
  /-- A scan of the worker, with the findings of `ingest_scanner_run` and what it saves beside them. -/
  | processScan (findings : List Finding) (state : CampaignState) (event : AuditEntry)
  /-- Any other request or job: it changes no finding. -/
  | other (state : CampaignState) (events : List AuditEntry)

def addFinding (c : Campaign) (finding : Finding) (inScope : Bool) (time : String) : Except ApiError (Option Campaign) := do
  rejectNewFindingsForClosedCampaign c
  if inScope = false then .error (.http 403 "Finding asset is outside campaign scope")
  else
    let requestId := "validation:" ++ finding.id
    let identity := [("finding_id", finding.id), ("request_id", requestId)]
    let requested := textEntry ([("type", "validation_requested")] ++ identity ++ [("at", time)])
    match c.findings.get? finding.id with
    | some existing =>
      if finding.same existing = false then .error (.http 409 "Finding id already exists with different content")
      else if hasEvent c.events "validation_queued" identity then .ok none
      else if hasEvent c.events "validation_requested" identity then .ok none
      else (c.append env secret requested).map some
    | none =>
      let c := { c.setFinding finding.id { finding with status := .validationRequired } with state := .validating }
      let c ← Campaign.append env secret c (textEntry [("type", "finding_received"), ("finding_id", finding.id), ("at", time)])
      (c.append env secret requested).map some

def reconcileValidationQueued (c : Campaign) (findingId jobId time : String) : Except ApiError (Option Campaign) := do
  rejectNewFindingsForClosedCampaign c
  match c.findings.get? findingId with
  | none => .error (.http 409 "Finding disappeared during validation queue reconciliation")
  | some current =>
    if current.status ≠ .validationRequired then .error (.http 409 "Cannot queue validation for finding in this state")
    else
      let identity := [("finding_id", findingId), ("request_id", "validation:" ++ findingId), ("job_id", jobId)]
      if hasEvent c.events "validation_queued" identity then .ok none
      else (c.append env secret (textEntry ([("type", "validation_queued")] ++ identity ++ [("at", time)]))).map some

def updateFindingReviewMetadata (c : Campaign) (findingId reviewer time : String) (review : ReviewMetadata) :
    Except ApiError (Option Campaign) := do
  rejectCancelledCampaign c
  match c.findings.get? findingId with
  | none => .error (.http 404 "Finding not found")
  | some finding =>
    if finding.status = .rejected then .error (.http 409 "Rejected finding review metadata is immutable")
    else if finding.status = .candidate then
      .error (.http 409 "Finding must reach human review before metadata can be edited")
    else if finding.review.same review then .ok none
    else
      ((c.setFinding findingId { finding with review := review }).append env secret
        (textEntry [("type", "finding_review_metadata_updated"), ("finding_id", finding.id), ("reviewer", reviewer), ("at", time)])).map some

def processValidation (c : Campaign) (findingId : String) (observed : AuditEntry) (failed : Option AuditEntry) :
    Except ApiError (Option Campaign) :=
  if c.state = .cancelled then .error (.raised (.valueError "campaign is cancelled"))
  else
    match c.findings.get? findingId with
    | none => .error (.raised (.keyError "finding not found"))
    | some finding =>
      if c.state = .completed then .error (.raised (.valueError "completed campaign rejects validation work"))
      else if finding.status ≠ .validationRequired then .error (.raised (.valueError "stale validation job for finding"))
      else if finding.discoveredBy = "independent-http-validator" then
        .error (.raised (.valueError "discovery agent cannot validate its own finding"))
      else
        match c.appendOnce env secret observed with
        | .error e => .error e
        | .ok c =>
          let c := c.setFinding findingId { finding with status := .validationRequired }
          match failed with
          | none => .ok (some c)
          | some event => (c.appendOnce env secret event).map some

/-- The loop of `ingest_scanner_run`: a finding whose identifier is new is added. -/
def ingest (c : Campaign) (findings : List Finding) : Campaign :=
  findings.foldl (fun c finding => if (c.findings.get? finding.id).isSome then c
    else c.setFinding finding.id finding) c

def processScan (c : Campaign) (findings : List Finding) (state : CampaignState) (event : AuditEntry) :
    Except ApiError (Option Campaign) :=
  if c.state = .cancelled then .error (.raised (.valueError "campaign is cancelled"))
  else (Campaign.appendOnce env secret { ingest c findings with state := state } event).map some

def Edit.apply (c : Campaign) : Edit → Except ApiError (Option Campaign)
  | .addFinding finding inScope time => FindingResolution.addFinding env secret c finding inScope time
  | .reconcileValidationQueued findingId jobId time => FindingResolution.reconcileValidationQueued env secret c findingId jobId time
  | .updateFindingReviewMetadata findingId reviewer time review =>
    FindingResolution.updateFindingReviewMetadata env secret c findingId reviewer time review
  | .processValidation findingId observed failed => FindingResolution.processValidation env secret c findingId observed failed
  | .processScan findings state event => FindingResolution.processScan env secret c findings state event
  | .other state events => .ok (some { c with state := state, events := c.events ++ events })

/-! ## The system -/

/-- What a request does once its save has gone through. -/
inductive Next where
  | stop
  /-- It reads the campaign again, and goes on to `_ensure_completion_report`. -/
  | resume
  /-- It queues the report of the completion. -/
  | queue
  deriving DecidableEq

/-- Where a request, or a job of the worker, is. -/
inductive Phase where
  | idle
  | saving (version : Nat) (campaign : Campaign) (next : Next)
  | resuming
  | completing (version : Nat) (campaign : Campaign)
  | queueing
  | reconciling (tries : Nat)
  | recording (version : Nat) (campaign : Campaign) (tries : Nat)

/-- The stored campaign, what is under way, and every campaign that was stored, with who stored it. -/
structure System where
  version : Nat
  campaign : Campaign
  phase : Nat → Phase
  stored : List (Nat × Campaign)

def System.setPhase (s : System) (h : Nat) (p : Phase) : System := { s with phase := Function.update s.phase h p }

/-- `save_campaign` under an expected version. -/
def System.save (s : System) (h version : Nat) (campaign : Campaign) (saved conflict : Phase) : System :=
  if version = s.version then
    { s.setPhase h saved with version := s.version + 1, campaign := campaign, stored := s.stored ++ [(h, campaign)] }
  else s.setPhase h conflict

inductive Action where
  | validate (h : Nat) (v : Validation)
  | edit (h : Nat) (e : Edit)
  | save (h : Nat)
  | resume (h : Nat)
  | complete (h : Nat) (time : String)
  | queue (h : Nat)
  | reconcile (h : Nat) (jobId time : String)
  | record (h : Nat)
  | crash (h : Nat)

/-- One step. What is raised ends the request. -/
def step (s : System) : Action → System
  | .validate h v =>
    match s.phase h with
    | .idle =>
      match validateFinding env secret s.campaign v with
      | .error _ => s
      | .ok .unchanged => s
      | .ok .completion => s.setPhase h (.completing s.version s.campaign)
      | .ok (.resolved campaign complete) => s.setPhase h (.saving s.version campaign (if complete then .resume else .stop))
    | _ => s
  | .edit h e =>
    match s.phase h with
    | .idle =>
      match e.apply env secret s.campaign with
      | .error _ => s
      | .ok none => s
      | .ok (some campaign) => s.setPhase h (.saving s.version campaign .stop)
    | _ => s
  | .save h =>
    match s.phase h with
    | .saving version campaign .stop => s.save h version campaign .idle .idle
    | .saving version campaign .resume => s.save h version campaign .resuming .idle
    | .saving version campaign .queue => s.save h version campaign .queueing .idle
    | _ => s
  | .resume h =>
    match s.phase h with
    | .resuming => s.setPhase h (.completing s.version s.campaign)
    | _ => s
  | .complete h time =>
    match s.phase h with
    | .completing version campaign =>
      match ensureCompletionReport env secret campaign time with
      | .error _ => s.setPhase h .idle
      | .ok .done => s.setPhase h .idle
      | .ok (.save campaign) => s.setPhase h (.saving version campaign .queue)
      | .ok .next => s.setPhase h .queueing
    | _ => s
  | .queue h =>
    match s.phase h with
    | .queueing => if s.campaign.state = .cancelled then s.setPhase h .idle else s.setPhase h (.reconciling 3)
    | _ => s
  | .reconcile h jobId time =>
    match s.phase h with
    | .reconciling 0 => s.setPhase h .idle
    | .reconciling (tries + 1) =>
      match reconcileReportJob env secret s.campaign jobId time with
      | .error _ => s.setPhase h .idle
      | .ok (.save campaign) => s.setPhase h (.recording s.version campaign tries)
      | .ok _ => s.setPhase h .idle
    | _ => s
  | .record h =>
    match s.phase h with
    | .recording version campaign tries => s.save h version campaign .idle (.reconciling tries)
    | _ => s
  | .crash h => s.setPhase h .idle

/-- The steps of a run, one after the other. -/
def steps (s : System) (l : List Action) : System := l.foldl (step env secret) s

end FindingResolution

end XbowPerso
