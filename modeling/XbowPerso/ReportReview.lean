import XbowPerso.ReportReadiness

/-!
# The review of reports

Two routers approve a report and revoke its approval, each with checks of its own: the one for approvals asks that the campaign is not
cancelled, the one for submissions that its confirmed findings are ready. Both append to the same events. The answers of requests that
go through are left out.
-/

namespace XbowPerso

namespace ReportReview

open AuditSeal ReportApproval ReportReadiness

/-! ## What the routers share -/

/-- What the requests on a campaign find: its document with the version, its observations as they are listed, its artifacts, and the
files that the artifacts name. -/
structure Desk where
  version : Nat
  campaign : Campaign
  observations : List ObservationRow
  artifacts : ArtifactStore
  file : String → Option (List UInt8)

/-- Why a request is refused. -/
inductive Refusal where
  | http (status : Nat) (detail : String)
  /-- The body does not pass the model of the input. -/
  | unprocessable
  | raised (error : PyError)

/-- `except ValueError` answers with the text of the error. -/
def badRequest : PyError → Refusal
  | .valueError message => .http 400 message
  | e => .raised e

variable (env : ReviewEnv) (secret : ResolvedSecret)

/-- `read_artifact`. -/
def Desk.read (s : Desk) (artifactId : String) : Except ReadError (Artifact × List UInt8) :=
  readArtifact env.audit.sha s.artifacts (s.file artifactId) artifactId

/-- `approval_status_from_storage`. -/
def approvalStatusFromStorage (s : Desk) (artifactId : String) : Except ReadError ReportApprovalStatus :=
  match s.read env artifactId with
  | .error e => .error e
  | .ok (artifact, _) =>
    if artifact.kind ≠ "report" then .error (.invalid (.valueError "only report artifacts have approval status"))
    else .ok (approvalStatus env.audit s.campaign artifact)

/-- `approval_event_from_storage`. -/
def approvalEventFromStorage (s : Desk) (artifactId reviewer time : String) : Except ReadError AuditEntry :=
  match s.read env artifactId with
  | .error e => .error e
  | .ok (artifact, _) =>
    match approvalEvent env.audit s.campaign artifact reviewer time with
    | .error e => .error (.invalid e)
    | .ok event => .ok event

/-- `current.approved and current.reviewer == reviewer`. -/
def isApprovedBy (current : ReportApprovalStatus) (reviewer : String) : Bool :=
  current.approved && current.reviewer.pyEq (.str reviewer)

/-- `append_campaign_event` and the save of the campaign. -/
def Desk.append (s : Desk) (event : AuditEntry) : Except Refusal Desk :=
  match CampaignAudit.sealCampaignEvent env.audit secret event s.campaign.events with
  | .error e => .error (.raised e)
  | .ok sealedEvent =>
    .ok { s with version := s.version + 1, campaign := { s.campaign with events := s.campaign.events ++ [sealedEvent] } }

/-- The latest of the approvals of an artifact and their revocations. -/
def latestRelevant (s : Desk) (artifactId : String) : Option AuditEntry :=
  (s.campaign.events.filter (isApprovalEvent artifactId)).getLast?

/-! ## The router for approvals -/

namespace ApprovalApi

/-- `ReportApprovalInput`: the reviewer of its body. -/
def reportApprovalInput (reviewer : String) : Except Refusal String :=
  if reviewer.length < 1 ∨ 120 < reviewer.length ∨ PyText.strip reviewer = "" then .error .unprocessable
  else .ok (PyText.strip reviewer)

/-- What becomes of an artifact that cannot be read. -/
def refusal : ReadError → Refusal
  | .notFound => .http 404 "Report artifact not found"
  | .integrity reason => .http 409 ("Report artifact integrity verification failed: " ++ reason)
  | .invalid e => badRequest e

/-- `approve_report`. -/
def approveReport (s : Desk) (artifactId reviewer time : String) : Except Refusal Desk :=
  match reportApprovalInput reviewer with
  | .error r => .error r
  | .ok reviewer =>
    if s.campaign.cancelled then .error (.http 409 "Campaign is cancelled")
    else
      match approvalStatusFromStorage env s artifactId with
      | .error e => .error (refusal e)
      | .ok current =>
        if isApprovedBy current reviewer then .ok s
        else
          match approvalEventFromStorage env s artifactId reviewer time with
          | .error e => .error (refusal e)
          | .ok event => s.append env secret event

/-- `revoke_report_approval`. -/
def revokeReportApproval (s : Desk) (artifactId reviewer time : String) : Except Refusal Desk :=
  match reportApprovalInput reviewer with
  | .error r => .error r
  | .ok reviewer =>
    if s.campaign.cancelled then .error (.http 409 "Campaign is cancelled")
    else
      match approvalStatusFromStorage env s artifactId with
      | .error e => .error (refusal e)
      | .ok _ =>
        if (latestRelevant s artifactId).any fun latest => hasText latest "type" "report_approved" then
          match revocationEvent artifactId reviewer time with
          | .error e => .error (.raised e)
          | .ok event => s.append env secret event
        else .error (.http 409 "Report has no active approval to revoke")

end ApprovalApi

/-! ## The router for submissions -/

namespace SubmissionApi

/-- `_verified_report`. -/
def verifiedReport (s : Desk) (artifactId : String) : Except Refusal Artifact :=
  match s.read env artifactId with
  | .error .notFound => .error (.http 404 "Report artifact not found")
  | .error (.integrity _) => .error (.http 409 "Report artifact integrity verification failed")
  | .error (.invalid e) => .error (.raised e)
  | .ok (artifact, _) =>
    if artifact.kind ≠ "report" then .error (.http 409 "Artifact is not a report") else .ok artifact

/-- An artifact that cannot be read any more is not what the request expects. -/
def refusal (artifactId : String) : ReadError → Refusal
  | .notFound => .raised (.keyError artifactId)
  | .integrity _ => .raised .integrityError
  | .invalid e => badRequest e

/-- `approve_report`. -/
def approveReport (s : Desk) (artifactId reviewer time : String) : Except Refusal Desk :=
  match verifiedReport env s artifactId with
  | .error r => .error r
  | .ok _ =>
    match assertReportReviewReady env s.campaign s.observations with
    | .error e => .error (badRequest e)
    | .ok () =>
      match approvalStatusFromStorage env s artifactId with
      | .error e => .error (refusal artifactId e)
      | .ok current =>
        if PyText.strip reviewer = "" then .error (.http 400 "reviewer is required")
        else if isApprovedBy current (PyText.strip reviewer) then .ok s
        else
          match approvalEventFromStorage env s artifactId (PyText.strip reviewer) time with
          | .error e => .error (refusal artifactId e)
          | .ok event => s.append env secret event

/-- `revoke_report_approval`. -/
def revokeReportApproval (s : Desk) (artifactId reviewer time : String) : Except Refusal Desk :=
  match verifiedReport env s artifactId with
  | .error r => .error r
  | .ok _ =>
    if PyText.strip reviewer = "" then .error (.http 400 "reviewer is required")
    else if (latestRelevant s artifactId).any fun latest => hasText latest "type" "report_approval_revoked" then .ok s
    else
      match revocationEvent artifactId (PyText.strip reviewer) time with
      | .error e => .error (.raised e)
      | .ok event => s.append env secret event

end SubmissionApi

/-! ## Runs -/

inductive Router where
  | approval
  | submission
  deriving DecidableEq

/-- A request on the campaign. -/
inductive Request where
  | approve (router : Router) (artifactId reviewer time : String)
  | revoke (router : Router) (artifactId reviewer time : String)
  /-- Any other request: it makes a new document, to whose events it has added some, and it may change what else there is. -/
  | other (after : Desk) (appended : List AuditEntry)

/-- What a request makes of the desk, or why it is refused. -/
def handle (s : Desk) : Request → Except Refusal Desk
  | .approve .approval artifactId reviewer time => ApprovalApi.approveReport env secret s artifactId reviewer time
  | .approve .submission artifactId reviewer time => SubmissionApi.approveReport env secret s artifactId reviewer time
  | .revoke .approval artifactId reviewer time => ApprovalApi.revokeReportApproval env secret s artifactId reviewer time
  | .revoke .submission artifactId reviewer time => SubmissionApi.revokeReportApproval env secret s artifactId reviewer time
  | .other after appended => .ok { after with campaign := { after.campaign with events := s.campaign.events ++ appended } }

/-- One request. A request that is refused changes nothing. -/
def step (s : Desk) (request : Request) : Desk :=
  match handle env secret s request with
  | .error _ => s
  | .ok s' => s'

/-- The requests of a run, one after the other. -/
def steps (s : Desk) (l : List Request) : Desk := l.foldl (step env secret) s

/-- Only the two routers append approvals. -/
def Admissible : Request → Prop
  | .other _ appended => ∀ event ∈ appended, hasText event "type" "report_approved" = false
  | _ => True

/-- An approval that was not among the events. -/
def Approves (s s' : Desk) (event : AuditEntry) : Prop :=
  event ∈ s'.campaign.events.drop s.campaign.events.length ∧ hasText event "type" "report_approved" = true

end ReportReview

end XbowPerso
