import XbowPerso.ReportApproval

/-!
# The submission of a report to HackerOne

`submit_hackerone_report` checks the campaign that it has read, saves an attempt, makes the request, reads the campaign again and saves
what became of it. Both saves are conditional on the version that was read. Other requests on the campaign, and other submissions, come
in between; a crash may end a submission anywhere.
-/

namespace XbowPerso

namespace HackerOneSubmission

open AuditSeal ReportApproval

/-! ## The checks -/

/-- A text of a JSON object, as `get` finds it. -/
def field (fields : List (String × Json)) (key : String) : Json := (fields.lookup key).getD .null

/-- The handle that a policy binding verifies. -/
def boundHandle (event : AuditEntry) : Option String :=
  match event.get "remote_binding" with
  | .obj binding =>
    match field binding "verified", field binding "handle" with
    | .bool true, .str handle => if PyText.strip handle = "" then none else some (PyText.strip handle)
    | _, _ => none
  | _ => none

/-- `_verified_remote_team_handle`: the latest binding counts. -/
def verifiedRemoteTeamHandle (events : List AuditEntry) : Option String :=
  (events.reverse.find? fun event => hasText event "type" "hackerone_policy_bound").bind boundHandle

/-- An event that says what became of the attempt of a request. -/
def resolves (requestId : Json) (event : AuditEntry) : Bool :=
  (event.get "request_id").pyEq requestId &&
    (hasText event "type" "hackerone_report_submitted" || hasText event "type" "hackerone_submission_rejected")

/-- `_unresolved_hackerone_attempt`. -/
def unresolvedHackeroneAttempt (events : List AuditEntry) (artifactId : String) : Option AuditEntry :=
  match (events.zipIdx.filter fun e => isAbout "hackerone_submission_attempted" artifactId e.1).getLast? with
  | none => none
  | some (latest, index) =>
    if (events.drop (index + 1)).any (resolves (latest.get "request_id")) then none else some latest

/-- The report as it is sent. -/
structure Outbound where
  teamHandle : String
  title : Json
  vulnerabilityInformation : String
  impact : Json
  severityRating : Json

/-- An attempt: what is sent, and what the events say about it. The artifact is named as the request named it. -/
structure Attempt where
  artifactId : String
  artifact : Artifact
  requestId : String
  actor : String
  outbound : Outbound

/-- What the API raises. -/
inductive SubmissionError where
  | http (status : Nat) (detail : String)
  | raised (error : PyError)

/-- `bytes.decode("utf-8")`. -/
def decodeUtf8 (bytes : List UInt8) : Option String := String.fromUTF8? ⟨bytes.toArray⟩

/-- `"none" if finding.severity == "info" else finding.severity`. -/
def severityRating (finding : AuditEntry) : Json := if hasText finding "severity" "info" then .str "none" else finding.get "severity"

/-- What a check reads besides the campaign: the setting, the file of the artifact each time it is read, and the new identifier. -/
structure Circumstances where
  enabled : Bool
  file : Option (List UInt8)
  fileAgain : Option (List UInt8)
  requestId : String

/-- The checks of `submit_hackerone_report`: the attempt that is to be made, or none when the report is submitted already. -/
def check (env : AuditEnv) (store : ArtifactStore) (c : Circumstances) (campaign : Campaign) (artifactId actor : String) :
    Except SubmissionError (Option Attempt) :=
  if c.enabled = false then .error (.http 409 "HackerOne external submission is disabled")
  else
    match readArtifact env.sha store c.file artifactId with
    | .error (.invalid e) => .error (.raised e)
    | .error .notFound => .error (.http 404 "Report artifact not found")
    | .error (.integrity _) => .error (.http 409 "Report artifact integrity verification failed")
    | .ok (artifact, reportBytes) =>
      if artifact.kind ≠ "report" then .error (.http 409 "Artifact is not a report")
      else
        match submissionStatus env campaign artifact with
        | .error e => .error (.raised e)
        | .ok current =>
          if current.state = .submitted then
            if (current.platform).pyEq (.str "hackerone") = false then
              .error (.http 409 "Report is already marked submitted to another platform")
            else .ok none
          else if (unresolvedHackeroneAttempt campaign.events artifactId).isSome then
            .error (.http 409 "Previous HackerOne submission attempt is unresolved; reconcile it before retrying")
          else
            match readArtifact env.sha store c.fileAgain artifactId with
            | .error _ => .error (.http 409 "Report approval could not be verified")
            | .ok (artifactAgain, _) =>
              let approval := approvalStatus env campaign artifactAgain
              if approval.approved = false ∨ approval.stale = true then
                .error (.http 409 "HackerOne submission requires current human approval")
              else
                match confirmedFindings campaign with
                | [finding] =>
                  if PyText.strip ((text? (finding.get "impact")).getD "") = "" then
                    .error (.http 409 "HackerOne direct submission requires reviewed impact text")
                  else
                    match verifiedRemoteTeamHandle campaign.events with
                    | none => .error (.http 409 "HackerOne external submission requires a verified remote program binding")
                    | some teamHandle =>
                      match decodeUtf8 reportBytes with
                      | none => .error (.http 409 "Approved report artifact is not valid UTF-8")
                      | some reportText =>
                        .ok (some ⟨artifactId, artifact, c.requestId, actor, ⟨teamHandle, finding.get "title", reportText,
                          finding.get "impact", severityRating finding⟩⟩)
                | _ => .error (.http 409 "HackerOne direct submission requires exactly one confirmed finding")

/-! ## The events of an attempt -/

/-- The event of an attempt. -/
def attemptedEvent (a : Attempt) (time : String) : AuditEntry :=
  textEntry [("type", "hackerone_submission_attempted"), ("artifact_id", a.artifactId), ("artifact_sha256", a.artifact.sha256),
    ("request_id", a.requestId), ("team_handle", a.outbound.teamHandle), ("actor", a.actor), ("at", time)]

/-- The event of a rejection. -/
def rejectedEvent (a : Attempt) (statusCode : Int) (time : String) : AuditEntry :=
  (textEntry [("type", "hackerone_submission_rejected"), ("artifact_id", a.artifactId), ("request_id", a.requestId)]).set "status_code"
    (.int statusCode) (distinct_int _) |>.set "at" (.str time) (distinct_str _)

/-- The event of a report that was created. -/
def submittedEvent (a : Attempt) (remoteReportId time : String) : AuditEntry :=
  textEntry [("type", "hackerone_report_submitted"), ("artifact_id", a.artifactId), ("artifact_sha256", a.artifact.sha256),
    ("request_id", a.requestId), ("remote_report_id", remoteReportId), ("team_handle", a.outbound.teamHandle), ("actor", a.actor),
    ("at", time)]

/-- What the request brings: a valid answer, a rejection, or nothing that can be used; then the report may have been created or not. -/
inductive Answer where
  | accepted (remoteReportId : String)
  | rejected (statusCode : Int)
  | lost (created : Bool)

/-- Whether a report was created remotely. -/
def Answer.created : Answer → Bool
  | accepted _ => true
  | rejected _ => false
  | lost created => created

/-- The events that the handler appends once it has an answer. -/
def outcomeEvents (a : Attempt) (time : String) : Answer → Except PyError (List AuditEntry)
  | .accepted remoteReportId =>
    match submissionEvent a.artifactId a.actor "hackerone" time with
    | .error e => .error e
    | .ok event => .ok [submittedEvent a remoteReportId time, event]
  | .rejected statusCode => .ok [rejectedEvent a statusCode time]
  | .lost _ => .ok []

/-- Events appended one after the other, each sealed on those before it. -/
def appendAll (env : AuditEnv) (secret : ResolvedSecret) : List AuditEntry → List AuditEntry → Except PyError (List AuditEntry)
  | events, [] => .ok events
  | events, event :: rest =>
    match CampaignAudit.sealCampaignEvent env secret event events with
    | .error e => .error e
    | .ok sealedEvent => appendAll env secret (events ++ [sealedEvent]) rest

/-! ## The system -/

/-- Where a submission is. -/
inductive Phase where
  | idle
  /-- The checks passed on the campaign that was read. -/
  | checked (version : Nat) (campaign : Campaign) (attempt : Attempt)
  /-- The attempt was saved with this campaign. -/
  | attempted (saved : Campaign) (attempt : Attempt)
  /-- The request brought an answer. -/
  | answered (attempt : Attempt) (answer : Answer)
  /-- The campaign was read again. -/
  | recording (version : Nat) (campaign : Campaign) (attempt : Attempt) (answer : Answer)

/-- A request that was made: the campaign saved with its attempt, the attempt, and the events stored when it was made. -/
structure Post where
  saved : Campaign
  attempt : Attempt
  events : List AuditEntry
  created : Bool

/-- The stored campaign, the submissions, and the record of what happened: the requests made, and the approvals given, each with the
campaign and the artifact that it was given for. -/
structure System where
  version : Nat
  campaign : Campaign
  phase : Nat → Phase
  posts : List Post
  approvals : List (AuditEntry × Campaign × Artifact)

def System.setPhase (s : System) (h : Nat) (p : Phase) : System := { s with phase := Function.update s.phase h p }

/-- The types of the events that only the modelled steps append. -/
def ownTypes : List String :=
  ["report_approved", "hackerone_submission_attempted", "hackerone_report_submitted", "hackerone_submission_rejected"]

/-- What happens next. The save of another request counts as one step, as it goes through on the campaign that it has read only. -/
inductive Action where
  /-- A submission reads the campaign and makes its checks. -/
  | check (h : Nat) (c : Circumstances) (artifactId actor : String)
  | saveAttempt (h : Nat) (time : String)
  | post (h : Nat) (answer : Answer)
  | reread (h : Nat)
  | record (h : Nat) (time : String)
  | crash (h : Nat)
  /-- An approval, through either router, of an artifact that was read. -/
  | approve (artifactId : String) (file : Option (List UInt8)) (reviewer time : String)
  /-- Any other request: it changes the campaign but its events, and appends events of other types. -/
  | edit (campaign : Campaign) (appended : List AuditEntry)

variable (env : AuditEnv) (secret : ResolvedSecret) (store : ArtifactStore)

/-- One step. A step that raises ends its submission, or has no effect. -/
def step (s : System) : Action → System
  | .check h c artifactId actor =>
    match s.phase h with
    | .idle =>
      match check env store c s.campaign artifactId actor with
      | .ok (some attempt) => s.setPhase h (.checked s.version s.campaign attempt)
      | _ => s
    | _ => s
  | .saveAttempt h time =>
    match s.phase h with
    | .checked version campaign attempt =>
      match appendAll env secret campaign.events [attemptedEvent attempt time] with
      | .error _ => s.setPhase h .idle
      | .ok events =>
        if version = s.version then
          let saved := { campaign with events := events }
          { s.setPhase h (.attempted saved attempt) with version := s.version + 1, campaign := saved }
        else s.setPhase h .idle
    | _ => s
  | .post h answer =>
    match s.phase h with
    | .attempted saved attempt =>
      let s := { s with posts := s.posts ++ [Post.mk saved attempt s.campaign.events answer.created] }
      match answer with
      | .lost _ => s.setPhase h .idle
      | answer => s.setPhase h (.answered attempt answer)
    | _ => s
  | .reread h =>
    match s.phase h with
    | .answered attempt answer => s.setPhase h (.recording s.version s.campaign attempt answer)
    | _ => s
  | .record h time =>
    match s.phase h with
    | .recording version campaign attempt answer =>
      match outcomeEvents attempt time answer with
      | .error _ => s.setPhase h .idle
      | .ok appended =>
        match appendAll env secret campaign.events appended with
        | .error _ => s.setPhase h .idle
        | .ok events =>
          if version = s.version then
            { s.setPhase h .idle with version := s.version + 1, campaign := { campaign with events := events } }
          else s.setPhase h .idle
    | _ => s
  | .crash h => s.setPhase h .idle
  | .approve artifactId file reviewer time =>
    match readArtifact env.sha store file artifactId with
    | .error _ => s
    | .ok (artifact, _) =>
      match approvalEvent env s.campaign artifact reviewer time with
      | .error _ => s
      | .ok event =>
        match CampaignAudit.sealCampaignEvent env secret event s.campaign.events with
        | .error _ => s
        | .ok sealedEvent =>
          { s with
            version := s.version + 1
            campaign := { s.campaign with events := s.campaign.events ++ [sealedEvent] }
            approvals := s.approvals ++ [(sealedEvent, s.campaign, artifact)] }
  | .edit campaign appended =>
    match appendAll env secret s.campaign.events appended with
    | .error _ => s
    | .ok events => { s with version := s.version + 1, campaign := { campaign with events := events } }

/-- What the steps rely on: a new identifier was not used before, and no other request appends events of the modelled steps' types. -/
def Admissible (s : System) : Action → Prop
  | .check h c _ _ =>
    (∀ event ∈ s.campaign.events, hasText event "request_id" c.requestId = false) ∧
      ∀ h', h' ≠ h → ∀ version campaign attempt, s.phase h' = .checked version campaign attempt → attempt.requestId ≠ c.requestId
  | .edit _ appended => ∀ event ∈ appended, ∀ type ∈ ownTypes, hasText event "type" type = false
  | _ => True

/-- The steps of a run, one after the other. -/
def steps (s : System) (l : List Action) : System := l.foldl (step env secret store) s

/-- A run whose every step is admissible. -/
def AdmissibleRun : System → List Action → Prop
  | _, [] => True
  | s, a :: l => Admissible s a ∧ AdmissibleRun (step env secret store s a) l

/-- A campaign without approvals and submissions, and no request under way. -/
structure Initial (s : System) : Prop where
  idle : ∀ h, s.phase h = .idle
  posts : s.posts = []
  approvals : s.approvals = []
  events : ∀ event ∈ s.campaign.events, ∀ type ∈ ownTypes, hasText event "type" type = false

end HackerOneSubmission

end XbowPerso
