import XbowPerso.CampaignAudit
import XbowPerso.Lib.JsonAscii

/-!
# The approval of reports

An approval names the digest of the report's bytes and the digest of what the campaign says at that moment, and it counts as long as both
are the current ones. `submission_status` folds the approvals and the submissions of a report into its state.
-/

namespace XbowPerso

namespace ReportApproval

open AuditSeal

/-! ## Campaigns, artifacts and events -/

/-- The fields of a finding that are texts. -/
def findingTexts : List String := ["title", "severity", "status", "impact"]

/-- What the approval reads of a campaign. A finding is the dictionary that it is stored as. -/
structure Campaign where
  cancelled : Bool
  primaryUrl : String
  authorizationReference : String
  allowedTargets : List String
  deniedTargets : List String
  findings : List AuditEntry
  events : List AuditEntry
  findings_texts : ∀ finding ∈ findings, ∀ key ∈ findingTexts, ∃ s, finding.get key = .str s

/-- The record of an artifact. -/
structure Artifact where
  id : Ident
  sha256 : String
  sizeBytes : Nat
  kind : String
  deriving DecidableEq

/-- The records of the artifacts of a campaign, which are written once. -/
structure ArtifactStore where
  record : Ident → Option Artifact
  id_eq : ∀ id artifact, record id = some artifact → artifact.id = id

/-- Why an artifact cannot be read. -/
inductive ReadError where
  | invalid (error : PyError)
  | notFound
  | integrity (reason : String)

/-- `read_artifact`: the record and the bytes of its file. -/
def readArtifact (sha : Sha256) (store : ArtifactStore) (file : Option (List UInt8)) (artifactId : String) :
    Except ReadError (Artifact × List UInt8) :=
  match storageIdentifier artifactId "artifact_id" with
  | .error e => .error (.invalid e)
  | .ok id =>
    match store.record id with
    | none => .error .notFound
    | some artifact =>
      match file with
      | none => .error (.integrity "artifact content is missing")
      | some content =>
        if content.length ≠ artifact.sizeBytes then .error (.integrity "artifact size mismatch")
        else if sha.hex content ≠ artifact.sha256 then .error (.integrity "artifact sha256 mismatch")
        else .ok (artifact, content)

/-- An entry whose fields are texts. -/
def textEntry (fields : List (String × String)) : AuditEntry :=
  fields.foldl (fun entry f => entry.set f.1 (.str f.2) (distinct_str _)) ⟨.empty, distinct_empty⟩

/-- `event.get(key) == value` for a text. -/
def hasText (event : AuditEntry) (key value : String) : Bool := (event.get key).pyEq (.str value)

/-- An event of a type about an artifact. -/
def isAbout (type artifactId : String) (event : AuditEntry) : Bool := hasText event "artifact_id" artifactId && hasText event "type" type

/-! ## The basis of an approval -/

/-- `str(item.get("id", ""))`. -/
def findingKey (env : AuditEnv) (finding : AuditEntry) : String := env.str ((finding.fields.get? "id").getD (.str ""))

def confirmedFindings (campaign : Campaign) : List AuditEntry := campaign.findings.filter fun f => hasText f "status" "confirmed"

def texts (l : List String) : Json := .arr (l.map Json.str)

/-- `sorted(values)`. -/
def sortedTexts (l : List String) : List String := l.insertionSort fun a b => a ≤ b

/-- What `report_basis_digest` digests. -/
def basisPayload (env : AuditEnv) (campaign : Campaign) (artifact : Artifact) : Json :=
  .obj [("artifact", .obj [("id", .str artifact.id.text), ("sha256", .str artifact.sha256), ("kind", .str artifact.kind)]),
    ("target", .str campaign.primaryUrl), ("authorization_reference", .str campaign.authorizationReference),
    ("allowed_targets", texts (sortedTexts campaign.allowedTargets)), ("denied_targets", texts (sortedTexts campaign.deniedTargets)),
    ("confirmed_findings", .arr (((confirmedFindings campaign).insertionSort fun a b => findingKey env a ≤ findingKey env b).map
      fun f => .obj f.fields.entries))]

/-- `report_basis_digest`. -/
def reportBasisDigest (env : AuditEnv) (campaign : Campaign) (artifact : Artifact) : String :=
  env.sha.hex (utf8 (basisPayload env campaign artifact).dumpsAscii)

/-! ## Events of approvals and submissions -/

/-- `approval_event`. -/
def approvalEvent (env : AuditEnv) (campaign : Campaign) (artifact : Artifact) (reviewer time : String) : Except PyError AuditEntry :=
  if PyText.strip reviewer = "" then .error (.valueError "reviewer is required")
  else if artifact.kind ≠ "report" then .error (.valueError "only report artifacts can be approved")
  else .ok (textEntry [("type", "report_approved"), ("artifact_id", artifact.id.text), ("artifact_sha256", artifact.sha256),
    ("basis_digest", reportBasisDigest env campaign artifact), ("reviewer", PyText.strip reviewer), ("at", time)])

/-- `revocation_event`. -/
def revocationEvent (artifactId reviewer time : String) : Except PyError AuditEntry :=
  if PyText.strip reviewer = "" then .error (.valueError "reviewer is required")
  else .ok (textEntry [("type", "report_approval_revoked"), ("artifact_id", artifactId), ("reviewer", PyText.strip reviewer),
    ("at", time)])

/-- `submission_event`. -/
def submissionEvent (artifactId actor platform time : String) : Except PyError AuditEntry :=
  if PyText.strip artifactId = "" then .error (.valueError "submission artifact id is required")
  else if PyText.strip actor = "" then .error (.valueError "submission actor is required")
  else if PyText.strip platform = "" then .error (.valueError "submission platform is required")
  else if PyText.strip time = "" then .error (.valueError "submission timestamp is required")
  else .ok (textEntry [("type", "report_submitted"), ("artifact_id", PyText.strip artifactId), ("actor", PyText.strip actor),
    ("platform", PyText.strip platform), ("at", PyText.strip time)])

/-! ## The status of an approval -/

structure ReportApprovalStatus where
  artifactId : String
  artifactSha256 : String
  approved : Bool
  stale : Bool
  reviewer : Json
  approvedAt : Json
  basisDigest : String

/-- An approval of an artifact, or its revocation. -/
def isApprovalEvent (artifactId : String) (event : AuditEntry) : Bool :=
  isAbout "report_approved" artifactId event || isAbout "report_approval_revoked" artifactId event

/-- `approval_status`. -/
def approvalStatus (env : AuditEnv) (campaign : Campaign) (artifact : Artifact) : ReportApprovalStatus :=
  let currentDigest := reportBasisDigest env campaign artifact
  match (campaign.events.filter (isApprovalEvent artifact.id.text)).getLast? with
  | none => ⟨artifact.id.text, artifact.sha256, false, false, .null, .null, currentDigest⟩
  | some latest =>
    if hasText latest "type" "report_approval_revoked" then
      ⟨artifact.id.text, artifact.sha256, false, false, latest.get "reviewer", .null, currentDigest⟩
    else
      let stale := !hasText latest "artifact_sha256" artifact.sha256 || !hasText latest "basis_digest" currentDigest
      ⟨artifact.id.text, artifact.sha256, !stale, stale, latest.get "reviewer", latest.get "at", currentDigest⟩

/-! ## The state of a submission -/

inductive SubmissionState where
  | draft | reviewRequired | approved | submitted
  deriving DecidableEq

structure SubmissionStatus where
  artifactId : String
  state : SubmissionState
  approved : Bool
  stale : Bool
  reviewer : Json
  submittedAt : Json
  submittedBy : Json
  platform : Json

/-- `submission_status`. -/
def submissionStatus (env : AuditEnv) (campaign : Campaign) (artifact : Artifact) : Except PyError SubmissionStatus :=
  if artifact.kind ≠ "report" then .error (.valueError "only report artifacts have submission state")
  else
    let approval := approvalStatus env campaign artifact
    let approvalEvents := campaign.events.zipIdx.filter fun e => isApprovalEvent artifact.id.text e.1
    let revoked := approvalEvents.getLast?.any fun e => hasText e.1 "type" "report_approval_revoked"
    let allSubmissions := campaign.events.zipIdx.filter fun e => isAbout "report_submitted" artifact.id.text e.1
    if approval.approved = false then
      let state := if allSubmissions ≠ [] ∨ approval.stale = true ∨ revoked = true then .reviewRequired else .draft
      .ok ⟨artifact.id.text, state, false, approval.stale, approval.reviewer, .null, .null, .null⟩
    else
      let latestApprovalIndex : Int := match approvalEvents.getLast? with
        | none => -1
        | some e => e.2
      match (allSubmissions.filter fun e => decide (latestApprovalIndex < e.2)).getLast? with
      | some latest => .ok ⟨artifact.id.text, .submitted, true, false, approval.reviewer, latest.1.get "at", latest.1.get "actor",
          latest.1.get "platform"⟩
      | none => .ok ⟨artifact.id.text, .approved, true, false, approval.reviewer, .null, .null, .null⟩

end ReportApproval

end XbowPerso
