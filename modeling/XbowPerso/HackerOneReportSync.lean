import XbowPerso.ReportApproval

/-!
# The synchronization of reports with HackerOne

A worker fetches the remote report of a submission, reads the record of the campaign, appends events for what is new in the report, and
saves the record under the version that it has read. Other workers, and other writers of the campaign, do the same in between.
-/

namespace XbowPerso

namespace HackerOneReportSync

open AuditSeal (text?)
open CampaignAudit (sealCampaignEvent)
open PyText (strip)
open ReportApproval (isAbout)

/-- What the projections raise: `HTTPException(status_code, detail)`. -/
structure HttpError where
  status : Nat
  detail : String
  deriving DecidableEq

def badGateway {α : Type} (detail : String) : Except HttpError α := .error ⟨502, detail⟩

/-! ## Remote reports -/

/-- `value.get(key)` of a dictionary. -/
def field (value : Json) (key : String) : Json :=
  match value with
  | .obj fields => (fields.lookup key).getD .null
  | _ => .null

def isDict : Json → Bool
  | .obj _ => true
  | _ => false

/-- A text, or nothing. -/
def textOrNone (value : Json) : Option String := text? value

/-- `value[:n]` -/
def clip (n : Nat) (value : String) : String := String.ofList (value.toList.take n)

/-- The checks that all projections of a report make first. -/
def reportData (document : Json) (expectedReportId : String) : Except HttpError Json :=
  let data := field document "data"
  if isDict data = false then badGateway "HackerOne remote report response is invalid"
  else if text? (field data "type") ≠ some "report" ∨ text? (field data "id") ≠ some expectedReportId then
    badGateway "HackerOne remote report identity mismatch"
  else .ok data

/-- `_report_activity_records` -/
def reportActivityRecords (document : Json) (expectedReportId : String) : Except HttpError (List Json) :=
  match reportData document expectedReportId with
  | .error e => .error e
  | .ok data =>
    match field (field (field data "relationships") "activities") "data" with
    | .arr records => .ok records
    | _ => .ok []

/-- `MAX_ACTIVITY_MESSAGE_CHARS` -/
def maxActivityMessageChars : Nat := 8192

/-- `NEEDS_MORE_INFO_ACTIVITY_TYPE` -/
def needsMoreInfoActivityType : String := "activity-bug-needs-more-info"

/-- `MAX_PUBLIC_ACTIVITIES` -/
def maxPublicActivities : Nat := 20

/-- `PUBLIC_ACTIVITY_TYPES` -/
def publicActivityTypes : List String :=
  ["activity-comment", "activity-bounty-awarded", "activity-bug-duplicate", "activity-bug-informative", "activity-bug-resolved"]

/-- What the two projections of activities take from one: its identifier and its attributes, if it is a public one of the report. -/
def publicAttributes (env : AuditEnv) (activity : Json) (expectedReportId : String) : Option (String × Json) :=
  match text? (field activity "id") with
  | none => none
  | some activityId =>
    let attributes := field activity "attributes"
    let reportId := field attributes "report_id"
    let ofReport := match reportId with
      | .null => true
      | other => decide (env.str other = expectedReportId)
    match field attributes "internal" with
    | .bool false => if strip activityId = "" ∨ isDict attributes = false ∨ ofReport = false then none else some (strip activityId, attributes)
    | _ => none

/-- An activity that is projected. -/
structure Activity where
  activityId : String
  activityType : String
  createdAt : Option String
  updatedAt : Option String
  message : Option String
  bountyAmount : Option String
  bonusAmount : Option String
  originalReportId : Option String

/-- The message of an activity, if it is not blank. -/
def message? (attributes : Json) : Option String :=
  (text? (field attributes "message")).bind fun message =>
    if strip message = "" then none else some (clip maxActivityMessageChars (strip message))

/-- The body of the loop of `project_public_report_activities`. -/
def publicActivity? (env : AuditEnv) (expectedReportId : String) (activity : Json) : Option Activity :=
  match text? (field activity "type") with
  | none => none
  | some activityType =>
    if activityType ∉ publicActivityTypes then none
    else
      match publicAttributes env activity expectedReportId with
      | none => none
      | some (activityId, attributes) =>
        let amount (key : String) : Option String :=
          if activityType = "activity-bounty-awarded" then (text? (field attributes key)).map (clip 64) else none
        let original : Option String :=
          match field attributes "original_report_id" with
          | .null => none
          | other => if activityType = "activity-bug-duplicate" then some (clip 64 (env.str other)) else none
        some
          { activityId := activityId
            activityType := activityType
            createdAt := textOrNone (field attributes "created_at")
            updatedAt := textOrNone (field attributes "updated_at")
            message := message? attributes
            bountyAmount := amount "bounty_amount"
            bonusAmount := amount "bonus_amount"
            originalReportId := original }

/-- `project_public_report_activities` -/
def projectPublicReportActivities (env : AuditEnv) (document : Json) (expectedReportId : String) : Except HttpError (List Activity) :=
  match reportActivityRecords document expectedReportId with
  | .error e => .error e
  | .ok records => .ok ((records.filterMap (publicActivity? env expectedReportId)).take maxPublicActivities)

/-- What the program asks for. -/
structure NeedsMoreInfo where
  activityId : String
  message : String
  createdAt : Option String
  updatedAt : Option String

/-- The body of the loop of `project_needs_more_info_request`. -/
def needsMoreInfo? (env : AuditEnv) (expectedReportId : String) (activity : Json) : Option NeedsMoreInfo :=
  if text? (field activity "type") ≠ some needsMoreInfoActivityType then none
  else
    match publicAttributes env activity expectedReportId with
    | none => none
    | some (activityId, attributes) =>
      (message? attributes).map fun message =>
        ⟨activityId, message, textOrNone (field attributes "created_at"), textOrNone (field attributes "updated_at")⟩

/-- `project_needs_more_info_request` -/
def projectNeedsMoreInfoRequest (env : AuditEnv) (document : Json) (expectedReportId : String) : Except HttpError (Option NeedsMoreInfo) :=
  match reportActivityRecords document expectedReportId with
  | .error e => .error e
  | .ok records => .ok (records.findSome? (needsMoreInfo? env expectedReportId))

/-- `TRACKED_TIMESTAMP_FIELDS` -/
def trackedTimestampFields : List String :=
  ["created_at", "triaged_at", "closed_at", "last_program_activity_at", "last_reporter_activity_at", "last_activity_at"]

/-- The status of a report, as far as it is tracked. -/
structure Status where
  remoteReportId : String
  teamHandle : String
  state : String
  timestamps : List (String × Option String)
  tracked : timestamps.map Prod.fst = trackedTimestampFields

/-- The timestamps of a report. -/
def timestampsOf (attributes : Json) : List (String × Option String) :=
  trackedTimestampFields.map fun key => (key, textOrNone (field attributes key))

theorem timestampsOf_tracked (attributes : Json) : (timestampsOf attributes).map Prod.fst = trackedTimestampFields := by
  unfold timestampsOf
  rw [List.map_map]
  exact List.map_id _

/-- `project_remote_report_status`, without the activities that it copies for the reader. -/
def projectRemoteReportStatus (env : AuditEnv) (document : Json) (expectedReportId teamHandle : String) : Except HttpError Status :=
  match reportData document expectedReportId with
  | .error e => .error e
  | .ok data =>
    let attributes := field data "attributes"
    if isDict attributes = false then badGateway "HackerOne remote report attributes are invalid"
    else
      match text? (field attributes "state") with
      | none => badGateway "HackerOne remote report state is invalid"
      | some state =>
        if strip state = "" then badGateway "HackerOne remote report state is invalid"
        else
          match projectNeedsMoreInfoRequest env document expectedReportId, projectPublicReportActivities env document expectedReportId with
          | .error e, _ => .error e
          | _, .error e => .error e
          | .ok _, .ok _ =>
            .ok ⟨expectedReportId, teamHandle, strip state, timestampsOf attributes, timestampsOf_tracked attributes⟩

/-! ## Events -/

/-- A text as a value, and none as a null. -/
def optText : Option String → Json
  | none => .null
  | some text => .str text

theorem optText_distinct (text : Option String) : (optText text).Distinct := by
  cases text <;> trivial

/-- An entry with these fields. -/
def entryOf (fields : List (String × Option String)) : AuditEntry :=
  fields.foldl (fun entry f => entry.set f.1 (optText f.2) (optText_distinct _)) ⟨.empty, distinct_empty⟩

def statusType : String := "hackerone_report_status_synced"

def needsMoreInfoType : String := "hackerone_needs_more_info_observed"

def activityType : String := "hackerone_public_activity_observed"

/-- The keys of `status_fingerprint_fields`. -/
def fingerprintKeys : List String := ["remote_report_id", "team_handle", "state"] ++ trackedTimestampFields

/-- `status_fingerprint_fields(event)` -/
def fingerprintOf (event : AuditEntry) : Json := .arr (fingerprintKeys.map event.get)

/-- `status_fingerprint_fields(status)` -/
def Status.fields (status : Status) : List (String × Option String) :=
  [("remote_report_id", some status.remoteReportId), ("team_handle", some status.teamHandle), ("state", some status.state)] ++
    status.timestamps

def Status.fingerprint (status : Status) : Json := .arr (status.fields.map fun f => optText f.2)

def statusEvent (artifactId time : String) (status : Status) : AuditEntry :=
  entryOf ([("type", some statusType)] ++ status.fields ++ [("artifact_id", some artifactId), ("observed_at", some time)])

def needsMoreInfoEvent (artifactId remoteReportId time : String) (request : NeedsMoreInfo) : AuditEntry :=
  entryOf [("type", some needsMoreInfoType), ("artifact_id", some artifactId), ("remote_report_id", some remoteReportId),
    ("activity_id", some request.activityId), ("message", some request.message), ("created_at", request.createdAt),
    ("updated_at", request.updatedAt), ("observed_at", some time)]

/-- A key that is there only with a value. -/
def whereSome (key : String) : Option String → List (String × Option String)
  | none => []
  | some text => [(key, some text)]

def activityEvent (artifactId remoteReportId time : String) (activity : Activity) : AuditEntry :=
  entryOf ([("type", some activityType), ("artifact_id", some artifactId), ("remote_report_id", some remoteReportId),
    ("activity_id", some activity.activityId), ("activity_type", some activity.activityType), ("created_at", activity.createdAt),
    ("updated_at", activity.updatedAt), ("observed_at", some time)] ++ whereSome "message" activity.message ++
      whereSome "bounty_amount" activity.bountyAmount ++ whereSome "bonus_amount" activity.bonusAmount ++
      whereSome "original_report_id" activity.originalReportId)

/-- `_last_synced`, `_last_needs_more_info` and `latest_remote_submission`: the last event of a type about an artifact. -/
def lastAbout (type artifactId : String) (events : List AuditEntry) : Option AuditEntry :=
  (events.filter (isAbout type artifactId)).getLast?

/-- `_observed_public_activity_ids` -/
def observedPublicActivityIds (events : List AuditEntry) (artifactId : String) : List String :=
  (events.filter (isAbout activityType artifactId)).filterMap fun event => text? (event.get "activity_id")

/-- `_changed` -/
def changed (previous : Option AuditEntry) (status : Status) : Bool :=
  match previous with
  | none => true
  | some event => !(fingerprintOf event).pyEq status.fingerprint

variable (env : AuditEnv) (secret : ResolvedSecret)

/-- `append_campaign_event` -/
def append (events : List AuditEntry) (event : AuditEntry) : Except PyError (List AuditEntry) :=
  match sealCampaignEvent env secret event events with
  | .error e => .error e
  | .ok event => .ok (events ++ [event])

/-- A submission that was recorded, as `_submissions` lists it. -/
structure Submission where
  artifactId : String
  remoteReportId : String
  teamHandle : String

/-- What is read of a remote report. -/
structure Projection where
  status : Status
  needsMoreInfo : Option NeedsMoreInfo
  activities : List Activity

/-- The three projections of a report. -/
def project (submission : Submission) (document : Json) : Except HttpError Projection :=
  match projectRemoteReportStatus env document submission.remoteReportId (strip submission.teamHandle),
      projectNeedsMoreInfoRequest env document submission.remoteReportId,
      projectPublicReportActivities env document submission.remoteReportId with
  | .error e, _, _ => .error e
  | _, .error e, _ => .error e
  | _, _, .error e => .error e
  | .ok status, .ok needsMoreInfo, .ok activities => .ok ⟨status, needsMoreInfo, activities⟩

/-- The event of the status, if it changed. -/
def addStatus (artifactId time : String) (status : Status) (events : List AuditEntry) : Except PyError (List AuditEntry) :=
  if changed (lastAbout statusType artifactId events) status = true then append env secret events (statusEvent artifactId time status)
  else .ok events

/-- The event of the request for information, if it is not the last one. -/
def addNeedsMoreInfo (submission : Submission) (time : String) (request : Option NeedsMoreInfo) (events : List AuditEntry) :
    Except PyError (List AuditEntry) :=
  match request with
  | none => .ok events
  | some request =>
    let known := (lastAbout needsMoreInfoType submission.artifactId events).any fun previous =>
      (previous.get "activity_id").pyEq (.str request.activityId)
    if known = true then .ok events
    else append env secret events (needsMoreInfoEvent submission.artifactId submission.remoteReportId time request)

/-- The loop over the activities, with those observed so far. -/
def addActivities (submission : Submission) (time : String) (observed : List String) (events : List AuditEntry) :
    List Activity → Except PyError (List AuditEntry)
  | [] => .ok events
  | activity :: rest =>
    if activity.activityId ∈ observed then addActivities submission time observed events rest
    else
      match append env secret events (activityEvent submission.artifactId submission.remoteReportId time activity) with
      | .error e => .error e
      | .ok events => addActivities submission time (activity.activityId :: observed) events rest

/-- The events of a campaign after the part of `_sync_submission` between its reading and its saving. -/
def syncEvents (submission : Submission) (time : String) (projection : Projection) (events : List AuditEntry) :
    Except PyError (List AuditEntry) :=
  match addStatus env secret submission.artifactId time projection.status events with
  | .error e => .error e
  | .ok events =>
    match addNeedsMoreInfo env secret submission time projection.needsMoreInfo events with
    | .error e => .error e
    | .ok events =>
      addActivities env secret submission time (observedPublicActivityIds events submission.artifactId) events
        projection.activities.reverse

/-- The submission is still the latest one of its artifact. -/
def isLatest (submission : Submission) (events : List AuditEntry) : Bool :=
  match lastAbout "hackerone_report_submitted" submission.artifactId events with
  | none => false
  | some latest => (latest.get "remote_report_id").pyEq (.str submission.remoteReportId)

/-! ## Interleavings -/

/-- A worker that has read a record: what it read of the report, and the record with its version. -/
structure Reading where
  submission : Submission
  projection : Projection
  events : List AuditEntry
  version : Nat

/-- The record of a campaign with its version, the records that it had before, and the workers that have read. -/
structure State where
  events : List AuditEntry
  version : Nat
  past : List (List AuditEntry)
  readings : Nat → Option Reading

/-- An event of another writer: this worker alone records the statuses and the public activities. -/
abbrev OtherEvent := { event : AuditEntry // ∀ artifactId, isAbout statusType artifactId event = false ∧ isAbout activityType artifactId event = false }

/-- A step: a worker fetches a report and reads the record, or it saves; or another writer replaces the record by one that it had before,
or has, with events of its own. -/
inductive Step where
  | read (worker : Nat) (submission : Submission) (document : Json)
  | save (worker : Nat) (time : String) (secret : ResolvedSecret)
  | other (base : Nat) (added : List OtherEvent)

/-- The record after a writer stored it. -/
def State.store (s : State) (events : List AuditEntry) : State :=
  { s with events := events, version := s.version + 1, past := s.events :: s.past }

def step (s : State) : Step → State
  | .read worker submission document =>
    let reading := match project env submission document with
      | .error _ => none
      | .ok projection => if isLatest submission s.events = true then some ⟨submission, projection, s.events, s.version⟩ else none
    { s with readings := Function.update s.readings worker reading }
  | .save worker time secret =>
    match s.readings worker with
    | none => s
    | some reading =>
      let s := { s with readings := Function.update s.readings worker none }
      match syncEvents env secret reading.submission time reading.projection reading.events with
      | .error _ => s
      | .ok events =>
        -- nothing changed, or the record has another version by now
        if events.length = reading.events.length ∨ reading.version ≠ s.version then s else s.store events
  | .other base added => s.store (((s.events :: s.past)[base]?.getD []) ++ added.map Subtype.val)

/-- A campaign that is not stored yet. -/
def State.init : State := ⟨[], 0, [], fun _ => none⟩

/-- The state after some steps. -/
def run (steps : List Step) : State := steps.foldl (step env) .init

end HackerOneReportSync

end XbowPerso
