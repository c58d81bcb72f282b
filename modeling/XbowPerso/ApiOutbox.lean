import XbowPerso.CampaignAudit
import XbowPerso.Job
import Mathlib.Data.Prod.Lex
import Mathlib.Data.String.Basic

/-!
# The outbox of the API

A request leaves an event in the audit of its campaign before its job is enqueued, and another one after it. What lies between is
pending; `reconcile_campaign_outbox_local` adds the second event where the job exists.
-/

namespace XbowPerso

namespace Outbox

open AuditSeal

/-- The kinds of intents. -/
inductive Kind where
  | campaignStart | findingValidation | campaignCompletionReport | reportManual | browserFlow | pentagiDispatch
  deriving DecidableEq

/-- The word of a kind. -/
def Kind.word : Kind → String
  | campaignStart => "campaign_start"
  | findingValidation => "finding_validation"
  | campaignCompletionReport => "campaign_completion_report"
  | reportManual => "report_manual"
  | browserFlow => "browser_flow"
  | pentagiDispatch => "pentagi_dispatch"

/-- The kinds, in the order of their words. -/
def Kind.sorted : List Kind :=
  [browserFlow, campaignCompletionReport, campaignStart, findingValidation, pentagiDispatch, reportManual]

abbrev Key := Kind × String

/-! ## The keys of events -/

/-- `event.get(key)`, when it is a text that is not empty. -/
def nonEmptyText (event : AuditEntry) (key : String) : Option String := (text? (event.get key)).filter fun s => decide (s ≠ "")

/-- `event.get(key) == value` for a text. -/
def hasText (event : AuditEntry) (key value : String) : Bool := (event.get key).pyEq (.str value)

/-- `_request_key`. -/
def requestKey (event : AuditEntry) : Option Key :=
  if hasText event "type" "campaign_start_requested" then (nonEmptyText event "request_id").map fun id => (.campaignStart, id)
  else if hasText event "type" "validation_requested" then
    match nonEmptyText event "request_id", nonEmptyText event "finding_id" with
    | some id, some _ => some (.findingValidation, id)
    | _, _ => none
  else if hasText event "type" "report_requested" then
    match nonEmptyText event "request_id" with
    | none => none
    | some id =>
      if hasText event "purpose" "campaign_completion" then some (.campaignCompletionReport, id)
      else if hasText event "purpose" "manual" then some (.reportManual, id)
      else none
  else if hasText event "type" "browser_flow_requested" then
    match nonEmptyText event "request_id", nonEmptyText event "flow_fingerprint" with
    | some id, some _ => some (.browserFlow, id)
    | _, _ => none
  else if hasText event "type" "pentagi_dispatch_requested" then
    (nonEmptyText event "dispatch_fingerprint").map fun fingerprint => (.pentagiDispatch, fingerprint)
  else none

/-- `_completion_key`. -/
def completionKey (event : AuditEntry) : Option Key :=
  if hasText event "type" "campaign_started" then (nonEmptyText event "request_id").map fun id => (.campaignStart, id)
  else if hasText event "type" "validation_queued" then (nonEmptyText event "request_id").map fun id => (.findingValidation, id)
  else if hasText event "type" "report_queued" && hasText event "purpose" "manual" then
    (nonEmptyText event "request_id").map fun id => (.reportManual, id)
  else if hasText event "type" "campaign_completed" && hasText event "purpose" "campaign_completion" then
    (nonEmptyText event "request_id").map fun id => (.campaignCompletionReport, id)
  else if hasText event "type" "browser_flow_queued" then (nonEmptyText event "request_id").map fun id => (.browserFlow, id)
  else if hasText event "type" "pentagi_flow_queued" then
    (nonEmptyText event "dispatch_fingerprint").map fun fingerprint => (.pentagiDispatch, fingerprint)
  else none

/-- The keys that events complete. -/
def completed (events : List AuditEntry) : List Key := events.filterMap completionKey

/-! ## The snapshot -/

structure PendingItem where
  kind : Kind
  requestedAt : Option String
  identityDigest : String
  deriving DecidableEq

/-- What the items are sorted by: those without a time come last. -/
def PendingItem.sortKey (item : PendingItem) : Bool ×ₗ String ×ₗ String :=
  toLex (item.requestedAt.isNone, toLex (item.requestedAt.getD "", item.kind.word))

variable (digest : String → String)

/-- The loop of `outbox_snapshot`, with the keys seen so far. -/
def snapshotFrom (done : List Key) : List Key → List AuditEntry → List PendingItem
  | _, [] => []
  | seen, event :: events =>
    match requestKey event with
    | none => snapshotFrom done seen events
    | some key =>
      if key ∈ seen then snapshotFrom done seen events
      else if key ∈ done then snapshotFrom done (key :: seen) events
      else ⟨key.1, text? (event.get "at"), digest key.2⟩ :: snapshotFrom done (key :: seen) events

structure Snapshot where
  pendingTotal : Nat
  pendingByKind : List (String × Nat)
  oldestPendingAt : Option String
  pending : List PendingItem
  truncated : Bool
  deriving DecidableEq

/-- `dict(sorted(Counter(item["kind"] for item in pending).items()))`. -/
def countByKind (pending : List PendingItem) : List (String × Nat) :=
  (Kind.sorted.map fun kind => (kind.word, pending.countP fun item => decide (item.kind = kind))).filter fun e => decide (0 < e.2)

/-- `outbox_snapshot`. -/
def outboxSnapshot (maxItems : Int) (events : List AuditEntry) : Except PyError Snapshot :=
  if 1 ≤ maxItems ∧ maxItems ≤ 500 then
    let pending := (snapshotFrom digest (completed events) [] events).mergeSort fun a b => decide (a.sortKey ≤ b.sortKey)
    let visible := pending.take maxItems.toNat
    .ok {
      pendingTotal := pending.length
      pendingByKind := countByKind pending
      oldestPendingAt := pending.findSome? fun item => item.requestedAt.filter fun s => decide (s ≠ "")
      pending := visible
      truncated := decide (visible.length < pending.length) }
  else .error (.valueError "max_items must be between 1 and 500")

/-! ## The intents -/

/-- The descriptor of a pending intent. -/
structure Intent where
  kind : Kind
  rawIdentity : String
  requestedAt : Option String
  requestEvent : AuditEntry
  jobKind : Option JobKind
  dedupeKey : Option String
  completionType : Option String

def Intent.key (intent : Intent) : Key := (intent.kind, intent.rawIdentity)

/-- The descriptor of a key and the event that requested it. -/
def describe (key : Key) (event : AuditEntry) : Intent :=
  let descriptor := Intent.mk key.1 key.2 (text? (event.get "at")) event
  match key.1 with
  | .campaignStart => descriptor (some .strixScan) (some ("api:start:" ++ key.2)) (some "campaign_started")
  | .findingValidation => descriptor (some .independentValidation) (some key.2) (some "validation_queued")
  | .reportManual =>
    match nonEmptyText event "platform" with
    | some platform => descriptor (some .report) (some ("report:" ++ platform ++ ":" ++ key.2)) (some "report_queued")
    | none => descriptor none none none
  | .campaignCompletionReport => descriptor (some .report) (some key.2) (some "campaign_completed")
  | .browserFlow => descriptor (some .browserFlow) (some ("browser:" ++ key.2)) (some "browser_flow_queued")
  | .pentagiDispatch => descriptor (some .pentagiFlow) none (some "pentagi_flow_queued")

/-- The loop of `pending_outbox_intents`, with the keys seen so far. -/
def intentsFrom (done : List Key) : List Key → List AuditEntry → List Intent
  | _, [] => []
  | seen, event :: events =>
    match requestKey event with
    | none => intentsFrom done seen events
    | some key =>
      if key ∈ seen ∨ key ∈ done then intentsFrom done seen events
      else describe key event :: intentsFrom done (key :: seen) events

/-- `pending_outbox_intents`. -/
def pendingOutboxIntents (events : List AuditEntry) : List Intent := intentsFrom (completed events) [] events

/-! ## The diagnosis -/

inductive Diagnosis where
  | opaqueIntent | jobMissing | jobTerminal | auditMissing
  deriving DecidableEq

/-- What is known about a pending intent. -/
structure Diagnostic where
  intent : Intent
  job : Option Job
  diagnosis : Diagnosis
  identityDigest : String

/-- `repairable_local_audit`. -/
def Diagnostic.repairable (d : Diagnostic) : Bool := d.diagnosis == .jobTerminal || d.diagnosis == .auditMissing

/-- The part of a diagnostic that the API shows. -/
structure PublicDiagnostic where
  kind : Kind
  requestedAt : Option String
  identityDigest : String
  diagnosis : Diagnosis
  jobStatus : Option JobStatus
  repairableLocalAudit : Bool
  deriving DecidableEq

/-- `public_recovery_diagnostics`, for one diagnostic. -/
def Diagnostic.shown (d : Diagnostic) : PublicDiagnostic :=
  ⟨d.intent.kind, d.intent.requestedAt, d.identityDigest, d.diagnosis, d.job.map Job.status, d.repairable⟩

/-- `queue.get_by_dedupe` for the jobs of one campaign. -/
abbrev GetByDedupe := JobKind → String → Except PyError (Option Job)

variable (getByDedupe : GetByDedupe)

/-- The diagnosis of one intent. -/
def diagnoseIntent (intent : Intent) : Except PyError Diagnostic :=
  let found (job : Option Job) (diagnosis : Diagnosis) : Diagnostic := ⟨intent, job, diagnosis, digest intent.rawIdentity⟩
  match intent.dedupeKey, intent.jobKind with
  | some dedupeKey, some jobKind =>
    if dedupeKey = "" then .ok (found none .opaqueIntent)
    else
      match getByDedupe jobKind dedupeKey with
      | .error e => .error e
      | .ok none => .ok (found none .jobMissing)
      | .ok (some job) =>
        .ok (found (some job) (if job.status = .failed ∨ job.status = .cancelled then .jobTerminal else .auditMissing))
  | _, _ => .ok (found none .opaqueIntent)

/-- `diagnose_outbox_recovery`. -/
def diagnoseOutboxRecovery (events : List AuditEntry) : Except PyError (List Diagnostic) :=
  (pendingOutboxIntents events).mapM (diagnoseIntent digest getByDedupe)

/-! ## The repair -/

/-- `event[key] = request[key]`. -/
def copyField (request : AuditEntry) (key : String) (event : AuditEntry) : Except PyError AuditEntry :=
  if (request.fields.get? key).isSome then .ok (event.set key (request.get key) (request.get_distinct key))
  else .error (.keyError key)

/-- The fields that every completion has. -/
def completionBase (completionType : String) (job : Job) (time : String) : AuditEntry :=
  ((((⟨.empty, distinct_empty⟩ : AuditEntry).set "type" (.str completionType) (distinct_str _)).set "job_id"
    (.str job.id.text) (distinct_str _)).set "at" (.str time) (distinct_str _)).set "reconciled_locally" (.bool true) (distinct_bool _)

/-- `local_completion_event`. -/
def localCompletionEvent (d : Diagnostic) (time : String) : Except PyError (Option AuditEntry) :=
  if d.repairable = false then .ok none
  else
    match d.job, d.intent.completionType with
    | some job, some completionType =>
      if completionType = "" then .ok none
      else
        let request := d.intent.requestEvent
        let event := completionBase completionType job time
        match d.intent.kind with
        | .campaignStart => do
          let event ← copyField request "request_id" event
          if (request.fields.get? "policy").isSome then
            let event ← copyField request "policy" event
            return some event
          else return some event
        | .findingValidation => do
          let event ← copyField request "request_id" event
          let event ← copyField request "finding_id" event
          return some event
        | .reportManual | .campaignCompletionReport => do
          let event ← copyField request "request_id" event
          let event ← copyField request "platform" event
          let event ← copyField request "purpose" event
          return some (event.set "report_job_id" (.str job.id.text) (distinct_str _))
        | .browserFlow => do
          let event ← copyField request "request_id" event
          let event ← copyField request "flow_fingerprint" event
          return some event
        | .pentagiDispatch => .ok none
    | _, _ => .ok none

inductive CampaignState where
  | draft | ready | running | validating | completed | failed | cancelled
  deriving DecidableEq

/-- What the repair reads and changes of a campaign. -/
structure Campaign where
  state : CampaignState
  events : List AuditEntry

/-- A campaign in repair, with the two counts. -/
structure Repairs where
  campaign : Campaign
  repaired : Nat
  skippedAmbiguous : Nat

/-- A campaign that has been started. -/
def CampaignState.started : CampaignState → Bool
  | running | validating | completed => true
  | _ => false

/-- A campaign that can be started. -/
def CampaignState.startable : CampaignState → Bool
  | ready | failed => true
  | _ => false

/-- A job that waits or runs. -/
def live (job : Job) : Bool := job.status == .queued || job.status == .running

variable (env : AuditEnv) (secret : ResolvedSecret) (clock : Nat → String)

/-- The end of the loop's body: the completion, if there is one, goes to the audit. -/
def complete (r : Repairs) (d : Diagnostic) : Except PyError Repairs :=
  match localCompletionEvent d (clock r.campaign.events.length) with
  | .error e => .error e
  | .ok none => .ok r
  | .ok (some event) =>
    match CampaignAudit.sealCampaignEvent env secret event r.campaign.events with
    | .error e => .error e
    | .ok sealedEvent => .ok ⟨⟨r.campaign.state, r.campaign.events ++ [sealedEvent]⟩, r.repaired + 1, r.skippedAmbiguous⟩

/-- The body of the loop of `_apply_local_outbox_repairs`. -/
def repairOne (r : Repairs) (d : Diagnostic) : Except PyError Repairs :=
  if d.intent.kind = .campaignStart then
    if r.campaign.state.started then complete env secret clock r d
    else if r.campaign.state.startable && d.job.any live then
      complete env secret clock { r with campaign := ⟨.running, r.campaign.events⟩ } d
    else .ok { r with skippedAmbiguous := r.skippedAmbiguous + 1 }
  else complete env secret clock r d

/-- `_apply_local_outbox_repairs`. -/
def applyLocalOutboxRepairs (campaign : Campaign) (diagnostics : List Diagnostic) : Except PyError Repairs :=
  diagnostics.foldlM (repairOne env secret clock) ⟨campaign, 0, 0⟩

/-! ## The reconciliation -/

/-- What the API raises. -/
inductive ApiError where
  | http (status : Nat) (detail : String)
  | raised (error : PyError)

/-- The campaign that is stored at the end, and the answer. -/
structure Outcome where
  campaign : Campaign
  repaired : Nat
  skippedAmbiguous : Nat
  remaining : List PublicDiagnostic

/-- One attempt of `reconcile_campaign_outbox_local` on the campaign that it reads; none when another writer saved the campaign in
between, so that the save conflicts. -/
def attempt (campaign : Campaign) (conflict : Bool) : Except ApiError (Option Outcome) :=
  if campaign.state = .cancelled then .error (.http 409 "Campaign is cancelled")
  else
    match diagnoseOutboxRecovery digest getByDedupe campaign.events with
    | .error e => .error (.raised e)
    | .ok diagnostics =>
      match applyLocalOutboxRepairs env secret clock campaign diagnostics with
      | .error e => .error (.raised e)
      | .ok r =>
        if r.repaired ≠ 0 ∧ conflict then .ok none
        else
          let latest := if r.repaired ≠ 0 then r.campaign else campaign
          match diagnoseOutboxRecovery digest getByDedupe latest.events with
          | .error e => .error (.raised e)
          | .ok remaining => .ok (some ⟨latest, r.repaired, r.skippedAmbiguous, remaining.map Diagnostic.shown⟩)

/-- The attempts, each with the campaign that it reads and whether its save conflicts. -/
def attempts : List (Campaign × Bool) → Except ApiError Outcome
  | [] => .error (.http 409 "Outbox reconciliation conflicted repeatedly; reload and retry")
  | (campaign, conflict) :: reads =>
    match attempt digest getByDedupe env secret clock campaign conflict with
    | .error e => .error e
    | .ok (some outcome) => .ok outcome
    | .ok none => attempts reads

/-- `reconcile_campaign_outbox_local`: three attempts at most. -/
def reconcileCampaignOutboxLocal (reads : Fin 3 → Campaign × Bool) : Except ApiError Outcome :=
  attempts digest getByDedupe env secret clock [reads 0, reads 1, reads 2]

end Outbox

end XbowPerso
