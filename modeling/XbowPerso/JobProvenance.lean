import XbowPerso.HackerOneBinding
import XbowPerso.WorkerService

/-!
# The provenance of governed jobs

`build_job_provenance` binds a job to its kind and to the policy of its campaign, `verify_job_provenance` recomputes both when the job is
claimed, and `_verify_policy_bound_job` lets the worker go on. The payloads of the places that enqueue governed jobs are here under the
name of the place.
-/

namespace XbowPerso

namespace JobProvenance

open RunnerRpc (JsonDict item)
open ExecutionContract (Campaign policySnapshotFingerprint rateJson sortedSet texts urlHost)
open HackerOneBinding (BindingEnv declared dictFields reasonsOf verifyHackeroneCampaignBinding)
open WorkerService (Raised)

/-- What provenance takes from the interpreter. -/
structure ProvenanceEnv where
  binding : BindingEnv
  /-- `float(value)` -/
  float : Json → Except PyError Binary64

/-- A campaign as it is stored. -/
structure StoredCampaign where
  campaign : Campaign
  events : List AuditEntry

/-- What ends an enqueue before the queue is called. -/
inductive ProvenanceError where
  | http (status : Nat) (message : String) (reasons : List String)
  | alreadyThere (message : String)
  | python (error : PyError)

/-- `PROVENANCE_SCHEMA` -/
def provenanceSchema : String := "job-provenance-v1"

variable (env : ProvenanceEnv) (secret : ResolvedSecret)

/-- `policy_snapshot_fingerprint`; it raises for a primary URL that cannot be split. -/
def fingerprintOf (c : Campaign) : Except PyError String :=
  match policySnapshotFingerprint env.binding.python c with
  | .error _ => .error (.valueError "Invalid URL")
  | .ok fingerprint => .ok fingerprint

/-- `snapshot["host"]` -/
def snapshotHost (c : Campaign) : String := (urlHost env.binding.scope.unicode c.primaryUrl).getD ""

/-- `binding["binding_fingerprint"]` -/
def fingerprintJson : Option String → Json
  | none => .null
  | some fingerprint => .str fingerprint

/-- What the provenance says about a HackerOne policy. -/
def externalPolicy (binding : HackerOneBinding.BindingVerdict) : JsonDict :=
  if binding.required = true then
    [("external_policy_provider", .str "hackerone"),
      ("external_policy_fingerprint", fingerprintJson binding.bindingFingerprint)]
  else []

/-- `build_job_provenance` -/
def buildJobProvenance (s : StoredCampaign) (jobKind action : String) : Except ProvenanceError JsonDict :=
  match fingerprintOf env s.campaign with
  | .error e => .error (.python e)
  | .ok fingerprint =>
    match verifyHackeroneCampaignBinding env.binding secret s.events fingerprint with
    | .error e => .error (.python e)
    | .ok binding =>
      if binding.required = true ∧ binding.valid = false then .error (.http 409 "HackerOne policy binding invalid" binding.reasons)
      else .ok ([("schema", .str provenanceSchema), ("campaign_id", .str s.campaign.id), ("job_kind", .str jobKind),
        ("action", .str action), ("scope_host", .str (snapshotHost env s.campaign)), ("policy_fingerprint", .str fingerprint),
        ("request_rate_limit", rateJson env.binding.floats s.campaign.rules.maxRequestsPerSecond)] ++ externalPolicy binding)

/-- `attach_job_provenance` -/
def attachJobProvenance (payload : JsonDict) (s : StoredCampaign) (jobKind action : String) : Except ProvenanceError JsonDict :=
  if "_provenance" ∈ payload.map (·.1) then .error (.alreadyThere "job payload already contains provenance metadata")
  else
    match buildJobProvenance env secret s jobKind action with
    | .error e => .error e
    | .ok provenance => .ok (payload ++ [("_provenance", .obj provenance)])

/-! ## The verification -/

/-- `float(declared) != float(snapshot["max_requests_per_second"])` -/
def differs (declared rate : Binary64) : Bool := !(declared.le rate && rate.le declared)

/-- The reasons about the rate; what is raised but a `TypeError` or a `ValueError` comes through. -/
def rateReasons (value : Json) (rate : Binary64) : Except PyError (List String) :=
  match env.float value with
  | .error (.typeError _) | .error (.valueError _) => .ok ["invalid_request_rate_limit"]
  | .error e => .error e
  | .ok declared => .ok (reasonsOf [(differs declared rate, "request_rate_limit_mismatch")])

/-- The reasons that come before the rate. -/
def provenanceReasons (kind : String) (provenance : JsonDict) (c : Campaign) (expected : String)
    (binding : HackerOneBinding.BindingVerdict) : List String :=
  let text (key : String) := declared env.binding (item provenance key)
  reasonsOf [(!(item provenance "schema").pyEq (.str provenanceSchema), "unsupported_provenance_schema"),
    (decide (text "campaign_id" ≠ c.id), "campaign_id_mismatch"), (decide (text "job_kind" ≠ kind), "job_kind_mismatch"),
    (decide (text "policy_fingerprint" ≠ expected), "policy_fingerprint_mismatch"),
    (binding.required && !binding.valid, "external_policy_binding_invalid"),
    (binding.required && !(item provenance "external_policy_provider").pyEq (.str "hackerone"), "external_policy_provider_mismatch"),
    (binding.required && decide (text "external_policy_fingerprint" ≠ binding.bindingFingerprint.getD ""),
      "external_policy_fingerprint_mismatch"),
    (decide (env.binding.scope.unicode.lower (text "scope_host").toList ≠ (snapshotHost env c).toList), "scope_host_mismatch")]

/-- `verify_job_provenance`, for a job with this kind and payload: the reasons, of which a valid job has none. -/
def verifyJobProvenance (kind : String) (payload : Json) (s : StoredCampaign) : Except PyError (List String) :=
  match fingerprintOf env s.campaign with
  | .error e => .error e
  | .ok expected =>
    match item (dictFields payload) "_provenance" with
    | .obj provenance =>
      match verifyHackeroneCampaignBinding env.binding secret s.events expected with
      | .error e => .error e
      | .ok binding =>
        match rateReasons env (item provenance "request_rate_limit") s.campaign.rules.maxRequestsPerSecond with
        | .error e => .error e
        | .ok reasons => .ok (sortedSet (provenanceReasons env kind provenance s.campaign expected binding ++ reasons))
    | _ => .ok ["provenance_missing"]

/-- `GOVERNED_JOB_KINDS` -/
def governedJobKinds : List String :=
  ["strix_scan", "nuclei_scan", "recon_task", "browser_flow", "independent_validation", "report"]

/-- What the `except` clauses of `process_one` see of an exception. -/
def raised : PyError → Raised
  | .valueError message => .rejected message
  | .keyError key => .rejected key
  | _ => .other ""

/-- `_verify_policy_bound_job`, from the mode for legacy jobs and from what `_campaign` returns or raises. -/
def verifyPolicyBoundJob (legacy : Except PyError Bool) (kind : String) (payload : Json) (load : Except Raised StoredCampaign) :
    Except Raised Unit :=
  if "_provenance" ∈ (dictFields payload).map (·.1) then
    match load with
    | .error e => .error e
    | .ok s =>
      match verifyJobProvenance env secret kind payload s with
      | .error e => .error (raised e)
      | .ok [] => .ok ()
      | .ok reasons => .error (.rejected ("job provenance rejected: " ++ ",".intercalate reasons))
  else if kind ∈ governedJobKinds then
    match legacy with
    | .error e => .error (raised e)
    | .ok true => .ok ()
    | .ok false => .error (.rejected "job provenance rejected: provenance_missing")
  else .ok ()

/-! ## The places that enqueue governed jobs -/

inductive ScanEngine where
  | strix | nuclei
  deriving DecidableEq

/-- A place that enqueues a governed job, with what it puts into the payload. -/
inductive EnqueuePath where
  /-- The planner: `_enqueue_action` with the stable part of a policy receipt. -/
  | scan (engine : ScanEngine) (policy : Json) (distinct : policy.Distinct)
  | validate (findingId asset : String) (repeatOrdinal : Option Int)
  | plannedReport
  /-- The planner: `_enqueue_recon_tasks`. -/
  | reconTask (kind target : String) (maxRequests : Int) (allowedMethods : List String) (sameOriginOnly readOnly : Bool)
  | browserObserve (target : String)
  /-- `ingest_scanner_run` -/
  | ingest (findingId asset : String)
  /-- The endpoints for findings, for the completion and for reports. -/
  | addFinding (findingId asset : String)
  | completionReport (platform : String)
  | queueReport (platform : String)
  /-- `queue_browser_flow` -/
  | queueBrowserFlow (steps : List Json) (identityLabel storageStateSecretEnv : Option String) (distinct : ∀ step ∈ steps, step.Distinct)

namespace EnqueuePath

/-- The kind of the job. -/
def kind : EnqueuePath → JobKind
  | scan .strix _ _ => .strixScan
  | scan .nuclei _ _ => .nucleiScan
  | reconTask _ _ _ _ _ _ => .reconTask
  | browserObserve _ | queueBrowserFlow _ _ _ _ => .browserFlow
  | validate _ _ _ | ingest _ _ | addFinding _ _ => .independentValidation
  | plannedReport | completionReport _ | queueReport _ => .report

/-- The action that the provenance names. -/
def action : EnqueuePath → String
  | scan _ _ _ => "automated_scan"
  | reconTask _ _ _ _ _ _ | browserObserve _ | queueBrowserFlow _ _ _ _ => "crawl"
  | validate _ _ _ | ingest _ _ | addFinding _ _ => "validate"
  | plannedReport | completionReport _ | queueReport _ => "report"

/-- The rules in the payload of a scan. -/
def scanRules (floats : FloatText) (c : Campaign) : Json :=
  .obj [("allowed_targets", texts c.rules.allowedTargets), ("denied_targets", texts c.rules.deniedTargets),
    ("max_requests_per_second", rateJson floats c.rules.maxRequestsPerSecond), ("destructive_testing", .bool false),
    ("denial_of_service", .bool false), ("social_engineering", .bool false), ("credential_attacks", .bool false),
    ("automated_scanning", .bool c.rules.automatedScanning)]

def validationPayload (c : Campaign) (findingId asset : String) : JsonDict :=
  [("campaign_id", .str c.id), ("finding_id", .str findingId), ("asset", .str asset)]

def reportPayload (c : Campaign) (platform : String) : JsonDict := [("campaign_id", .str c.id), ("platform", .str platform)]

/-- The payload before its provenance. -/
def payload (floats : FloatText) (c : Campaign) : EnqueuePath → JsonDict
  | scan _ policy _ => [("campaign_id", .str c.id), ("target", .str c.primaryUrl), ("policy", policy), ("rules", scanRules floats c)]
  | reconTask kind target maxRequests allowedMethods sameOriginOnly readOnly =>
    [("campaign_id", .str c.id), ("kind", .str kind), ("target", .str target), ("max_requests", .int maxRequests),
      ("allowed_methods", texts allowedMethods), ("same_origin_only", .bool sameOriginOnly), ("read_only", .bool readOnly)]
  | browserObserve target =>
    [("campaign_id", .str c.id), ("steps", .arr [
      .obj [("operation", .str "navigate"), ("url", .str target), ("timeout_ms", .int 10000)],
      .obj [("operation", .str "screenshot"), ("timeout_ms", .int 10000)]])]
  | validate findingId asset repeatOrdinal =>
    validationPayload c findingId asset ++ (repeatOrdinal.toList.map fun ordinal =>
      ("repeat_validation", .obj [("schema", .str "repeat-differential-validation-v1"), ("ordinal", .int ordinal),
        ("reason", .str "single_strong_unknown_differential_requires_repeat")]))
  | ingest findingId asset | addFinding findingId asset => validationPayload c findingId asset
  | plannedReport => reportPayload c "generic"
  | completionReport platform | queueReport platform => reportPayload c platform
  | queueBrowserFlow steps identityLabel storageStateSecretEnv _ =>
    [("campaign_id", .str c.id), ("steps", .arr steps)] ++ (identityLabel.toList.map fun label => ("identity_label", .str label)) ++
      storageStateSecretEnv.toList.map fun name => ("storage_state_secret_env", .str name)

/-- The place is the endpoint for browser flows. -/
def isBrowserEndpoint : EnqueuePath → Bool
  | queueBrowserFlow _ _ _ _ => true
  | _ => false

/-- The payload that is given to `enqueue`. All places but `queue_browser_flow` attach the provenance. -/
def enqueued (s : StoredCampaign) (path : EnqueuePath) : Except ProvenanceError JsonDict :=
  let payload := path.payload env.binding.floats s.campaign
  if path.isBrowserEndpoint = true then .ok payload
  else attachJobProvenance env secret payload s path.kind.word path.action

end EnqueuePath

/-- The payload as the queue hands it out: it is stored as text. -/
def claimedPayload (payload : JsonDict) : Option Json := Json.loads (Json.obj payload).dumpsSorted

end JobProvenance

end XbowPerso
