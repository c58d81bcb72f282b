import XbowPerso.Lib.PyUrlParse
import XbowPerso.ExecutionContract
import XbowPerso.SqliteQueue
import Mathlib.Logic.Function.Basic

/-!
# Flows of the remote agent

`pentagi_dispatch` enqueues a flow under the key of its execution permit, and `pentagi_worker_service` claims it, checks the permit twice
against the stored campaign, and sends the request. The request changes the remote side and cannot be repeated safely, so a flow has one
attempt. Dispatchers, workers and all other clients of the queue go through their steps one by one, in any order.
-/

namespace XbowPerso

namespace PentagiFlow

open ExecutionContract (Python texts rateJson sorted)

/-- What the dispatch and the worker read of a campaign document. -/
structure Campaign where
  contract : ExecutionContract.Campaign
  cancelled : Bool

def Campaign.id (c : Campaign) : String := c.contract.id

/-- `PentagiFlowPlan` -/
structure Plan where
  endpoint : String
  payload : List (String × Json)
  target : String
  modelProvider : String
  dryRun : Bool
  executionSupported : Bool

/-- `PentagiExecutionPermit` -/
structure Permit where
  campaignId : String
  target : String
  policyFingerprint : String
  idempotencyKey : String
  endpoint : String
  modelProvider : String
  deriving DecidableEq

/-- `PentagiAdmissionDecision`, by the fields that are read. -/
structure Decision where
  reasons : List String
  policyFingerprint : String

/-- What a process reads from its environment: three strict booleans and the cap of the admission. -/
structure Settings where
  enabled : Except PyError Bool
  activeScans : Except PyError Bool
  dryRun : Except PyError Bool
  admissionCap : Except PyError Binary64

/-! ## Permits -/

variable (py : Python)

/-- `_policy_fingerprint` -/
def policyFingerprint (c : Campaign) (plan : Plan) : String :=
  let r := c.contract.rules
  py.sha.hex (utf8 (Json.obj [("campaign_id", .str c.id), ("target", .str plan.target),
    ("allowed_targets", texts (sorted r.allowedTargets)), ("denied_targets", texts (sorted r.deniedTargets)),
    ("max_requests_per_second", rateJson py.floats r.maxRequestsPerSecond), ("automated_scanning", .bool r.automatedScanning),
    ("destructive_testing", .bool r.destructiveTesting), ("denial_of_service", .bool r.denialOfService),
    ("social_engineering", .bool r.socialEngineering), ("credential_attacks", .bool r.credentialAttacks),
    ("endpoint", .str plan.endpoint), ("provider", .str plan.modelProvider)]).dumpsSorted)

/-- `evaluate_pentagi_admission` -/
def evaluateAdmission (settings : Settings) (c : Campaign) (plan : Plan) : Except PyError Decision :=
  if plan.target ≠ c.contract.primaryUrl then
    .error (.runtimeError "PentAGI plan target does not match campaign target")
  else do
    let enabled ← settings.enabled
    let activeScans ← settings.activeScans
    let dryRun ← settings.dryRun
    let cap ← settings.admissionCap
    let flags := [(!enabled, "pentagi_disabled"), (!activeScans, "active_scans_disabled"), (dryRun, "global_dry_run"),
      (cap.lt c.contract.rules.maxRequestsPerSecond, "campaign_rps_exceeds_admission_cap"), (plan.dryRun, "plan_is_dry_run"),
      (!plan.executionSupported, "execution_transport_not_enforceable")]
    pure ⟨(flags.filter (·.1)).map (·.2), policyFingerprint py c plan⟩

/-- `_canonical_plan_payload` -/
def canonicalPlanPayload (plan : Plan) : List UInt8 :=
  utf8 (Json.obj [("endpoint", .str plan.endpoint), ("target", .str plan.target), ("model_provider", .str plan.modelProvider),
    ("payload", .obj plan.payload)]).dumpsSorted

/-- The bytes whose digest is the idempotency key. -/
def keyMaterial (campaignId fingerprint : String) (plan : Plan) : List UInt8 :=
  utf8 campaignId ++ 0x1f :: (utf8 fingerprint ++ 0x1f :: utf8 (py.sha.hex (canonicalPlanPayload plan)))

/-- `build_pentagi_idempotency_key` -/
def idempotencyKey (c : Campaign) (plan : Plan) (decision : Decision) : String :=
  "pentagi:" ++ py.sha.hex (keyMaterial py c.id decision.policyFingerprint plan)

/-- `issue_pentagi_execution_permit` -/
def issuePermit (settings : Settings) (c : Campaign) (plan : Plan) : Except PyError Permit :=
  match evaluateAdmission py settings c plan with
  | .error e => .error e
  | .ok decision =>
    if decision.reasons ≠ [] then
      .error (.runtimeError ("PentAGI execution permit denied: " ++ ",".intercalate decision.reasons))
    else .ok ⟨c.id, plan.target, decision.policyFingerprint, idempotencyKey py c plan decision, plan.endpoint, plan.modelProvider⟩

/-- `verify_pentagi_execution_permit` -/
def verifyPermit (settings : Settings) (permit : Permit) (c : Campaign) (plan : Plan) : Except PyError Unit :=
  match evaluateAdmission py settings c plan with
  | .error e => .error e
  | .ok decision =>
    if decision.reasons ≠ [] then
      .error (.runtimeError ("PentAGI execution permit no longer admissible: " ++ ",".intercalate decision.reasons))
    else
      match issuePermit py settings c plan with
      | .error e => .error e
      | .ok expected =>
        if permit ≠ expected then
          .error (.runtimeError "PentAGI execution permit does not match current campaign policy and plan")
        else .ok ()

/-! ## Dispatch -/

/-- `_job_payload` -/
def jobPayload (permit : Permit) (plan : Plan) : List (String × Json) :=
  [("campaign_id", .str permit.campaignId), ("target", .str permit.target), ("policy_fingerprint", .str permit.policyFingerprint),
    ("idempotency_key", .str permit.idempotencyKey), ("endpoint", .str permit.endpoint),
    ("model_provider", .str permit.modelProvider), ("request", .obj plan.payload)]

theorem jobPayload_distinct (permit : Permit) {plan : Plan} (h : (Json.obj plan.payload).Distinct) :
    (Json.obj (jobPayload permit plan)).Distinct := by
  refine ⟨by simp [jobPayload], ?_⟩
  exact ⟨trivial, trivial, trivial, trivial, trivial, trivial, h, trivial⟩

/-- `enqueue_pentagi_flow` up to the queue: the permit that was prepared, or a new one, and the arguments of the enqueue. -/
def dispatchRequest (settings : Settings) (cfg : QueueSettings) (c : Campaign) (plan : Plan)
    (hplan : (Json.obj plan.payload).Distinct) (given : Option Permit) : Except PyError EnqueueRequest := do
  let permit ← match given with
    | some permit => pure permit
    | none => issuePermit py settings c plan
  verifyPermit py settings permit c plan
  EnqueueRequest.validate cfg c.id "pentagi_flow" ⟨jobPayload permit plan, jobPayload_distinct permit hplan⟩ 1
    (some permit.idempotencyKey)

/-! ## The worker -/

/-- `PentagiWorkerPreflight` -/
structure Preflight where
  campaign : Campaign
  plan : Plan
  permit : Permit

/-- A nonempty text of the payload. -/
def requiredText (fields : List (String × Json)) (key : String) : Except PyError String :=
  match fields.lookup key with
  | some (.str text) => if text = "" then .error (.runtimeError "PentAGI job metadata is incomplete") else .ok text
  | _ => .error (.runtimeError "PentAGI job metadata is incomplete")

/-- The plan and the permit that the payload describes. -/
def readPayload (c : Campaign) (fields request : List (String × Json)) : Except PyError (String × Plan × Permit) := do
  let campaignId ← requiredText fields "campaign_id"
  let target ← requiredText fields "target"
  let policyFingerprint ← requiredText fields "policy_fingerprint"
  let idempotencyKey ← requiredText fields "idempotency_key"
  let endpoint ← requiredText fields "endpoint"
  let modelProvider ← requiredText fields "model_provider"
  pure (campaignId, ⟨endpoint, request, target, modelProvider, false, true⟩,
    ⟨c.id, target, policyFingerprint, idempotencyKey, endpoint, modelProvider⟩)

/-- `preflight_pentagi_job` -/
def preflight (settings : Settings) (job : Job) (c : Campaign) : Except PyError Preflight :=
  if job.kind ≠ .pentagiFlow then .error (.runtimeError "worker received a non-PentAGI job")
  else if job.campaignId.text ≠ c.id then .error (.runtimeError "PentAGI job campaign does not match")
  else if c.cancelled then .error (.runtimeError "campaign is cancelled")
  else
    match Json.loads job.payload with
    | some (.obj fields) =>
      match fields.lookup "request" with
      | some (.obj request) =>
        match readPayload c fields request with
        | .error e => .error e
        | .ok (campaignId, plan, permit) =>
          if campaignId ≠ c.id then .error (.runtimeError "PentAGI payload campaign does not match")
          else if job.dedupeKey.map Ident.text ≠ some permit.idempotencyKey then
            .error (.runtimeError "PentAGI queue identity does not match permit")
          else
            match verifyPermit py settings permit c plan with
            | .error _ => .error (.runtimeError "PentAGI execution permit revalidation failed")
            | .ok () => .ok ⟨c, plan, permit⟩
      | _ => .error (.runtimeError "PentAGI request payload is invalid")
    | _ => .error (.runtimeError "PentAGI job payload is invalid")

/-- The checks of `submit_pentagi_flow` on the plan and the permit, and the body that it sends. -/
def submitBody (plan : Plan) (permit : Permit) : Except PyError (List UInt8) :=
  if plan.dryRun = true ∨ plan.executionSupported = false then .error (.runtimeError "PentAGI plan is not execution-capable")
  else if permit.endpoint ≠ plan.endpoint then .error (.runtimeError "PentAGI permit endpoint mismatch")
  else if permit.modelProvider ≠ plan.modelProvider then .error (.runtimeError "PentAGI permit provider mismatch")
  else
    let body := utf8 (Json.obj plan.payload).dumpsSorted
    if body.length > 128 * 1024 then .error (.runtimeError "PentAGI request exceeds 128 KiB") else .ok body

/-! ## The system -/

/-- A request that was sent: its body and key, the job of the worker, and the campaign that the worker had loaded. -/
structure Sent where
  job : Job
  campaign : Campaign
  plan : Plan
  permit : Permit
  settings : Settings
  body : List UInt8

/-- How far a worker is in `process_one`. -/
inductive Phase where
  | idle
  | claimed (job : Job)
  /-- The first preflight has passed. -/
  | checked (job : Job)
  /-- The second one has, with the settings that it read. -/
  | verified (job : Job) (settings : Settings) (found : Preflight)
  /-- The lease was renewed, and the request is next. -/
  | leased (job : Job) (settings : Settings) (found : Preflight)

/-- The job that a worker holds. -/
def Phase.job? : Phase → Option Job
  | .idle => none
  | .claimed job | .checked job | .verified job _ _ | .leased job _ _ => some job

/-- The queue, the stored campaigns with every document that was ever stored, how far the workers are, the enqueues in progress, and the
requests that were sent, the last one first. -/
structure System where
  queue : SqliteQueue
  stored : String → Option Campaign
  documents : List Campaign
  worker : Nat → Phase
  dispatcher : Nat → Option EnqueueRequest
  sent : List Sent

def System.init : System := ⟨.empty, fun _ => none, [], fun _ => .idle, fun _ => none, []⟩

/-- The steps. The queue's other clients make any calls that enqueue no flow. -/
inductive Action where
  /-- A campaign is created or changed. -/
  | save (c : Campaign)
  /-- A step of another client of the queue. -/
  | queue (t : SqliteStep) (env : Reading)
  /-- A dispatch up to the first statement of its enqueue. -/
  | dispatch (d : Nat) (settings : Settings) (cfg : QueueSettings) (c : Campaign) (plan : Plan)
      (hplan : (Json.obj plan.payload).Distinct) (given : Option Permit)
  /-- The insert of a dispatch that found no job. -/
  | insert (d : Nat) (env : Reading)
  | claim (w : Nat) (cfg : QueueSettings) (env : Reading) (workerId : String)
  /-- The worker loads the campaign and makes the first preflight, or the second. -/
  | preflight (w : Nat) (settings : Settings)
  | heartbeat (w : Nat) (env : Reading) (workerId : String)
  /-- The request, unless the transport refuses it before it is sent. -/
  | submit (w : Nat) (refused : Bool)
  /-- The worker or its transport fails, or it begins anew. -/
  | crash (w : Nat)

/-- A step of the queue that brings in no flow. -/
def bringsNoFlow : SqliteStep → Bool
  | .insert r _ _ => decide (r.kind ≠ .pentagiFlow)
  | .transaction _ c => !c.isEnqueue
  | _ => true

def System.setWorker (s : System) (w : Nat) (p : Phase) : System := { s with worker := Function.update s.worker w p }

/-- The claim of a worker that has no job. -/
def claim (cfg : QueueSettings) (env : Reading) (s : System) (w : Nat) (workerId : String) : System :=
  match s.queue.claimKind cfg env workerId "pentagi_flow" with
  | .ok (some job, q) => { s.setWorker w (.claimed job) with queue := q }
  | .ok (none, q) => { s with queue := q }
  | .error _ => s

/-- The campaign is loaded and the permit checked; a failure ends the round. -/
def check (settings : Settings) (s : System) (w : Nat) (job : Job) (next : Preflight → Phase) : System :=
  match s.stored job.campaignId.text with
  | none => s.setWorker w .idle
  | some c =>
    match preflight py settings job c with
    | .error _ => s.setWorker w .idle
    | .ok found => s.setWorker w (next found)

def step (s : System) : Action → System
  | .save c => { s with stored := Function.update s.stored c.id (some c), documents := c :: s.documents }
  | .queue t env => if bringsNoFlow t then { s with queue := s.queue.apply t env } else s
  | .dispatch d settings cfg c plan hplan given =>
    match dispatchRequest py settings cfg c plan hplan given with
    | .error _ => s
    | .ok r => if (s.queue.selectDedupe r).isSome then s else { s with dispatcher := Function.update s.dispatcher d (some r) }
  | .insert d env =>
    match s.dispatcher d with
    | none => s
    | some r =>
      { s with queue := s.queue.apply (.insert r env.uuid env.now) env, dispatcher := Function.update s.dispatcher d none }
  | .claim w cfg env workerId =>
    match s.worker w with
    | .idle => claim cfg env s w workerId
    | _ => s
  | .preflight w settings =>
    match s.worker w with
    | .claimed job => check py settings s w job fun _ => .checked job
    | .checked job => check py settings s w job fun found => .verified job settings found
    | _ => s
  | .heartbeat w env workerId =>
    match s.worker w with
    | .verified job settings found =>
      match s.queue.heartbeat env job.id.text workerId with
      | .ok (true, q) => { s.setWorker w (.leased job settings found) with queue := q }
      | .ok (false, q) => { s.setWorker w .idle with queue := q }
      | .error _ => s.setWorker w .idle
    | _ => s
  | .submit w refused =>
    match s.worker w with
    | .leased job settings found =>
      match submitBody found.plan found.permit with
      | .error _ => s.setWorker w .idle
      | .ok body =>
        if refused then s.setWorker w .idle
        else { s.setWorker w .idle with sent := ⟨job, found.campaign, found.plan, found.permit, settings, body⟩ :: s.sent }
    | _ => s
  | .crash w => s.setWorker w .idle

def run (actions : List Action) : System := actions.foldl (step py) .init

end PentagiFlow

/-! ## The gateway of the agent's actions -/

namespace PentagiGateway

open ExecutionContract (Python)
open PentagiFlow (Campaign Plan Settings evaluateAdmission)
open PyUrl (urlparse ParseResult)
open ScopePolicy (isHostAllowed rstripDots)

/-- `PentagiFlowBinding` -/
structure Binding where
  flowId : String
  campaignId : String
  policyFingerprint : String
  endpoint : String
  modelProvider : String

/-- `PentagiAuthorizedAction` -/
structure AuthorizedAction where
  campaignId : String
  kind : String
  target : String
  maxRequestsPerSecond : Binary64

/-- `requested_rps`: a float, a text, or a value that is no number. -/
inductive RequestedRate where
  | float (x : Binary64)
  | text (s : String)
  | other

/-- `PentagiActionGatewayError`, and the other exceptions that come through. -/
inductive GatewayError where
  | gateway (message : String)
  | admission (e : PyError)
  | valueError
  deriving DecidableEq

/-- `_TARGET_ACTIONS` -/
def targetActions : List String := ["request_recon", "request_nuclei_scan", "request_validation"]

/-- `_bound_execution_plan` -/
def boundExecutionPlan (binding : Binding) (c : Campaign) : Plan where
  endpoint := binding.endpoint
  payload := []
  target := c.contract.primaryUrl
  modelProvider := binding.modelProvider
  dryRun := false
  executionSupported := true

/-- `float(requested_rps)`, by what `float` reads a text as; none for a `TypeError` or a `ValueError`. -/
def requestedFloat (readText : String → Option Binary64) : RequestedRate → Option Binary64
  | .float x => some x
  | .text s => readText s
  | .other => none

/-- `(parsed.hostname or "").lower().rstrip(".")` -/
def hostOf (u : Unicode) (parsed : ParseResult) : List Char := rstripDots (u.lower ((parsed.hostname u).getD []))

/-- What the target is refused for before its host is looked up in the scope. -/
def badUrl (u : Unicode) (parsed : ParseResult) (port : Option Nat) : Prop :=
  (parsed.scheme ≠ "http".toList ∧ parsed.scheme ≠ "https".toList) ∨ hostOf u parsed = [] ∨ parsed.username ≠ [] ∨ parsed.password ≠ [] ∨
    port = some 0 ∨ parsed.fragment ≠ []

instance (u : Unicode) (parsed : ParseResult) (port : Option Nat) : Decidable (badUrl u parsed port) := by
  unfold badUrl
  infer_instance

def outsideScope : GatewayError := .gateway "target is outside campaign scope"

/-- The checks of the target; the lookup of the host is not under the `try`. -/
def checkTarget (u : Unicode) (c : Campaign) (target : String) : Except GatewayError Unit :=
  match urlparse u target.toList with
  | none => .error outsideScope
  | some parsed =>
    match parsed.split.port with
    | none => .error outsideScope
    | some port =>
      if badUrl u parsed port then .error outsideScope
      else
        match isHostAllowed u (String.ofList (hostOf u parsed)) c.contract.rules.allowedTargets c.contract.rules.deniedTargets with
        | none => .error .valueError
        | some false => .error outsideScope
        | some true => .ok ()

/-- `authorize_pentagi_action` -/
def authorizeAction (py : Python) (readText : String → Option Binary64) (settings : Settings) (binding : Binding) (c : Campaign)
    (kind target : String) (requestedRps : RequestedRate) : Except GatewayError AuthorizedAction :=
  if kind ∉ targetActions then .error (.gateway "PentAGI action is not allowed")
  else if binding.campaignId ≠ c.id then .error (.gateway "PentAGI campaign binding does not match")
  else if c.cancelled = true then .error (.gateway "campaign is cancelled")
  else
    match evaluateAdmission py settings c (boundExecutionPlan binding c) with
    | .error e => .error (.admission e)
    | .ok decision =>
      if decision.reasons ≠ [] then .error (.gateway "current campaign policy is not admissible")
      else if binding.policyFingerprint ≠ decision.policyFingerprint then
        .error (.gateway "campaign policy changed after flow binding")
      else
        match checkTarget py.unicode c target with
        | .error e => .error e
        | .ok () =>
          match requestedFloat readText requestedRps with
          | none => .error (.gateway "requested rate is invalid")
          | some rate =>
            -- both comparisons are false on NaN
            if rate.le .zero = true ∨ c.contract.rules.maxRequestsPerSecond.lt rate = true then
              .error (.gateway "requested rate exceeds campaign rate cap")
            else .ok ⟨c.id, kind, target, rate⟩

end PentagiGateway

end XbowPerso
