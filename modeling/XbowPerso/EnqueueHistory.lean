import XbowPerso.ReconPlan
import XbowPerso.Theorems.JobProvenance

/-!
# The enqueues of a campaign

What the requests of a campaign enqueue, and under which dedupe keys: the planner, the ingestion of a scan and the endpoints for findings
and reports each write the key and the payload themselves. In between, events are appended to the campaign and workers take the jobs.
-/

namespace XbowPerso

namespace EnqueueHistory

open CampaignAudit (appendCampaignEvent)
open ExecutionContract (Campaign urlHost)
open HackerOneBinding (isBinding)
open JobProvenance (EnqueuePath ProvenanceEnv ScanEngine StoredCampaign Plain build_spec distinct_attached distinct_fieldsOf plain_payload)
open ReconPlan (ReconTask TaskKind buildReconPlan safeTarget)
open RunnerRpc (JsonDict)

/-! ## The swarm -/

/-- `ReconCapability`: the agent of a kind of task, which has the network, and the requests that it may send to a target. -/
structure ReconCapability where
  agent : String
  maxRequestsPerTarget : Nat

/-- `_CAPABILITIES` -/
def capability : TaskKind → ReconCapability
  | .crawl => ⟨"crawler-agent", 40⟩
  | .mapEndpoints => ⟨"endpoint-agent", 20⟩
  | .detectTechnology => ⟨"tech-agent", 8⟩
  | .mapForms => ⟨"form-agent", 12⟩
  | .browserObserve => ⟨"browser-agent", 25⟩

/-- `SwarmBudget` -/
structure SwarmBudget where
  maxTasks : Nat
  maxTotalRequests : Nat
  maxNetworkAgents : Nat

def SwarmBudget.default : SwarmBudget := ⟨5, 80, 5⟩

/-- The order by priority, kind and agent. -/
def sooner (a b : ReconTask) : Prop :=
  b.priority < a.priority ∨ (a.priority = b.priority ∧ (a.kind.word < b.kind.word ∨ (a.kind = b.kind ∧ a.agent ≤ b.agent)))

instance : DecidableRel sooner := fun _ _ => inferInstanceAs (Decidable (_ ∨ _))

/-- `prioritize_recon_tasks`, from the priority and the reason that it gives a task. -/
def prioritizeReconTasks (adjusted : ReconTask → Nat × String) (tasks : List ReconTask) : List ReconTask :=
  (tasks.map fun task => { task with priority := (adjusted task).1, reason := (adjusted task).2 }).insertionSort sooner

/-- Where the loop of `coordinate_recon_swarm` is. -/
structure Swarm where
  selected : List ReconTask
  agents : List String
  used : Nat

/-- One task of the loop. -/
def Swarm.coordinate (limits : SwarmBudget) (s : Swarm) (task : ReconTask) : Except PyError Swarm :=
  if task.agent ≠ (capability task.kind).agent then .error (.valueError ("recon task agent mismatch for " ++ task.kind.word))
  else if task.maxRequests < 1 ∨ (capability task.kind).maxRequestsPerTarget < task.maxRequests then
    .error (.valueError "recon task request budget exceeds agent capability")
  else if limits.maxTasks ≤ s.selected.length ∨ (task.agent ∉ s.agents ∧ limits.maxNetworkAgents ≤ s.agents.length) ∨
      limits.maxTotalRequests ≤ s.used then .ok s
  else
    let allocated := min task.maxRequests (limits.maxTotalRequests - s.used)
    .ok ⟨s.selected ++ [{ task with maxRequests := allocated }], s.agents.insert task.agent, s.used + allocated⟩

def Swarm.coordinateAll (limits : SwarmBudget) : List ReconTask → Swarm → Except PyError Swarm
  | [], s => .ok s
  | task :: tasks, s =>
    match s.coordinate limits task with
    | .error e => .error e
    | .ok s => coordinateAll limits tasks s

/-- `coordinate_recon_swarm` -/
def coordinateReconSwarm (limits : SwarmBudget) (tasks : List ReconTask) : Except PyError (List ReconTask) :=
  match Swarm.coordinateAll limits (tasks.insertionSort sooner) ⟨[], [], 0⟩ with
  | .error e => .error e
  | .ok s => .ok s.selected

/-- The recon tasks of a run of the planner. -/
def reconTasks (u : Unicode) (scopeChecker : String → Bool) (target : String) (graph : ObservationGraph)
    (adjusted : ReconTask → Nat × String) : Except PyError (List ReconTask) :=
  match buildReconPlan u scopeChecker 10 target graph with
  | .error e => .error e
  | .ok plan => coordinateReconSwarm SwarmBudget.default (prioritizeReconTasks adjusted plan)

/-! ## Requests of the queue -/

/-- A job with the dedupe key under which it is enqueued. -/
structure Request where
  path : EnqueuePath
  dedupeKey : String

/-- What is read of a finding; the rest is the text of its other fields without the status and the validator. -/
structure Finding where
  id : String
  asset : String
  rest : String
  deriving DecidableEq

inductive Platform where
  | generic | hackerone | bugcrowd
  deriving DecidableEq

def Platform.word : Platform → String
  | generic => "generic"
  | hackerone => "hackerone"
  | bugcrowd => "bugcrowd"

/-- `_enqueue_recon_tasks`, for one task. -/
def reconRequest (browserReady : Bool) (fingerprint : String) (task : ReconTask) : Option Request :=
  if task.kind = .browserObserve then
    if browserReady then some ⟨.browserObserve task.target, "recon:browser:" ++ fingerprint ++ ":" ++ task.target⟩ else none
  else some ⟨.reconTask task.kind.word task.target task.maxRequests ["GET", "HEAD"] true true,
    "recon:" ++ task.kind.word ++ ":" ++ fingerprint ++ ":" ++ task.target⟩

/-- The fields of `policy_receipt` that `sanitized_scan_payload` keeps, for a host that is in scope or not. -/
def stableReceipt (c : Campaign) (host : String) (allowed : Bool) : Json :=
  .obj [("allowed", .bool (allowed && c.rules.automatedScanning)), ("host", .str host), ("action", .str "automated_scan"),
    ("action_known", .bool true), ("scope_allowed", .bool allowed), ("action_blocked", .bool (!c.rules.automatedScanning)),
    ("authorization_reference", .str c.rules.authorizationReference)]

theorem distinct_stableReceipt (c : Campaign) (host : String) (allowed : Bool) : (stableReceipt c host allowed).Distinct := by
  refine HackerOneBinding.distinct_of_fields ?_ fun f hf => ?_
  · simp only [List.map_cons, List.map_nil]
    decide
  · simp only [List.mem_cons, List.not_mem_nil, or_false] at hf
    rcases hf with rfl | rfl | rfl | rfl | rfl | rfl | rfl
    all_goals trivial

/-- The host of a campaign. -/
def hostOf (u : Unicode) (c : Campaign) : String := (urlHost u c.primaryUrl).getD ""

/-- A scan whose receipt allows it. -/
def allowedScan (u : Unicode) (c : Campaign) (engine : ScanEngine) : EnqueuePath :=
  .scan engine (stableReceipt c (hostOf u c) true) (distinct_stableReceipt c _ _)

/-- `_enqueue_action` for one engine, where the receipt allows the scan. -/
def scanRequest (u : Unicode) (c : Campaign) (fingerprint : String) (engine : ScanEngine) : Request :=
  ⟨allowedScan u c engine,
    match engine with
    | .strix => "planner:scan:" ++ fingerprint
    | .nuclei => "planner:scan:nuclei:" ++ fingerprint⟩

/-- The key of a validation, or of a repeated one. -/
def validationKey (findingId : String) : Option Nat → String
  | none => "validation:" ++ findingId
  | some ordinal => "validation:" ++ findingId ++ ":repeat:" ++ toString ordinal

/-- `_enqueue_action` for one finding. -/
def validateRequest (f : Finding) (ordinal : Option Nat) : Request :=
  ⟨.validate f.id f.asset (ordinal.map Int.ofNat), validationKey f.id ordinal⟩

/-- The enqueue of `ingest_scanner_run`. -/
def ingestRequest (f : Finding) : Request := ⟨.ingest f.id f.asset, validationKey f.id none⟩

/-- The enqueue of `add_finding`. -/
def addFindingRequest (f : Finding) : Request := ⟨.addFinding f.id f.asset, validationKey f.id none⟩

/-! ## Histories -/

/-- An enqueue that reached the queue, and what it returned or raised. -/
structure Asked where
  request : Request
  payload : JsonDict
  answer : Except PyError Job

/-- A campaign with its findings, the queue, and the enqueues so far. -/
structure History where
  stored : StoredCampaign
  findings : List Finding
  queue : SqliteQueue
  asked : List Asked

/-- What a run of the planner enqueues jobs for. -/
inductive Planned where
  | recon (fingerprint : String) (graph : ObservationGraph) (scopeChecker : String → Bool) (adjusted : ReconTask → Nat × String)
      (browserReady : Bool)
  | scan (fingerprint : String) (engines : List ScanEngine)
  /-- The findings by their identifiers, with the ordinals of the repeated validations. -/
  | validate (selected : List (String × Option Nat))
  | report (fingerprint : String)

inductive Event where
  /-- `advance_campaign`, also from `start_campaign` -/
  | advance (reading : Nat → Reading) (planned : Planned)
  /-- `add_finding`, and whether the event of a queued validation is there for a finding that is. -/
  | addFinding (reading : Reading) (finding : Finding) (queued : Bool)
  /-- `ingest_scanner_run`, and whether the campaign is saved after it. -/
  | ingest (reading : Nat → Reading) (findings : List Finding) (saved : Bool)
  /-- `_ensure_completion_report` -/
  | completionReport (reading : Reading)
  | queueReport (reading : Reading) (platform : Platform) (requestId : String)
  /-- An event of the campaign that binds no policy. -/
  | append (entry : AuditEntry) (sealing : ResolvedSecret) (ordinary : isBinding entry = false)
  /-- A call of a worker, of an operator or of the recovery. -/
  | call (reading : Reading) (c : QueueCall) (other : c.isEnqueue = false)

variable (env : ProvenanceEnv) (secret : ResolvedSecret) (cfg : QueueSettings)

/-- The requests of the planner. -/
def Planned.requests (h : History) : Planned → List Request
  | recon fingerprint graph scopeChecker adjusted browserReady =>
    match reconTasks env.binding.scope.unicode scopeChecker h.stored.campaign.primaryUrl graph adjusted with
    | .error _ => []
    | .ok tasks => tasks.filterMap (reconRequest browserReady fingerprint)
  | scan fingerprint engines =>
    let c := h.stored.campaign
    if ScopePolicy.isHostAllowed env.binding.scope.unicode (hostOf env.binding.scope.unicode c) c.rules.allowedTargets
        c.rules.deniedTargets = some true ∧ c.rules.automatedScanning = true then
      engines.map (scanRequest env.binding.scope.unicode c fingerprint)
    else []
  | validate selected =>
    selected.filterMap fun s => (h.findings.find? fun f => decide (f.id = s.1)).map fun f => validateRequest f s.2
  | report fingerprint => [⟨.plannedReport, "planner:report:" ++ fingerprint⟩]

theorem distinct_enqueued {path : EnqueuePath} {s : StoredCampaign} {payload : JsonDict}
    (h : path.enqueued env secret s = .ok payload) : (Json.obj payload).Distinct := by
  have hplain := plain_payload env.binding.floats s.campaign path
  unfold EnqueuePath.enqueued JobProvenance.attachJobProvenance at h
  dsimp only at h
  split at h
  · cases h
    exact hplain.1
  split at h
  · cases h
  split at h
  · cases h
  rename_i provenance hprovenance
  cases h
  obtain ⟨current, binding, -, -, rfl⟩ := build_spec hprovenance
  exact distinct_attached hplain (distinct_fieldsOf _ _ _ _ _)

/-- One enqueue, and whether it raised nothing. -/
def History.ask (reading : Reading) (h : History) (r : Request) : Bool × History :=
  match hpayload : r.path.enqueued env secret h.stored with
  | .error _ => (false, h)
  | .ok payload =>
    match h.queue.enqueue cfg reading h.stored.campaign.id r.path.kind.word ⟨payload, distinct_enqueued env secret hpayload⟩ 2
      (some r.dedupeKey) with
    | .error e => (false, { h with asked := h.asked ++ [⟨r, payload, .error e⟩] })
    | .ok (job, queue) => (true, { h with queue := queue, asked := h.asked ++ [⟨r, payload, .ok job⟩] })

/-- One enqueue after the other; one that raises ends it. -/
def History.askAll (reading : Nat → Reading) : List Request → History → Bool × History
  | [], h => (true, h)
  | r :: rs, h =>
    match h.ask env secret cfg (reading rs.length) r with
    | (false, h) => (false, h)
    | (true, h) => askAll reading rs h

/-- The findings that are new to a campaign with these identifiers, each identifier once. -/
def newFindings : List String → List Finding → List Finding
  | _, [] => []
  | ids, f :: fs => if f.id ∈ ids then newFindings ids fs else f :: newFindings (f.id :: ids) fs

/-- One request, or what happens in between. -/
def History.step (h : History) : Event → History
  | .advance reading planned => (h.askAll env secret cfg reading (planned.requests env h)).2
  | .addFinding reading f queued =>
    match h.findings.find? fun g => decide (g.id = f.id) with
    | some existing => if f = existing ∧ queued = false then (h.ask env secret cfg reading (addFindingRequest existing)).2 else h
    | none => (History.ask env secret cfg reading { h with findings := h.findings ++ [f] } (addFindingRequest f)).2
  | .ingest reading findings saved =>
    let new := newFindings (h.findings.map Finding.id) findings
    let out := h.askAll env secret cfg reading (new.map ingestRequest)
    if out.1 = true ∧ saved = true then { out.2 with findings := out.2.findings ++ new } else out.2
  | .completionReport reading => (h.ask env secret cfg reading ⟨.completionReport "generic", "report:generic:completed"⟩).2
  | .queueReport reading platform requestId =>
    (h.ask env secret cfg reading ⟨.queueReport platform.word, "report:" ++ platform.word ++ ":" ++ requestId⟩).2
  | .append entry sealing _ =>
    { h with stored := { h.stored with events := appendCampaignEvent env.binding.audit h.stored.events (entry, sealing) } }
  | .call reading c _ => { h with queue := (h.queue.call cfg reading c).2 }

def History.run (h : History) (events : List Event) : History := events.foldl (History.step env secret cfg) h

end EnqueueHistory

end XbowPerso
