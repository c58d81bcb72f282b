import XbowPerso.Planner
import XbowPerso.SqliteQueue

/-!
# Advancing a campaign

`advance_campaign`: the planner's next action goes through the budget, the autonomy gate and the adaptive cycle, and is enqueued in
bounded numbers. What the intelligence modules make of the observations is read: the action, its adjustments, the risk, the consensus, the
tasks and the engines.
-/

namespace XbowPerso

namespace Orchestrator

open AdaptivePlanner (ActionKind PlannedAction)

/-! ## The stability of the planner -/

/-- The decisions that repeat the one before the last, which was another. -/
def oscillations : List ActionKind → Nat
  | a :: b :: c :: rest => (if c = a ∧ c ≠ b then 1 else 0) + oscillations (b :: c :: rest)
  | _ => 0

/-- The decisions to act right after a decision to stop. -/
def stopReopens : List ActionKind → Nat
  | a :: b :: rest => (if a = .stop ∧ b ≠ .stop then 1 else 0) + stopReopens (b :: rest)
  | _ => 0

/-- Whether the last four transitions, if there are four, are all switches. -/
def highChurn (decisions : List ActionKind) : Bool :=
  let transitions := decisions.zip decisions.tail
  decide (4 ≤ transitions.length) && (transitions.drop (transitions.length - 4)).all fun t => decide (t.1 ≠ t.2)

/-- The score of `planner_stability`, in hundredths. -/
def stabilityScore (decisions : List ActionKind) : Nat :=
  100 - min 45 (15 * oscillations decisions) - min 40 (40 * stopReopens decisions) - if highChurn decisions then 20 else 0

/-- `planner_stability_breaker_reason` -/
def stabilityBreakerReason (decisions : List ActionKind) : Option String :=
  if 0 < stopReopens decisions then some "planner stability violation: action recorded after stop"
  else if stabilityScore decisions < 60 ∧ 3 ≤ oscillations decisions then
    some "planner stability violation: repeated decision oscillation"
  else none

/-! ## Budgets -/

/-- `PlannerBudget` -/
structure PlannerBudget where
  maxActions : Nat
  maxScans : Nat
  maxValidations : Nat
  maxValidationBatch : Nat
  maxReports : Nat
  maxInflightJobs : Nat
  maxFailedJobs : Nat
  positive : 1 ≤ maxActions ∧ 1 ≤ maxScans ∧ 1 ≤ maxValidations ∧ 1 ≤ maxValidationBatch ∧ 1 ≤ maxReports ∧
    1 ≤ maxInflightJobs ∧ 1 ≤ maxFailedJobs
  batch_le : maxValidationBatch ≤ maxValidations

/-- The counts of `budget_usage`. -/
structure Usage where
  actions : Nat
  scans : Nat
  validations : Nat
  reports : Nat
  inflightJobs : Nat
  failedJobs : Nat

/-- The jobs of a campaign of which something holds. -/
def countJobs (q : SqliteQueue) (campaign : Ident) (p : Job → Bool) : Nat :=
  q.rows.countP fun j => decide (j.campaignId = campaign) && p j

def isScan (j : Job) : Bool := decide (j.kind = .strixScan) || decide (j.kind = .nucleiScan)

def isValidation (j : Job) : Bool := decide (j.kind = .independentValidation)

def isReport (j : Job) : Bool := decide (j.kind = .report)

def isInflight (j : Job) : Bool := decide (j.status = .queued) || decide (j.status = .running)

def isFailed (j : Job) : Bool := decide (j.status = .failed)

/-- `budget_usage`: the decisions to stop do not count. -/
def budgetUsage (decisions : List ActionKind) (q : SqliteQueue) (campaign : Ident) : Usage where
  actions := decisions.countP fun a => decide (a ≠ .stop)
  scans := countJobs q campaign isScan
  validations := countJobs q campaign isValidation
  reports := countJobs q campaign isReport
  inflightJobs := countJobs q campaign isInflight
  failedJobs := countJobs q campaign isFailed

/-- What blocks scans, validations and reports alike. -/
def blockedJobs (u : Usage) (limits : PlannerBudget) : Option String :=
  if limits.maxInflightJobs ≤ u.inflightJobs then some "in-flight job budget exhausted"
  else if limits.maxFailedJobs ≤ u.failedJobs then some "failed job budget exhausted"
  else none

/-- `_blocked_actions` -/
def blockedAction (u : Usage) (limits : PlannerBudget) (kind : ActionKind) : Option String :=
  if kind = .stop then none
  else if limits.maxActions ≤ u.actions then some "planner action budget exhausted"
  else
    match kind with
    | .scan => if limits.maxScans ≤ u.scans then some "scan budget exhausted" else blockedJobs u limits
    | .validate => if limits.maxValidations ≤ u.validations then some "validation budget exhausted" else blockedJobs u limits
    | .report => if limits.maxReports ≤ u.reports then some "report budget exhausted" else blockedJobs u limits
    | _ => none

/-- `bool(usage.blocked_actions)` -/
def anyBlocked (u : Usage) (limits : PlannerBudget) : Bool :=
  [.inventory, .crawl, .scan, .validate, .report].any fun kind => (blockedAction u limits kind).isSome

/-- `apply_budget`: the action, and whether the usage is exhausted. -/
def applyBudget (u : Usage) (limits : PlannerBudget) (action : PlannedAction) : PlannedAction × Bool :=
  match blockedAction u limits action.kind with
  | none => (action, decide (limits.maxActions ≤ u.actions))
  | some reason => (⟨.stop, action.target, reason, 100⟩, true)

/-- What is left of a limit. -/
def remaining (limit used : Nat) : Nat := limit - used

/-- `coordinate_pipeline_action`: how many of the requested items are allocated. -/
def allocated (u : Usage) (limits : PlannerBudget) (requested : Nat) : ActionKind → Nat
  | .scan => min (min requested (remaining limits.maxScans u.scans)) (min (remaining limits.maxInflightJobs u.inflightJobs) limits.maxScans)
  | .validate => min (min requested (remaining limits.maxValidations u.validations))
      (min (remaining limits.maxInflightJobs u.inflightJobs) limits.maxValidationBatch)
  | .report => min (min requested (remaining limits.maxReports u.reports)) (min (remaining limits.maxInflightJobs u.inflightJobs) 1)
  | _ => 0

/-! ## The gate and the cycle -/

structure Rules where
  automatedScanning : Bool
  destructiveTesting : Bool
  denialOfService : Bool
  socialEngineering : Bool
  credentialAttacks : Bool

inductive Blocker where
  | automatedScanningDisabled | destructiveTestingEnabled | denialOfServiceEnabled | socialEngineeringEnabled | credentialAttacksEnabled
  | runtimeExhausted | budgetBlocked | failedJobs | campaignRiskBlocked | decisionConsensusBlocked
  deriving DecidableEq

inductive Engine where
  | strix | nuclei
  deriving DecidableEq

structure ReconTask where
  kind : String
  target : String

/-- What `_intelligence_context` and the adjustments after it make of the campaign and its graph. -/
structure Intelligence where
  riskBlocked : Bool
  riskLevel : String
  consensusBlocked : Bool
  nextFocus : String
  unstableJobKinds : List String
  /-- The reason and the priority of the action, adjusted. -/
  prioritized : String → Nat → String × Nat
  recon : List ReconTask
  surfaceReady : Bool
  surfaceReason : String
  selectedEngines : List Engine
  /-- `_pending_findings` -/
  pending : List String

structure AutonomyGate where
  humanReviewRequired : Bool
  nextFocus : String
  blockers : List Blocker

/-- `build_autonomy_gate` -/
def buildAutonomyGate (rules : Rules) (runtimeExhausted budgetBlocked : Bool) (failedJobs : Nat) (i : Intelligence) : AutonomyGate where
  humanReviewRequired := decide (i.nextFocus = "review_for_report") || decide (i.riskLevel = "high") || decide (i.riskLevel = "critical")
  nextFocus := i.nextFocus
  blockers :=
    (if rules.automatedScanning then [] else [.automatedScanningDisabled]) ++
    (if rules.destructiveTesting then [.destructiveTestingEnabled] else []) ++
    (if rules.denialOfService then [.denialOfServiceEnabled] else []) ++
    (if rules.socialEngineering then [.socialEngineeringEnabled] else []) ++
    (if rules.credentialAttacks then [.credentialAttacksEnabled] else []) ++
    (if runtimeExhausted then [.runtimeExhausted] else []) ++
    (if budgetBlocked then [.budgetBlocked] else []) ++
    (if failedJobs ≠ 0 then [.failedJobs] else []) ++
    (if i.riskBlocked then [.campaignRiskBlocked] else []) ++
    (if i.consensusBlocked then [.decisionConsensusBlocked] else [])

/-- The word of an action. -/
def actionWord : ActionKind → String
  | .inventory => "inventory"
  | .crawl => "crawl"
  | .scan => "scan"
  | .validate => "validate"
  | .report => "report"
  | .stop => "stop"

structure AdaptiveCycle where
  nextAction : String
  reason : String
  safeToProgress : Bool
  requiresHuman : Bool

/-- `build_adaptive_cycle` -/
def buildAdaptiveCycle (gate : AutonomyGate) (action : PlannedAction) (unstableJobKinds : List String) : AdaptiveCycle :=
  if gate.blockers ≠ [] then ⟨"stop", "autonomy gate is blocked", false, gate.humanReviewRequired⟩
  else if unstableJobKinds ≠ [] then ⟨"stop", "worker outcome feedback indicates unstable execution", false, true⟩
  else if gate.humanReviewRequired then ⟨gate.nextFocus, "campaign requires explicit human review", false, true⟩
  else if action.kind = .stop then ⟨"stop", action.reason, false, false⟩
  else ⟨actionWord action.kind, action.reason, decide (action.kind ≠ .report), decide (action.kind = .report)⟩

/-- The blockers for which the breaker opens. -/
def breakerBlockers : List Blocker := [.failedJobs, .runtimeExhausted, .budgetBlocked, .campaignRiskBlocked]

/-! ## Enqueueing -/

structure JobSpec where
  kind : JobKind
  payload : Payload
  dedupeKey : String

/-- One `enqueue` after the other; one that raises ends it, and the jobs before it stay. -/
def enqueueAll (cfg : QueueSettings) (reading : Nat → Reading) (campaignId : String) :
    List JobSpec → SqliteQueue → Except PyError (List Job) × SqliteQueue
  | [], q => (.ok [], q)
  | spec :: specs, q =>
    match q.enqueue cfg (reading specs.length) campaignId spec.kind.word spec.payload 2 (some spec.dedupeKey) with
    | .error e => (.error e, q)
    | .ok (job, q) =>
      match enqueueAll cfg reading campaignId specs q with
      | (.error e, q) => (.error e, q)
      | (.ok jobs, q) => (.ok (job :: jobs), q)

/-- What one pass of the loop reads. -/
structure Pass where
  /-- The first action of `planner.plan`. -/
  planned : PlannedAction
  /-- The candidates for a repeated validation with their ordinals, if the configuration is valid. -/
  repeatCandidates : Option (List (String × Nat))
  runtimeExhausted : Bool
  intelligence : Intelligence
  fingerprint : String
  /-- The policy allows an automated scan of the host. -/
  scanAllowed : Bool
  browserReady : Bool
  payload : JobKind → String → Payload
  reading : Nat → Reading

variable (primaryUrl : String) (findings : List String)

def stopAction (reason : String) : PlannedAction := ⟨.stop, some primaryUrl, reason, 100⟩

/-- The ordinals of the repeated validations, where the pass turns a stop into one. -/
def Pass.repeatOrdinals (p : Pass) : List (String × Nat) :=
  match p.repeatCandidates with
  | none => []
  | some candidates =>
    if p.planned.kind = .stop ∧ p.planned.reason = "observed findings await explicit confirmation or rejection" then candidates else []

/-- The action of a pass, before the budget. -/
def Pass.action (p : Pass) : PlannedAction :=
  match p.repeatCandidates with
  | none => stopAction primaryUrl "invalid repeat differential validation configuration"
  | some _ =>
    if p.repeatOrdinals ≠ [] then ⟨.validate, some primaryUrl, "bounded repeat differential validation required", 100⟩ else p.planned

/-- `_enqueue_recon_tasks` -/
def Pass.reconSpecs (p : Pass) : List JobSpec :=
  p.intelligence.recon.filterMap fun task =>
    if task.kind = "browser_observe" then
      if p.browserReady then
        some ⟨.browserFlow, p.payload .browserFlow task.target, "recon:browser:" ++ p.fingerprint ++ ":" ++ task.target⟩
      else none
    else some ⟨.reconTask, p.payload .reconTask task.target, "recon:" ++ task.kind ++ ":" ++ p.fingerprint ++ ":" ++ task.target⟩

def Pass.scanSpec (p : Pass) : Engine → JobSpec
  | .strix => ⟨.strixScan, p.payload .strixScan "", "planner:scan:" ++ p.fingerprint⟩
  | .nuclei => ⟨.nucleiScan, p.payload .nucleiScan "", "planner:scan:nuclei:" ++ p.fingerprint⟩

def Pass.validationSpec (p : Pass) (finding : String) : JobSpec :=
  match p.repeatOrdinals.find? fun r => decide (r.1 = finding) with
  | none => ⟨.independentValidation, p.payload .independentValidation finding, "validation:" ++ finding⟩
  | some r => ⟨.independentValidation, p.payload .independentValidation finding, "validation:" ++ finding ++ ":repeat:" ++ toString r.2⟩

/-- The findings to validate. -/
def Pass.toValidate (p : Pass) : List String :=
  if p.repeatOrdinals ≠ [] then findings.filter fun id => p.repeatOrdinals.any fun r => decide (r.1 = id) else p.intelligence.pending

/-- `coordinate_pipeline_action` and `_enqueue_action` -/
def Pass.actionSpecs (p : Pass) (u : Usage) (limits : PlannerBudget) : ActionKind → List JobSpec
  | .scan =>
    if p.scanAllowed then
      (p.intelligence.selectedEngines.take (allocated u limits p.intelligence.selectedEngines.length .scan)).map p.scanSpec
    else []
  | .validate =>
    let requested := if p.repeatOrdinals ≠ [] then p.repeatOrdinals.length else p.intelligence.pending.length
    ((p.toValidate findings).take (allocated u limits requested .validate)).map p.validationSpec
  | .report => [⟨.report, p.payload .report "", "planner:report:" ++ p.fingerprint⟩]
  | _ => []

/-! ## One run -/

/-- What a run does beside the jobs that it enqueues, in this order. -/
inductive Effect where
  /-- `_seed_primary_target` -/
  | seed
  /-- `record_circuit_open` -/
  | openBreaker (reason : String)
  /-- `_enqueue_recon_tasks` -/
  | recon
  deriving DecidableEq

def Effect.opens : Effect → Bool
  | openBreaker _ => true
  | _ => false

/-- The breaker is opened, unless this run has opened it. -/
def openBreaker (effects : List Effect) (reason : String) : List Effect :=
  if effects.any Effect.opens then effects else effects ++ [.openBreaker reason]

/-- How a run ends: the action that it records with its jobs, if nothing raises. -/
structure Outcome where
  effects : List Effect
  answer : Except PyError (PlannedAction × List Job)
  queue : SqliteQueue

/-- What a run is given. -/
structure Run where
  campaign : Ident
  primaryUrl : String
  findings : List String
  rules : Rules
  /-- The recorded decisions, in their audit order. -/
  decisions : List ActionKind
  /-- The reason of the breaker, if it is open. -/
  breaker : Option String
  runtimeExhausted : Bool
  /-- The passes of the loop, and what is read after it. -/
  pass : Nat → Pass

variable (cfg : QueueSettings) (limits : PlannerBudget)

def Run.usage (r : Run) (q : SqliteQueue) : Usage := budgetUsage r.decisions q r.campaign

/-- A run that stops. -/
def stopped (effects : List Effect) (action : PlannedAction) (q : SqliteQueue) : Outcome := ⟨effects, .ok (action, []), q⟩

/-- A run that enqueues jobs for an action. -/
def enqueued (effects : List Effect) (action : PlannedAction) (jobs : Except PyError (List Job) × SqliteQueue) : Outcome :=
  ⟨effects, jobs.1.map fun jobs => (action, jobs), jobs.2⟩

/-- The end of a pass whose action may progress. -/
def Pass.progress (p : Pass) (r : Run) (q : SqliteQueue) (effects : List Effect) (action : PlannedAction) : Outcome :=
  if action.kind = .crawl then enqueued (effects ++ [.recon]) action (enqueueAll cfg p.reading r.campaign.text p.reconSpecs q)
  else if action.kind = .scan ∧ p.intelligence.surfaceReady = false then
    enqueued (effects ++ [.recon]) ⟨.crawl, some r.primaryUrl, p.intelligence.surfaceReason, 95⟩
      (enqueueAll cfg p.reading r.campaign.text p.reconSpecs q)
  else
    let jobs := enqueueAll cfg p.reading r.campaign.text (p.actionSpecs r.findings (r.usage q) limits action.kind) q
    match jobs with
    | (.ok [], q) =>
      if action.kind = .validate then
        stopped effects (stopAction r.primaryUrl (if p.repeatOrdinals ≠ [] then "repeat differential validation budget unavailable"
          else "cluster validation saturated by strong representative evidence")) q
      else stopped effects action q
    | jobs => enqueued effects action jobs

/-- The loop, from the pass with this index on. -/
def passes (r : Run) (q : SqliteQueue) : Nat → Nat → List Effect → Outcome
  | 0, index, effects => stopped effects (applyBudget (r.usage q) limits (r.pass index).planned).1 q
  | left + 1, index, effects =>
    let p := r.pass index
    let budgeted := applyBudget (r.usage q) limits (p.action r.primaryUrl)
    let action := budgeted.1
    let effects := if budgeted.2 ∧ action.kind = .stop then openBreaker effects action.reason else effects
    let gate := buildAutonomyGate r.rules p.runtimeExhausted (anyBlocked (r.usage q) limits) (r.usage q).failedJobs p.intelligence
    let cycle := buildAdaptiveCycle gate action p.intelligence.unstableJobKinds
    let adjusted := p.intelligence.prioritized action.reason action.priority
    let action : PlannedAction := ⟨action.kind, action.target, adjusted.1, adjusted.2⟩
    if cycle.nextAction = "stop" ∨ cycle.safeToProgress = false then
      let effects := if gate.blockers.any fun b => decide (b ∈ breakerBlockers) then openBreaker effects cycle.reason else effects
      stopped effects (stopAction r.primaryUrl (if cycle.requiresHuman then "human review required: " ++ cycle.reason else cycle.reason)) q
    else if action.kind = .inventory then passes r q left (index + 1) (effects ++ [.seed])
    else p.progress cfg limits r q effects action

/-- `advance_campaign` -/
def advanceCampaign (r : Run) (q : SqliteQueue) : Outcome :=
  match r.breaker with
  | some reason => stopped [] (stopAction r.primaryUrl ("circuit breaker open: " ++ reason)) q
  | none =>
    match stabilityBreakerReason r.decisions with
    | some reason => stopped [.openBreaker reason] (stopAction r.primaryUrl reason) q
    | none =>
      if r.runtimeExhausted then
        stopped [.openBreaker "campaign runtime budget exhausted"] (stopAction r.primaryUrl "campaign runtime budget exhausted") q
      else passes cfg limits r q 3 0 []

end Orchestrator

end XbowPerso

/-!
## Runs of the planner, one after the other

Each run of `advance_campaign` reads the decisions that the runs before have recorded and the circuit breaker; in between, workers,
validators and people change the campaign, its observations and its jobs, and an operator may reset the breaker.
-/

namespace XbowPerso

namespace Orchestrator

open AdaptivePlanner (ActionKind PlannedAction)

/-- A recorded decision: its identifier is a hash of these three. -/
structure Decision where
  action : ActionKind
  reason : String
  fingerprint : String
  deriving DecidableEq

/-- What the runs leave to each other: the decisions in their audit order, and the reason of the breaker, if it is open. -/
structure History where
  decisions : List Decision
  breaker : Option String

def History.actions (h : History) : List ActionKind := h.decisions.map Decision.action

/-- What a run is given beside the history: its decisions and its breaker are those of the history. -/
structure Turn where
  cfg : QueueSettings
  limits : PlannerBudget
  run : Run
  queue : SqliteQueue
  /-- The fingerprint of the graph with which the decision is recorded. -/
  fingerprint : String

def Turn.given (t : Turn) (h : History) : Run := { t.run with decisions := h.actions, breaker := h.breaker }

def Turn.outcome (t : Turn) (h : History) : Outcome := advanceCampaign t.cfg t.limits (t.given h) t.queue

/-- The reason with which a run opened the breaker. -/
def openedReason (effects : List Effect) : Option String :=
  effects.findSome? fun e =>
    match e with
    | .openBreaker reason => some reason
    | _ => none

/-- `_record_decision`: a decision that is there already is not recorded again. -/
def History.record (h : History) (d : Decision) : History :=
  if d ∈ h.decisions then h else { h with decisions := h.decisions ++ [d] }

/-- One run. -/
def History.advance (h : History) (t : Turn) : History :=
  let out := t.outcome h
  let h := { h with breaker := (openedReason out.effects).or h.breaker }
  match out.answer with
  | .error _ => h
  | .ok answer => h.record ⟨answer.1.kind, answer.1.reason, t.fingerprint⟩

/-- `record_circuit_reset` -/
def History.reset (h : History) : History := { h with breaker := none }

def History.advances (h : History) (l : List Turn) : History := l.foldl History.advance h

end Orchestrator

end XbowPerso
