import Mathlib.Data.List.Sort
import XbowPerso.Identifier
import XbowPerso.Lib.Dict
import XbowPerso.Lib.Binary64

/-!
# The priority and the budget of recon tasks

`prioritize_recon_tasks` moves the tasks of a plan by what is known of the target, and `coordinate_recon_swarm` shares a budget of
requests among them. The data that they read are records with their coercions done; the guard that compares the copy of a task with
the task is left out, since the copy changes no field that it compares.
-/

namespace XbowPerso

namespace ReconPriority

/-- `ReconTask` -/
structure Task where
  kind : String
  agent : String
  target : String
  priority : Int
  reason : String
  maxRequests : Int
  allowedMethods : List String
  sameOriginOnly : Bool
  readOnly : Bool
  deriving DecidableEq

/-- `_TASK_SIGNALS` -/
def taskSignals : List (String × List String) :=
  [("crawl", ["asset", "endpoint"]), ("map_endpoints", ["endpoint", "asset"]), ("detect_technology", ["technology", "waf"]),
    ("map_forms", ["form", "endpoint"]), ("browser_observe", ["form", "endpoint", "technology"])]

/-- `_TASK_SIGNALS.get(kind, ())` -/
def signalsOf (kind : String) : List String := (taskSignals.lookup kind).getD []

/-- `_HIGH_VALUE_TASKS` -/
def highValueTasks : List (String × List String) :=
  [("alternate-representation-access-control", ["map_endpoints", "browser_observe"]),
    ("graphql-authorization", ["map_endpoints", "browser_observe"]),
    ("graphql-data-segregation", ["map_endpoints", "browser_observe"]),
    ("authentication-state-machine", ["browser_observe", "map_forms"]),
    ("transaction-reconciliation-invariants", ["browser_observe", "map_forms"]),
    ("server-side-fetch-boundaries", ["map_forms", "map_endpoints"])]

/-! ## What is known of the target -/

/-- `surface_diff`: of each kind what was added and removed. -/
structure SurfaceDiff where
  baselineAvailable : Bool
  changeCount : Int
  countsByKind : Dict String (Int × Int)

structure MemoryNode where
  kind : String
  value : String
  campaignCount : Int

/-- `target_memory` -/
structure TargetMemory where
  added : List (String × String)
  nodes : List MemoryNode

structure TemporalNode where
  kind : String
  classification : String
  presenceRatio : Binary64

structure ConfidenceNode where
  kind : String
  confidence : Binary64

/-- A focus of `high_value_intelligence`. -/
structure Focus where
  family : String
  undercoveredScore : Option Int
  score : Int

/-- `no_finding_feedback`: none for a field that is missing or not of its type, and for an entry that is not a text. -/
structure Feedback where
  state : String
  advisoryOnly : Option Bool
  mayExpandScope : Option Bool
  mayIncreaseRequestBudget : Option Bool
  mayEnableExploitation : Option Bool
  mayChangeExecutionGate : Option Bool
  exhaustedTaskKinds : Option (List (Option String))
  reopenedTaskKinds : Option (List (Option String))
  recommendedTaskKinds : Option (List (Option String))

/-- What the prioritiser is called with, beside the tasks. -/
structure MemoryContext where
  diff : SurfaceDiff
  memory : Option TargetMemory
  temporal : Option (List TemporalNode)
  confidence : Option (List ConfidenceNode)
  highValue : Option (List Focus)
  feedback : Option Feedback

/-- `_signal_counts` -/
def signalCounts (diff : SurfaceDiff) : Dict String Int :=
  diff.countsByKind.mapValues fun c => min 20 (max 0 c.1 * 2 + max 0 c.2)

/-- `scores[kind] = min(5.0, scores.get(kind, 0.0) + score)` -/
def addScore (scores : Dict String Binary64) (kind : String) (score : Binary64) : Dict String Binary64 :=
  scores.set kind (.pyMin (.decimal 5 0) (.add ((scores.get? kind).getD .zero) score))

/-- The loop of `_historical_kind_scores`. -/
def historicalLoop (added : List (String × String)) : List MemoryNode → Dict String Binary64 → Except PyError (Dict String Binary64)
  | [], scores => .ok scores
  | node :: nodes, scores =>
    if added.any fun a => decide (a.1 = node.kind) && decide (a.2 = node.value) then
      (Binary64.ofInt? (max 1 node.campaignCount)).elim (.error (.overflowError "int too large to convert to float")) fun count =>
        historicalLoop added nodes (addScore scores node.kind ((Binary64.one.div count).getD .zero))
    else historicalLoop added nodes scores

/-- `_historical_kind_scores` -/
def historicalKindScores : Option TargetMemory → Except PyError (Dict String Binary64)
  | none => .ok .empty
  | some memory => historicalLoop (memory.added.take 200) (memory.nodes.take 20000) .empty

/-- `_TEMPORAL_CLASS_WEIGHT.get(classification, 0.0)` -/
def temporalClassWeight (classification : String) : Binary64 :=
  if classification = "new" then .one
  else if classification = "returning" then .decimal 35 2
  else if classification = "intermittent" then .decimal 15 2
  else .zero

/-- A node of `_temporal_kind_scores`. -/
def addTemporal (scores : Dict String Binary64) (node : TemporalNode) : Dict String Binary64 :=
  let weight := temporalClassWeight node.classification
  if weight.le .zero then scores
  else
    let ratio := Binary64.pyMax .zero (.pyMin .one node.presenceRatio)
    addScore scores node.kind
      (if node.classification = "new" then weight else weight.mul (.pyMax (.decimal 1 1) (.sub .one ratio)))

/-- `_temporal_kind_scores` -/
def temporalKindScores (nodes : Option (List TemporalNode)) : Dict String Binary64 :=
  ((nodes.getD []).take 500).foldl addTemporal .empty

/-- A node of `_confidence_kind_scores`: the total and the number of a kind. -/
def addConfidence (totals : Dict String (Binary64 × Nat)) (node : ConfidenceNode) : Dict String (Binary64 × Nat) :=
  if node.kind = "" then totals
  else
    let (total, count) := (totals.get? node.kind).getD (.zero, 0)
    totals.set node.kind (total.add (.pyMax .zero (.pyMin .one node.confidence)), count + 1)

/-- The mean of a number of doubles, from their sum. -/
def mean (total : Binary64) (count : Nat) : Binary64 := (total.div (.ofQuotient count Nat.one_pos)).getD .zero

/-- `_confidence_kind_scores` -/
def confidenceKindScores (nodes : Option (List ConfidenceNode)) : Dict String Binary64 :=
  (((nodes.getD []).take 500).foldl addConfidence .empty).mapValues fun t => mean t.1 t.2

/-- The focuses that `_high_value_task_boost` matches with a task, with their scores. -/
def matchedFocuses (kind : String) (focuses : Option (List Focus)) : List (String × Int) :=
  (((focuses.getD []).take 20).filter fun f =>
      decide (kind ∈ (highValueTasks.lookup f.family).getD []) && decide (50 ≤ f.undercoveredScore.getD f.score)).map
    fun f => (f.family, f.undercoveredScore.getD f.score)

/-- `_high_value_task_boost` -/
def highValueTaskBoost (kind : String) (focuses : Option (List Focus)) : Int × List String :=
  let matched := matchedFocuses kind focuses
  if matched.isEmpty then (0, [])
  else (min 10 (3 + 2 * matched.length),
    ((matched.insertionSort fun a b => b.2 < a.2 ∨ (a.2 = b.2 ∧ a.1 ≤ b.1)).take 3).map (·.1))

/-- A known kind of task among the entries of a list. -/
def knownKinds (entries : List (Option String)) : List String := (entries.filterMap id).filter fun kind => (taskSignals.lookup kind).isSome

/-- `valid_feedback` -/
def Feedback.valid (f : Feedback) : Bool :=
  decide (f.state = "recovery_advisory" ∨ f.state = "no_supported_recovery_task") && decide (f.advisoryOnly = some true) &&
    decide (f.mayExpandScope = some false) && decide (f.mayIncreaseRequestBudget = some false)

/-- `exhausted_kinds` -/
def exhaustedKinds : Option Feedback → List String
  | none => []
  | some f =>
    if f.valid && decide (f.mayEnableExploitation = some false) && decide (f.mayChangeExecutionGate = some false) then
      (knownKinds ((f.exhaustedTaskKinds.getD []).take 25)).filter fun kind =>
        !((f.reopenedTaskKinds.getD []).take 25).any fun e => e.any fun reopened => decide (reopened = kind)
    else []

/-- `recommended_kinds` -/
def recommendedKinds : Option Feedback → List String
  | none => []
  | some f =>
    if f.valid && decide (f.state = "recovery_advisory") then
      ((knownKinds ((f.recommendedTaskKinds.getD []).take 3)).filter fun kind => decide (kind ∉ exhaustedKinds (some f))).eraseDups
    else []

/-! ## The priority of a task -/

/-- `ReconPriorityAdjustment` -/
structure Adjustment where
  kind : String
  originalPriority : Int
  effectivePriority : Int
  boost : Int
  diffBoost : Int
  historyBoost : Int
  temporalBoost : Int
  confidenceFactor : Binary64
  highValueBoost : Int
  noFindingBoost : Int
  noFindingPenalty : Int
  highValueFamilies : List String
  signals : List String
  historicalSignals : List String
  temporalSignals : List String

/-- The scores of the kinds. -/
structure Scores where
  counts : Dict String Int
  historical : Dict String Binary64
  temporal : Dict String Binary64
  confidence : Dict String Binary64

/-- The strength of some signals. -/
def strength (scores : Dict String Binary64) (signals : List String) : Binary64 :=
  .sum (signals.map fun kind => (scores.get? kind).getD .zero)

/-- `int(round(x))` -/
def roundToInt (x : Binary64) : Except PyError Int :=
  match x.round? with
  | none => .error (.overflowError "cannot convert float infinity to integer")
  | some n => .ok n

/-- `min(5, int(round(strength))) if baseline_available else 0` -/
def strengthBoost (baseline : Bool) (strength : Binary64) : Except PyError Int :=
  if baseline then
    match roundToInt strength with
    | .error e => .error e
    | .ok n => .ok (min 5 n)
  else .ok 0

/-- `confidence_factor` -/
def confidenceFactor (scores : Dict String Binary64) (signals : List String) : Binary64 :=
  let values := signals.filterMap scores.get?
  if values = [] then .one else .pyMax (.decimal 5 1) (.pyMin .one (mean (.sum values) values.length))

/-- `int(round(raw_boost * confidence_factor))` -/
def damped (rawBoost : Int) (factor : Binary64) : Except PyError Int :=
  (Binary64.ofInt? rawBoost).elim (.error (.overflowError "int too large to convert to float")) fun raw => roundToInt (raw.mul factor)

/-- `f"{x:.2f}"` of a number that is not negative. -/
def twoDecimals : Binary64 → String
  | .finite x =>
    let hundredths := Binary64.halfEven (x.units * 100) (2 ^ 1074)
    toString (hundredths / 100) ++ "." ++ toString (hundredths / 10 % 10) ++ toString (hundredths % 10)
  | .infinity _ => "inf"
  | .nan => "nan"

/-- A layer of the boost, where it counts. -/
def detail (name : String) (boost : Int) : List String := if boost ≠ 0 then [name ++ " +" ++ toString boost] else []

/-- A list of signals, where there are some. -/
def listed (name : String) (signals : List String) : String :=
  if signals = [] then "" else "; " ++ name ++ "=" ++ ", ".intercalate signals

/-- The reason of a task after an adjustment. -/
def reasonOf (reason : String) (a : Adjustment) (factor : Binary64) : String :=
  let boosted :=
    if a.boost ≠ 0 then
      let details := detail "diff" a.diffBoost ++ detail "history" a.historyBoost ++ detail "temporal" a.temporalBoost ++
        detail "high-value" a.highValueBoost ++ detail "no-finding recovery" a.noFindingBoost ++
        (if factor.lt (.decimal 999 3) then ["confidence x" ++ twoDecimals factor] else [])
      reason ++ "; recon-priority +" ++ toString a.boost ++ " (" ++ "; ".intercalate details ++ listed "signals" a.signals ++
        listed "novelty" a.historicalSignals ++ listed "temporal" a.temporalSignals ++ ")"
    else reason
  if a.noFindingPenalty ≠ 0 then
    boosted ++ "; already completed after a negative scan; manual review before repetition"
  else boosted

variable (context : MemoryContext) (scores : Scores)

/-- `boost`: what the layers add to a task that is not exhausted. -/
def boostOf (exhausted : Bool) (baselineBoost highValueBoost noFindingBoost : Int) (factor : Binary64) : Except PyError Int :=
  if exhausted then .ok 0 else (damped (min 25 (baselineBoost + highValueBoost + noFindingBoost)) factor).map (min 25)

/-- The signals of a task that have a score. -/
def activeSignals (scores : Dict String Binary64) (signals : List String) : List String :=
  signals.filter fun kind => Binary64.zero.lt ((scores.get? kind).getD .zero)

/-- `no_finding_boost` -/
def noFindingBoost (kind : String) : Int :=
  if kind ∈ recommendedKinds context.feedback ∧ kind ∉ exhaustedKinds context.feedback then
    max 0 (24 - 8 * ((recommendedKinds context.feedback).idxOf kind : Int))
  else 0

/-- `diff_boost` -/
def diffBoost (signals : List String) : Int :=
  if context.diff.baselineAvailable then min 15 ((signals.map fun kind => (scores.counts.get? kind).getD 0).sum * 2) else 0

/-- The adjustment of a task. -/
def adjustment (task : Task) : Except PyError Adjustment :=
  let signals := signalsOf task.kind
  match strengthBoost context.diff.baselineAvailable (strength scores.historical signals) with
  | .error e => .error e
  | .ok historyBoost =>
    match strengthBoost context.diff.baselineAvailable (strength scores.temporal signals) with
    | .error e => .error e
    | .ok temporalBoost =>
      let factor := confidenceFactor scores.confidence signals
      let highValue := highValueTaskBoost task.kind context.highValue
      let exhausted := decide (task.kind ∈ exhaustedKinds context.feedback)
      let baselineBoost := min 20 (diffBoost context scores signals + historyBoost + temporalBoost)
      match boostOf exhausted baselineBoost highValue.1 (noFindingBoost context task.kind) factor with
      | .error e => .error e
      | .ok boost =>
        let penalty := if exhausted then min 20 (max 0 task.priority) else 0
        .ok
          { kind := task.kind
            originalPriority := task.priority
            effectivePriority := max 0 (min 100 (task.priority + boost - penalty))
            boost := boost
            diffBoost := diffBoost context scores signals
            historyBoost := historyBoost
            temporalBoost := temporalBoost
            confidenceFactor := .roundDecimals 4 factor
            highValueBoost := highValue.1
            noFindingBoost := noFindingBoost context task.kind
            noFindingPenalty := penalty
            highValueFamilies := highValue.2
            signals := signals.filter fun kind => decide (0 < (scores.counts.get? kind).getD 0)
            historicalSignals := activeSignals scores.historical signals
            temporalSignals := activeSignals scores.temporal signals }

/-- `updated`, with its entry in the audit. -/
def adjusted (task : Task) : Except PyError (Task × Adjustment) :=
  match adjustment context scores task with
  | .error e => .error e
  | .ok a =>
    .ok ({ task with
      priority := a.effectivePriority
      reason := reasonOf task.reason a (confidenceFactor scores.confidence (signalsOf task.kind)) }, a)

/-- The loop over the tasks. -/
def adjustAll : List Task → Except PyError (List (Task × Adjustment))
  | [] => .ok []
  | task :: tasks =>
    match adjusted context scores task with
    | .error e => .error e
    | .ok first =>
      match adjustAll tasks with
      | .error e => .error e
      | .ok rest => .ok (first :: rest)

/-- The order by priority, kind and agent. -/
def Sooner (a b : Task) : Prop := b.priority < a.priority ∨ (a.priority = b.priority ∧ (a.kind < b.kind ∨ (a.kind = b.kind ∧ a.agent ≤ b.agent)))

instance : DecidableRel Sooner := fun _ _ => inferInstanceAs (Decidable (_ ∨ _))

/-- The order of the audit. -/
def AuditedSooner (a b : Adjustment) : Prop :=
  b.effectivePriority < a.effectivePriority ∨ (a.effectivePriority = b.effectivePriority ∧ a.kind ≤ b.kind)

instance : DecidableRel AuditedSooner := fun _ _ => inferInstanceAs (Decidable (_ ∨ _))

/-- `ReconPriorityResult` -/
structure PriorityResult where
  tasks : List Task
  adjustments : List Adjustment
  baselineAvailable : Bool
  changedSurfaceCount : Int

/-- `prioritize_recon_tasks` -/
def prioritizeReconTasks (tasks : List Task) : Except PyError PriorityResult :=
  match historicalKindScores context.memory with
  | .error e => .error e
  | .ok historical =>
    let scores : Scores := ⟨signalCounts context.diff, historical, temporalKindScores context.temporal,
      confidenceKindScores context.confidence⟩
    match adjustAll context scores tasks with
    | .error e => .error e
    | .ok pairs =>
      .ok ⟨(pairs.map (·.1)).insertionSort Sooner, (pairs.map (·.2)).insertionSort AuditedSooner, context.diff.baselineAvailable,
        max 0 context.diff.changeCount⟩

/-! ## The swarm -/

/-- `ReconCapability`, with what the coordinator reads of it. -/
structure Capability where
  agent : String
  taskKind : String
  networkAccess : Bool
  allowedMethods : List String
  maxRequestsPerTarget : Int

/-- `_CAPABILITIES` -/
def capabilities : List Capability :=
  [⟨"crawler-agent", "crawl", true, ["GET", "HEAD"], 40⟩, ⟨"endpoint-agent", "map_endpoints", true, ["GET", "HEAD"], 20⟩,
    ⟨"tech-agent", "detect_technology", true, ["GET", "HEAD"], 8⟩, ⟨"form-agent", "map_forms", true, ["GET", "HEAD"], 12⟩,
    ⟨"browser-agent", "browser_observe", true, ["GET", "HEAD"], 25⟩]

/-- `AgentProfile` -/
structure AgentProfile where
  name : String
  role : String
  actions : List String
  networkAccess : Bool

/-- `AGENTS` -/
def agents : List AgentProfile :=
  [⟨"scope-coordinator", "control", ["inventory", "stop"], false⟩, ⟨"recon-agent", "recon", ["crawl"], true⟩,
    ⟨"crawler-agent", "recon", ["recon:crawl"], true⟩, ⟨"endpoint-agent", "recon", ["recon:map_endpoints"], true⟩,
    ⟨"tech-agent", "recon", ["recon:detect_technology"], true⟩, ⟨"form-agent", "recon", ["recon:map_forms"], true⟩,
    ⟨"browser-agent", "recon", ["recon:browser_observe"], true⟩, ⟨"analysis-agent", "analysis", ["scan"], true⟩,
    ⟨"validation-agent", "validation", ["validate"], true⟩, ⟨"report-agent", "reporting", ["report"], false⟩]

/-- `agent_by_name` -/
def agentByName (name : String) : Except PyError AgentProfile :=
  match agents.filter fun a => decide (a.name = name) with
  | [agent] => .ok agent
  | _ => .error (.valueError ("no unique agent registered by name: " ++ name))

/-- `SwarmBudget` -/
structure SwarmBudget where
  maxTasks : Int
  maxTotalRequests : Int
  maxNetworkAgents : Int
  tasks_range : 1 ≤ maxTasks ∧ maxTasks ≤ 10
  requests_range : 1 ≤ maxTotalRequests ∧ maxTotalRequests ≤ 200
  agents_range : 1 ≤ maxNetworkAgents ∧ maxNetworkAgents ≤ 10

/-- Where the loop of `coordinate_recon_swarm` is. -/
structure Swarm where
  selected : List Task
  suppressed : List String
  agents : List String
  used : Int

/-- The checks of a task against its capability. -/
def checkTask (task : Task) : Except PyError Capability :=
  match capabilities.find? fun c => decide (c.taskKind = task.kind) with
  | none => .error (.valueError ("no registered capability for recon task: " ++ task.kind))
  | some capability =>
    if task.agent ≠ capability.agent then .error (.valueError ("recon task agent mismatch for " ++ task.kind))
    else
      match agentByName task.agent with
      | .error e => .error e
      | .ok profile =>
        if profile.role ≠ "recon" then .error (.valueError "recon task agent must have recon role")
        else if profile.networkAccess ≠ capability.networkAccess then
          .error (.valueError "recon agent network capability mismatch")
        else if "recon:" ++ task.kind ∉ profile.actions then .error (.valueError "recon agent action registration mismatch")
        else if !task.readOnly || !task.sameOriginOnly then
          .error (.valueError "recon swarm only accepts read-only same-origin tasks")
        else if !(task.allowedMethods.all fun m => decide (m ∈ capability.allowedMethods)) then
          .error (.valueError "recon task methods exceed agent capability")
        else if task.maxRequests < 1 ∨ capability.maxRequestsPerTarget < task.maxRequests then
          .error (.valueError "recon task request budget exceeds agent capability")
        else .ok capability

/-- What a checked task gets. -/
def Swarm.allot (limits : SwarmBudget) (s : Swarm) (task : Task) (capability : Capability) : Swarm :=
  let remaining := limits.maxTotalRequests - s.used
  let allocated := min task.maxRequests remaining
  if limits.maxTasks ≤ s.selected.length ∨
      (capability.networkAccess = true ∧ task.agent ∉ s.agents ∧ limits.maxNetworkAgents ≤ s.agents.length) ∨
      remaining ≤ 0 ∨ allocated < 1 then
    { s with suppressed := s.suppressed ++ [task.kind] }
  else
    ⟨s.selected ++ [{ task with maxRequests := allocated }], s.suppressed,
      if capability.networkAccess then s.agents.insert task.agent else s.agents, s.used + allocated⟩

/-- The loop of `coordinate_recon_swarm`. -/
def coordinateLoop (limits : SwarmBudget) : List Task → Swarm → Except PyError Swarm
  | [], s => .ok s
  | task :: tasks, s =>
    match checkTask task with
    | .error e => .error e
    | .ok capability => coordinateLoop limits tasks (s.allot limits task capability)

/-- `SwarmCoordination` -/
structure Coordination where
  tasks : List Task
  requestBudgetUsed : Int
  requestBudgetRemaining : Int
  activeAgents : List String
  suppressedTasks : List String

/-- `coordinate_recon_swarm` -/
def coordinateReconSwarm (limits : SwarmBudget) (tasks : List Task) : Except PyError Coordination :=
  match coordinateLoop limits (tasks.insertionSort Sooner) ⟨[], [], [], 0⟩ with
  | .error e => .error e
  | .ok s =>
    .ok ⟨s.selected, s.used, max 0 (limits.maxTotalRequests - s.used), s.agents.insertionSort (· ≤ ·), s.suppressed⟩

end ReconPriority

end XbowPerso
