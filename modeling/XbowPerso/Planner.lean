import XbowPerso.Lib.PyUrl
import XbowPerso.ObservationGraph

/-!
# The planner

`AdaptivePlanner.plan`: the next action for a campaign, decided from its findings and its observation graph in a fixed order of
questions. Each question stops the planner or lets it ask the next one.
-/

namespace XbowPerso

/-- The status of a finding. -/
inductive FindingStatus where
  | candidate | validationRequired | confirmed | rejected
  deriving DecidableEq, Repr

namespace AdaptivePlanner

/-- What the planner reads of a finding. -/
structure Finding where
  id : String
  status : FindingStatus

/-- What the planner reads of a campaign. -/
structure Campaign where
  primaryUrl : String
  automatedScanning : Bool
  findings : List Finding

inductive ActionKind where
  | inventory | crawl | scan | validate | report | stop
  deriving DecidableEq, Repr

structure PlannedAction where
  kind : ActionKind
  target : Option String
  reason : String
  priority : Nat
  deriving DecidableEq, Repr

/-- The limits read from the environment, inside the bounds that reading them enforces. -/
structure PlannerLimits where
  maxObservations : Nat
  maxEndpoints : Nat
  maxFindings : Nat
  observations_bounds : 100 ≤ maxObservations ∧ maxObservations ≤ 100000
  endpoints_bounds : 10 ≤ maxEndpoints ∧ maxEndpoints ≤ 50000
  findings_bounds : 1 ≤ maxFindings ∧ maxFindings ≤ 10000

def exceeded (what : String) (count limit : Nat) : String :=
  "planner " ++ what ++ " limit exceeded (" ++ toString count ++ " > " ++ toString limit ++ ")"

/-- `planner_limit_violation`. -/
def plannerLimitViolation (limits : PlannerLimits) (graph : ObservationGraph) : Option String :=
  if limits.maxObservations < graph.values.length then
    some (exceeded "observation" graph.values.length limits.maxObservations)
  else if limits.maxEndpoints < (graph.byKind .endpoint).length then
    some (exceeded "endpoint" (graph.byKind .endpoint).length limits.maxEndpoints)
  else if limits.maxFindings < (graph.byKind .finding).length then
    some (exceeded "finding" (graph.byKind .finding).length limits.maxFindings)
  else none

/-- `_campaign_finding_id`. -/
def campaignFindingId (o : Observation) : String :=
  if "finding:".toList.isPrefixOf o.id.toList then String.ofList (o.id.toList.drop "finding:".toList.length) else o.id

/-- `graph_finding_ids != campaign_finding_ids`, for sets. -/
def sameIds (xs ys : List String) : Bool := xs.all (fun x => decide (x ∈ ys)) && ys.all fun y => decide (y ∈ xs)

def stop (host : Option String) (reason : String) : List PlannedAction := [⟨.stop, host, reason, 100⟩]

/-- The question about findings without an independent validation. -/
def planUnresolved (host : String) (graph : ObservationGraph) : List PlannedAction :=
  if graph.analyzeValidationState.unattemptedFindingIds ≠ [] then
    [⟨.validate, host, "findings still require independent validation", 100⟩]
  else stop host "independent validation did not produce observed evidence for all findings"

/-- The questions about findings whose validation is backed by evidence. -/
def planResolved (host : String) (campaign : Campaign) (graph : ObservationGraph) : List PlannedAction :=
  if campaign.findings.any (fun f => decide (f.status ≠ .confirmed ∧ f.status ≠ .rejected)) then
    stop host "observed findings await explicit confirmation or rejection"
  else if ¬ campaign.findings.any (fun f => decide (f.status = .confirmed)) then stop host "all findings rejected; no report required"
  else if (graph.byKind .evidence).any (fun o => o.metadataIs "artifact_kind" "report") then
    stop host "report artifact already exists"
  else [⟨.report, host, "confirmed findings are independently validated", 70⟩]

/-- The questions about the inventory. -/
def planInventory (host : String) (graph : ObservationGraph) : List PlannedAction :=
  if graph.byKind .endpoint ≠ [] ∧ graph.byKind .finding = [] then
    if (graph.byKind .evidence).any (fun o => o.metadataIs "phase" "scan" && o.metadataIs "status" "completed") then
      stop host "scan completed without recorded findings"
    else [⟨.scan, host, "endpoint inventory exists but no findings recorded", 80⟩]
  else if graph.byKind .asset ≠ [] ∧ graph.byKind .endpoint = [] then
    [⟨.crawl, host, "asset inventory exists but endpoints are missing", 90⟩]
  else stop host "no safe planner transition available"

/-- `plan`, from the observations on. -/
def planObserved (host : String) (campaign : Campaign) (graph : ObservationGraph) : List PlannedAction :=
  let findings := graph.byKind .finding
  let state := graph.analyzeValidationState
  if graph.values = [] then [⟨.inventory, host, "no observations collected yet", 100⟩]
  else if (findings ≠ [] ∨ campaign.findings ≠ []) ∧
      sameIds (findings.map campaignFindingId) (campaign.findings.map Finding.id) = false then
    stop host "observation graph and campaign finding state are inconsistent"
  else if findings ≠ [] ∧ state.unresolvedFindingIds ≠ [] then planUnresolved host graph
  else if findings ≠ [] ∧ state.unevidencedFindingIds ≠ [] then
    stop host "independent validation is observed but lacks attached evidence"
  else if findings ≠ [] ∧ state.allEvidenceBackedIndependently = true then planResolved host campaign graph
  else planInventory host graph

/-- `plan`. The limits are none when one of them is misconfigured; the result is none when the URL cannot be parsed. -/
def plan (u : Unicode) (limits : Option PlannerLimits) (campaign : Campaign) (graph : ObservationGraph) :
    Option (List PlannedAction) :=
  match PyUrl.urlsplit u campaign.primaryUrl.toList with
  | none => none
  | some url =>
    let host := String.ofList (u.lower ((url.hostname u).getD []))
    if host = "" then some (stop none "target has no hostname")
    else if campaign.automatedScanning = false then some (stop host "automated scanning disabled by program rules")
    else
      match limits with
      | none => some (stop host "invalid planner safety limit configuration")
      | some limits =>
        match plannerLimitViolation limits graph with
        | some violation => some (stop host violation)
        | none => some (planObserved host campaign graph)

end AdaptivePlanner

end XbowPerso
