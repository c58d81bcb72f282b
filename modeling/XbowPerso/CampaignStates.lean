import XbowPerso.FindingResolution
import XbowPerso.ObservationGraph

/-!
# What the requests and the jobs do with the state of a campaign

The requests that change no finding save the campaign with a state that depends on the one they have read; a scan sets the state from its
own result. A resolution asks the graph of the recorded observations whether an independent validation backs the finding.
-/

namespace XbowPerso

namespace FindingResolution

open Outbox (CampaignState)

variable (env : AuditEnv) (secret : ResolvedSecret)

/-- The requests and jobs that change no finding, by the state with which they save the campaign. -/
inductive Handler where
  /-- They append events and keep the state: policy checks, the intents of starts and dispatches, browser flows, artifacts, reports and
  their approvals, submissions, batches, laboratories, the reset of the breaker, the outcomes of jobs. -/
  | appendEvents
  | cancelCampaign
  /-- `_reconcile_campaign_started`, with jobs or without. -/
  | reconcileCampaignStarted (jobIds : Bool)
  /-- `_apply_local_outbox_repairs`, with a start whose job is queued or running or without. -/
  | applyLocalOutboxRepairs (starts : Bool)
  | reconcilePentagiQueuedEvent

/-- The state with which the campaign is saved, unless the request is refused. -/
def Handler.state (c : Campaign) : Handler → Option CampaignState
  | appendEvents => some c.state
  | cancelCampaign => if c.state = .completed ∨ c.state = .cancelled then none else some .cancelled
  | reconcileCampaignStarted jobIds =>
    if c.state = .ready ∨ c.state = .failed ∨ c.state = .running then some (if jobIds then .running else c.state) else none
  | applyLocalOutboxRepairs starts =>
    if c.state = .cancelled then none
    else if starts ∧ (c.state = .ready ∨ c.state = .failed) then some .running else some c.state
  | reconcilePentagiQueuedEvent =>
    if c.state = .cancelled then none else if c.state = .ready ∨ c.state = .failed then some .running else some c.state

/-- `_state_after_scan` -/
def stateAfterScan (c : Campaign) : CampaignState :=
  if c.findings.values.any fun f => !f.status.resolved then .validating else .completed

/-- The states that the source saves: a scan that was a dry run has no findings. -/
def Edit.Real (c : Campaign) : Edit → Prop
  | .processScan findings state _ => (findings = [] ∧ state = .ready) ∨ state = stateAfterScan (ingest c findings)
  | .other state _ => ∃ handler : Handler, handler.state c = some state
  | _ => True

/-- A step whose request or job is one of the source. -/
def Action.Real (s : System) : Action → Prop
  | .edit _ e => e.Real s.campaign
  | _ => True

/-- Every step of a run is as stated, in the system that it finds. -/
def EachStep (P : System → Action → Prop) : System → List Action → Prop
  | _, [] => True
  | s, a :: l => P s a ∧ EachStep P (step env secret s a) l

/-! ## Campaigns and their observations -/

variable (cfg : ObservationSettings)

/-- A campaign with the requests on it, and its observations. -/
structure Observed where
  system : System
  rows : Observations

inductive ObservedAction where
  | request (a : Action)
  /-- `put_observation`, by whomever. -/
  | observe (o : Observation)

/-- `_has_evidence_backed_independent_validation`; the observations are listed by the times at which they were stored. -/
def Backed (rows : Observations) (findingId : String) : Prop :=
  ∃ records graph, List.Perm records rows ∧ ObservationGraph.fromRecords (records.map ObservationRow.toObservation) = .ok graph ∧
    "finding:" ++ findingId ∈ graph.analyzeValidationState.evidenceBackedIndependentFindingIds

/-- A scan reports findings that await their validation, as `to_campaign_finding` makes them. -/
def Edit.Reports : Edit → Prop
  | .processScan findings _ _ => ∀ f ∈ findings, f.status = .validationRequired
  | _ => True

/-- A resolution is told what the graph says, and a scan reports what the source makes. -/
def ObservedAction.Real (s : Observed) : ObservedAction → Prop
  | .request (.validate _ v) => v.backed = true ↔ Backed s.rows v.findingId
  | .request (.edit _ e) => e.Reports
  | _ => True

def Observed.step (s : Observed) : ObservedAction → Observed
  | .request a => { s with system := FindingResolution.step env secret s.system a }
  | .observe o =>
    match s.rows.put cfg o with
    | .error _ => s
    | .ok rows => { s with rows := rows }

/-- The steps of a run, one after the other. -/
def Observed.steps (s : Observed) (l : List ObservedAction) : Observed := l.foldl (Observed.step env secret cfg) s

/-- Every step of a run is one of the source. -/
def ObservedRun : Observed → List ObservedAction → Prop
  | _, [] => True
  | s, a :: l => a.Real s ∧ ObservedRun (s.step env secret cfg a) l

end FindingResolution

end XbowPerso
