import XbowPerso.JobAttempt
import XbowPerso.ObservationGraph
import XbowPerso.ScopePolicy

/-!
# The attack surface and its integrity

The recon worker, the browser worker and the ingestion of findings record endpoints below assets. `build_attack_surface` reads both
again. An endpoint that is invalid, out of scope or on another host than its assets makes `build_red_team_decisions` ask for a review of
the scope, which blocks the consensus and the autonomy gate.
-/

namespace XbowPerso

namespace AttackSurface

open PyText (stripChars)
open PyUrl (urlsplit SplitResult)
open ScopePolicy (rstripDots HasScheme isHostAllowed)
open JobAttempt (JobEnv Attempt BrowserResult BrowserObservation Finding recordAsset recordEndpoint recordTypedChild observeAll
  recordFindingChain processBrowserFlow unitSeparator)

abbrev Text := List Char

variable (u : Unicode)

/-! ## Canonical hosts and endpoints -/

/-- `any(ord(char) < 32 or ord(char) == 127 for char in value)` -/
def hasControl (value : Text) : Bool := value.any fun c => decide (c.toNat < 32) || decide (c.toNat = 127)

/-- `{"http", "https"}` -/
def webSchemes : List Text := [['h', 't', 't', 'p'], ['h', 't', 't', 'p', 's']]

theorem any_webSchemes (scheme : Text) : (webSchemes.any fun known => decide (known = scheme)) = true ↔ scheme ∈ webSchemes := by
  simp only [List.any_eq_true, decide_eq_true_eq, exists_eq_right]

instance (scheme : Text) : Decidable (scheme ∈ webSchemes) := decidable_of_iff _ (any_webSchemes scheme)

/-- `(parsed.hostname or "").lower().rstrip(".")` -/
def hostOf (parsed : SplitResult) : Text := rstripDots (u.lower ((parsed.hostname u).getD []))

/-- `parsed.username is not None or parsed.password is not None` -/
def hasUser (parsed : SplitResult) : Bool := decide ('@' ∈ parsed.netloc)

/-- `canonical_host` -/
def canonicalHost (value : String) : Text :=
  let raw := stripChars value.toList
  if raw = [] ∨ hasControl raw = true then []
  else
    match urlsplit u (if HasScheme raw then raw else '/' :: '/' :: raw) with
    | none => []
    | some parsed =>
      if hasUser parsed = true ∨ (parsed.scheme ≠ [] ∧ u.lower parsed.scheme ∉ webSchemes) then []
      else if parsed.port.isNone = true then []
      else hostOf u parsed

/-- What `canonical_endpoint` returns, but for the names of the parameters. -/
structure CanonicalEndpoint where
  url : Text
  scheme : Text
  host : Text
  path : Text
  error : Option String

def CanonicalEndpoint.valid (endpoint : CanonicalEndpoint) : Bool := endpoint.error.isNone

def invalidUrl : CanonicalEndpoint := ⟨[], [], [], ['/'], some "invalid_url"⟩

/-- The error of a URL that could be split. -/
def endpointError (scheme host : Text) (parsed : SplitResult) : Option String :=
  match parsed.port with
  | none => some "invalid_port"
  | some port =>
    if scheme ∉ webSchemes then some (if scheme = [] then "missing_scheme_or_host" else "unsupported_scheme")
    else if host = [] then some "missing_scheme_or_host"
    else if hasUser parsed = true then some "embedded_credentials"
    else if port = some 0 then some "invalid_port"
    else none

/-- `urlunsplit` of a valid endpoint, without the port that its scheme has anyway. -/
def canonicalUrl (scheme host path : Text) (port : Option Nat) : Text :=
  let name := if ':' ∈ host then '[' :: host ++ [']'] else host
  let netloc := match port with
    | none => name
    | some port =>
      if (scheme = ['h', 't', 't', 'p'] ∧ port = 80) ∨ (scheme = ['h', 't', 't', 'p', 's'] ∧ port = 443) then name
      else name ++ ':' :: (toString port).toList
  scheme ++ ':' :: '/' :: '/' :: netloc ++ path

/-- `canonical_endpoint` -/
def canonicalEndpoint (value : String) : CanonicalEndpoint :=
  if hasControl value.toList = true then invalidUrl
  else
    match urlsplit u value.toList with
    | none => invalidUrl
    | some parsed =>
      let scheme := u.lower parsed.scheme
      let host := hostOf u parsed
      let path := if parsed.path = [] then ['/'] else parsed.path
      let error := endpointError scheme host parsed
      ⟨if error = none then canonicalUrl scheme host path (parsed.port.getD none) else [], scheme, host, path, error⟩

/-! ## The surface -/

/-- The target of a campaign; its validator has found the host of the primary URL in scope. -/
structure ScopedTarget where
  primaryUrl : String
  allowedTargets : List String
  deniedTargets : List String
  primary_in_scope : ∃ parsed host, urlsplit u primaryUrl.toList = some parsed ∧ parsed.hostname u = some host ∧
    isHostAllowed u (String.ofList (u.lower host)) allowedTargets deniedTargets = some true

variable {u} in
/-- `scope_checker`; none for a `ValueError`. -/
def ScopedTarget.scopeChecker (target : ScopedTarget u) (host : Text) : Option Bool :=
  isHostAllowed u (String.ofList host) target.allowedTargets target.deniedTargets

structure AssetItem where
  id : String
  host : Text
  inScope : Option Bool

structure EndpointItem where
  id : String
  endpoint : CanonicalEndpoint
  inScope : Option Bool
  assetParentHosts : List Text
  hostAssetMismatch : Bool

structure FormItem where
  id : String
  action : Text
  host : Text
  valid : Bool
  inScope : Option Bool

/-- What `build_attack_surface` gives, as far as hosts and scope go. -/
structure Surface where
  assets : List AssetItem
  endpoints : List EndpointItem
  forms : List FormItem

/-- `scope_checker(host) if … else None` -/
def judged (checker : Text → Option Bool) (applies : Bool) (host : Text) : Option (Option Bool) :=
  if applies = true then (checker host).map some else some none

def assetItem (checker : Text → Option Bool) (o : Observation) : Option AssetItem :=
  let host := canonicalHost u o.value
  (judged checker (decide (host ≠ [])) host).map fun inScope => ⟨o.id, host, inScope⟩

/-- `asset_hosts` -/
def assetHosts (graph : ObservationGraph) : List (String × Text) :=
  (graph.byKind .asset).map fun o => (o.id, canonicalHost u o.value)

/-- `parent_hosts`, as a list. -/
def parentHosts (graph : ObservationGraph) (o : Observation) : List Text :=
  o.parentIds.filterMap fun p => ((assetHosts u graph).find? fun entry => decide (entry.1 = p)).map (·.2)

def endpointItem (checker : Text → Option Bool) (graph : ObservationGraph) (o : Observation) : Option EndpointItem :=
  let normalized := canonicalEndpoint u o.value
  let hosts := parentHosts u graph o
  (judged checker normalized.valid normalized.host).map fun inScope =>
    ⟨o.id, normalized, inScope, hosts, decide (hosts ≠ [] ∧ ∀ parent ∈ hosts, parent ≠ normalized.host)⟩

/-- `_safe_form` -/
def safeForm (checker : Text → Option Bool) (o : Observation) : Option FormItem :=
  let action := canonicalEndpoint u o.value
  (judged checker action.valid action.host).map fun inScope => ⟨o.id, action.url, action.host, action.valid, inScope⟩

/-- `build_attack_surface` with a scope checker; none for a `ValueError` of the checker. -/
def buildAttackSurface (checker : Text → Option Bool) (graph : ObservationGraph) : Option Surface :=
  match (graph.byKind .asset).mapM (assetItem u checker), (graph.byKind .endpoint).mapM (endpointItem u checker graph),
      (graph.byKind .form).mapM (safeForm u checker) with
  | some assets, some endpoints, some forms => some ⟨assets, endpoints, forms⟩
  | _, _, _ => none

namespace Surface

/-- The surface of a campaign without observations. -/
def empty : Surface := ⟨[], [], []⟩

variable (surface : Surface)

def validEndpoints : List EndpointItem := surface.endpoints.filter fun item => item.endpoint.valid

def invalidEndpointCount : Nat := surface.endpoints.length - surface.validEndpoints.length

def outOfScopeEndpointCount : Nat := surface.validEndpoints.countP fun item => decide (item.inScope = some false)

def hostAssetMismatchCount : Nat := surface.validEndpoints.countP EndpointItem.hostAssetMismatch

/-- `integrity_count` -/
def integrityCount : Nat := surface.invalidEndpointCount + surface.outOfScopeEndpointCount + surface.hostAssetMismatchCount

end Surface

/-! ## Decisions -/

inductive DecisionKind where
  | scopeIntegrity | reviewContradiction | validateFindings | strengthenEvidence | reviewSurface | reviewForReport | idle
  deriving DecidableEq

def DecisionKind.word : DecisionKind → String
  | scopeIntegrity => "scope_integrity"
  | reviewContradiction => "review_contradiction"
  | validateFindings => "validate_findings"
  | strengthenEvidence => "strengthen_evidence"
  | reviewSurface => "review_surface"
  | reviewForReport => "review_for_report"
  | idle => "idle"

/-- A decision; the priority in ten thousandths. -/
structure RedTeamDecision where
  kind : DecisionKind
  priority : Nat
  findingIds : List String
  evidenceIds : List String

/-- What the triage, the readiness, the chains and the hypotheses say, and what the coverage makes of a priority. -/
structure Signals where
  contradictionIds : List String
  validationIds : List String
  incompleteIds : List String
  surfaceEvidence : Option (List String)
  reportIds : List String
  adjusted : Nat → Nat

/-- The decisions in their order in the source. -/
def drafted (signals : Signals) (surface : Surface) : List RedTeamDecision :=
  (if surface.integrityCount ≠ 0 then [⟨.scopeIntegrity, 10000, [], []⟩] else []) ++
  (if signals.contradictionIds ≠ [] then [⟨.reviewContradiction, 9800, signals.contradictionIds.take 10, []⟩] else []) ++
  (if signals.validationIds ≠ [] then [⟨.validateFindings, 9200, signals.validationIds.take 10, []⟩] else []) ++
  (if signals.incompleteIds ≠ [] then [⟨.strengthenEvidence, 8400, signals.incompleteIds.take 10, []⟩] else []) ++
  (signals.surfaceEvidence.toList.map fun evidence => ⟨.reviewSurface, 7200, [], evidence⟩) ++
  (if signals.reportIds ≠ [] then [⟨.reviewForReport, 6400, signals.reportIds.take 10, []⟩] else [])

def adjust (signals : Signals) (decision : RedTeamDecision) : RedTeamDecision :=
  if decision.kind ∈ [.validateFindings, .strengthenEvidence, .reviewSurface] then
    { decision with priority := signals.adjusted decision.priority }
  else decision

/-- `key=lambda item: (-item.priority, item.kind)` -/
def ranked (decisions : List RedTeamDecision) : List RedTeamDecision :=
  decisions.mergeSort fun a b =>
    decide (b.priority < a.priority) || (decide (a.priority = b.priority) && decide (a.kind.word ≤ b.kind.word))

/-- `build_red_team_decisions`, from the attack surface on. -/
def buildRedTeamDecisions (signals : Signals) (surface : Surface) (limit : Nat) : Except PyError (List RedTeamDecision) :=
  if limit < 1 ∨ 25 < limit then .error (.valueError "decision limit must be between 1 and 25")
  else
    let decisions := if drafted signals surface = [] then [⟨.idle, 0, [], []⟩] else drafted signals surface
    .ok ((ranked (decisions.map (adjust signals))).take limit)

/-! ## The consensus and the gate -/

/-- `_BLOCKING_KINDS` -/
def blockingKinds : List DecisionKind := [.scopeIntegrity, .reviewContradiction]

/-- `_ACTIONABLE_KINDS` -/
def actionableKinds : List DecisionKind := [.validateFindings, .strengthenEvidence, .reviewSurface, .reviewForReport]

structure DecisionConsensus where
  nextFocus : DecisionKind
  blocked : Bool
  contradictory : Bool

/-- `build_decision_consensus`. Whether the difference of two priorities is at most `0.05` is a question about floating point numbers. -/
def buildDecisionConsensus (near : Nat → Nat → Bool) (decisions : List RedTeamDecision) : DecisionConsensus :=
  match ranked (decisions.filter fun item => decide (item.kind ∈ blockingKinds)), ranked decisions with
  | _, [] => ⟨.idle, false, false⟩
  | top :: _, _ =>
    let actionable := decisions.any fun item => decide (item.kind ∈ actionableKinds)
    ⟨top.kind, true, actionable || decide (top.kind = .reviewContradiction)⟩
  | [], top :: rest =>
    let contradictory := rest.any fun item => near top.priority item.priority && decide (item.kind ≠ top.kind)
    ⟨top.kind, contradictory, contradictory⟩

/-- `blocked` of `build_campaign_risk` -/
def riskBlocked (surface : Surface) (consensus : DecisionConsensus) : Bool :=
  decide (surface.integrityCount ≠ 0) || consensus.blocked

/-- The other arguments of `build_autonomy_gate`. -/
structure GateFlags where
  automatedScanning : Bool
  destructiveTesting : Bool
  denialOfService : Bool
  socialEngineering : Bool
  credentialAttacks : Bool
  runtimeExhausted : Bool
  budgetBlocked : Bool
  failedJobs : Nat

/-- The blockers of `build_autonomy_gate`, sorted. -/
def blockers (flags : GateFlags) (riskBlocked : Bool) (consensus : DecisionConsensus) : List String :=
  let named : List (Bool × String) :=
    [(!flags.automatedScanning, "automated_scanning_disabled"), (flags.destructiveTesting, "destructive_testing_enabled"),
      (flags.denialOfService, "denial_of_service_enabled"), (flags.socialEngineering, "social_engineering_enabled"),
      (flags.credentialAttacks, "credential_attacks_enabled"), (flags.runtimeExhausted, "runtime_exhausted"),
      (flags.budgetBlocked, "budget_blocked"), (decide (flags.failedJobs ≠ 0), "failed_jobs"),
      (riskBlocked, "campaign_risk_blocked"), (consensus.blocked, "decision_consensus_blocked")]
  ((named.filter (·.1)).map (·.2)).mergeSort fun a b => decide (a ≤ b)

/-- The blockers of `campaign_autonomy_gate`. -/
def campaignAutonomyGate (near : Nat → Nat → Bool) (signals : Signals) (flags : GateFlags) (surface : Surface) :
    Except PyError (List String) :=
  match buildRedTeamDecisions signals surface 10 with
  | .error e => .error e
  | .ok decisions =>
    let consensus := buildDecisionConsensus near decisions
    .ok (blockers flags (riskBlocked surface consensus) consensus)

/-! ## What is recorded -/

structure ReconForm where
  action : String
  method : String
  inputNames : List String

/-- What the worker reads of the result of a recon task. -/
structure ReconResult where
  status : String
  target : String
  httpStatus : Option Int
  assets : List String
  endpoints : List String
  forms : List ReconForm
  technologies : List String
  waf : List String
  endpointProvenance : List (String × List String)

/-- `provenance.get(endpoint, [])` -/
def ReconResult.discoverySources (result : ReconResult) (endpoint : String) : List String :=
  match result.endpointProvenance.reverse.find? fun item => decide (item.1 = endpoint ∧ item.1 ≠ "") with
  | none => []
  | some (_, sources) => sources.filter fun source => decide (PyText.strip source ≠ "")

/-- The endpoints that are recorded: the target, when it answered, and those that were discovered. -/
def ReconResult.probed (result : ReconResult) : List String :=
  if result.status = "observed" ∧ result.httpStatus.isSome = true then [result.target] else []

/-- What `process_recon_task` records for a task of a kind. -/
def reconObservations (env : JobEnv) (kind primaryUrl : String) (result : ReconResult) : List Observation :=
  let source := "recon:" ++ kind
  let asset := recordAsset env primaryUrl source
  let discovered := result.endpoints.map fun endpoint =>
    let sources := result.discoverySources endpoint
    { recordEndpoint env endpoint source asset.id with
      metadata := if sources = [] then [] else [("discovery_sources", .arr (sources.map .str))] }
  let forms := result.forms.map fun form =>
    recordTypedChild env "form" form.action source asset.id
      [("method", .str form.method), ("input_names", .arr (form.inputNames.map .str))]
      (some (source ++ unitSeparator ++ form.action ++ unitSeparator ++ ",".intercalate form.inputNames))
  asset :: result.assets.map (fun discovered => recordAsset env discovered (source ++ ":passive")) ++
    result.probed.map (fun target => recordEndpoint env target source asset.id) ++ discovered ++ forms ++
    result.technologies.map (fun technology => recordTypedChild env "technology" technology source asset.id [] none) ++
    result.waf.map (fun waf => recordTypedChild env "waf" waf source asset.id [] none)

/-- A result that is recorded. -/
inductive Result where
  | recon (kind : String) (result : ReconResult)
  | browser (job : String) (result : BrowserResult)
  | finding (finding : Finding)

/-- What is stored for a result. -/
def attempt (env : JobEnv) (primaryUrl : String) : Result → Attempt
  | .recon kind result => observeAll (reconObservations env kind primaryUrl result) .done
  | .browser job result => processBrowserFlow env job primaryUrl result
  | .finding finding => observeAll (recordFindingChain env finding) .done

/-- Results one after another. Each is stored up to its end, up to a write that raises, or up to where its worker stops. -/
def run (env : JobEnv) (primaryUrl : String) : JobAttempt.JobStore → List (Result × Nat) → JobAttempt.JobStore
  | store, [] => store
  | store, (result, writes) :: results => run env primaryUrl (JobAttempt.stopped env writes store (attempt env primaryUrl result)) results

/-- The URLs of the pages and links that are recorded for an observation of the browser. -/
def browserUrls : BrowserObservation → List String
  | .navigate url _ => if url = "" then [] else [url]
  | .surfaceLinks urls => urls.take 100
  | _ => []

/-- The endpoints of a result, each with its asset. -/
def Result.endpoints (primaryUrl : String) : Result → List (String × String)
  | .recon _ result => (result.probed ++ result.endpoints).map fun endpoint => (primaryUrl, endpoint)
  | .browser _ result => (result.observations.flatMap browserUrls).map fun endpoint => (primaryUrl, endpoint)
  | .finding f => (f.endpoint.toList.filter fun endpoint => decide (endpoint ≠ "")).map fun endpoint => (f.asset, endpoint)

/-! ## Results that are admitted, and results on their assets -/

variable {u} in
/-- The campaign allows the hosts of a result. -/
def Admitted (target : ScopedTarget u) (result : Result) : Prop :=
  ∀ entry ∈ result.endpoints target.primaryUrl,
    (canonicalHost u entry.1 ≠ [] → target.scopeChecker (canonicalHost u entry.1) = some true) ∧
    ((canonicalEndpoint u entry.2).host ≠ [] → target.scopeChecker (canonicalEndpoint u entry.2).host = some true)

/-- A text is an HTTP(S) URL of a host: without control characters, without a user, and not on port 0. -/
structure WebUrl (value : String) (host : Text) : Prop where
  plain : hasControl value.toList = false
  split : ∃ parsed, urlsplit u value.toList = some parsed ∧ u.lower parsed.scheme ∈ webSchemes ∧ '@' ∉ parsed.netloc ∧
    (∃ port, parsed.port = some port ∧ port ≠ some 0) ∧ hostOf u parsed = host
  host_ne : host ≠ []

/-- A URL on the host of an asset. -/
def OnAsset (asset value : String) : Prop := WebUrl u value (canonicalHost u asset)

/-- The endpoints of a result are URLs on the hosts of their assets. A path is an endpoint of a finding whose asset is such a URL. -/
def OnItsAssets (primaryUrl : String) (result : Result) : Prop :=
  match result with
  | .finding finding => ∀ entry ∈ result.endpoints primaryUrl,
      if entry.2.toList.head? = some '/' then hasControl entry.2.toList = false ∧ OnAsset u finding.asset finding.asset
      else OnAsset u finding.asset entry.2
  | _ => ∀ entry ∈ result.endpoints primaryUrl, OnAsset u primaryUrl entry.2

end AttackSurface

end XbowPerso
