import XbowPerso.EvidenceChain
import XbowPerso.ReportApproval
import XbowPerso.ScopePolicy

/-!
# The readiness of a report

`correlate_findings` groups the findings that may be one, `build_report_readiness` lists what keeps a finding from its review, and
`_assert_report_review_ready` asks that nothing keeps a confirmed finding from it. The ratings of the evidence and of the metadata are
left out: no blocker depends on them.
-/

namespace XbowPerso

/-- What the review of a report calls. -/
structure ReviewEnv where
  audit : AuditEnv
  unicode : Unicode
  /-- `str.upper` -/
  upper : String → String
  /-- What `urlsplit` says about a text that it refuses. -/
  urlMessage : String → String

namespace ReportReadiness

open AuditSeal ReportApproval

/-- A field of a finding that is a text. -/
def textOf (finding : AuditEntry) (key : String) : String := (text? (finding.get key)).getD ""

/-- A text that is neither missing nor empty. -/
def present : Option String → Bool
  | none => false
  | some s => decide (s ≠ "")

/-- `a or b`. -/
def orElse (a b : Option String) : Option String := if present a then a else b

variable (env : ReviewEnv)

/-- `value.strip().lower()`. -/
def stripLower (value : String) : String := String.ofList (env.unicode.lower (PyText.strip value).toList)

/-! ## Correlation -/

/-- The host with its port, where the port is not the scheme's own. -/
def netlocOf (scheme host : List Char) : Option Nat → List Char
  | none => host
  | some port =>
    if port = 0 ∨ (scheme = "http".toList ∧ port = 80) ∨ (scheme = "https".toList ∧ port = 443) then host
    else host ++ ':' :: (toString port).toList

/-- `urlunsplit`, of a network location without query and fragment. -/
def urlunsplit (scheme netloc path : List Char) : List Char :=
  scheme ++ "://".toList ++ netloc ++ (if path = [] ∨ path.head? = some '/' then path else '/' :: path)

/-- `_canonical_url` of a text that is there. -/
def canonicalText (value : String) : Except PyError String :=
  match PyUrl.urlsplit env.unicode value.toList with
  | none => .error (.valueError (env.urlMessage value))
  | some parsed =>
    let scheme := env.unicode.lower parsed.scheme
    let host := ScopePolicy.rstripDots (env.unicode.lower ((parsed.hostname env.unicode).getD []))
    if parsed.scheme = [] ∨ host = [] then .ok (stripLower env value)
    else
      -- a port that cannot be read counts as none
      let netloc := netlocOf scheme host parsed.port.join
      .ok (String.ofList (urlunsplit scheme netloc (if parsed.path = [] then ['/'] else parsed.path)))

/-- `_canonical_url`. -/
def canonicalUrl (value : Option String) : Except PyError (Option String) :=
  match value with
  | none => .ok none
  | some value =>
    if value = "" then .ok none
    else
      match canonicalText env value with
      | .error e => .error e
      | .ok url => .ok (some url)

/-- What findings of one group share. -/
structure GroupKey where
  asset : String
  endpoint : Option String
  cwe : Option String
  strongIdentity : Option String
  deriving DecidableEq

/-- A text of a finding, read in another spelling where it is present. -/
def spelled (f : String → String) (value : Option String) : Option String := if present value then value.map f else none

/-- The key of a finding. -/
def groupKey (finding : AuditEntry) : Except PyError GroupKey :=
  match canonicalUrl env (some (textOf finding "asset")) with
  | .error e => .error e
  | .ok asset =>
    match canonicalUrl env (text? (finding.get "endpoint")) with
    | .error e => .error e
    | .ok endpoint =>
      let cwe := spelled (fun s => env.upper (PyText.strip s)) (text? (finding.get "cwe"))
      let title := spelled (stripLower env) (text? (finding.get "title"))
      .ok ⟨(orElse asset (some (stripLower env (textOf finding "asset")))).getD "", endpoint, cwe, orElse cwe title⟩

/-- `grouped`: the findings under their keys. -/
def grouped : Dict GroupKey (List AuditEntry) → List AuditEntry → Except PyError (Dict GroupKey (List AuditEntry))
  | groups, [] => .ok groups
  | groups, finding :: findings =>
    match groupKey env finding with
    | .error e => .error e
    | .ok key => grouped (groups.set key ((groups.get? key).getD [] ++ [finding])) findings

/-- `FindingCorrelation`, with what the readiness reads of it. -/
structure FindingCorrelation where
  key : GroupKey
  findingIds : List String

def FindingCorrelation.duplicateCandidate (c : FindingCorrelation) : Bool :=
  decide (1 < c.findingIds.length) && (present c.key.endpoint || present c.key.cwe)

/-- `correlate_findings`, in the order in which the groups came up. -/
def correlateFindings (findings : List AuditEntry) : Except PyError (List FindingCorrelation) :=
  match grouped env .empty findings with
  | .error e => .error e
  | .ok groups =>
    .ok (groups.entries.map fun e => ⟨e.1, sortedTexts (e.2.map fun finding => textOf finding "id")⟩)

/-- `duplicate_ids`. -/
def duplicateIds (groups : List FindingCorrelation) : List String :=
  (groups.filter FindingCorrelation.duplicateCandidate).flatMap FindingCorrelation.findingIds

end ReportReadiness

/-! ## Readiness -/

/-- `ReportReadiness`, with what its blockers and its place depend on. -/
structure ReportReadiness where
  findingId : String
  confirmed : Bool
  independentValidationObserved : Bool
  evidenceBackedIndependentValidation : Bool
  evidenceChainComplete : Bool
  duplicateCandidate : Bool
  deriving DecidableEq

namespace ReportReadiness

open AuditSeal ReportApproval

/-- `blockers`. -/
def blockers (r : ReportReadiness) : List String :=
  (if r.confirmed then [] else ["finding_not_confirmed"]) ++
    (if r.independentValidationObserved then [] else ["missing_independent_validation"]) ++
    (if r.independentValidationObserved && !r.evidenceBackedIndependentValidation then
      ["missing_evidence_backed_independent_validation"] else []) ++
    (if r.evidenceChainComplete then [] else ["incomplete_evidence_chain"]) ++
    (if r.duplicateCandidate then ["duplicate_review_required"] else [])

def readyForHumanReview (r : ReportReadiness) : Bool := r.blockers.isEmpty

/-- `score`, in hundredths. -/
def score (r : ReportReadiness) : Nat :=
  (if r.confirmed then 25 else 0) + (if r.evidenceBackedIndependentValidation then 30 else 0) +
    (if r.evidenceChainComplete then 30 else 0) + (if r.duplicateCandidate then 0 else 15)

/-- The readiness of a finding. -/
def ofFinding (graph : ObservationGraph) (duplicates : List String) (finding : AuditEntry) : ReportReadiness :=
  let findingId := textOf finding "id"
  let graphId := "finding:" ++ findingId
  let validation := graph.analyzeValidationState
  { findingId := findingId
    confirmed := hasText finding "status" "confirmed"
    independentValidationObserved := decide (graphId ∈ validation.observedIndependentFindingIds)
    evidenceBackedIndependentValidation := decide (graphId ∈ validation.evidenceBackedIndependentFindingIds)
    evidenceChainComplete :=
      (graph.buildEvidenceChains.find? fun chain => chain.findingId = graphId).any ObservationGraph.EvidenceChain.complete
    duplicateCandidate := decide (findingId ∈ duplicates) }

/-- The best score first, and findings of one score by their identifiers. -/
def NotAfter (a b : ReportReadiness) : Prop := b.score < a.score ∨ (a.score = b.score ∧ a.findingId ≤ b.findingId)

instance (a b : ReportReadiness) : Decidable (NotAfter a b) := inferInstanceAs (Decidable (_ ∨ _))

variable (env : ReviewEnv)

/-- `build_report_readiness`. -/
def buildReportReadiness (findings : List AuditEntry) (graph : ObservationGraph) : Except PyError (List ReportReadiness) :=
  match correlateFindings env findings with
  | .error e => .error e
  | .ok groups => .ok ((findings.map (ofFinding graph (duplicateIds groups))).insertionSort NotAfter)

/-- `load_observation_graph`, from what `list_observations` lists. -/
def loadObservationGraph (records : List ObservationRow) : Except PyError ObservationGraph :=
  ObservationGraph.fromRecords (records.map ObservationRow.toObservation)

/-- `readiness.get(finding_id)`: of several rows the last one stays. -/
def rowOf (rows : List ReportReadiness) (findingId : String) : Option ReportReadiness :=
  rows.reverse.find? fun row => row.findingId = findingId

/-- `_assert_report_review_ready`. -/
def assertReportReviewReady (campaign : Campaign) (records : List ObservationRow) : Except PyError Unit :=
  if confirmedFindings campaign = [] then .error (.valueError "report approval requires at least one confirmed finding")
  else
    match loadObservationGraph records with
    | .error e => .error e
    | .ok graph =>
      match buildReportReadiness env campaign.findings graph with
      | .error e => .error e
      | .ok rows =>
        let blocked := (confirmedFindings campaign).filter fun finding =>
          !(rowOf rows (textOf finding "id")).any readyForHumanReview
        if blocked = [] then .ok ()
        else .error (.valueError "report approval requires all confirmed findings to be report-ready")

end ReportReadiness

end XbowPerso
