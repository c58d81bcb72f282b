import XbowPerso.JobAttempt

/-!
# The findings of a campaign and their chains

A scan reports findings under an identifier that is a digest of some of their fields, a review edits the CWE and the CVSS of a finding,
and a validation records the finding as the campaign has it. Scans and validations call `record_finding_chain`.
-/

namespace XbowPerso

namespace FindingHistory

open JobAttempt (JobEnv Finding recordFindingChain)

/-- What the scanners report, as far as an identifier or a chain depends on it. -/
structure NormalizedScannerFinding where
  engine : String
  title : String
  severity : String
  asset : String
  endpoint : Option String
  summary : String
  evidence : List String
  cwe : Option String
  cvss : Json
  cveIds : List String
  templateId : Option String
  matcherName : Option String
  packageEcosystem : Option String
  packageName : Option String
  packageVersion : Option String

/-- `normalized_finding_id` -/
def normalizedFindingId (env : JobEnv) (item : NormalizedScannerFinding) : String :=
  let canonical := Json.arr [.str item.engine, .str (PyText.strip item.title), .str (PyText.strip item.asset),
    .str (item.endpoint.getD ""), .str (item.cwe.getD ""), .arr (item.cveIds.map .str), .str (PyText.strip item.summary),
    .str (item.templateId.getD ""), .str (item.matcherName.getD ""), .str (item.packageEcosystem.getD ""),
    .str (item.packageName.getD ""), .str (item.packageVersion.getD "")]
  item.engine ++ "-" ++ String.ofList ((env.sha.hex (utf8 canonical.dumps)).toList.take 32)

/-- `to_campaign_finding` -/
def toCampaignFinding (env : JobEnv) (item : NormalizedScannerFinding) : Finding where
  id := normalizedFindingId env item
  asset := item.asset
  discoveredBy := item.engine
  endpoint := item.endpoint
  title := item.title
  severity := item.severity
  cwe := JobAttempt.optional item.cwe
  cvss := item.cvss
  evidence := item.evidence

/-- What happens to a campaign: a scan is ingested, and its campaign is saved or loses the race; a review edits a finding; a validation
records one; or something else puts an observation. -/
inductive Event where
  | ingest (items : List NormalizedScannerFinding) (saved : Bool)
  | review (findingId cwe : String) (cvss : Json)
  | validate (findingId : String)
  | other (o : Observation)

/-- The findings that are not there yet, one for each identifier. -/
def addFindings : List Finding → List Finding → List Finding
  | findings, [] => findings
  | findings, finding :: rest =>
    if finding.id ∈ findings.map Finding.id then addFindings findings rest else addFindings (findings ++ [finding]) rest

/-- The findings of the campaign after an event. -/
def findingsAfter (env : JobEnv) (findings : List Finding) : Event → List Finding
  | .ingest items saved => if saved then addFindings findings (items.map (toCampaignFinding env)) else findings
  | .review findingId cwe cvss =>
    findings.map fun finding => if finding.id = findingId then { finding with cwe := .str cwe, cvss := cvss } else finding
  | .validate _ => findings
  | .other _ => findings

/-- The findings whose chains an event records. -/
def recorded (env : JobEnv) (findings : List Finding) : Event → List Finding
  | .ingest items _ => items.map (toCampaignFinding env)
  | .validate findingId => (findings.find? fun finding => decide (finding.id = findingId)).toList
  | .review _ _ _ => []
  | .other _ => []

/-- Observations put one after another, as far as none raises. -/
def putAll (cfg : ObservationSettings) : Observations → List Observation → Except PyError Observations
  | rows, [] => .ok rows
  | rows, o :: observations =>
    match Observations.put cfg rows o with
    | .error e => .error e
    | .ok rows => putAll cfg rows observations

/-- What an event makes of the observations, where `record_finding_chain` may raise. An observation of something else that is refused
changes nothing. -/
def observe (env : JobEnv) (findings : List Finding) (rows : Observations) : Event → Except PyError Observations
  | .other o =>
    match Observations.put env.observations rows o with
    | .error _ => .ok rows
    | .ok rows => .ok rows
  | event => putAll env.observations rows ((recorded env findings event).flatMap (recordFindingChain env))

/-- A history, up to the first chain that raises. -/
def run (env : JobEnv) : List Finding → Observations → List Event → Except PyError Observations
  | _, rows, [] => .ok rows
  | findings, rows, event :: events =>
    match observe env findings rows event with
    | .error e => .error e
    | .ok rows => run env (findingsAfter env findings event) rows events

end FindingHistory

end XbowPerso
