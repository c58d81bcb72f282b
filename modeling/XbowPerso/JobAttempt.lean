import XbowPerso.ManifestAdmission
import XbowPerso.Observation

/-!
# The attempts of a governed job

`put_artifact` with its idempotency key, the functions of the observation writer, and what the handlers of the worker store: an attempt
puts artifacts and observations one after another, and what it does next may depend on the artifact that it got. What a probe, a
report, a page or a scanner gives is an input of the attempt.
-/

namespace XbowPerso

namespace JobAttempt

open PyText (stripChars)

/-- What the attempts take from elsewhere. -/
structure JobEnv where
  sha : Sha256
  /-- The identifier that is drawn for the artifact first stored under an idempotency key. -/
  uuid : String → String
  /-- `differential_signal_metadata` of the content of a validation artifact. -/
  differential : List UInt8 → List (String × Json)
  observations : ObservationSettings
  maxArtifactBytes : Nat

/-! ## Artifacts -/

/-- A call of `put_artifact`. -/
structure ArtifactPut where
  kind : String
  content : List UInt8
  mediaType : String
  findingId : Option String
  idempotencyKey : Option String

/-- A row of the table `artifacts` for one campaign, with its content. -/
structure ArtifactRow where
  id : String
  findingId : Option Ident
  kind : String
  mediaType : String
  sha256 : String
  content : List UInt8
  idempotencyKey : Option String
  deriving DecidableEq

/-- `ALLOWED_ARTIFACT_KINDS` -/
def allowedArtifactKinds : List String :=
  ["scanner_stdout", "scanner_stderr", "http_evidence", "screenshot", "validation", "report", "pentagi_receipt", "pentagi_status"]

def checkFindingId : Option String → Except PyError (Option Ident)
  | none => .ok none
  | some id => (storageIdentifier id "finding_id").map some

def checkIdempotencyKey : Option String → Except PyError (Option String)
  | none => .ok none
  | some key =>
    let stripped := stripChars key.toList
    if stripped = [] then .error (.valueError "idempotency_key must not be blank")
    else if 200 < stripped.length then .error (.valueError "idempotency_key too long")
    else if stripped.any isInvalidChar = true then .error (.valueError "idempotency_key contains invalid characters")
    else .ok (some (String.ofList stripped))

/-- `_validate_media_type` -/
def validateMediaType (mediaType : String) : Except PyError String :=
  let value := stripChars mediaType.toList
  if value = [] ∨ 120 < value.length ∨ '/' ∉ value ∨ value.any (fun c => decide (c.toNat < 32) || decide (c.toNat = 127)) = true then
    .error (.valueError "invalid artifact media type")
  else .ok (String.ofList value)

/-- The checks of `put_artifact`: the row, under the identifier that is drawn for it. -/
def ArtifactPut.prepare (env : JobEnv) (put : ArtifactPut) : Except PyError ArtifactRow :=
  match checkFindingId put.findingId with
  | .error e => .error e
  | .ok findingId =>
    if put.kind ∉ allowedArtifactKinds then .error (.valueError "unsupported artifact kind")
    else
      match checkIdempotencyKey put.idempotencyKey with
      | .error e => .error e
      | .ok key =>
        if env.maxArtifactBytes < put.content.length then .error (.valueError "artifact exceeds size limit")
        else
          match validateMediaType put.mediaType with
          | .error e => .error e
          | .ok mediaType =>
            .ok ⟨env.uuid (key.getD ""), findingId, put.kind, mediaType, env.sha.hex put.content, put.content, key⟩

/-- What a second put under a key must repeat. -/
def ArtifactRow.sameContent (stored requested : ArtifactRow) : Bool :=
  decide (stored.sha256 = requested.sha256) && decide (stored.kind = requested.kind) &&
    decide (stored.mediaType = requested.mediaType) && decide (stored.findingId = requested.findingId)

/-- The row under a key. -/
def findKey? (rows : List ArtifactRow) (key : String) : Option ArtifactRow :=
  rows.find? fun row => decide (row.idempotencyKey = some key)

/-- `put_artifact`: the rows, and the row that is returned. -/
def putArtifact (env : JobEnv) (rows : List ArtifactRow) (put : ArtifactPut) : Except PyError (List ArtifactRow × ArtifactRow) :=
  match put.prepare env with
  | .error e => .error e
  | .ok row =>
    match row.idempotencyKey.bind (findKey? rows) with
    | some stored =>
      if stored.sameContent row then .ok (rows, stored)
      else .error (.runtimeError "idempotency key reused with different artifact metadata or content")
    | none => .ok (rows ++ [row], row)

/-! ## Attempts -/

/-- What is stored for a campaign beside its document. -/
structure JobStore where
  artifacts : List ArtifactRow
  observations : Observations

/-- What an attempt stores, one write after another. -/
inductive Attempt where
  | done
  | artifact (put : ArtifactPut) (next : ArtifactRow → Attempt)
  | observe (o : Observation) (next : Attempt)

/-- An attempt that runs to its end: every write succeeds. -/
def run (env : JobEnv) (store : JobStore) : Attempt → Except PyError JobStore
  | .done => .ok store
  | .artifact put next =>
    match putArtifact env store.artifacts put with
    | .error e => .error e
    | .ok (artifacts, row) => run env { store with artifacts := artifacts } (next row)
  | .observe o next =>
    match Observations.put env.observations store.observations o with
    | .error e => .error e
    | .ok observations => run env { store with observations := observations } next

/-- What is stored when an attempt stops after some writes: by a crash, a lost lease or a conflict, or at a write that raises. -/
def stopped (env : JobEnv) : Nat → JobStore → Attempt → JobStore
  | 0, store, _ => store
  | _, store, .done => store
  | writes + 1, store, .artifact put next =>
    match putArtifact env store.artifacts put with
    | .error _ => store
    | .ok (artifacts, row) => stopped env writes { store with artifacts := artifacts } (next row)
  | writes + 1, store, .observe o next =>
    match Observations.put env.observations store.observations o with
    | .error _ => store
    | .ok observations => stopped env writes { store with observations := observations } next

/-- Observations one after another, and then the rest. -/
def observeAll (observations : List Observation) (next : Attempt) : Attempt := observations.foldr Attempt.observe next

/-! ## The observation writer -/

/-- `observation_id` -/
def observationId (env : JobEnv) (kind value : String) : String :=
  kind ++ ":" ++ String.ofList ((env.sha.hex (utf8 value)).toList.take 24)

/-- `\x1f` -/
def unitSeparator : String := String.singleton (Char.ofNat 31)

def recordAsset (env : JobEnv) (asset source : String) : Observation :=
  ⟨observationId env "asset" (source ++ unitSeparator ++ asset), "asset", asset, source, [], []⟩

def recordEndpoint (env : JobEnv) (endpoint source parentId : String) : Observation :=
  ⟨observationId env "endpoint" (source ++ unitSeparator ++ endpoint), "endpoint", endpoint, source, [parentId], []⟩

def recordTypedChild (env : JobEnv) (kind value source parentId : String) (metadata : List (String × Json)) (identity : Option String) :
    Observation :=
  ⟨observationId env kind (identity.getD (source ++ unitSeparator ++ value)), kind, value, source, [parentId], metadata⟩

/-- What the writer reads of a finding. -/
structure Finding where
  id : String
  asset : String
  discoveredBy : String
  endpoint : Option String
  title : String
  severity : String
  cwe : Json
  cvss : Json
  evidence : List String

def optional : Option String → Json
  | none => .null
  | some s => .str s

/-- The endpoint of a finding; a path is on its asset. -/
def Finding.endpointValue (finding : Finding) (endpoint : String) : String :=
  if endpoint.toList.head? = some '/' then String.ofList (finding.asset.toList.rdropWhile (· = '/')) ++ endpoint else endpoint

/-- `record_finding_chain` -/
def recordFindingChain (env : JobEnv) (finding : Finding) : List Observation :=
  let asset := recordAsset env finding.asset finding.discoveredBy
  let endpoint : Option Observation :=
    match finding.endpoint with
    | none => none
    | some endpoint =>
      if endpoint = "" then none
      else some (recordEndpoint env (finding.endpointValue endpoint) finding.discoveredBy asset.id)
  let parentId := (endpoint.map Observation.id).getD asset.id
  let observation : Observation :=
    ⟨"finding:" ++ finding.id, "finding", finding.id, finding.discoveredBy, [parentId],
      [("title", .str finding.title), ("severity", .str finding.severity), ("endpoint", optional finding.endpoint),
        ("cwe", finding.cwe), ("cvss", finding.cvss)]⟩
  let evidence := ((finding.evidence.take 50).zipIdx 1).map fun (text, index) =>
    (⟨observationId env "evidence" (finding.discoveredBy ++ unitSeparator ++ finding.id ++ unitSeparator ++ toString index ++
        unitSeparator ++ text), "evidence", text, finding.discoveredBy, [observation.id],
      [("finding_id", .str finding.id), ("scanner_evidence", .bool true), ("ordinal", .int index)]⟩ : Observation)
  asset :: (endpoint.toList ++ observation :: evidence)

/-- `{**a, **b}` -/
def merged (a b : List (String × Json)) : List (String × Json) := (Dict.ofList (a ++ b)).entries

/-- `record_artifact` -/
def recordArtifact (env : JobEnv) (artifact : ArtifactRow) (source : String) (parentIds : List String) (kind : String)
    (value : Option String) (metadata : List (String × Json)) : Observation :=
  let differential :=
    if kind = "validation" ∧ source = "independent-http-validator" ∧ artifact.kind = "validation" ∧
        artifact.mediaType = "application/json" then env.differential artifact.content
    else []
  let own : List (String × Json) :=
    [("artifact_id", .str artifact.id), ("artifact_sha256", .str artifact.sha256), ("artifact_kind", .str artifact.kind),
      ("artifact_size_bytes", .int artifact.content.length), ("artifact_media_type", .str artifact.mediaType)]
  let text := value.getD ""
  ⟨kind ++ ":" ++ artifact.id, kind, if text = "" then artifact.id else text, source, parentIds,
    merged (merged metadata differential) own⟩

/-! ## The handlers -/

/-- What `safe_http_probe` gives. -/
structure ProbeResult where
  status : String
  httpStatus : Json
  json : List UInt8

def validator : String := "independent-http-validator"

/-- `process_validation`, from the finding that it found. -/
def processValidation (env : JobEnv) (job : String) (finding : Finding) (result : ProbeResult) : Attempt :=
  observeAll (recordFindingChain env finding) <|
    .artifact ⟨"validation", result.json, "application/json", some finding.id, some (job ++ ":validation")⟩ fun artifact =>
      let validation := recordArtifact env artifact validator ["finding:" ++ finding.id] "validation" (some result.status)
        [("http_status", result.httpStatus), ("finding_id", .str finding.id)]
      observeAll [validation, recordArtifact env artifact validator [validation.id] "evidence" none
        [("artifact_kind", .str "validation"), ("finding_id", .str finding.id)]] .done

/-- `process_report`, from the text that `render_markdown` gives. -/
def processReport (env : JobEnv) (job platform : String) (report : List UInt8) : Attempt :=
  if platform ∉ ["generic", "hackerone", "bugcrowd"] then .done
  else
    .artifact ⟨"report", report, "text/markdown", none, some (job ++ ":report:" ++ platform)⟩ fun artifact =>
      observeAll [recordArtifact env artifact "report-engine" [] "evidence" none
        [("platform", .str platform), ("artifact_kind", .str "report")]] .done

structure BrowserForm where
  action : String
  method : String
  methodText : String
  inputNames : List String

/-- What the worker reads of an observation of the browser. -/
inductive BrowserObservation where
  | navigate (url : String) (metadata : List (String × Json))
  | surfaceLinks (urls : List String)
  | surfaceForms (forms : List BrowserForm)
  | surfaceTechnologies (technologies : List String)
  | other

/-- What `execute_browser_flow` gives, with the bytes of its evidence. -/
structure BrowserResult where
  status : String
  identityLabel : Option String
  observations : List BrowserObservation
  evidence : List UInt8
  screenshots : List (List UInt8)

/-- What is recorded for an observation of the browser; the metadata of an access surface ends with that of the page. -/
def browserObservations (env : JobEnv) (identityLabel : Option String) (assetId : String) : BrowserObservation → List Observation
  | .navigate url metadata =>
    if url = "" then []
    else
      let label := identityLabel.getD ""
      recordEndpoint env url "browser" assetId ::
        if label = "" then []
        else [recordTypedChild env "access_surface" url "browser" assetId (("identity_label", .str label) :: metadata)
          (some ("browser-access" ++ unitSeparator ++ label ++ unitSeparator ++ url))]
  | .surfaceLinks urls => (urls.take 100).map fun url => recordEndpoint env url "browser" assetId
  | .surfaceForms forms =>
    ((forms.take 50).filter fun form => form.action ≠ "").map fun form =>
      recordTypedChild env "form" form.action "browser" assetId
        [("method", .str form.method), ("input_names", .arr ((form.inputNames.take 100).map .str))]
        (some ("browser" ++ unitSeparator ++ form.action ++ unitSeparator ++ form.methodText ++ unitSeparator ++
          ",".intercalate form.inputNames))
  | .surfaceTechnologies technologies =>
    (technologies.take 20).map fun technology => recordTypedChild env "technology" technology "browser" assetId [] none
  | .other => []

/-- The screenshots from a number on, and then the rest with all artifacts. -/
def persistScreenshots (job : String) : Nat → List (List UInt8) → List ArtifactRow → (List ArtifactRow → Attempt) → Attempt
  | _, [], artifacts, next => next artifacts
  | index, content :: contents, artifacts, next =>
    .artifact ⟨"screenshot", content, "image/png", none, some (job ++ ":browser:screenshot:" ++ toString index)⟩ fun artifact =>
      persistScreenshots job (index + 1) contents (artifacts ++ [artifact]) next

/-- `process_browser_flow` -/
def processBrowserFlow (env : JobEnv) (job primaryUrl : String) (result : BrowserResult) : Attempt :=
  let asset := recordAsset env primaryUrl "browser"
  .observe asset <|
    .artifact ⟨"http_evidence", result.evidence, "application/json", none, some (job ++ ":browser:evidence")⟩ fun evidence =>
      persistScreenshots job 1 result.screenshots [evidence] fun artifacts =>
        observeAll (result.observations.flatMap (browserObservations env result.identityLabel asset.id)) <|
          observeAll (artifacts.map fun artifact => recordArtifact env artifact "browser" [asset.id] "evidence" none
            [("browser_status", .str result.status), ("identity_label", optional result.identityLabel)]) .done

/-- What the execution of a scanner left: its streams, the list of vulnerabilities, the output file of Nuclei, and the findings that
are read from it. -/
structure ScannerRun where
  stdout : List UInt8
  stderr : List UInt8
  vulnerabilities : Option (List UInt8)
  nucleiOutput : Option (List UInt8)
  findings : List Finding

/-- Artifacts that nothing refers to, and then the rest. -/
def persistAll (puts : List ArtifactPut) (next : Attempt) : Attempt := puts.foldr (fun put next => .artifact put fun _ => next) next

/-- `persist_execution_artifacts`, the part with the streams. -/
def streamPuts (scanner : ScannerRun) : List ArtifactPut :=
  [("scanner_stdout", scanner.stdout), ("scanner_stderr", scanner.stderr)].filterMap fun (kind, content) =>
    if content = [] then none else some ⟨kind, content, "text/plain", none, none⟩

/-- `persist_execution_artifacts`, the part with the list of vulnerabilities. -/
def vulnerabilityPuts (scanner : ScannerRun) : List ArtifactPut :=
  scanner.vulnerabilities.toList.map fun content => ⟨"http_evidence", content, "application/json", none, none⟩

/-- `_record_scan_observation` -/
def recordScanObservation (engine job : String) (findings : Nat) : Observation :=
  ⟨"scan:" ++ job, "evidence", "completed", engine, [],
    [("phase", .str "scan"), ("status", .str "completed"), ("findings", .int findings), ("job_id", .str job), ("engine", .str engine),
      ("technique", .str ("scanner:" ++ engine)), ("outcome", .str "success")]⟩

/-- The observations of `ingest_scanner_run` and the one of the scan. -/
def ingested (env : JobEnv) (engine job : String) (scanner : ScannerRun) : Attempt :=
  observeAll (scanner.findings.flatMap (recordFindingChain env)) <|
    .observe (recordScanObservation engine job scanner.findings.length) .done

/-- `run_strix_job` after an execution that completed. -/
def runStrixJob (env : JobEnv) (job : String) (scanner : ScannerRun) : Attempt :=
  persistAll (streamPuts scanner ++ vulnerabilityPuts scanner) (ingested env "strix" job scanner)

/-- `run_nuclei_job` after an execution that completed. -/
def runNucleiJob (env : JobEnv) (job : String) (scanner : ScannerRun) : Attempt :=
  persistAll (streamPuts scanner ++ vulnerabilityPuts scanner ++ scanner.nucleiOutput.toList.map fun content =>
    ⟨"http_evidence", content, "application/x-ndjson", none, some (job ++ ":nuclei-jsonl")⟩) (ingested env "nuclei" job scanner)

/-- A dry run of a scanner; Nuclei has stored its list of vulnerabilities before it looks at the status. -/
def dryRun (env : JobEnv) (nuclei : Bool) (primaryUrl : String) (scanner : ScannerRun) : Attempt :=
  if nuclei then
    persistAll (streamPuts scanner ++ vulnerabilityPuts scanner) (.observe (recordAsset env primaryUrl "nuclei-dry-run") .done)
  else persistAll (streamPuts scanner) (.observe (recordAsset env primaryUrl "strix-dry-run") .done)

/-- What an attempt of a job works on: the kind of the job with what the attempt captured. -/
inductive Work where
  | validation (finding : Finding) (result : ProbeResult)
  | report (platform : String) (report : List UInt8)
  | browserFlow (primaryUrl : String) (result : BrowserResult)
  | strixScan (scanner : ScannerRun)
  | nucleiScan (scanner : ScannerRun)
  | dryScan (nuclei : Bool) (primaryUrl : String) (scanner : ScannerRun)

/-- What the handler of the job stores. -/
def attempt (env : JobEnv) (job : String) : Work → Attempt
  | .validation finding result => processValidation env job finding result
  | .report platform report => processReport env job platform report
  | .browserFlow primaryUrl result => processBrowserFlow env job primaryUrl result
  | .strixScan scanner => runStrixJob env job scanner
  | .nucleiScan scanner => runNucleiJob env job scanner
  | .dryScan nuclei primaryUrl scanner => dryRun env nuclei primaryUrl scanner

end JobAttempt

end XbowPerso
