import XbowPerso.Lib.Binary64
import XbowPerso.ManifestTicket
import XbowPerso.ScopePolicy

/-!
# Execution contracts

`build_strix_execution_contract`, the document in which the broker receives a contract, and `authorize_strix_contract_request`. A
contract fixes the scope of a campaign and its cap on the rate, with a hash over its canonical text and a signature when the audit
key is there. The `repr` of a float and what reads it back are parameters.
-/

namespace XbowPerso

open RunnerRpc (isHexOfLength JsonDict item isStr isBool)

/-- The literal that `repr` writes for a finite float, and the float that a literal is read as. -/
structure FloatText where
  literal : Binary64.Finite → FloatLiteral
  read : FloatLiteral → Binary64

namespace ExecutionContract

/-- `STRIX_EXECUTION_CONTRACT_SCHEMA` -/
def contractSchema : String := "strix-execution-contract-v1"

/-- `_SIGNATURE_DOMAIN` -/
def signatureDomain : List UInt8 := utf8 "xbow:strix-execution-contract:v1\x00"

/-- What an interpreter provides: the Unicode database, the float texts and the digests. -/
structure Python where
  unicode : Unicode
  floats : FloatText
  sha : Sha256
  hmac : HmacSha256

/-- `StrixExecutionContract` -/
structure Contract where
  schema : String
  engine : String
  campaignId : String
  jobId : String
  primaryTarget : String
  policyFingerprint : String
  allowedTargets : List String
  deniedTargets : List String
  maxRequestsPerSecond : Binary64
  directEgressAllowed : Bool
  hostContainerSocketAllowed : Bool
  independentValidationRequired : Bool
  contractHash : String
  signatureAlg : Option String
  signature : Option String

/-- `StrixAuthorizedRequest` -/
structure AuthorizedRequest where
  contractHash : String
  target : String
  host : String
  maxRequestsPerSecond : Binary64

/-- `StrixExecutionContractError`, and the other exceptions that come through. -/
inductive ContractError where
  | contract (message : String)
  | valueError
  | typeError
  deriving DecidableEq

def texts (values : List String) : Json := .arr (values.map .str)

def rateJson (floats : FloatText) : Binary64 → Json
  | .nan => .nan
  | .infinity negative => .infinity negative
  | .finite x => .float (floats.literal x)

/-- `_canonical_payload` -/
def canonicalPayload (floats : FloatText) (c : Contract) : List UInt8 :=
  utf8 (Json.obj [("schema", .str c.schema), ("engine", .str c.engine), ("campaign_id", .str c.campaignId),
    ("job_id", .str c.jobId), ("primary_target", .str c.primaryTarget), ("policy_fingerprint", .str c.policyFingerprint),
    ("allowed_targets", texts c.allowedTargets), ("denied_targets", texts c.deniedTargets),
    ("max_requests_per_second", rateJson floats c.maxRequestsPerSecond),
    ("direct_egress_allowed", .bool c.directEgressAllowed),
    ("host_container_socket_allowed", .bool c.hostContainerSocketAllowed),
    ("independent_validation_required", .bool c.independentValidationRequired)]).dumpsSorted

/-! ## Building -/

/-- `ProgramRules` -/
structure ProgramRules where
  authorizationReference : String
  allowedTargets : List String
  deniedTargets : List String
  maxRequestsPerSecond : Binary64
  destructiveTesting : Bool
  denialOfService : Bool
  socialEngineering : Bool
  credentialAttacks : Bool
  automatedScanning : Bool

/-- What a contract is built from. -/
structure Campaign where
  id : String
  primaryUrl : String
  rules : ProgramRules

/-- `(urlparse(url).hostname or "").lower()`; none for a `ValueError`. -/
def urlHost (u : Unicode) (url : String) : Option String :=
  (PyUrl.urlsplit u url.toList).map fun r => String.ofList (u.lower ((r.hostname u).getD []))

def withoutDots (host : String) : String := String.ofList (ScopePolicy.rstripDots host.toList)

/-- `_unsafe_campaign_reasons` -/
def unsafeCampaignReasons (u : Unicode) (c : Campaign) : Except ContractError (List String) :=
  let r := c.rules
  let flags := [(!r.automatedScanning, "automated_scanning_disabled"), (r.destructiveTesting, "destructive_testing_enabled"),
    (r.denialOfService, "denial_of_service_enabled"), (r.socialEngineering, "social_engineering_enabled"),
    (r.credentialAttacks, "credential_attacks_enabled")]
  let reasons := (flags.filter (·.1)).map (·.2)
  match urlHost u c.primaryUrl with
  | none => .error .valueError
  | some host =>
    if withoutDots host = "" then .ok (reasons ++ ["primary_target_outside_scope"])
    else
      match ScopePolicy.isHostAllowed u (withoutDots host) r.allowedTargets r.deniedTargets with
      | none => .error .valueError
      | some true => .ok reasons
      | some false => .ok (reasons ++ ["primary_target_outside_scope"])

/-- `_validate_job_id` -/
def validateJobId (jobId : String) : Except ContractError String :=
  let value := PyText.strip jobId
  if value = "" ∨ 128 < value.length ∨ value.toList.any (fun c => decide (c.toNat < 33) || decide (c.toNat = 127)) = true then
    .error (.contract "Strix execution contract job id is invalid")
  else .ok value

/-- `sorted(set(values))` -/
def sortedSet (values : List String) : List String := values.dedup.insertionSort (· ≤ ·)

/-- `sorted(values)` -/
def sorted (values : List String) : List String := values.insertionSort (· ≤ ·)

/-- `policy_snapshot_fingerprint` -/
def policySnapshotFingerprint (py : Python) (c : Campaign) : Except ContractError String :=
  match urlHost py.unicode c.primaryUrl with
  | none => .error .valueError
  | some host =>
    let r := c.rules
    .ok (py.sha.hex (utf8 (Json.obj [("campaign_id", .str c.id), ("target", .str c.primaryUrl), ("host", .str host),
      ("authorization_reference", .str r.authorizationReference), ("allowed_targets", texts (sorted r.allowedTargets)),
      ("denied_targets", texts (sorted r.deniedTargets)),
      ("max_requests_per_second", rateJson py.floats r.maxRequestsPerSecond), ("automated_scanning", .bool r.automatedScanning),
      ("destructive_testing", .bool r.destructiveTesting), ("denial_of_service", .bool r.denialOfService),
      ("social_engineering", .bool r.socialEngineering), ("credential_attacks", .bool r.credentialAttacks)]).dumpsSorted))

/-- `sorted({normalize_pattern(item) for item in targets})` -/
def normalizedTargets (u : Unicode) (targets : List String) : Except ContractError (List String) :=
  match targets.mapM (ScopePolicy.normalizePattern u) with
  | none => .error .valueError
  | some patterns => .ok (sortedSet patterns)

def hmacOf (py : Python) (secret : String) (canonical : List UInt8) : String :=
  py.hmac.hex (utf8 secret) (signatureDomain ++ canonical)

/-- The contract with its hash and, when there is a key, its signature. -/
def sign (py : Python) (secret : Option String) (unsigned : Contract) : Contract :=
  let canonical := canonicalPayload py.floats unsigned
  let signature := (secret.filter (· ≠ "")).map fun key => hmacOf py key canonical
  { unsigned with
    contractHash := py.sha.hex canonical
    signatureAlg := signature.map fun _ => "hmac-sha256"
    signature := signature }

/-- The contract before it is signed. -/
def unsignedContract (py : Python) (c : Campaign) (jobId : String) : Except ContractError Contract :=
  match normalizedTargets py.unicode c.rules.allowedTargets with
  | .error e => .error e
  | .ok allowedTargets =>
    match normalizedTargets py.unicode c.rules.deniedTargets with
    | .error e => .error e
    | .ok deniedTargets =>
      match policySnapshotFingerprint py c with
      | .error e => .error e
      | .ok policyFingerprint => .ok {
          schema := contractSchema, engine := "strix", campaignId := c.id, jobId := jobId, primaryTarget := c.primaryUrl
          policyFingerprint := policyFingerprint, allowedTargets := allowedTargets, deniedTargets := deniedTargets
          maxRequestsPerSecond := c.rules.maxRequestsPerSecond, directEgressAllowed := false
          hostContainerSocketAllowed := false, independentValidationRequired := true
          contractHash := "", signatureAlg := none, signature := none }

/-- `build_strix_execution_contract`; the secret is what `_contract_secret` gives, none when it raises. -/
def buildStrixExecutionContract (py : Python) (secret : Option (Option String)) (c : Campaign) (jobId : String) :
    Except ContractError Contract :=
  match unsafeCampaignReasons py.unicode c with
  | .error e => .error e
  | .ok reasons =>
    if reasons ≠ [] then .error (.contract ("Strix execution contract denied: " ++ ",".intercalate reasons))
    else
      match validateJobId jobId with
      | .error e => .error e
      | .ok jobId =>
        match unsignedContract py c jobId with
        | .error e => .error e
        | .ok unsigned =>
          match secret with
          | none => .error (.contract "Strix execution contract signing key is unavailable")
          | some secret => .ok (sign py secret unsigned)

/-! ## The document of the broker -/

def optional : Option String → Json
  | none => .null
  | some s => .str s

/-- `to_dict` -/
def Contract.toDict (floats : FloatText) (c : Contract) : List (String × Json) :=
  [("schema", .str c.schema), ("engine", .str c.engine), ("campaign_id", .str c.campaignId), ("job_id", .str c.jobId),
    ("primary_target", .str c.primaryTarget), ("policy_fingerprint", .str c.policyFingerprint),
    ("allowed_targets", texts c.allowedTargets), ("denied_targets", texts c.deniedTargets),
    ("max_requests_per_second", rateJson floats c.maxRequestsPerSecond),
    ("direct_egress_allowed", .bool c.directEgressAllowed),
    ("host_container_socket_allowed", .bool c.hostContainerSocketAllowed),
    ("independent_validation_required", .bool c.independentValidationRequired), ("contract_hash", .str c.contractHash),
    ("signature_alg", optional c.signatureAlg), ("signature", optional c.signature)]

/-- `BrokerContractDocument`; the fields with one possible value are left out. -/
structure BrokerContractDocument where
  campaignId : String
  jobId : String
  primaryTarget : String
  policyFingerprint : String
  allowedTargets : List String
  deniedTargets : List String
  maxRequestsPerSecond : Binary64
  contractHash : String
  signature : String

def text? (least most : Nat) : Json → Option String
  | .str s => if least ≤ s.length ∧ s.length ≤ most then some s else none
  | _ => none

def hex? : Json → Option String
  | .str s => if isHexOfLength 64 s = true then some s else none
  | _ => none

def string? : Json → Option String
  | .str s => some s
  | _ => none

def texts? (least most : Nat) : Json → Option (List String)
  | .arr vs => if least ≤ vs.length ∧ vs.length ≤ most then vs.mapM string? else none
  | _ => none

/-- `20.0` -/
def twenty : Binary64 := Binary64.ofRatio false (20 * 2 ^ 1074) Nat.one_pos

/-- `Field(gt=0, le=20)`: a value is refused when it is at or below zero or above twenty. -/
def boundedRate? (x : Binary64) : Option Binary64 :=
  if x.le .zero = true ∨ twenty.lt x = true then none else some x

def rate? (floats : FloatText) : Json → Option Binary64
  | .float literal => boundedRate? (floats.read literal)
  | .nan => boundedRate? .nan
  | .infinity negative => boundedRate? (.infinity negative)
  | _ => none

def documentFields : List String :=
  ["schema", "engine", "campaign_id", "job_id", "primary_target", "policy_fingerprint", "allowed_targets", "denied_targets",
    "max_requests_per_second", "direct_egress_allowed", "host_container_socket_allowed", "independent_validation_required",
    "contract_hash", "signature_alg", "signature"]

/-- The validation of the document, for values of the types that `to_dict` writes. -/
def BrokerContractDocument.validate (floats : FloatText) (d : JsonDict) : Option BrokerContractDocument :=
  if d.all (fun field => decide (field.1 ∈ documentFields)) = false then none
  else if isStr (item d "schema") contractSchema = false ∨ isStr (item d "engine") "strix" = false ∨
      isBool (item d "direct_egress_allowed") false = false ∨ isBool (item d "host_container_socket_allowed") false = false ∨
      isBool (item d "independent_validation_required") true = false ∨ isStr (item d "signature_alg") "hmac-sha256" = false then none
  else do
    let campaignId ← text? 1 128 (item d "campaign_id")
    let jobId ← text? 1 128 (item d "job_id")
    let primaryTarget ← text? 1 2048 (item d "primary_target")
    let policyFingerprint ← hex? (item d "policy_fingerprint")
    let allowedTargets ← texts? 1 256 (item d "allowed_targets")
    let deniedTargets ← texts? 0 256 (item d "denied_targets")
    let maxRequestsPerSecond ← rate? floats (item d "max_requests_per_second")
    let contractHash ← hex? (item d "contract_hash")
    let signature ← hex? (item d "signature")
    -- `normalize_scope`
    some { campaignId := campaignId, jobId := jobId, primaryTarget := primaryTarget, policyFingerprint := policyFingerprint
           allowedTargets := sortedSet allowedTargets, deniedTargets := sortedSet deniedTargets
           maxRequestsPerSecond := maxRequestsPerSecond, contractHash := contractHash, signature := signature }

/-- `to_contract` -/
def BrokerContractDocument.toContract (d : BrokerContractDocument) : Contract where
  schema := contractSchema
  engine := "strix"
  campaignId := d.campaignId
  jobId := d.jobId
  primaryTarget := d.primaryTarget
  policyFingerprint := d.policyFingerprint
  allowedTargets := d.allowedTargets
  deniedTargets := d.deniedTargets
  maxRequestsPerSecond := d.maxRequestsPerSecond
  directEgressAllowed := false
  hostContainerSocketAllowed := false
  independentValidationRequired := true
  contractHash := d.contractHash
  signatureAlg := some "hmac-sha256"
  signature := some d.signature

/-- A contract that is sent to the broker as JSON, and what the broker has then. -/
def receive (floats : FloatText) (c : Contract) : Option Contract :=
  match Json.loads (Json.obj (c.toDict floats)).dumps with
  | some (.obj d) => (BrokerContractDocument.validate floats d).map BrokerContractDocument.toContract
  | _ => none

/-! ## Authorising -/

/-- `verify_strix_contract_integrity` with `require_signature=True`; the secret is the one that is passed. -/
def verifyStrixContractIntegrity (py : Python) (secret : String) (c : Contract) : Except ContractError Unit :=
  let canonical := canonicalPayload py.floats c
  if PyUrl.isAscii c.contractHash.toList = false then .error .typeError
  else if c.contractHash ≠ py.sha.hex canonical then .error (.contract "Strix execution contract hash mismatch")
  else
    match c.signature with
    | none => .error (.contract "Strix execution contract signature is required")
    | some signature =>
      if c.signatureAlg ≠ some "hmac-sha256" then
        .error (.contract "Strix execution contract signature algorithm is unsupported")
      else if secret = "" then .error (.contract "Strix execution contract verification key is unavailable")
      else if PyUrl.isAscii signature.toList = false then .error .typeError
      else if signature ≠ hmacOf py secret canonical then .error (.contract "Strix execution contract signature mismatch")
      else .ok ()

def outsideScope : ContractError := .contract "Strix request target is outside scope"

/-- The parsed target, its host and its port. -/
structure ParsedTarget where
  parsed : PyUrl.SplitResult
  host : String
  port : Option Nat

/-- The `try` around the parsing of the target. -/
def parseTarget (u : Unicode) (target : String) : Option ParsedTarget :=
  (PyUrl.urlsplit u target.toList).bind fun parsed =>
    parsed.port.map fun port => ⟨parsed, withoutDots (String.ofList (u.lower ((parsed.hostname u).getD []))), port⟩

/-- The conditions on a target before its host is looked up in the scope. -/
def ParsedTarget.isWellFormed (t : ParsedTarget) : Bool :=
  decide (t.parsed.scheme = "http".toList ∨ t.parsed.scheme = "https".toList) && decide (t.host ≠ "") &&
    decide (t.parsed.username = []) && decide (t.parsed.password = []) && decide (t.parsed.fragment = []) &&
    t.port.all (fun port => decide (1 ≤ port) && decide (port ≤ 65535))

/-- The host of a target that is in the scope of the contract. -/
def authorizeTarget (u : Unicode) (c : Contract) (target : String) : Except ContractError String :=
  match parseTarget u target with
  | none => .error outsideScope
  | some t =>
    if t.isWellFormed = false then .error outsideScope
    else
      match ScopePolicy.isHostAllowed u t.host c.allowedTargets c.deniedTargets with
      | none => .error .valueError
      | some true => .ok t.host
      | some false => .error outsideScope

/-- `authorize_strix_contract_request` -/
def authorizeStrixContractRequest (py : Python) (secret : String) (c : Contract) (target : String) (requestedRps : Binary64) :
    Except ContractError AuthorizedRequest :=
  match verifyStrixContractIntegrity py secret c with
  | .error e => .error e
  | .ok () =>
    if c.schema ≠ contractSchema ∨ c.engine ≠ "strix" then
      .error (.contract "Strix execution contract schema is unsupported")
    else if c.directEgressAllowed = true ∨ c.hostContainerSocketAllowed = true ∨ c.independentValidationRequired = false then
      .error (.contract "Strix execution contract safety invariants changed")
    else
      match authorizeTarget py.unicode c target with
      | .error e => .error e
      | .ok host =>
        if requestedRps.le .zero = true ∨ c.maxRequestsPerSecond.lt requestedRps = true then
          .error (.contract "Strix request rate exceeds contract cap")
        else .ok ⟨c.contractHash, target, host, requestedRps⟩

end ExecutionContract

end XbowPerso

/-!
## The host that the egress transport contacts

After the authorisation, `perform_bounded_http_request` looks at the text of the target once more and `resolve_public_endpoint`
takes the host: an IP address is contacted in the text that `ipaddress` writes for it, and another name is resolved in its ASCII
form. The mapping of a label outside ASCII, by nameprep and Punycode, is a parameter.
-/

namespace XbowPerso

namespace Egress

open ExecutionContract (Contract authorizeTarget)
open PyUrl (isAscii)

/-- What the network module relies on: which addresses are public, and the ASCII form of a label. -/
structure Network where
  isGlobal : IpAddress.Address → Bool
  toAscii : List Char → Option (List Char)
  isAscii_toAscii : ∀ {label ascii : List Char}, toAscii label = some ascii → isAscii ascii = true

variable (net : Network)

/-! ## The ASCII form of a name -/

/-- The full stops at which the codec separates labels. -/
def isDot (c : Char) : Bool := c = '.' || c.toNat = 0x3002 || c.toNat = 0xFF0E || c.toNat = 0xFF61

/-- `0 < len(label) < 64` -/
def isLabel (label : List Char) : Bool := decide (0 < label.length) && decide (label.length < 64)

/-- `ToASCII` -/
def toASCII (label : List Char) : Option (List Char) :=
  if isAscii label = true then if isLabel label = true then some label else none
  else net.toAscii label

/-- The ASCII labels, with an empty label at the end as it is. -/
def asciiLabels : List (List Char) → Option (List (List Char))
  | [] => some []
  | [[]] => some [[]]
  | label :: labels =>
    match toASCII net label with
    | none => none
    | some ascii => (asciiLabels labels).map (ascii :: ·)

/-- `name.encode("idna")` -/
def idnaEncode (name : List Char) : Option (List Char) :=
  if name = [] then some []
  else if isAscii name = true then
    let labels := name.splitOn '.'
    if labels.dropLast.all isLabel = true ∧ (labels.getLast?.all fun label => decide (label.length < 64)) = true then some name
    else none
  else (asciiLabels net (name.splitOnP isDot)).map fun labels => ['.'].intercalate labels

/-- A host as `connect` takes it: a text outside ASCII is encoded. -/
def connectName (host : List Char) : Option (List Char) := if isAscii host = true then some host else idnaEncode net host

/-! ## The request -/

/-- The name that `resolve_public_endpoint` connects to, or that it resolves. -/
def resolvedName (host : String) : Option (List Char) :=
  match IpAddress.address? host.toList with
  | some literal => if net.isGlobal literal = true then connectName net literal.text else none
  | none => idnaEncode net host.toList

/-- The target has no control character and no backslash. -/
def isPlainTarget (target : String) : Bool :=
  target.toList.all fun c => decide (32 ≤ c.toNat) && decide (c.toNat ≠ 127) && decide (c ≠ '\\')

/-- The host of the target as it is authorised, and the ASCII name that is contacted. -/
def contacted (u : Unicode) (c : Contract) (target : String) : Option (String × String) :=
  match authorizeTarget u c target with
  | .error _ => none
  | .ok host => if isPlainTarget target = false then none else (resolvedName net host).map fun name => (host, String.ofList name)

end Egress

end XbowPerso
