import XbowPerso.AuditSeal
import XbowPerso.ExecutionContract

/-!
# The import of a HackerOne scope

`import_hackerone_structured_scope` reads the assets of a document into host patterns, and `project_hackerone_exact_domain_scope`
keeps the eligible assets of one host, unless an asset that is not eligible covers it. An error is the text of a
`HackerOneScopeImportError`.
-/

namespace XbowPerso

namespace HackerOneScope

open Egress (Network idnaEncode)
open PyText (stripChars isPySpace)
open ScopePolicy (rstripDots HasScheme)

/-- What the import takes from the interpreter. -/
structure ScopeEnv where
  unicode : Unicode
  net : Network
  /-- `ch.isalnum()` -/
  isAlnum : Char → Bool

variable (env : ScopeEnv)

/-! ## The fields of an asset -/

/-- `fields.get(key)`. -/
def get (fields : List (String × Json)) (key : String) : Json :=
  match fields.find? fun field => decide (field.1 = key) with
  | some (_, value) => value
  | none => .null

def isControl (c : Char) : Bool := decide (c.toNat < 32) || decide (c.toNat = 127)

/-- `_clean_identifier` -/
def cleanIdentifier : Json → Except String (List Char)
  | .str value =>
    let identifier := stripChars value.toList
    if identifier = [] ∨ 2048 < identifier.length then .error "HackerOne asset identifier is invalid"
    else if identifier ≠ value.toList ∨ identifier.any isControl = true then
      .error "HackerOne asset identifier contains unsafe whitespace"
    else .ok identifier
  | _ => .error "HackerOne asset identifier must be a string"

def assetTypes : List (String × String) :=
  [("domain", "Domain"), ("wildcard", "Wildcard"), ("ipaddress", "IpAddress"), ("url", "Url"), ("cidr", "Cidr"),
    ("aimodel", "AiModel"), ("androidapk", "AndroidApk"), ("androidplaystore", "AndroidPlayStore"), ("api", "Api"),
    ("awscloudconfig", "AwsCloudConfig"), ("azurecloudconfig", "AzureCloudConfig"), ("executable", "Executable"),
    ("hardware", "Hardware"), ("iosappstore", "IosAppStore"), ("iosipa", "IosIpa"), ("iostestflight", "IosTestflight"),
    ("otherasset", "OtherAsset"), ("smartcontract", "SmartContract"), ("sourcecode", "SourceCode"),
    ("windowsmicrosoftstore", "WindowsMicrosoftStore")]

/-- `_canonical_asset_type` -/
def canonicalAssetType : Json → Except String String
  | .str value =>
    let stripped := stripChars value.toList
    let key := String.ofList ((env.unicode.lower stripped).filter env.isAlnum)
    match assetTypes.find? fun entry => decide (entry.1 = key) with
    | some (_, name) => .ok name
    | none => .ok (String.ofList stripped)
  | _ => .error "HackerOne asset type must be a string"

/-- What a plain domain does not have. -/
def isForbidden (c : Char) : Bool := c = '/' || c = '?' || c = '#' || c = '@' || c = ':' || isPySpace c

def badLabel (label : List Char) : Bool :=
  label.isEmpty || decide (63 < label.length) || label.head? = some '-' || label.getLast? = some '-'

/-- `_ascii_domain`; none for a `ValueError`. -/
def asciiDomain (value : List Char) : Option (List Char) :=
  let candidate := env.unicode.lower (rstripDots value)
  if candidate = [] ∨ HasScheme candidate ∨ candidate.any isForbidden = true then none
  else
    match idnaEncode env.net candidate with
    | none => none
    | some ascii =>
      if (ascii.splitOn '.').any badLabel = true ∨ 253 < ascii.length then none else some ascii

/-- `_compatible_host_pattern`: a pattern, or the reason why there is none. -/
def compatibleHostPattern (assetType : String) (identifier : List Char) : Except String (List Char) :=
  if assetType = "Domain" then
    match asciiDomain env identifier with
    | some domain => .ok domain
    | none => .error "invalid_domain"
  else if assetType = "Wildcard" then
    if ['*', '.'].isPrefixOf identifier = false ∨ identifier.count '*' ≠ 1 then .error "unsupported_wildcard_shape"
    else
      match asciiDomain env (identifier.drop 2) with
      | some suffix => .ok ('*' :: '.' :: suffix)
      | none => .error "invalid_wildcard_domain"
  else if assetType = "IpAddress" then
    match IpAddress.address? identifier with
    | some address => .ok (env.unicode.lower address.text)
    | none => .error "invalid_ip_address"
  else if assetType = "Url" then
    match PyUrl.urlsplit env.unicode identifier with
    | none => .error "invalid_url"
    | some parsed =>
      if (parsed.scheme ≠ "http".toList ∧ parsed.scheme ≠ "https".toList) ∨ parsed.hostname env.unicode = none then
        .error "invalid_url"
      else if parsed.username ≠ [] ∨ parsed.password ≠ [] then .error "url_contains_userinfo"
      else .error "url_scope_requires_scheme_path_aware_policy"
  else if assetType = "Cidr" then .error "cidr_requires_network_aware_policy"
  else .error "asset_type_not_supported_by_web_scope_engine"

/-- `_resource_attributes` -/
def resourceAttributes : Json → Except String (List (String × Json))
  | .obj fields =>
    match get fields "type" with
    | .str kind =>
      if kind = "structured-scope" ∨ kind = "structured_scope" ∨ kind = "structured-scope-item" then
        match get fields "attributes" with
        | .obj attributes => .ok attributes
        | _ => .error "HackerOne StructuredScope attributes are invalid"
      else .error "HackerOne StructuredScope resource is invalid"
    | _ => .error "HackerOne StructuredScope resource is invalid"
  | _ => .error "HackerOne StructuredScope resource is invalid"

/-- What both functions read of a resource. -/
structure Asset where
  identifier : List Char
  assetType : String
  eligible : Bool

/-- The lines with which the loop over the resources begins in both functions. -/
def readAsset (resource : Json) : Except String Asset :=
  match resourceAttributes resource with
  | .error e => .error e
  | .ok attributes =>
    match cleanIdentifier (get attributes "asset_identifier") with
    | .error e => .error e
    | .ok identifier =>
      match canonicalAssetType env (get attributes "asset_type") with
      | .error e => .error e
      | .ok assetType =>
        match get attributes "eligible_for_submission" with
        | .bool eligible => .ok ⟨identifier, assetType, eligible⟩
        | _ => .error "HackerOne eligible_for_submission must be boolean"

/-- The resources of a document; `purpose` ends the text about a page that is not the last. -/
def documentResources (purpose : String) : Json → Except String (List Json)
  | .obj fields =>
    let resources : Except String (List Json) :=
      match get fields "data" with
      | .obj data => .ok [.obj data]
      | .arr data => .ok data
      | _ => .error "HackerOne scope document data must be a resource or list"
    match get fields "links" with
    | .null => resources
    | .obj links =>
      if AuditSeal.truthy (get links "next") = true then
        .error ("HackerOne scope document is paginated; collect all pages before " ++ purpose)
      else resources
    | _ => .error "HackerOne scope document links are invalid"
  | _ => .error "HackerOne scope document must be an object"

/-! ## The import -/

/-- `HackerOneScopePreview`, with the assets as they are read. -/
structure ScopePreview where
  assets : List Asset
  allowedTargets : List String
  deniedTargets : List String
  complete : Bool
  conflicts : List String
  unsupported : List String

/-- `statuses`: the patterns with the eligibility of their assets. -/
def statuses (assets : List Asset) : List (String × Bool) :=
  assets.filterMap fun asset =>
    match compatibleHostPattern env asset.assetType asset.identifier with
    | .ok pattern => some (String.ofList pattern, asset.eligible)
    | .error _ => none

/-- `unsupported_labels` -/
def unsupportedLabels (assets : List Asset) : List String :=
  assets.filterMap fun asset =>
    match compatibleHostPattern env asset.assetType asset.identifier with
    | .ok _ => none
    | .error _ => some (asset.assetType ++ ":" ++ String.ofList asset.identifier)

/-- The sorted patterns whose set of values passes a test: whether it has `True`, and whether it has `False`. -/
def patternsWith (statuses : List (String × Bool)) (test : Bool → Bool → Bool) : List String :=
  ExecutionContract.sortedSet ((statuses.map Prod.fst).filter fun pattern =>
    test (decide ((pattern, true) ∈ statuses)) (decide ((pattern, false) ∈ statuses)))

def preview (assets : List Asset) : ScopePreview :=
  let statuses := statuses env assets
  let conflicts := patternsWith statuses fun eligible denied => eligible && denied
  let unsupported := ExecutionContract.sortedSet (unsupportedLabels env assets)
  { assets := assets
    allowedTargets := patternsWith statuses fun eligible denied => eligible && !denied
    deniedTargets := patternsWith statuses fun _ denied => denied
    complete := conflicts.isEmpty && unsupported.isEmpty
    conflicts := conflicts
    unsupported := unsupported }

/-- `import_hackerone_structured_scope` -/
def importStructuredScope (document : Json) : Except String ScopePreview :=
  match documentResources "import" document with
  | .error e => .error e
  | .ok resources =>
    if 5000 < resources.length then .error "HackerOne scope exceeds 5000 asset safety limit"
    else
      match resources.mapM (readAsset env) with
      | .error e => .error e
      | .ok assets => .ok (preview env assets)

/-! ## The projection -/

/-- The host of the primary URL. -/
def primaryHost (primaryUrl : String) : Except String (List Char) :=
  match PyUrl.urlsplit env.unicode primaryUrl.toList with
  | none => .error "primary URL is invalid"
  | some parsed =>
    match parsed.hostname env.unicode with
    | none => .error "primary URL must be http(s) with a hostname"
    | some hostname =>
      if parsed.scheme ≠ "http".toList ∧ parsed.scheme ≠ "https".toList then
        .error "primary URL must be http(s) with a hostname"
      else if parsed.username ≠ [] ∨ parsed.password ≠ [] then .error "primary URL must not contain userinfo"
      else
        match asciiDomain env hostname with
        | none => .error "primary URL hostname is invalid"
        | some host => .ok host

/-- What an asset means for the host: it allows the host, it denies it, or it is passed over. -/
inductive Match where
  | allowed
  | denied
  | passed
  deriving DecidableEq

def matchAsset (host : List Char) (asset : Asset) : Match :=
  if asset.assetType = "Domain" then
    match asciiDomain env asset.identifier with
    | none => .passed
    | some domain => if domain ≠ host then .passed else if asset.eligible then .allowed else .denied
  else if asset.assetType = "Wildcard" ∧ asset.eligible = false then
    match compatibleHostPattern env asset.assetType asset.identifier with
    | .error _ => .passed
    | .ok pattern =>
      if ['*', '.'].isPrefixOf pattern = false then .passed
      else if ('.' :: pattern.drop 2).isSuffixOf host then .denied
      else .passed
  else .passed

/-- The loop over the resources: `matching_allowed`, and `denied_match`. -/
def matchResources (host : List Char) : List Json → Except String (List Json × Bool)
  | [] => .ok ([], false)
  | resource :: resources =>
    match readAsset env resource with
    | .error e => .error e
    | .ok asset =>
      match matchResources host resources with
      | .error e => .error e
      | .ok (allowed, denied) =>
        match matchAsset env host asset with
        | .allowed => .ok (resource :: allowed, denied)
        | .denied => .ok (allowed, true)
        | .passed => .ok (allowed, denied)

/-- `project_hackerone_exact_domain_scope` -/
def projectExactDomainScope (document : Json) (primaryUrl : String) : Except String Json :=
  match primaryHost env primaryUrl with
  | .error e => .error e
  | .ok host =>
    match documentResources "projection" document with
    | .error e => .error e
    | .ok resources =>
      match matchResources env host resources with
      | .error e => .error e
      | .ok (matchingAllowed, deniedMatch) =>
        if deniedMatch then .error "primary domain is covered by an explicit out-of-scope entry"
        else if matchingAllowed = [] then .error "primary domain is not an exact eligible HackerOne Domain asset"
        else
          let projection := Json.obj [("data", .arr matchingAllowed), ("links", .obj [])]
          match importStructuredScope env projection with
          | .error e => .error e
          | .ok preview =>
            if preview.complete = false ∨ String.ofList host ∉ preview.allowedTargets ∨ preview.deniedTargets ≠ [] then
              .error "exact domain scope projection is not safe"
            else .ok projection

end HackerOneScope

end XbowPerso
