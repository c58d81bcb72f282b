import Mathlib.Data.Prod.Lex
import Mathlib.Data.List.Lex
import XbowPerso.AffectedVersionRange
import XbowPerso.Lib.PyUrl
import XbowPerso.Lib.ByKey
import XbowPerso.ManifestAdmission

/-!
# The consensus of advisories

`build_cve_advisory_consensus` looks the one CVE of a finding up in catalogs, compares the versions that were observed with the ranges of
each entry it finds, and says what the sources have in common.
-/

namespace XbowPerso

/-- The cases of letters, as the interpreter has them. -/
structure LetterCases where
  unicode : Unicode
  upper : List Char → List Char

namespace CveAdvisoryConsensus

open PyText (strip)
open AffectedVersionRange (RawRanges Input buildAffectedVersionRangeEvidence)
open SortByKey (sortByKey)

/-! ## Catalogs -/

inductive IdentityKind where
  | cpe | package
  deriving DecidableEq

def IdentityKind.text : IdentityKind → String
  | cpe => "cpe"
  | package => "package"

/-- `CveAdvisoryEntry` -/
structure Entry where
  cveId : String
  identityKind : IdentityKind
  vendor : Option String
  product : Option String
  packageEcosystem : Option String
  packageName : Option String
  affectedVersionRanges : List String
  authoritative : Bool

/-- `CveAdvisoryCatalog` -/
structure Catalog where
  schema : String
  sourceName : String
  sourceAuthority : String
  sourceVerified : Bool
  sourceDigest : String
  entries : List Entry

/-- `CVE_ADVISORY_CATALOG_SCHEMA` -/
def catalogSchema : String := "cve-advisory-catalog-v1"

/-- What is read of a finding, with the CVE identifiers that `finding_cve_ids` finds in it. -/
structure Finding where
  id : String
  cveIds : List String
  vendor : Option String
  product : Option String
  packageEcosystem : Option String
  packageName : Option String
  affectedVersionRanges : RawRanges
  affectedVersionRangeSource : String
  affectedVersionRangeVerified : Option Bool

/-- `_text`; none where it raises. -/
def text? (maxLen : Nat) (value : String) : Option String :=
  let result := strip value
  if result = "" ∨ maxLen < result.length ∨ result.toList.any ManifestAdmission.isControl = true then none else some result

variable (cases : LetterCases)

/-- `text.lower()` -/
def lower (value : String) : String := String.ofList (cases.unicode.lower value.toList)

def isDecimal (c : Char) : Bool := (PyText.decimalValue? c).isSome

/-- What `_CVE_RE` reads, from the first hyphen on. -/
def cveGroups? (rest : List Char) : Option String :=
  let year := rest.take 4
  match rest.drop 4 with
  | '-' :: number =>
    if year.length = 4 ∧ year.all isDecimal = true ∧ 4 ≤ number.length ∧ number.length ≤ 10 ∧ number.all isDecimal = true then
      some (String.ofList (['C', 'V', 'E', '-'] ++ year ++ ['-'] ++ number))
    else none
  | _ => none

/-- `_normalize_cve`; none where it raises. -/
def normalizeCve? (value : String) : Option String :=
  match text? 32 value with
  | none => none
  | some text =>
    match cases.upper text.toList with
    | c :: v :: e :: '-' :: rest => if [c, v, e].map Char.toUpper = ['C', 'V', 'E'] then cveGroups? rest else none
    | _ => none

/-- `_normalize_identity`; none where it raises. -/
def normalizeIdentity? (value : String) : Option String := (text? 200 value).map (lower cases)

/-- `_optional_package_ecosystem` of a text that is not empty. -/
def packageEcosystem? (value : String) : Option String := (text? 120 value).map (lower cases)

/-- `_optional_package_name` of a text that is not empty. -/
def packageName? (value : String) : Option String := text? 240 value

/-- `normalize(value) if value else None`; none where it raises. -/
def given? (normalize : String → Option String) (value : Option String) : Option (Option String) :=
  match value with
  | none => some none
  | some text => if text = "" then some none else (normalize text).map some

/-- Both of a pair, or none; it is not there where only one is. -/
def both? : Option String → Option String → Option (Option (String × String))
  | some a, some b => some (some (a, b))
  | none, none => some none
  | _, _ => none

/-- What is looked for in the catalogs. -/
structure Wanted where
  cveId : String
  cpe : Option (String × String)
  package : Option (String × String)

/-- The first part of `find_verified_cve_advisories`: what is wanted, or none where nothing is found. -/
def wanted? (cveId : String) (finding : Finding) : Option Wanted :=
  match normalizeCve? cases cveId, given? (normalizeIdentity? cases) finding.vendor, given? (normalizeIdentity? cases) finding.product,
      given? (packageEcosystem? cases) finding.packageEcosystem, given? packageName? finding.packageName with
  | some cveId, some vendor, some product, some ecosystem, some name =>
    match both? vendor product, both? ecosystem name with
    | some cpe, some package => some ⟨cveId, cpe, package⟩
    | _, _ => none
  | _, _, _, _, _ => none

/-- The condition of the loop over the entries. -/
def Entry.isWanted (entry : Entry) (wanted : Wanted) : Bool :=
  entry.authoritative && decide (entry.cveId = wanted.cveId) &&
    match entry.identityKind with
    | .cpe => wanted.cpe.any fun pair => decide (entry.vendor = some pair.1) && decide (entry.product = some pair.2)
    | .package => wanted.package.any fun pair => decide (entry.packageEcosystem = some pair.1) && decide (entry.packageName = some pair.2)

/-- The key that the entries which are found are sorted by. -/
def Entry.order (entry : Entry) : String ×ₗ String ×ₗ String :=
  let orElse (first second : Option String) : String := if first.getD "" = "" then second.getD "" else first.getD ""
  toLex (entry.identityKind.text, toLex (orElse entry.vendor entry.packageEcosystem, orElse entry.product entry.packageName))

/-- `find_verified_cve_advisories` -/
def findVerified (cveId : String) (finding : Finding) (catalog : Catalog) : List Entry :=
  if catalog.schema ≠ catalogSchema ∨ catalog.sourceVerified = false then []
  else
    match wanted? cases cveId finding with
    | none => []
    | some wanted => sortByKey Entry.order (catalog.entries.filter fun entry => entry.isWanted wanted)

/-! ## Evidence -/

/-- `_identity_key` -/
def identityKey (entry : Entry) : String :=
  match entry.identityKind with
  | .cpe => "cpe:" ++ entry.vendor.getD "None" ++ ":" ++ entry.product.getD "None"
  | .package => "package:" ++ entry.packageEcosystem.getD "None" ++ ":" ++ entry.packageName.getD "None"

/-- `AdvisorySourceEvidence` -/
structure SourceEvidence where
  sourceName : String
  sourceAuthority : String
  identityKind : IdentityKind
  identityKey : String
  affectedVersionRanges : List String
  observedVersions : List String
  applicabilityState : AffectedVersionRange.State
  trustedAffectedVersionSupported : Bool
  deriving DecidableEq

/-- The key that the evidence is sorted by. -/
def SourceEvidence.order (e : SourceEvidence) : String ×ₗ String ×ₗ String ×ₗ List String :=
  toLex (e.identityKey, toLex (e.sourceAuthority, toLex (e.sourceName, e.affectedVersionRanges)))

/-- A set of texts, sorted. -/
def textSet (texts : List String) : List String := texts.dedup.insertionSort fun a b => a ≤ b

/-- What was observed, normalized. -/
structure Observed where
  fingerprintVersions : List String
  packageVersion : Option String

/-- `normalized_fingerprint_versions` and `normalized_package_version` -/
def observedOf (fingerprintVersions : List String) (packageVersion : Option String) : Observed where
  fingerprintVersions := textSet (Input.stripped fingerprintVersions)
  packageVersion := packageVersion.bind fun version => if strip version = "" then none else some (strip version)

/-- `observed_versions` -/
def Observed.versions (observed : Observed) : IdentityKind → List String
  | .cpe => observed.fingerprintVersions
  | .package => observed.packageVersion.toList

/-- The arguments of `build_affected_version_range_evidence` for an entry. -/
def rangeInput (finding : Finding) (observed : Observed) (sourceName : String) (entry : Entry) : Input where
  findingId := finding.id
  affectedVersionRanges := finding.affectedVersionRanges
  affectedVersionRangeSource := finding.affectedVersionRangeSource
  affectedVersionRangeVerified := finding.affectedVersionRangeVerified
  cveIds := finding.cveIds
  observedVersions := observed.versions entry.identityKind
  rangesOverride := some entry.affectedVersionRanges
  rangeSourceOverride := some (sourceName ++ ":" ++ entry.cveId)
  rangeSourceVerifiedOverride := some true

/-- The evidence that an entry of a catalog gives. -/
def evidenceOf (finding : Finding) (observed : Observed) (catalog : Catalog) (entry : Entry) : Except PyError SourceEvidence :=
  match buildAffectedVersionRangeEvidence (rangeInput finding observed catalog.sourceName entry) with
  | .error e => .error e
  | .ok applicability =>
    .ok
      { sourceName := catalog.sourceName
        sourceAuthority := catalog.sourceAuthority
        identityKind := entry.identityKind
        identityKey := identityKey entry
        affectedVersionRanges := entry.affectedVersionRanges
        observedVersions := observed.versions entry.identityKind
        applicabilityState := applicability.state
        trustedAffectedVersionSupported := applicability.trustedAffectedVersionSupported }

/-- The loop over the entries that were found. -/
def entriesEvidence (finding : Finding) (observed : Observed) (catalog : Catalog) : List Entry → Except PyError (List SourceEvidence)
  | [] => .ok []
  | entry :: rest =>
    match evidenceOf finding observed catalog entry with
    | .error e => .error e
    | .ok mine =>
      match entriesEvidence finding observed catalog rest with
      | .error e => .error e
      | .ok others => .ok (mine :: others)

/-- The loop over the catalogs. -/
def catalogsEvidence (cveId : String) (finding : Finding) (observed : Observed) : List Catalog → Except PyError (List SourceEvidence)
  | [] => .ok []
  | catalog :: rest =>
    match entriesEvidence finding observed catalog (findVerified cases cveId finding catalog) with
    | .error e => .error e
    | .ok mine =>
      match catalogsEvidence cveId finding observed rest with
      | .error e => .error e
      | .ok others => .ok (mine ++ others)

/-- The catalogs in which something is found. -/
def found (cveId : String) (finding : Finding) (catalogs : List Catalog) : List Catalog :=
  catalogs.filter fun catalog => decide (findVerified cases cveId finding catalog ≠ [])

/-! ## The consensus -/

inductive ConsensusState where
  | notApplicable | notAvailable | parallelUnboundIdentities | sameAuthoritySnapshotConflict | singleSource
  | exactIdentityApplicabilityAgreement | exactIdentityApplicabilityConflict | inconclusiveCrossSource
  deriving DecidableEq

/-- `CveAdvisoryConsensus` -/
structure Consensus where
  cveId : Option String
  state : ConsensusState
  sourceCount : Nat
  sourceInstanceCount : Nat
  matchedAdvisoryCount : Nat
  identityCount : Nat
  identityKinds : List String
  sources : List String
  authorities : List String
  evidence : List SourceEvidence
  ambiguityReasons : List String
  rangeSetsEqual : Bool
  crossSourceAgreement : Bool
  agreedApplicabilityState : Option AffectedVersionRange.State
  exploitabilityConfirmed : Bool
  deriving DecidableEq

/-- A consensus of no source. -/
def Consensus.ofNone (cveId : Option String) (state : ConsensusState) : Consensus where
  cveId := cveId
  state := state
  sourceCount := 0
  sourceInstanceCount := 0
  matchedAdvisoryCount := 0
  identityCount := 0
  identityKinds := []
  sources := []
  authorities := []
  evidence := []
  ambiguityReasons := []
  rangeSetsEqual := false
  crossSourceAgreement := false
  agreedApplicabilityState := none
  exploitabilityConfirmed := false

/-- What the sources have in common: the state, the reason why it is ambiguous, and the state that they agree on. -/
structure Verdict where
  state : ConsensusState
  reasons : List String
  agreement : Bool
  agreed : Option AffectedVersionRange.State

/-- The branches over the identities, the sources and the states. -/
def verdict (identityCount sourceCount sourceInstanceCount : Nat) (states : List AffectedVersionRange.State) : Verdict :=
  if 1 < identityCount then ⟨.parallelUnboundIdentities, ["parallel_unbound_advisory_identities"], false, none⟩
  else if sourceCount < 2 then
    if 1 < sourceInstanceCount ∧ .affected ∈ states ∧ .notAffected ∈ states then
      ⟨.sameAuthoritySnapshotConflict, ["same_authority_advisory_snapshot_conflict"], false, none⟩
    else ⟨.singleSource, [], false, none⟩
  else if states = [.affected] then ⟨.exactIdentityApplicabilityAgreement, [], true, some .affected⟩
  else if states = [.notAffected] then
    ⟨.exactIdentityApplicabilityAgreement, ["cross_source_advisory_not_affected"], true, some .notAffected⟩
  else if .affected ∈ states ∧ .notAffected ∈ states then
    ⟨.exactIdentityApplicabilityConflict, ["cross_source_advisory_applicability_conflict"], false, none⟩
  else ⟨.inconclusiveCrossSource, ["inconclusive_cross_source_advisory"], false, none⟩

/-- The consensus of some evidence, of these authorities and instances. -/
def conclude (cveId : String) (evidence : List SourceEvidence) (authorities : List String) (instances : List (String × String × String)) :
    Consensus :=
  if evidence = [] then .ofNone (some cveId) .notAvailable
  else
    let v := verdict (evidence.map (·.identityKey)).dedup.length authorities.dedup.length instances.dedup.length
      (evidence.map (·.applicabilityState)).dedup
    { cveId := some cveId
      state := v.state
      sourceCount := authorities.dedup.length
      sourceInstanceCount := instances.dedup.length
      matchedAdvisoryCount := evidence.length
      identityCount := (evidence.map (·.identityKey)).dedup.length
      identityKinds := textSet (evidence.map (·.identityKind.text))
      sources := textSet (evidence.map (·.sourceName))
      authorities := textSet authorities
      evidence := evidence
      ambiguityReasons := v.reasons
      rangeSetsEqual := decide ((evidence.map fun e => e.affectedVersionRanges.insertionSort fun a b => a ≤ b).dedup.length = 1)
      crossSourceAgreement := v.agreement
      agreedApplicabilityState := v.agreed
      exploitabilityConfirmed := false }

/-- `build_cve_advisory_consensus` -/
def buildCveAdvisoryConsensus (finding : Finding) (fingerprintVersions : List String) (packageVersion : Option String)
    (catalogs : List Catalog) : Except PyError Consensus :=
  match finding.cveIds with
  | [cveId] =>
    match catalogsEvidence cases cveId finding (observedOf fingerprintVersions packageVersion) catalogs with
    | .error e => .error e
    | .ok evidence =>
      let sources := found cases cveId finding catalogs
      .ok (conclude cveId (sortByKey SourceEvidence.order evidence) (sources.map (·.sourceAuthority))
        (sources.map fun catalog => (catalog.sourceAuthority, catalog.sourceName, catalog.sourceDigest)))
  | _ => .ok (.ofNone none .notApplicable)

end CveAdvisoryConsensus

end XbowPerso
