import Mathlib.Data.List.Dedup
import Mathlib.Data.List.Sort
import Mathlib.Data.List.SplitOn
import XbowPerso.Identifier
import XbowPerso.Lib.IpAddress

/-!
# Affected version ranges

`build_affected_version_range_evidence` compares the observed versions of a product with the ranges that an advisory declares. A range is
at most four clauses, and a version at most six numbers.
-/

namespace XbowPerso

namespace AffectedVersionRange

open PyText (strip stripChars isPySpace)

/-! ## Versions -/

/-- Six numbers. -/
abbrev Version := List Nat

/-- `_VERSION_RE` -/
def isVersionText (parts : List (List Char)) : Bool := decide (parts.length ≤ 6) && parts.all fun p => decide (p ≠ []) && p.all Char.isDigit

/-- `_version_tuple`; none for a text that is not a version. `int` reads no more digits than its limit. -/
def versionTuple (value : List Char) : Except PyError (Option Version) :=
  let parts := (stripChars value).splitOn '.'
  if isVersionText parts = false then .ok none
  else if (parts.any fun p => decide (PyText.intDigitLimit < p.length)) = true then
    .error (.valueError "Exceeds the limit for integer string conversion")
  else .ok (some (parts.map (IpAddress.value 10) ++ List.replicate (6 - parts.length) 0))

/-! ## Clauses -/

inductive Operator where
  | lessEqual | greaterEqual | less | greater | equal
  deriving DecidableEq

/-- The comparison of a clause. -/
def Operator.compare : Operator → Version → Version → Bool
  | equal, version, target => decide (version = target)
  | less, version, target => decide (version < target)
  | lessEqual, version, target => decide (version < target ∨ version = target)
  | greater, version, target => decide (target < version)
  | greaterEqual, version, target => decide (target < version ∨ version = target)

/-- The operator in front of a clause, and what follows it. -/
def splitOperator : List Char → Operator × List Char
  | '<' :: '=' :: rest => (.lessEqual, rest)
  | '>' :: '=' :: rest => (.greaterEqual, rest)
  | '<' :: rest => (.less, rest)
  | '>' :: rest => (.greater, rest)
  | '=' :: '=' :: rest => (.equal, rest)
  | '=' :: rest => (.equal, rest)
  | rest => (.equal, rest)

/-- What `_CLAUSE_RE` reads, with the version of its second group. -/
def readClause (clause : List Char) : Except PyError (Option (Operator × Version)) :=
  let parsed := splitOperator (stripChars clause)
  let target := parsed.2.dropWhile isPySpace
  if isVersionText (target.splitOn '.') = false then .ok none
  else
    match versionTuple target with
    | .error e => .error e
    | .ok version => .ok (version.map fun v => (parsed.1, v))

/-- `_clause_matches` -/
def clauseMatches (version : Version) (clause : List Char) : Except PyError (Option Bool) :=
  match readClause clause with
  | .error e => .error e
  | .ok parsed => .ok (parsed.map fun p => p.1.compare version p.2)

/-- The outcomes of the clauses, one after the other. -/
def outcomes (version : Version) : List (List Char) → Except PyError (List (Option Bool))
  | [] => .ok []
  | clause :: rest =>
    match clauseMatches version clause with
    | .error e => .error e
    | .ok outcome =>
      match outcomes version rest with
      | .error e => .error e
      | .ok found => .ok (outcome :: found)

/-- `_range_matches` -/
def rangeMatches (version : Version) (expression : String) : Except PyError (Option Bool) :=
  let clauses := (expression.toList.splitOn ',').map stripChars
  if 4 < clauses.length ∨ clauses.any List.isEmpty = true then .ok none
  else
    match outcomes version clauses with
    | .error e => .error e
    | .ok found => if found.any Option.isNone = true then .ok none else .ok (some (found.all fun o => o.getD false))

/-! ## The evidence -/

/-- The ranges of a finding, or of an advisory. -/
inductive RawRanges where
  | missing
  | text (value : String)
  | items (values : List String)

def RawRanges.toList : RawRanges → List String
  | missing => []
  | text value => [value]
  | items values => values

/-- What is read of a finding, with the CVE identifiers that `finding_cve_ids` finds in it, and the arguments. -/
structure Input where
  findingId : String
  affectedVersionRanges : RawRanges
  affectedVersionRangeSource : String
  affectedVersionRangeVerified : Option Bool
  cveIds : List String
  observedVersions : List String
  rangesOverride : Option (List String)
  rangeSourceOverride : Option String
  rangeSourceVerifiedOverride : Option Bool

inductive State where
  | notAvailable | unknown | mixed | affected | notAffected
  deriving DecidableEq

inductive RangeBinding where
  | noRanges | ambiguousMultiCve | noCveBinding | singleCve
  deriving DecidableEq

inductive RangeProvenance where
  | verified | unverified | missing
  deriving DecidableEq

/-- `AffectedVersionRangeEvidence` -/
structure Evidence where
  findingId : String
  ranges : List String
  observedVersions : List String
  matchingVersions : List String
  outsideVersions : List String
  unparseableRanges : List String
  state : State
  rangeBinding : RangeBinding
  bindingAmbiguityReason : Option String
  rangeSource : Option String
  rangeSourceVerified : Bool
  rangeProvenanceState : RangeProvenance
  affectedVersionSupported : Bool
  trustedAffectedVersionSupported : Bool
  exploitabilityConfirmed : Bool
  deriving DecidableEq

namespace Input

variable (x : Input)

/-- The ranges that are declared. -/
def rawRanges : List String := x.rangesOverride.getD x.affectedVersionRanges.toList

/-- Texts without the blanks around them, and no blank ones. -/
def stripped (values : List String) : List String := (values.map strip).filter fun value => decide (value ≠ "")

/-- `ranges`: of the first sixteen. -/
def ranges : List String := stripped (x.rawRanges.take 16)

/-- `observed` -/
def observed : List String := (stripped x.observedVersions).dedup.insertionSort fun a b => a ≤ b

def rangeSource : Option String :=
  let source := String.ofList ((strip (x.rangeSourceOverride.getD x.affectedVersionRangeSource)).toList.take 120)
  if source = "" then none else some source

def rangeSourceVerified : Bool :=
  x.rangeSource.isSome && decide (x.rangeSourceVerifiedOverride.or x.affectedVersionRangeVerified = some true)

def rangeProvenanceState : RangeProvenance :=
  if x.rangeSourceVerified then .verified else if x.rangeSource.isSome then .unverified else .missing

/-- An answer without a comparison. -/
def plain (ranges : List String) (state : State) (binding : RangeBinding) (reason : Option String) : Evidence where
  findingId := x.findingId
  ranges := ranges
  observedVersions := x.observed
  matchingVersions := []
  outsideVersions := []
  unparseableRanges := []
  state := state
  rangeBinding := binding
  bindingAmbiguityReason := reason
  rangeSource := x.rangeSource
  rangeSourceVerified := x.rangeSourceVerified
  rangeProvenanceState := x.rangeProvenanceState
  affectedVersionSupported := false
  trustedAffectedVersionSupported := false
  exploitabilityConfirmed := false

end Input

/-- The ranges that can be parsed, and those that cannot. -/
def probe : List String → Except PyError (List String × List String)
  | [] => .ok ([], [])
  | expression :: rest =>
    match rangeMatches (List.replicate 6 0) expression with
    | .error e => .error e
    | .ok outcome =>
      match probe rest with
      | .error e => .error e
      | .ok (parseable, unparseable) =>
        if outcome.isSome then .ok (expression :: parseable, unparseable) else .ok (parseable, expression :: unparseable)

/-- Whether some range holds the version; the first that does ends the search. -/
def anyMatches (version : Version) : List String → Except PyError Bool
  | [] => .ok false
  | expression :: rest =>
    match rangeMatches version expression with
    | .error e => .error e
    | .ok outcome => if outcome = some true then .ok true else anyMatches version rest

/-- What the loop over the observed versions collects. -/
structure Compared where
  matching : List String
  outside : List String
  unparseableObserved : Bool

/-- The loop over the observed versions. -/
def compareVersions (parseable : List String) : List String → Except PyError Compared
  | [] => .ok ⟨[], [], false⟩
  | raw :: rest =>
    match versionTuple raw.toList with
    | .error e => .error e
    | .ok none => (compareVersions parseable rest).map fun c => { c with unparseableObserved := true }
    | .ok (some version) =>
      match anyMatches version parseable with
      | .error e => .error e
      | .ok true => (compareVersions parseable rest).map fun c => { c with matching := raw :: c.matching }
      | .ok false =>
        (compareVersions parseable rest).map fun c => if parseable = [] then c else { c with outside := raw :: c.outside }

/-- The state, from what the comparison gave. -/
def stateOf (observed parseable : List String) (c : Compared) : State :=
  if observed = [] ∨ c.unparseableObserved = true ∨ parseable = [] then .unknown
  else if c.matching ≠ [] ∧ c.outside ≠ [] then .mixed
  else if c.matching ≠ [] then .affected
  else if c.outside ≠ [] then .notAffected
  else .unknown

/-- `build_affected_version_range_evidence` -/
def buildAffectedVersionRangeEvidence (x : Input) : Except PyError Evidence :=
  if x.ranges = [] then .ok (x.plain [] .notAvailable .noRanges none)
  else if x.cveIds.length ≠ 1 then
    if 1 < x.cveIds.length then .ok (x.plain x.ranges .unknown .ambiguousMultiCve (some "multiple_cves_share_unbound_ranges"))
    else .ok (x.plain x.ranges .unknown .noCveBinding (some "affected_range_without_cve"))
  else
    match probe x.ranges with
    | .error e => .error e
    | .ok (parseable, unparseable) =>
      match compareVersions parseable x.observed with
      | .error e => .error e
      | .ok c =>
        let state := stateOf x.observed parseable c
        let supported := decide (state = .affected) && unparseable.isEmpty
        .ok { x.plain x.ranges state .singleCve none with
          matchingVersions := c.matching
          outsideVersions := c.outside
          unparseableRanges := unparseable
          affectedVersionSupported := supported
          trustedAffectedVersionSupported := supported && x.rangeSourceVerified }

end AffectedVersionRange

end XbowPerso
