import XbowPerso.Lib.ByKey
import XbowPerso.Lib.PyUrlParse
import XbowPerso.ManifestAdmission

/-!
# Plans of safe probes

`backend/app/active_validation.py`: `build_safe_probe_plan` and what it calls. A plan makes no request. The Unicode database and SHA-256
are parameters.
-/

namespace XbowPerso

namespace ActiveValidation

open PyUrl (urlparse ParseResult)
open PyQuery (parseQsl urlencode)

abbrev Text := List Char

/-! ## Plans -/

inductive PlanError where
  | valueError
  /-- `ActiveValidationPlanError` -/
  | plan (message : String)
deriving DecidableEq, Repr

inductive ProbeKind where
  | baseline
  | parameterDifferential
  | corsOrigin
  | redirectLocation
deriving DecidableEq, Repr

structure SafeProbe where
  kind : ProbeKind
  method : String := "GET"
  requestUrl : Text
  headers : List (String × String) := []
  parameter : Option Text := none
  marker : Option Text := none
deriving DecidableEq, Repr

structure SafeProbePlan where
  schema : String := "safe-probe-plan-v1"
  findingId : String
  targetUrl : Text
  parameterNames : List Text
  probes : List SafeProbe
  maxRequests : Int
  maxParameters : Int
  skippedProbeCount : Nat
  enabled : Bool
  automaticExecutionAuthorized : Bool := false
  nonDestructiveOnly : Bool := true
  redirectsFollowed : Bool := false
deriving DecidableEq, Repr

/-- The arguments of `build_safe_probe_plan`. -/
structure ProbeRequest where
  findingId : Json
  targetUrl : Json
  enabled : Bool := false
  parameterValidationEnabled : Bool := false
  corsValidationEnabled : Bool := false
  redirectValidationEnabled : Bool := false
  maxParameters : Json := .int 5
  maxRequests : Json := .int 8

def reservedOrigin : String := "https://xbow.invalid"

def reservedRedirect : Text := "https://xbow.invalid/redirect-check".toList

def redirectParameterNames : List Text :=
  ["continue", "destination", "next", "redirect", "redirect_uri", "return", "return_url", "target", "url"].map String.toList

def hardMaxParameters : Int := 10

def hardMaxRequests : Int := 16

/-! ## The arguments -/

section

variable (u : Unicode) (sha : Sha256)

def parse (url : Text) : Except PlanError ParseResult :=
  match urlparse u url with
  | some parsed => .ok parsed
  | none => .error .valueError

def checkFindingId : Json → Except PlanError String
  | .str text => if PyText.strip text = "" then .error (.plan "finding id is required") else .ok text
  | _ => .error (.plan "finding id is required")

/-- `_validate_target_url`: the URL without its fragment. -/
def validateTargetUrl : Json → Except PlanError Text
  | .str text =>
    if text = "" then .error (.plan "validation target URL is required")
    else do
      let parsed ← parse u text.toList
      if (parsed.scheme ≠ "http".toList ∧ parsed.scheme ≠ "https".toList) ∨ (parsed.hostname u).getD [] = [] then
        .error (.plan "validation target must be an explicit HTTP(S) URL")
      else if parsed.username ≠ [] ∨ parsed.password ≠ [] then .error (.plan "validation target userinfo is forbidden")
      else .ok { parsed with fragment := [] }.geturl
  | _ => .error (.plan "validation target URL is required")

/-- `_bounded_int` -/
def boundedInt (value : Json) (name : String) (minimum maximum : Int) : Except PlanError Int :=
  match value with
  | .int n =>
    if minimum ≤ n ∧ n ≤ maximum then .ok n
    else .error (.plan (name ++ " must be between " ++ toString minimum ++ " and " ++ toString maximum))
  | _ => .error (.plan (name ++ " must be an integer"))

/-- `_parameter_names`: the names that are not blank, each where it occurs first. -/
def parameterNames (url : Text) : Except PlanError (List Text) := do
  let parsed ← parse u url
  return DistinctBy.distinctBy id [] (((parseQsl parsed.query).map Prod.fst).filter fun key => decide (key ≠ []))

/-! ## Probes -/

/-- `_marker` -/
def markerOf (findingId : String) (parameter : Text) : Text :=
  "xbowv2-".toList ++ (sha.hex (utf8 (findingId ++ ":" ++ String.ofList parameter))).toList.take 16

/-- The pairs with the first value of the parameter replaced; none when there is no such parameter. -/
def replaceFirst (parameter value : Text) : List (Text × Text) → Option (List (Text × Text))
  | [] => none
  | (key, current) :: pairs =>
    if key = parameter then some ((key, value) :: pairs) else (replaceFirst parameter value pairs).map ((key, current) :: ·)

/-- `_replace_first_parameter` -/
def replaceFirstParameter (url parameter value : Text) : Except PlanError Text := do
  let parsed ← parse u url
  match replaceFirst parameter value (parseQsl parsed.query) with
  | none => .error (.plan "probe parameter is not present in target URL")
  | some updated => return { parsed with query := urlencode updated, fragment := [] }.geturl

def baselineProbe (target : Text) : SafeProbe := { kind := .baseline, requestUrl := target }

/-- A probe that replaces a parameter by a marker. -/
def replacementProbe (kind : ProbeKind) (target parameter marker : Text) : Except PlanError SafeProbe := do
  let requestUrl ← replaceFirstParameter u target parameter marker
  return { kind, requestUrl, parameter := some parameter, marker := some marker }

def parameterProbe (findingId : String) (target parameter : Text) : Except PlanError SafeProbe :=
  replacementProbe u .parameterDifferential target parameter (markerOf sha findingId parameter)

def corsProbe (target : Text) : SafeProbe := { kind := .corsOrigin, requestUrl := target, headers := [("Origin", reservedOrigin)] }

def redirectProbe (target parameter : Text) : Except PlanError SafeProbe :=
  replacementProbe u .redirectLocation target parameter reservedRedirect

def isRedirectName (parameter : Text) : Bool := redirectParameterNames.any fun known => decide (known = u.lower parameter)

/-- The probes of a check for some of the parameters, none when the check is off. -/
def checkProbes (check : Bool) (names : List Text) (probeOf : Text → Except PlanError SafeProbe) :
    Except PlanError (List SafeProbe) :=
  if check then names.mapM probeOf else .ok []

/-- The candidates of an enabled plan, in the order in which the budget takes them. -/
def candidatesOf (request : ProbeRequest) (findingId : String) (target : Text) (selected : List Text) :
    Except PlanError (List SafeProbe) := do
  let parameters ← checkProbes request.parameterValidationEnabled selected (parameterProbe u sha findingId target)
  let redirects ← checkProbes request.redirectValidationEnabled (selected.filter (isRedirectName u)) (redirectProbe u target)
  let cors := if request.corsValidationEnabled then [corsProbe target] else []
  return baselineProbe target :: (parameters ++ (cors ++ redirects))

/-- `build_safe_probe_plan` -/
def buildSafeProbePlan (request : ProbeRequest) : Except PlanError SafeProbePlan := do
  let findingId ← checkFindingId request.findingId
  let target ← validateTargetUrl u request.targetUrl
  let maxParameters ← boundedInt request.maxParameters "max_parameters" 0 hardMaxParameters
  let maxRequests ← boundedInt request.maxRequests "max_requests" 1 hardMaxRequests
  let names ← parameterNames u target
  let parsed ← parse u target
  let safeTarget := { parsed with query := [], fragment := [] }.geturl
  if request.enabled then
    let candidates ← candidatesOf u sha request findingId target (names.take maxParameters.toNat)
    let probes := candidates.take maxRequests.toNat
    return {
      findingId, targetUrl := safeTarget, parameterNames := names, probes, maxRequests, maxParameters,
      skippedProbeCount := candidates.length - probes.length, enabled := true }
  else
    return {
      findingId, targetUrl := safeTarget, parameterNames := names, probes := [], maxRequests, maxParameters,
      skippedProbeCount := 0, enabled := false }

end

end ActiveValidation

end XbowPerso
