import Mathlib.Data.Prod.Lex
import XbowPerso.AttackSurface
import XbowPerso.ExecutionContract
import XbowPerso.Lib.ByKey
import XbowPerso.Lib.PyUrlParse
import XbowPerso.ReviewEvidence

/-!
# The hypotheses of a campaign

`build_hypotheses` derives what merits a review from the observations of a campaign: five passes over them give candidates, candidates of
one kind and one target are merged, and the best are kept.
-/

namespace XbowPerso

namespace HypothesisEngine

open AttackSurface (hasControl webSchemes hostOf hasUser canonicalUrl)
open ExecutionContract (sortedSet)
open PyText (stripChars)
open PyUrl (urlsplit)
open ReviewEvidence (scopeAllows completedReviews)

inductive HypothesisKind where
  | inputSurfaceReview | authorizationSurfaceReview | formSurfaceReview | technologySurfaceReview | protectionSurfaceReview
  | validationGap
  deriving DecidableEq

inductive NextAction where
  | scan | validate | stop
  deriving DecidableEq

namespace HypothesisKind

def word : HypothesisKind → String
  | inputSurfaceReview => "input_surface_review"
  | authorizationSurfaceReview => "authorization_surface_review"
  | formSurfaceReview => "form_surface_review"
  | technologySurfaceReview => "technology_surface_review"
  | protectionSurfaceReview => "protection_surface_review"
  | validationGap => "validation_gap"

/-- The reason that every hypothesis of the kind is given. -/
def reason : HypothesisKind → String
  | inputSurfaceReview => "endpoint exposes named query inputs that merit bounded review"
  | authorizationSurfaceReview => "endpoint path suggests an authorization-sensitive surface"
  | formSurfaceReview => "observed form surface merits bounded, non-destructive review"
  | technologySurfaceReview => "observed technology can guide bounded, version-aware review"
  | protectionSurfaceReview => "observed protection layer should inform conservative review planning"
  | validationGap => "finding lacks observed independent validation evidence"

def nextAction : HypothesisKind → NextAction
  | validationGap => .validate
  | _ => .scan

end HypothesisKind

structure Hypothesis where
  kind : HypothesisKind
  target : String
  reason : String
  confidence : Binary64
  evidenceIds : List String
  nextAction : NextAction
  parameterNames : List String
  dependencyDepth : Nat
  deriving DecidableEq

/-- What the engine takes from Python: the tables of its texts, `str(value)` and `float(value)` of a value of the metadata. -/
structure Python where
  unicode : Unicode
  str : Json → String
  float : Json → Except PyError Binary64

variable (py : Python)

/-! ## Candidates -/

/-- A name of a parameter is short and printable ASCII. -/
def isSafeName (name : List Char) : Bool :=
  decide (name ≠ []) && decide (name.length ≤ 80) && name.all fun c => decide (32 ≤ c.toNat) && decide (c.toNat < 127)

/-- `_safe_endpoint` -/
def safeEndpoint (value : String) : Option (List Char × List String) :=
  let raw := stripChars value.toList
  if raw = [] ∨ hasControl raw = true then none
  else
    match urlsplit py.unicode raw with
    | none => none
    | some parsed =>
      let scheme := py.unicode.lower parsed.scheme
      let host := hostOf py.unicode parsed
      match parsed.port with
      | none => none
      | some port =>
        if scheme ∉ webSchemes ∨ host = [] ∨ hasUser parsed = true ∨ port = some 0 then none
        else
          let names := ((PyQuery.parseQsl parsed.query).map (·.1)).filter isSafeName
          some (canonicalUrl scheme host (if parsed.path = [] then ['/'] else parsed.path) port,
            (sortedSet (names.map String.ofList)).take 64)

/-- A hypothesis that one observation suggests. -/
def suggested (kind : HypothesisKind) (target : String) (confidence : Binary64) (o : Observation) (parameterNames : List String) :
    Hypothesis :=
  ⟨kind, target, kind.reason, confidence, [o.id], kind.nextAction, parameterNames, o.parentIds.length⟩

/-- The parts of a path that suggest an authorization-sensitive surface. -/
def sensitiveTokens : List String := ["/account", "/profile", "/user", "/admin"]

def endpointCandidates (isReviewed : HypothesisKind → String → Bool) (endpoint : Observation) : Except PyError (List Hypothesis) :=
  match safeEndpoint py endpoint.value with
  | none => .ok []
  | some (safeTarget, parameterNames) =>
    match urlsplit py.unicode safeTarget with
    | none => .error (.valueError "Invalid URL")
    | some parsed =>
      let path := py.unicode.lower parsed.path
      .ok ((if parameterNames ≠ [] ∧ isReviewed .inputSurfaceReview endpoint.id = false then
          [suggested .inputSurfaceReview (String.ofList safeTarget) (.decimal 55 2) endpoint parameterNames] else []) ++
        (if isReviewed .authorizationSurfaceReview endpoint.id = false ∧ sensitiveTokens.any (fun token => decide (token.toList <:+: path))
          then [suggested .authorizationSurfaceReview (String.ofList safeTarget) (.decimal 60 2) endpoint parameterNames] else []))

/-- The elements of a value that is iterated over. -/
def iterate : Json → Except PyError (List Json)
  | .arr elems => .ok elems
  | .str text => .ok (text.toList.map fun c => .str (String.singleton c))
  | .obj fields => .ok (fields.map fun field => .str field.1)
  | .null => .error (.typeError "'NoneType' object is not iterable")
  | .bool _ => .error (.typeError "'bool' object is not iterable")
  | .int _ => .error (.typeError "'int' object is not iterable")
  | _ => .error (.typeError "'float' object is not iterable")

/-- `metadata.get(key, default)` tells a missing key from one that is null. -/
def metadata? (o : Observation) (key : String) : Option Json := (o.metadata.find? fun field => decide (field.1 = key)).map (·.2)

/-- `{str(name).strip() for name in … if str(name).strip()}`, sorted. -/
def inputNames (form : Observation) : Except PyError (List String) :=
  match metadata? form "input_names" with
  | none => .ok []
  | some value => (iterate value).map fun names => sortedSet ((names.map fun name => PyText.strip (py.str name)).filter (· ≠ ""))

def formCandidates (isReviewed : HypothesisKind → String → Bool) (form : Observation) : Except PyError (List Hypothesis) :=
  match safeEndpoint py form.value with
  | none => .ok []
  | some (safeTarget, _) =>
    if isReviewed .formSurfaceReview form.id = true then .ok []
    else
      (inputNames py form).map fun names =>
        [suggested .formSurfaceReview (String.ofList safeTarget) (if names ≠ [] then .decimal 58 2 else .decimal 50 2) form names]

def technologyCandidates (isReviewed : HypothesisKind → String → Bool) (technology : Observation) : List Hypothesis :=
  if isReviewed .technologySurfaceReview technology.id = true then []
  else [suggested .technologySurfaceReview technology.value (.decimal 45 2) technology []]

/-- `round(0.35 + confidence * 0.20, 4)` of a confidence between zero and one. -/
def protectionConfidence (confidence : Binary64) : Binary64 :=
  .roundDecimals 4 (.add (.decimal 35 2) (.mul (.pyMax .zero (.pyMin .one confidence)) (.decimal 20 2)))

/-- `float(waf.metadata.get("confidence", 0.5))` -/
def statedConfidence (waf : Observation) : Except PyError Binary64 :=
  match metadata? waf "confidence" with
  | none => .ok (.decimal 5 1)
  | some value => py.float value

def wafCandidates (isReviewed : HypothesisKind → String → Bool) (waf : Observation) : Except PyError (List Hypothesis) :=
  if isReviewed .protectionSurfaceReview waf.id = true then .ok []
  else
    (statedConfidence py waf).map fun confidence =>
      [suggested .protectionSurfaceReview waf.value (protectionConfidence confidence) waf []]

def findingCandidates (observed : String → Bool) (finding : Observation) : List Hypothesis :=
  if observed finding.id = true then [] else [suggested .validationGap finding.value (.decimal 90 2) finding []]

/-- The candidates of an observation in the pass over its kind, where the scope allows it. -/
def candidatesOf (scope : String → Except PyError Bool) (isReviewed : HypothesisKind → String → Bool) (observed : String → Bool)
    (item : ObservationKind × Observation) : Except PyError (List Hypothesis) := do
  let allowed ← scope item.2.id
  if allowed = false then pure []
  else
    match item.1 with
    | .endpoint => endpointCandidates py isReviewed item.2
    | .form => formCandidates py isReviewed item.2
    | .technology => pure (technologyCandidates isReviewed item.2)
    | .waf => wafCandidates py isReviewed item.2
    | .finding => pure (findingCandidates observed item.2)
    | _ => pure []

/-- The kinds over which `build_hypotheses` passes. -/
def passKinds : List ObservationKind := [.endpoint, .form, .technology, .waf, .finding]

/-- The observations in the order of the passes. -/
def passItems (graph : ObservationGraph) : List (ObservationKind × Observation) :=
  passKinds.flatMap fun kind => (graph.byKind kind).map fun o => (kind, o)

/-- What a pass does with an observation. -/
def visit (graph : ObservationGraph) (scopeChecker : Option (String → Bool)) (reviewed : List (String × String)) :
    ObservationKind × Observation → Except PyError (List Hypothesis) :=
  candidatesOf py (fun id => scopeAllows py.unicode graph id scopeChecker)
    (fun kind id => reviewed.any fun entry => decide (entry = (kind.word, id)))
    (fun id => decide (id ∈ graph.analyzeValidationState.observedIndependentFindingIds))

/-- The candidates that the passes collect. -/
def collected (graph : ObservationGraph) (scopeChecker : Option (String → Bool)) : Except PyError (List Hypothesis) := do
  let reviewed ← completedReviews py.unicode graph scopeChecker
  let candidates ← (passItems graph).mapM (visit py graph scopeChecker reviewed)
  pure candidates.flatten

/-! ## Merging and ranking -/

def Hypothesis.key (item : Hypothesis) : HypothesisKind × String := (item.kind, item.target)

/-- What an item makes of the one before it under its key. -/
def merged (previous item : Hypothesis) : Hypothesis :=
  let preferred := if previous.confidence.lt item.confidence then item else previous
  { kind := preferred.kind
    target := preferred.target
    reason := preferred.reason
    confidence := .pyMax previous.confidence item.confidence
    evidenceIds := (sortedSet (previous.evidenceIds ++ item.evidenceIds)).take 32
    nextAction := preferred.nextAction
    parameterNames := (sortedSet (previous.parameterNames ++ item.parameterNames)).take 64
    dependencyDepth := max previous.dependencyDepth item.dependencyDepth }

/-- An item comes to what is found under its key. -/
def joined (previous : Option Hypothesis) (item : Hypothesis) : Hypothesis :=
  match previous with
  | none => item
  | some previous => merged previous item

def insertItem (found : Dict (HypothesisKind × String) Hypothesis) (item : Hypothesis) : Dict (HypothesisKind × String) Hypothesis :=
  found.set item.key (joined (found.get? item.key) item)

/-- `deduped` -/
def deduped (candidates : List Hypothesis) : Dict (HypothesisKind × String) Hypothesis := candidates.foldl insertItem .empty

/-- The place of a double in the order; a confidence is never NaN. -/
def place (x : Binary64) : WithBot (WithBot (WithTop Int)) :=
  match x.value with
  | none => ⊥
  | some value => (value : WithBot (WithBot (WithTop Int)))

/-- `(-item.confidence, item.kind, item.target)` -/
def rankKey (item : Hypothesis) : (WithBot (WithBot (WithTop Int)))ᵒᵈ ×ₗ (String ×ₗ String) :=
  toLex (OrderDual.toDual (place item.confidence), toLex (item.kind.word, item.target))

/-- `build_hypotheses` -/
def buildHypotheses (graph : ObservationGraph) (limit : Int) (scopeChecker : Option (String → Bool)) :
    Except PyError (List Hypothesis) :=
  if limit < 1 ∨ 100 < limit then .error (.valueError "hypothesis limit must be between 1 and 100")
  else (collected py graph scopeChecker).map fun candidates =>
    (SortByKey.sortByKey rankKey (deduped candidates).values).take limit.toNat

end HypothesisEngine

end XbowPerso
