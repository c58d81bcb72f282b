import XbowPerso.ReviewEvidence

/-!
# The plan of the reconnaissance

`build_recon_plan` proposes tasks for a target from what the graph holds of its origin: an observation counts when its own URL is of
the origin and so is everything that is met on the way up to the first assets among its ancestors.
-/

namespace XbowPerso

namespace ReconPlan

open PyText (stripChars)
open PyUrl (urlsplit)
open ReviewEvidence (unseen unseen_cons_length_le unseen_cons_length_lt)
open ScopePolicy (rstripDots HasScheme)

variable (u : Unicode)

/-! ## Origins -/

/-- A host with the scheme and the port, where they are given. -/
structure Origin where
  host : List Char
  scheme : Option (List Char)
  port : Option Nat
  deriving DecidableEq

/-- The port of a scheme. -/
def defaultPort (scheme : Option (List Char)) : Option Nat :=
  if scheme = some "https".toList then some 443 else if scheme = some "http".toList then some 80 else none

/-- `_origin_identity` -/
def originIdentity (allowHostname : Bool) (value : String) : Option Origin :=
  let raw := stripChars value.toList
  if raw = [] then none
  else
    match urlsplit u (if HasScheme raw ∨ allowHostname = false then raw else '/' :: '/' :: raw) with
    | none => none
    | some parsed =>
      let scheme := if u.lower parsed.scheme = [] then none else some (u.lower parsed.scheme)
      let host := rstripDots (u.lower ((parsed.hostname u).getD []))
      match parsed.port with
      | none => none
      | some port =>
        if host = [] ∨ (scheme ≠ none ∧ scheme ≠ some "http".toList ∧ scheme ≠ some "https".toList) ∨
            (scheme = none ∧ allowHostname = false) ∨ '@' ∈ parsed.netloc then none
        else some ⟨host, scheme, port.or (defaultPort scheme)⟩

/-- `_safe_target`: the target without its query and fragment, and its host; none for a target that is not one, and for a `ValueError`
when the text is split once more. -/
def safeTarget (value : String) : Except PyError (Option (String × String)) :=
  match originIdentity u false value with
  | none => .ok none
  | some ⟨_, none, _⟩ => .ok none
  | some ⟨host, some scheme, port⟩ =>
    let rawHost := if ':' ∈ host then '[' :: host ++ [']'] else host
    let netloc :=
      match port with
      | none => rawHost
      | some n => if some n = defaultPort (some scheme) then rawHost else rawHost ++ ':' :: Nat.toDigits 10 n
    match urlsplit u value.toList with
    | none => .error (.valueError "Invalid URL")
    | some parsed =>
      let path := if parsed.path = [] then ['/'] else parsed.path
      let path := if path.head? = some '/' then path else '/' :: path
      .ok (some (String.ofList (scheme ++ "://".toList ++ netloc ++ path), String.ofList host))

/-- `_same_origin` -/
def sameOrigin (target : Origin) (value : String) : Bool := decide (originIdentity u false value = some target)

/-- `_compatible_asset` -/
def compatibleAsset (target : Origin) (value : String) : Bool :=
  match originIdentity u true value with
  | none => false
  | some ⟨host, scheme, port⟩ =>
    decide (host = target.host) && decide (scheme = none ∨ scheme = target.scheme) && decide (port = none ∨ port = target.port)

/-! ## What counts for the target -/

def isAsset (o : Observation) : Bool := decide (o.kind = ObservationKind.asset.word)

/-- An endpoint or a form that is not of the origin. -/
def rejects (target : Origin) (o : Observation) : Bool :=
  decide (o.kind = ObservationKind.endpoint.word ∨ o.kind = ObservationKind.form.word) && !sameOrigin u target o.value

/-- The loop over the ancestors, the top of the stack first: the linked assets, or none where it returns `False`. -/
def ancestorWalk (target : Origin) (graph : ObservationGraph) :
    List String → List String → List Observation → Option (List Observation)
  | [], _, linked => some linked
  | id :: stack, seen, linked =>
    if _hseen : id ∈ seen then ancestorWalk target graph stack seen linked
    else
      match _hget : graph.items.get? id with
      | none => none
      | some parent =>
        if isAsset parent then ancestorWalk target graph stack (id :: seen) (parent :: linked)
        else if rejects u target parent then none
        else ancestorWalk target graph (parent.parentIds.reverse ++ stack) (id :: seen) linked
termination_by stack seen => ((unseen graph seen).length, stack.length)
decreasing_by
  · exact Prod.Lex.right _ (by simp)
  · exact Prod.Lex.left _ _ (unseen_cons_length_lt _hget _hseen)
  · exact Prod.Lex.left _ _ (unseen_cons_length_lt _hget _hseen)

/-- Observations without an asset among their ancestors belong to the only asset there is. -/
def onlyAsset (target : Origin) (assets : List Observation) : Bool :=
  match assets with
  | [asset] => compatibleAsset u target asset.value
  | _ => false

/-- `_recon_observation_is_for_target` -/
def isForTarget (target : Origin) (graph : ObservationGraph) (o : Observation) : Bool :=
  if rejects u target o then false
  else
    match ancestorWalk u target graph o.parentIds.reverse [] [] with
    | none => false
    | some [] => onlyAsset u target (graph.byKind .asset)
    | some linked => linked.all fun asset => compatibleAsset u target asset.value

/-- `matching` -/
def matching (target : Origin) (graph : ObservationGraph) (kind : ObservationKind) : List Observation :=
  (graph.byKind kind).filter (isForTarget u target graph)

/-! ## The tasks -/

inductive TaskKind where
  | crawl | mapEndpoints | detectTechnology | mapForms | browserObserve
  deriving DecidableEq

def TaskKind.word : TaskKind → String
  | crawl => "crawl"
  | mapEndpoints => "map_endpoints"
  | detectTechnology => "detect_technology"
  | mapForms => "map_forms"
  | browserObserve => "browser_observe"

/-- `ReconTask`, with its methods and flags at their defaults. -/
structure ReconTask where
  kind : TaskKind
  agent : String
  target : String
  priority : Nat
  reason : String
  maxRequests : Nat
  deriving DecidableEq

/-- The tasks in the order in which they are appended. -/
def tasksFor (target : String) (endpoints forms technologies wafs : List Observation) : List ReconTask :=
  (if endpoints = [] then [⟨.crawl, "crawler-agent", target, 100, "endpoint inventory is missing", 40⟩]
    else [⟨.mapEndpoints, "endpoint-agent", target, 80, "refresh bounded endpoint inventory", 20⟩]) ++
  (if technologies = [] ∨ wafs = [] then
    [⟨.detectTechnology, "tech-agent", target, 75, "technology or edge-protection context is incomplete", 8⟩] else []) ++
  (if endpoints ≠ [] ∧ forms = [] then [⟨.mapForms, "form-agent", target, 70, "form surface is not yet mapped", 12⟩] else []) ++
  (if endpoints ≠ [] then
    [⟨.browserObserve, "browser-agent", target, 60, "browser-rendered surface may add read-only observations", 25⟩] else [])

/-- The order of the plan. -/
def before (a b : ReconTask) : Prop := b.priority < a.priority ∨ (a.priority = b.priority ∧ a.kind.word ≤ b.kind.word)

instance : DecidableRel before := fun _ _ => inferInstanceAs (Decidable (_ ∨ _))

/-- `build_recon_plan` -/
def buildReconPlan (scopeChecker : String → Bool) (limit : Int) (target : String) (graph : ObservationGraph) :
    Except PyError (List ReconTask) :=
  if ¬ (1 ≤ limit ∧ limit ≤ 25) then .error (.valueError "recon plan limit must be between 1 and 25")
  else
    match safeTarget u target with
    | .error e => .error e
    | .ok none => .ok []
    | .ok (some (safe, host)) =>
      if scopeChecker host = false then .ok []
      else
        match originIdentity u false safe with
        | none => .ok []
        | some origin =>
          let assets := graph.byKind .asset
          if assets ≠ [] ∧ (assets.any fun asset => compatibleAsset u origin asset.value) = false then .ok []
          else
            let tasks := tasksFor safe (matching u origin graph .endpoint) (matching u origin graph .form)
              (matching u origin graph .technology) (matching u origin graph .waf)
            .ok ((tasks.insertionSort before).take limit.toNat)

end ReconPlan

end XbowPerso
