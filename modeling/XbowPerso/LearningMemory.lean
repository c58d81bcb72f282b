import Mathlib.Data.Finset.Max
import Mathlib.Data.Prod.Lex
import XbowPerso.AttackSurface
import XbowPerso.AuditSeal
import XbowPerso.Lib.ByKey
import XbowPerso.Lib.Binary64
import XbowPerso.ReviewEvidence

/-!
# The memory of techniques

`backend/app/learning_memory.py`: `build_learning_memory`, the evidence of an origin that it is built from, and `canonical_scan_job_id`. A
job counts once for a technique, whatever it reported. What `str.isprintable` and `str` of a value that is not a text say are parameters.
-/

namespace XbowPerso

namespace LearningMemory

open PyText (stripChars)
open PyUrl (urlsplit)
open ScopePolicy (HasScheme)
open AttackSurface (hostOf hasUser webSchemes canonicalEndpoint)
open ReviewEvidence (unseen unseen_cons_length_lt)
open GroupBy (groupBy)
open SortByKey (sortByKey)
open AuditSeal (truthy)

abbrev Text := List Char

/-- What the interpreter says about characters and values. -/
structure LearningEnv where
  unicode : Unicode
  printable : Char → Bool
  str : Json → String
  str_str : ∀ s, str (.str s) = s

/-! ## Origins -/

structure WebOrigin where
  scheme : Text
  host : Text
  port : Nat
deriving DecidableEq

section

variable (u : Unicode)

/-- `_origin` -/
def origin (value : Text) : Option WebOrigin :=
  match urlsplit u (stripChars value) with
  | none => none
  | some parsed =>
    let scheme := u.lower parsed.scheme
    let host := hostOf u parsed
    if scheme ∉ webSchemes ∨ host = [] ∨ hasUser parsed = true then none
    else
      match parsed.port with
      | none => none
      | some port => some ⟨scheme, host, port.getD (if scheme = "https".toList then 443 else 80)⟩

/-- `_asset_matches_origin` -/
def assetMatchesOrigin (value : Text) (target : WebOrigin) : Bool :=
  let raw := stripChars value
  if HasScheme raw then decide (origin u raw = some target)
  else
    match urlsplit u ('/' :: '/' :: raw) with
    | none => false
    | some parsed =>
      match parsed.port with
      | none => false
      | some port =>
        if hasUser parsed = true ∨ parsed.path ≠ [] ∨ parsed.query ≠ [] ∨ parsed.fragment ≠ [] then false
        else decide (hostOf u parsed = target.host) && decide (port = none ∨ port = some target.port)

/-! ## Evidence of an origin -/

def isAsset (o : Observation) : Bool := decide (o.kind = ObservationKind.asset.word)

/-- The assets of the origin. -/
def approved (graph : ObservationGraph) (target : WebOrigin) : List String :=
  ((graph.byKind .asset).filter fun o => assetMatchesOrigin u o.value.toList target).map (·.id)

/-- Evidence without parents belongs to the only asset there is, when that is of the origin. -/
def legacySingleAsset (graph : ObservationGraph) (target : WebOrigin) : Bool :=
  match graph.byKind .asset with
  | [asset] => decide (asset.id ∈ approved u graph target)
  | _ => false

/-- An endpoint or a form that is not a valid URL of the origin. -/
def rejects (target : WebOrigin) (o : Observation) : Bool :=
  decide (o.kind = ObservationKind.endpoint.word ∨ o.kind = ObservationKind.form.word) &&
    !((canonicalEndpoint u o.value).valid && decide (origin u (canonicalEndpoint u o.value).url = some target))

/-- The loop over the ancestors, the top of the stack first: whether an asset of the origin was met, or none where it breaks off. -/
def lineage (assets : List String) (target : WebOrigin) (graph : ObservationGraph) : List String → List String → Bool → Option Bool
  | [], _, met => some met
  | id :: stack, seen, met =>
    if _hseen : id ∈ seen then lineage assets target graph stack seen met
    else
      match _hget : graph.items.get? id with
      | none => none
      | some parent =>
        if isAsset parent then
          if parent.id ∈ assets then lineage assets target graph stack (id :: seen) true else none
        else if rejects u target parent then none
        else lineage assets target graph (parent.parentIds.reverse ++ stack) (id :: seen) met
termination_by stack seen => ((unseen graph seen).length, stack.length)
decreasing_by
  · exact Prod.Lex.right _ (by simp)
  · exact Prod.Lex.left _ _ (unseen_cons_length_lt _hget _hseen)
  · exact Prod.Lex.left _ _ (unseen_cons_length_lt _hget _hseen)

/-- Evidence that is tied to the origin and to nothing else. -/
def accepts (graph : ObservationGraph) (target : WebOrigin) (o : Observation) : Bool :=
  if o.parentIds = [] then legacySingleAsset u graph target
  else decide (lineage u (approved u graph target) target graph o.parentIds.reverse [] false = some true)

/-- `_target_scoped_evidence_ids` -/
def scopedEvidenceIds (graph : ObservationGraph) (target : WebOrigin) : List String :=
  ((graph.byKind .evidence).filter (accepts u graph target)).map (·.id)

end

/-! ## Attempts -/

inductive Outcome where
  | success | failure | inconclusive
deriving DecidableEq, Repr

def Outcome.ofWord? (word : String) : Option Outcome :=
  if word = "success" then some .success
  else if word = "failure" then some .failure
  else if word = "inconclusive" then some .inconclusive
  else none

/-- What an observation says about a job, with what tells its job from others. -/
structure Fact where
  technique : String
  identity : String
  outcome : Outcome
  source : String

def Fact.key (f : Fact) : String × String := (f.technique, f.identity)

section

variable (env : LearningEnv)

/-- `canonical_scan_job_id` -/
def canonicalScanJobId : Json → Option String
  | .str raw =>
    let normalized := stripChars raw.toList
    if (0 < normalized.length ∧ normalized.length ≤ 128) ∧ raw.toList.all env.printable = true then some (String.ofList normalized)
    else none
  | _ => none

/-- `text.strip().lower()` -/
def folded (text : String) : String := String.ofList (env.unicode.lower (stripChars text.toList))

/-- `metadata.get(key, "")` -/
def metadataText (o : Observation) (key : String) : Json :=
  match o.metadata.find? fun field => decide (field.1 = key) with
  | some (_, value) => value
  | none => .str ""

def jobIdentity (job : String) : String := "job:" ++ job

/-- The technique and the job that evidence outside the origin takes out of account. -/
def blocked? (o : Observation) : Option (String × String) :=
  let value := o.metadataGet "technique"
  let technique := folded env (env.str (if truthy value = true then value else .str ""))
  if technique = "" then none
  else (canonicalScanJobId env (o.metadataGet "job_id")).map fun job => (technique, jobIdentity job)

/-- What evidence says, none when it says nothing that counts. -/
def fact? (o : Observation) : Option Fact :=
  let technique := folded env (env.str (metadataText o "technique"))
  let source := PyText.strip o.source
  match Outcome.ofWord? (folded env (env.str (metadataText o "outcome"))) with
  | none => none
  | some outcome =>
    if technique = "" then none
    else
      match o.metadataGet "job_id" with
      | .null => some ⟨technique, "observation:" ++ o.id, outcome, source⟩
      | raw => (canonicalScanJobId env raw).map fun job => ⟨technique, jobIdentity job, outcome, source⟩

/-- Evidence is taken when there is no target, or when it is tied to the target. -/
def isScoped (scope : Option (List String)) (o : Observation) : Bool :=
  match scope with
  | none => true
  | some ids => decide (o.id ∈ ids)

/-- `out_of_scope_jobs` -/
def outOfScopeJobs (evidence : List Observation) (scope : Option (List String)) : List (String × String) :=
  (evidence.filter fun o => !isScoped scope o).filterMap (blocked? env)

theorem any_blocked (key : String × String) (blocked : List (String × String)) :
    (blocked.any fun other => decide (other = key)) = true ↔ key ∈ blocked := by
  simp only [List.any_eq_true, decide_eq_true_eq, exists_eq_right]

local instance decidableBlocked (key : String × String) (blocked : List (String × String)) : Decidable (key ∈ blocked) :=
  decidable_of_iff _ (any_blocked key blocked)

/-- The facts that count. -/
def reported (evidence : List Observation) (scope : Option (List String)) : List Fact :=
  ((evidence.filter (isScoped scope)).filterMap (fact? env)).filter fun f => decide (f.key ∉ outOfScopeJobs env evidence scope)

end

/-- What a job reported. -/
structure Attempt where
  outcomes : Finset Outcome
  sources : Finset String

def Attempt.empty : Attempt := ⟨∅, ∅⟩

def Attempt.report (a : Attempt) (f : Fact) : Attempt :=
  ⟨insert f.outcome a.outcomes, if f.source = "" then a.sources else insert f.source a.sources⟩

/-- Contradictory observations of a job are inconclusive. -/
def Attempt.outcome (a : Attempt) : Outcome :=
  if a.outcomes = {.success} then .success else if a.outcomes = {.failure} then .failure else .inconclusive

/-- The source that a job counts for, none when no observation names one. -/
def Attempt.source (a : Attempt) : Finset String := if h : a.sources.Nonempty then {a.sources.min' h} else ∅

abbrev Entry := (String × String) × Attempt

/-- `attempts` -/
def attemptsOf (facts : List Fact) : Dict (String × String) Attempt := groupBy Fact.key Attempt.report .empty facts

/-! ## Techniques -/

structure Bucket where
  attempts : Nat
  successes : Nat
  failures : Nat
  inconclusive : Nat
  sources : Finset String

def Bucket.empty : Bucket := ⟨0, 0, 0, 0, ∅⟩

def Bucket.count (b : Bucket) (e : Entry) : Bucket where
  attempts := b.attempts + 1
  successes := if e.2.outcome = .success then b.successes + 1 else b.successes
  failures := if e.2.outcome = .failure then b.failures + 1 else b.failures
  inconclusive := if e.2.outcome = .inconclusive then b.inconclusive + 1 else b.inconclusive
  sources := b.sources ∪ e.2.source

/-- `buckets`, over the attempts in the order of their keys. -/
def bucketsOf (attempts : Dict (String × String) Attempt) : Dict String Bucket :=
  groupBy (fun e : Entry => e.1.1) Bucket.count .empty (sortByKey (fun e : Entry => toLex e.1) attempts.entries)

structure TechniqueMemory where
  technique : String
  attempts : Nat
  successes : Nat
  failures : Nat
  inconclusive : Nat
  successRate : Binary64
  confidence : Binary64
  sourceCount : Nat

/-- `round(successes / conclusive, 4)` -/
def successRate (successes conclusive : Nat) : Binary64 :=
  if h : 0 < conclusive then (Binary64.ofQuotient successes h).roundDecimals 4 else .zero

/-- `round(min(1.0, conclusive / 5) * min(1.0, sources / 2), 4)` -/
def confidence (conclusive sources : Nat) : Binary64 :=
  (Binary64.mul (Binary64.pyMin .one (.ofQuotient conclusive (show 0 < 5 by decide)))
    (Binary64.pyMin .one (.ofQuotient sources (show 0 < 2 by decide)))).roundDecimals 4

def memoryOf (technique : String) (b : Bucket) : TechniqueMemory where
  technique := technique
  attempts := b.attempts
  successes := b.successes
  failures := b.failures
  inconclusive := b.inconclusive
  successRate := successRate b.successes (b.successes + b.failures)
  confidence := confidence (b.successes + b.failures) b.sources.card
  sourceCount := b.sources.card

/-- The place of a double, the greatest first. -/
def descending (x : Binary64) : (WithBot (WithTop Int))ᵒᵈ := OrderDual.toDual (x.value.getD ⊥)

/-- `(-confidence, -success_rate, -attempts, technique)` -/
def TechniqueMemory.order (m : TechniqueMemory) :
    (WithBot (WithTop Int))ᵒᵈ ×ₗ ((WithBot (WithTop Int))ᵒᵈ ×ₗ (Natᵒᵈ ×ₗ String)) :=
  toLex (descending m.confidence, toLex (descending m.successRate, toLex (OrderDual.toDual m.attempts, m.technique)))

/-- The memory of all techniques that some facts are about. -/
def memoriesOf (facts : List Fact) : List TechniqueMemory :=
  sortByKey TechniqueMemory.order ((bucketsOf (attemptsOf facts)).entries.map fun e => memoryOf e.1 e.2)

section

variable (env : LearningEnv)

/-- The evidence that a target takes, none without a target; a `ValueError` for a target without an origin. -/
def scopeOf (graph : ObservationGraph) : Option String → Except PyError (Option (List String))
  | none => .ok none
  | some url =>
    match origin env.unicode url.toList with
    | none => .error (.valueError "target_url must identify an HTTP(S) origin")
    | some target => .ok (some (scopedEvidenceIds env.unicode graph target))

/-- `build_learning_memory` -/
def buildLearningMemory (graph : ObservationGraph) (limit : Int) (targetUrl : Option String) : Except PyError (List TechniqueMemory) :=
  if ¬ (1 ≤ limit ∧ limit ≤ 100) then .error (.valueError "learning memory limit must be between 1 and 100")
  else
    match scopeOf env graph targetUrl with
    | .error e => .error e
    | .ok scope => .ok ((memoriesOf (reported env (graph.byKind .evidence) scope)).take limit.toNat)

end

end LearningMemory

end XbowPerso
