import XbowPerso.ObservationGraph
import XbowPerso.ScopePolicy

/-!
# Evidence of a review

`is_completed_review_evidence` decides which records complete a review, and `_reviewed_parent_ids` of the red-team coverage and
`_reviewed_ids` of the no-finding recovery credit what it accepts. The hypothesis engine decides for itself in `_completed_reviews`.
-/

namespace XbowPerso

namespace ReviewEvidence

open PyText (stripChars)
open PyUrl (urlsplit)
open ScopePolicy (rstripDots HasScheme)

variable (u : Unicode)

/-- `text.strip().lower()` -/
def folded (text : String) : String := String.ofList (u.lower (stripChars text.toList))

/-- `_COMPLETED_REVIEW_STATES` -/
def completedReviewStates : List String := ["completed", "reviewed"]

/-- `_SUCCESSFUL_REVIEW_OUTCOMES` -/
def successfulReviewOutcomes : List String := ["completed", "success", "reviewed", "observed"]

/-- `is_completed_review_evidence` -/
def isCompletedReviewEvidence (observation : Observation) : Bool :=
  match observation.metadataGet "review_type" with
  | .str reviewType =>
    if PyText.strip reviewType = "" then false
    else
      match observation.metadataGet "status" with
      | .str status =>
        if folded u status ∉ completedReviewStates then false
        else
          match observation.metadataGet "outcome" with
          | .null => true
          | .str outcome => decide (folded u outcome ∈ successfulReviewOutcomes)
          | _ => false
      | _ => false
  | _ => false

/-! ## The hypothesis engine -/

/-- `_REVIEW_PARENT_KINDS` -/
def reviewParentKinds : List (String × ObservationKind) :=
  [("input_surface_review", .endpoint), ("authorization_surface_review", .endpoint), ("form_surface_review", .form),
    ("technology_surface_review", .technology), ("protection_surface_review", .waf)]

/-- `_REVIEW_PARENT_KINDS.get(kind)` -/
def reviewParentKind? (kind : String) : Option ObservationKind :=
  (reviewParentKinds.find? fun entry => decide (entry.1 = kind)).map (·.2)

/-- `(urlsplit(url).hostname or "").lower().rstrip(".")`; none for a `ValueError`. -/
def urlHost (url : List Char) : Option (List Char) :=
  (urlsplit u url).map fun parsed => rstripDots (u.lower ((parsed.hostname u).getD []))

/-- The host that an observation adds to its lineage, empty when it adds none; none for a `ValueError`. -/
def originHost (o : Observation) : Option (List Char) :=
  if o.kind = ObservationKind.asset.word then
    let host := rstripDots (u.lower (stripChars o.value.toList))
    if HasScheme host then urlHost u host else some host
  else if o.kind = ObservationKind.endpoint.word ∨ o.kind = ObservationKind.form.word then urlHost u o.value.toList
  else some []

/-- The observations that a lineage has not seen. -/
def unseen (graph : ObservationGraph) (seen : List String) : List String := graph.items.keys.filter fun id => decide (id ∉ seen)

theorem unseen_cons_length_le (graph : ObservationGraph) (seen : List String) (id : String) :
    (unseen graph (id :: seen)).length ≤ (unseen graph seen).length := by
  refine (List.monotone_filter_right _ fun x hx => ?_).length_le
  simp only [decide_eq_true_eq] at hx ⊢
  exact fun hmem => hx (List.mem_cons_of_mem _ hmem)

theorem unseen_cons_length_lt {graph : ObservationGraph} {seen : List String} {id : String} {o : Observation}
    (hget : graph.items.get? id = some o) (hseen : id ∉ seen) :
    (unseen graph (id :: seen)).length < (unseen graph seen).length := by
  have hmem : id ∈ unseen graph seen :=
    List.mem_filter.mpr ⟨Dict.mem_keys.mpr ⟨o, Dict.mem_entries.mpr hget⟩, decide_eq_true hseen⟩
  have hsplit : unseen graph (id :: seen) = (unseen graph seen).filter fun x => decide (x ≠ id) := by
    rw [unseen, unseen, List.filter_filter]
    refine List.filter_congr fun x _ => ?_
    by_cases hx : x = id <;> simp [hx]
  rw [hsplit]
  exact List.length_filter_lt_length_iff_exists.mpr ⟨id, hmem, by simp⟩

/-- The loop of `_lineage_hosts`: the stack with its top first, what was seen, and the hosts. -/
def lineageWalk (graph : ObservationGraph) : List String → List String → List (List Char) → Except PyError (List (List Char))
  | [], _, hosts => .ok hosts
  | id :: stack, seen, hosts =>
    if _hseen : id ∈ seen then lineageWalk graph stack seen hosts
    else
      match _hget : graph.items.get? id with
      | none => lineageWalk graph stack (id :: seen) hosts
      | some o =>
        match originHost u o with
        | none => .error (.valueError "Invalid URL")
        | some host => lineageWalk graph (o.parentIds.reverse ++ stack) (id :: seen) (if host = [] then hosts else host :: hosts)
termination_by stack seen => ((unseen graph seen).length, stack.length)
decreasing_by
  · exact Prod.Lex.right _ (by simp)
  · rcases Nat.lt_or_eq_of_le (unseen_cons_length_le graph seen id) with hlt | heq
    · exact Prod.Lex.left _ _ hlt
    · rw [heq]
      exact Prod.Lex.right _ (by simp)
  · exact Prod.Lex.left _ _ (unseen_cons_length_lt _hget _hseen)

/-- `_lineage_hosts` -/
def lineageHosts (graph : ObservationGraph) (id : String) : Except PyError (List (List Char)) := lineageWalk u graph [id] [] []

/-- `_scope_allows` -/
def scopeAllows (graph : ObservationGraph) (id : String) : Option (String → Bool) → Except PyError Bool
  | none => .ok true
  | some scopeChecker => do
    let hosts ← lineageHosts u graph id
    pure (decide (hosts ≠ []) && hosts.all fun host => scopeChecker (String.ofList host))

/-- The kind under which `_completed_reviews` credits a record, if it does. -/
def credit (graph : ObservationGraph) (scopeChecker : Option (String → Bool)) (evidence : Observation) :
    Except PyError (Option String) :=
  match evidence.metadataGet "review_type", evidence.metadataGet "status" with
  | .str kind, .str status =>
    match reviewParentKind? kind with
    | none => .ok none
    | some parentKind =>
      if status ∉ completedReviewStates then .ok none
      else if evidence.parentIds = [] then .ok none
      else
        match scopeAllows u graph evidence.id scopeChecker with
        | .error e => .error e
        | .ok false => .ok none
        | .ok true =>
          if evidence.parentIds.all fun id => (graph.items.get? id).any fun o => o.kind = parentKind.word then .ok (some kind)
          else .ok none
  | _, _ => .ok none

/-- The loop of `_completed_reviews`: the identifiers under their kinds. -/
def creditAll (graph : ObservationGraph) (scopeChecker : Option (String → Bool)) :
    List Observation → Except PyError (List (String × String))
  | [] => .ok []
  | evidence :: records => do
    let credited ← credit u graph scopeChecker evidence
    let rest ← creditAll graph scopeChecker records
    pure (credited.toList.flatMap (fun kind => evidence.parentIds.map fun id => (kind, id)) ++ rest)

/-- `_completed_reviews` -/
def completedReviews (graph : ObservationGraph) (scopeChecker : Option (String → Bool)) : Except PyError (List (String × String)) :=
  creditAll u graph scopeChecker (graph.byKind .evidence)

/-! ## The consumers of the predicate -/

/-- `value in types` for a set of texts; lists and objects cannot be looked up. -/
def inTypes (types : List String) : Json → Except PyError Bool
  | .str text => .ok (decide (text ∈ types))
  | .arr _ => .error (.typeError "unhashable type: 'list'")
  | .obj _ => .error (.typeError "unhashable type: 'dict'")
  | _ => .ok false

/-- The parents of the completed reviews of the types, where all of them are eligible. -/
def reviewedParents (types eligible : List String) : List Observation → Except PyError (List String)
  | [] => .ok []
  | item :: records => do
    let typed ← inTypes types (item.metadataGet "review_type")
    let rest ← reviewedParents types eligible records
    pure (if typed = true ∧ isCompletedReviewEvidence u item = true ∧ item.parentIds ≠ [] ∧ ∀ id ∈ item.parentIds, id ∈ eligible then
      item.parentIds ++ rest else rest)

/-- `_reviewed_parent_ids` of the red-team coverage. -/
def reviewedParentIds (graph : ObservationGraph) (reviewTypes eligibleIds : List String) : Except PyError (List String) :=
  reviewedParents u reviewTypes eligibleIds (graph.byKind .evidence)

/-- `_reviewed_ids` of the no-finding recovery. -/
def reviewedIds (graph : ObservationGraph) (reviewTypes allowedParentIds : List String) : Except PyError (List String) :=
  reviewedParents u reviewTypes allowedParentIds (graph.byKind .evidence)

/-! ## When they agree -/

/-- The hypothesis engine treats the hypothesis of the record as reviewed. -/
def Credited (graph : ObservationGraph) (scopeChecker : Option (String → Bool)) (evidence : Observation) : Prop :=
  ∃ kind, credit u graph scopeChecker evidence = .ok (some kind)

/-- The record belongs to a hypothesis: its type is one of the engine's, its parents are observations of the kind of that type, and the
scope allows its lineage. -/
def Linked (graph : ObservationGraph) (scopeChecker : Option (String → Bool)) (evidence : Observation) : Prop :=
  ∃ kind parentKind, evidence.metadataGet "review_type" = .str kind ∧ reviewParentKind? kind = some parentKind ∧
    evidence.parentIds ≠ [] ∧ scopeAllows u graph evidence.id scopeChecker = .ok true ∧
    ∀ id ∈ evidence.parentIds, ∃ o, graph.items.get? id = some o ∧ o.kind = parentKind.word

/-- The status is written as one of the completed states. -/
def PlainStatus (evidence : Observation) : Prop := ∃ status ∈ completedReviewStates, evidence.metadataGet "status" = .str status

/-- The status is a completed state up to blanks and case. -/
def FoldedStatus (evidence : Observation) : Prop :=
  ∃ status, evidence.metadataGet "status" = .str status ∧ folded u status ∈ completedReviewStates

/-- The type of the review is a text that is not blank. -/
def Typed (evidence : Observation) : Prop := ∃ kind, evidence.metadataGet "review_type" = .str kind ∧ PyText.strip kind ≠ ""

/-- The outcome, where there is one, is a successful one. -/
def OutcomeAgrees (evidence : Observation) : Prop :=
  evidence.metadataGet "outcome" = .null ∨
    ∃ outcome, evidence.metadataGet "outcome" = .str outcome ∧ folded u outcome ∈ successfulReviewOutcomes

end ReviewEvidence

end XbowPerso
