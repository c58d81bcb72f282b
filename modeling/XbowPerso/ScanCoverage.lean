import Mathlib.Data.Finset.Card
import Mathlib.Data.Finset.Lattice.Fold
import XbowPerso.AttackSurface
import XbowPerso.ExecutionContract
import XbowPerso.Lib.ByKey
import XbowPerso.ReviewEvidence

/-!
# The accounting of completed scans

`_completed_scans_with_provenance` of the coverage credits a scan job once, where all of its reports are plausible, come from approved
observations, agree with each other and with the findings that are recorded.
-/

namespace XbowPerso

namespace ScanCoverage

open AttackSurface (hostOf hasUser webSchemes Surface EndpointItem FormItem buildAttackSurface)
open ExecutionContract (sortedSet)
open PyText (stripChars)
open PyUrl (urlsplit)
open ReviewEvidence (unseen unseen_cons_length_lt)
open ScopePolicy (HasScheme)

abbrev Text := List Char

/-- What the accounting takes from Python: the tables of its texts, `str.isprintable` of a character, `datetime.fromisoformat` followed by
the conversion of an aware time to UTC (none for a `ValueError` or a naive time), and the instant at which a record is looked at. -/
structure Python where
  unicode : Unicode
  printable : Char → Bool
  instant : String → Except PyError (Option Int)
  now : Observation → Int

variable (py : Python)

/-! ## Origins -/

structure WebOrigin where
  scheme : Text
  host : Text
  port : Nat
  deriving DecidableEq

/-- `_web_origin` -/
def webOrigin (value : Text) : Option WebOrigin :=
  match urlsplit py.unicode (stripChars value) with
  | none => none
  | some parsed =>
    let scheme := py.unicode.lower parsed.scheme
    let host := hostOf py.unicode parsed
    match parsed.port with
    | none => none
    | some port =>
      if scheme ∉ webSchemes ∨ host = [] ∨ hasUser parsed = true ∨ port = some 0 then none
      else some ⟨scheme, host, port.getD (if scheme = "https".toList then 443 else 80)⟩

/-- A host with a port or without one, where nothing else is written. -/
def bareHost (raw : Text) : Option (Text × Option Nat) :=
  match urlsplit py.unicode ('/' :: '/' :: raw) with
  | none => none
  | some parsed =>
    match parsed.port with
    | none => none
    | some port =>
      if hostOf py.unicode parsed = [] ∨ port = some 0 ∨ hasUser parsed = true ∨ parsed.path ≠ [] ∨ parsed.query ≠ [] ∨
        parsed.fragment ≠ [] then none
      else some (hostOf py.unicode parsed, port)

/-- What `_asset_claim_identity` gives. -/
inductive Claim where
  | origin (origin : WebOrigin)
  | host (host : Text) (port : Option Nat)
  deriving DecidableEq

/-- `_asset_claim_identity` -/
def assetClaimIdentity (value : Text) : Option Claim :=
  let raw := stripChars value
  if raw = [] then none
  else if HasScheme raw then (webOrigin py raw).map .origin
  else (bareHost py raw).map fun bare => .host bare.1 bare.2

/-- `_asset_supports_web_origin` -/
def assetSupportsWebOrigin (value : Text) (target : WebOrigin) : Bool :=
  let raw := stripChars value
  if HasScheme raw then decide (webOrigin py raw = some target)
  else
    match bareHost py raw with
    | none => false
    | some (host, port) => decide (host = target.host) && decide (port = none ∨ port = some target.port)

/-! ## The observations above a record -/

def isKind (kind : ObservationKind) (o : Observation) : Bool := decide (o.kind = kind.word)

/-- A loop over the ancestors, the top of the stack first: what was found, assets without what is above them. None where an observation is
missing or is not accepted. -/
def ancestors (graph : ObservationGraph) (accept : Observation → Bool) :
    List String → List String → List Observation → Option (List Observation)
  | [], _, found => some found
  | id :: pending, seen, found =>
    if _hseen : id ∈ seen then ancestors graph accept pending seen found
    else
      match _hget : graph.items.get? id with
      | none => none
      | some parent =>
        if accept parent = false then none
        else if isKind .asset parent = true then ancestors graph accept pending (id :: seen) (parent :: found)
        else ancestors graph accept (parent.parentIds.reverse ++ pending) (id :: seen) (parent :: found)
termination_by pending seen => ((unseen graph seen).length, pending.length)
decreasing_by
  · exact Prod.Lex.right _ (by simp)
  · exact Prod.Lex.left _ _ (unseen_cons_length_lt _hget _hseen)
  · exact Prod.Lex.left _ _ (unseen_cons_length_lt _hget _hseen)

def ancestorsOf (graph : ObservationGraph) (accept : Observation → Bool) (o : Observation) : Option (List Observation) :=
  ancestors graph accept o.parentIds.reverse [] []

/-- `asset_values.get` -/
def assetValue? (graph : ObservationGraph) (id : String) : Option String :=
  ((graph.items.get? id).filter (isKind .asset)).map Observation.value

/-- The asset under an identifier supports an origin. -/
def assetSupports (graph : ObservationGraph) (origin : WebOrigin) (id : String) : Bool :=
  match assetValue? graph id with
  | none => false
  | some value => assetSupportsWebOrigin py value.toList origin

/-- `asset_parent_ids` of an endpoint of the surface. -/
def assetParentIds (graph : ObservationGraph) (id : String) : List String :=
  match graph.items.get? id with
  | none => []
  | some o => o.parentIds.filter fun parent => (assetValue? graph parent).isSome

/-- `_endpoint_has_consistent_asset_origins` -/
def endpointHasConsistentAssetOrigins (graph : ObservationGraph) (row : EndpointItem) : Bool :=
  match webOrigin py row.endpoint.url with
  | none => false
  | some origin => decide (assetParentIds graph row.id ≠ []) && (assetParentIds graph row.id).all (assetSupports py graph origin)

/-- `approved_asset_ids` -/
def approvedAsset (surface : Surface) (id : String) : Bool :=
  surface.assets.any fun item => decide (item.id = id) && decide (item.inScope = some true)

/-- `approved_endpoint_ids` -/
def approvedEndpoint (graph : ObservationGraph) (surface : Surface) (id : String) : Bool :=
  surface.endpoints.any fun item => decide (item.id = id) && (item.endpoint.valid && (decide (item.inScope = some true) &&
    (!item.hostAssetMismatch && endpointHasConsistentAssetOrigins py graph item)))

/-- An ancestor of a form is of the declared origin. -/
def ofOrigin (graph : ObservationGraph) (surface : Surface) (origin : WebOrigin) (parent : Observation) : Bool :=
  if isKind .asset parent = true then assetSupports py graph origin parent.id
  else if isKind .endpoint parent = true then
    approvedEndpoint py graph surface parent.id && decide (webOrigin py parent.value.toList = some origin)
  else if isKind .form parent = true then decide (webOrigin py parent.value.toList = some origin)
  else true

/-- `_form_has_consistent_asset_origins` -/
def formHasConsistentAssetOrigins (graph : ObservationGraph) (surface : Surface) (item : FormItem) : Bool :=
  match webOrigin py item.action, graph.items.get? item.id with
  | some origin, some form =>
    match ancestorsOf graph (ofOrigin py graph surface origin) form with
    | none => false
    | some found => found.any (isKind .asset)
  | _, _ => false

/-- `approved_form_ids` -/
def approvedForm (graph : ObservationGraph) (surface : Surface) (id : String) : Bool :=
  surface.forms.any fun item => decide (item.id = id) && (item.valid && (decide (item.inScope = some true) &&
    formHasConsistentAssetOrigins py graph surface item))

/-- A scan without parents is of the only asset that there is. -/
def onlyAssetApproved (surface : Surface) : List Observation → Bool
  | [asset] => approvedAsset surface asset.id
  | _ => false

/-- `trustworthy_lineage`; without a scope checker everything is. -/
def trustworthyLineage (graph : ObservationGraph) (surface : Option Surface) (o : Observation) : Bool :=
  match surface with
  | none => true
  | some surface =>
    if o.parentIds = [] then onlyAssetApproved surface (graph.byKind .asset)
    else
      let accept := fun parent : Observation =>
        if isKind .asset parent = true then true
        else (!isKind .endpoint parent || approvedEndpoint py graph surface parent.id) &&
          (!isKind .form parent || approvedForm py graph surface parent.id)
      match ancestorsOf graph accept o with
      | none => false
      | some found => found.any (isKind .asset) && (found.filter (isKind .asset)).all fun asset => approvedAsset surface asset.id

/-- `linked_lineage_ids`: the assets and the endpoints above a record. -/
def linkedLineageIds (graph : ObservationGraph) (o : Observation) : Finset String × Finset String :=
  match ancestorsOf graph (fun _ => true) o with
  | none => (∅, ∅)
  | some found =>
    (((found.filter (isKind .asset)).map Observation.id).toFinset, ((found.filter (isKind .endpoint)).map Observation.id).toFinset)

/-! ## Completed scans -/

/-- `canonical_scan_job_id` -/
def canonicalScanJobId : Json → Option String
  | .str raw =>
    let normalized := stripChars raw.toList
    if (0 < normalized.length ∧ normalized.length ≤ 128) ∧ raw.toList.all py.printable = true then some (String.ofList normalized)
    else none
  | _ => none

/-- The job that a record names. -/
def jobOf (o : Observation) : Option String := canonicalScanJobId py (o.metadataGet "job_id")

/-- `_TERMINAL_SCAN_STATES` -/
def terminalScanStates : List String := ["completed", "failed", "cancelled"]

/-- The record says that a scan job came to a terminal status. -/
def reportsTerminal (job status : String) (o : Observation) : Bool :=
  o.metadataIs "phase" "scan" && (o.metadataIs "status" status && decide (jobOf py o = some job))

/-- `conflicting_scan_terminal_job_ids` -/
def conflictingTerminal (graph : ObservationGraph) (job : String) : Bool :=
  decide (1 < (terminalScanStates.filter fun status => (graph.byKind .evidence).any (reportsTerminal py job status)).length)

/-- `parse`: the time under a key, none where there is none that counts. -/
def parseTime (o : Observation) (key : String) : Except PyError (Option Int) :=
  match o.metadataGet key with
  | .str value =>
    if PyText.strip value = "" then .ok none
    else (py.instant ((PyText.strip value).replace "Z" "+00:00")).map fun time => time.filter fun t => decide (t ≤ py.now o)
  | _ => .ok none

def hasKey (o : Observation) (key : String) : Bool := o.metadata.any fun field => decide (field.1 = key)

/-- `plausible_scan_timeline` -/
def plausibleScanTimeline (o : Observation) : Except PyError Bool := do
  let start ← parseTime py o "started_at"
  let finish ← parseTime py o "completed_at"
  if hasKey o "started_at" = true ∧ start = none then pure false
  else if hasKey o "completed_at" = true ∧ finish = none then pure false
  else
    match start, finish with
    | some start, some finish => pure (decide (start ≤ finish))
    | _, _ => pure true

/-- What the first loop makes of a completed scan: it is untrusted, for itself or for its whole job, or accepted under its identity. -/
inductive Class where
  | untrusted
  | tainted (identity : String)
  | accepted (identity : String)
  deriving DecidableEq

/-- `raw_job_id is None` -/
def namesNoJob (o : Observation) : Bool :=
  match o.metadataGet "job_id" with
  | .null => true
  | _ => false

def jobIdentity (job : String) : String := "job:" ++ job

def isCompletedScan (o : Observation) : Bool := o.metadataIs "phase" "scan" && o.metadataIs "status" "completed"

/-- The record is plausible and comes from approved observations. -/
def sound (graph : ObservationGraph) (surface : Option Surface) (o : Observation) : Except PyError Bool :=
  (plausibleScanTimeline py o).map fun timely => timely && trustworthyLineage py graph surface o

/-- The body of the first loop: a job that is not named is one of its own, and one that is badly named is none. -/
def classify (graph : ObservationGraph) (surface : Option Surface) (o : Observation) : Except PyError Class :=
  match jobOf py o with
  | some job =>
    if conflictingTerminal py graph job = true then .ok .untrusted
    else (sound py graph surface o).map fun sound => if sound = true then .accepted (jobIdentity job) else .tainted (jobIdentity job)
  | none =>
    if namesNoJob o = true then
      (sound py graph surface o).map fun sound => if sound = true then .accepted ("observation:" ++ o.id) else .untrusted
    else .ok .untrusted

/-! ## Jobs -/

inductive Judgement where
  | unlabelled | unreconciled | credited
  deriving DecidableEq

/-- `item.metadata["findings"]`, where it is there. -/
def reportedFindings (records : List Observation) : List Json :=
  records.filterMap fun o => (o.metadata.find? fun field => decide (field.1 = "findings")).map (·.2)

/-- A count of findings, none where it is malformed. -/
def count? : Json → Option Nat
  | .int n => if 0 ≤ n then some n.toNat else none
  | _ => none

/-- The count of the recorded findings that a scan of some assets and endpoints covers. -/
def matchedFindingCount (graph : ObservationGraph) (assets endpoints : Finset String) : Nat :=
  (graph.byKind .finding).countP fun finding =>
    let lineage := linkedLineageIds graph finding
    decide (lineage.1 ≠ ∅ ∧ lineage.1 ⊆ assets ∧ (endpoints = ∅ ∨ (lineage.2 ≠ ∅ ∧ lineage.2 ⊆ endpoints)))

/-- `set().union(…)` -/
def unionAll (sets : List (Finset String)) : Finset String := sets.foldr (fun set rest => set ∪ rest) ∅

/-- `_asset_claim_identity(asset_values.get(asset_id))` -/
def claimOf (graph : ObservationGraph) (id : String) : Option Claim :=
  (assetValue? graph id).bind fun value => assetClaimIdentity py value.toList

/-- The body of the loop over the jobs. -/
def judge (graph : ObservationGraph) (records : List Observation) : Judgement :=
  let sources : Finset String := (records.map fun o => PyText.strip o.source).toFinset
  if sources.card ≠ 1 ∨ sources = {""} then .unlabelled
  else
    let reported := reportedFindings records
    let malformed := reported.any fun value => (count? value).isNone
    let counts := reported.filterMap count?
    let assets := unionAll (records.map fun o => (linkedLineageIds graph o).1)
    let claims : Finset (Option Claim) := assets.image (claimOf py graph)
    let endpointClaims : Finset (Finset String) := (records.map fun o => (linkedLineageIds graph o).2).toFinset
    let endpoints := unionAll (records.map fun o => (linkedLineageIds graph o).2)
    let missing := counts.any fun n => decide (matchedFindingCount graph assets endpoints < n)
    let ambiguousAsset := decide (claims.card ≠ 1 ∨ claims = {none})
    let ambiguousEndpoint := decide (1 < endpointClaims.card) && records.any fun o => decide ((linkedLineageIds graph o).2 ≠ ∅)
    if malformed = true ∨ 1 < counts.toFinset.card ∨ missing = true ∨
        ((ambiguousEndpoint || ambiguousAsset) && counts.any fun n => decide (n ≠ 0)) = true then .unreconciled
    else .credited

/-- What `_completed_scans_with_provenance` returns. -/
structure Accounting where
  representatives : List Observation
  duplicate : Int
  untrusted : Int
  unreconciled : Int

def Class.tainted? : Class → Option String
  | tainted identity => some identity
  | _ => none

def Class.accepted? : Class → Option String
  | accepted identity => some identity
  | _ => none

/-- The records that are accepted, each with its identity, unless another one has tainted the job. -/
def keptOf (classified : List (Observation × Class)) : List (String × Observation) :=
  (classified.filterMap fun entry => entry.2.accepted?.map fun identity => (identity, entry.1)).filter
    fun entry => decide (entry.1 ∉ classified.filterMap fun other => other.2.tainted?)

/-- `jobs`, in the order of the identities. -/
def jobsOf (kept : List (String × Observation)) : List (List Observation) :=
  (sortedSet (kept.map (·.1))).map fun identity => (kept.filter fun entry => decide (entry.1 = identity)).map (·.2)

/-- How many records some jobs have. -/
def total (jobs : List (List Observation)) : Nat := (jobs.map List.length).sum

/-- `min(records, key=lambda item: item.id)` -/
def representative? (records : List Observation) : Option Observation := (SortByKey.sortByKey Observation.id records).head?

/-- The loops after the classification. -/
def account (graph : ObservationGraph) (classified : List (Observation × Class)) : Accounting :=
  let kept := keptOf classified
  let jobs := jobsOf kept
  let credited := jobs.filter fun records => decide (judge py graph records = .credited)
  let representatives := credited.filterMap representative?
  { representatives
    duplicate := total credited - representatives.length
    untrusted := classified.length - kept.length + total (jobs.filter fun records => decide (judge py graph records ≠ .credited))
    unreconciled := total (jobs.filter fun records => decide (judge py graph records = .unreconciled)) }

/-- The completed scans that are recorded. -/
def completedScans (graph : ObservationGraph) : List Observation := (graph.byKind .evidence).filter isCompletedScan

/-- `_completed_scans_with_provenance`; the surface is asked only when there is a scope checker. -/
def completedScansWithProvenance (graph : ObservationGraph) (surface : Option Surface) : Except PyError Accounting :=
  ((completedScans graph).mapM fun o => (classify py graph surface o).map fun c => (o, c)).map (account py graph)

/-- The accounting of `build_evidence_coverage`; a `ValueError` of the checker is one of the whole. -/
def scanAccounting (graph : ObservationGraph) : Option (Text → Option Bool) → Except PyError Accounting
  | none => completedScansWithProvenance py graph none
  | some scopeChecker =>
    match buildAttackSurface py.unicode scopeChecker graph with
    | none => .error (.valueError "invalid host")
    | some surface => completedScansWithProvenance py graph (some surface)

end ScanCoverage

end XbowPerso
