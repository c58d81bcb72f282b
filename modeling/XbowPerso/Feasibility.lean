import Mathlib.Data.List.Infix
import Mathlib.Data.Prod.Lex
import Mathlib.Logic.Function.Basic
import XbowPerso.AuditSeal
import XbowPerso.Lib.ByKey
import XbowPerso.Lib.PyDateTime
import XbowPerso.Lib.PyUrl
import XbowPerso.Storage

/-!
# The feasibility index of the HackerOne catalog

`refresh_hackerone_feasibility_batch` inspects some programs of the catalog and saves what it found with the catalog. The order in which
programs have their turn is computed anew by each call.
-/

namespace XbowPerso

namespace Feasibility

open AuditSeal (truthy)
open SortByKey (sortByKey)

abbrev Fields := List (String × Json)

/-- What the refresh takes from Python and from the settings. -/
structure Python where
  unicode : Unicode
  /-- `str(value)` -/
  str : Json → String
  str_str : ∀ s, str (.str s) = s
  storage : StorageSettings
  /-- `feasibility_initial_batch_size` -/
  initialBatchSize : Int
  /-- `feasibility_batch_size` -/
  regularBatchSize : Int

variable (py : Python)

/-! ## Fields -/

def lookup (fields : Fields) (key : String) : Option Json := (fields.find? fun field => decide (field.1 = key)).map (·.2)

/-- `fields.get(key)` -/
def get (fields : Fields) (key : String) : Json := (lookup fields key).getD .null

/-- `fields[key] = value` -/
def set (fields : Fields) (key : String) (value : Json) : Fields :=
  if key ∈ fields.map (·.1) then fields.map fun field => if field.1 = key then (key, value) else field
  else fields ++ [(key, value)]

/-- `str(fields.get(key) or "")` -/
def textOf (fields : Fields) (key : String) : String := if truthy (get fields key) = true then py.str (get fields key) else ""

def isTrue : Json → Bool
  | .bool b => b
  | _ => false

/-! ## The table of catalogs -/

structure CatalogRow where
  document : Fields
  version : Int

/-- The table `hackerone_catalog_state`. -/
abbrev Store := String → Option CatalogRow

def requiredFields : List String := ["id", "programs", "fingerprint", "checked_at", "updated_at"]

def maxPrograms : Nat := 5000

/-- `save_hackerone_catalog_state` -/
def saveCatalogState (store : Store) (document : Fields) (expectedVersion : Int) : Except PyError Store :=
  if ¬ requiredFields.all (fun key => (lookup document key).isSome) = true then
    .error (.valueError "HackerOne catalog document missing required fields")
  else
    match storageIdentifier (py.str (get document "id")) "hackerone_catalog_id" with
    | .error e => .error e
    | .ok id =>
      let document := set document "id" (.str id.text)
      match get document "programs" with
      | .arr programs =>
        if maxPrograms < programs.length then .error (.valueError "HackerOne catalog programs are invalid")
        else if py.storage.maxDocumentBytes < (Json.obj document).dumps.utf8ByteSize then
          .error (.valueError "HackerOne catalog document exceeds size limit")
        else
          match store id.text with
          | none =>
            if expectedVersion ≠ 0 then .error (.campaignConflictError "HackerOne catalog version conflict")
            else .ok (Function.update store id.text (some ⟨document, 1⟩))
          | some current =>
            if expectedVersion ≠ current.version then .error (.campaignConflictError "HackerOne catalog version conflict")
            else .ok (Function.update store id.text (some ⟨document, current.version + 1⟩))
      | _ => .error (.valueError "HackerOne catalog programs are invalid")

/-! ## Programs -/

def lowered (s : String) : String := String.ofList (py.unicode.lower (PyText.strip s).toList)

/-- `_open_bounty` -/
def openBounty (program : Fields) : Bool :=
  isTrue (get program "offers_bounties") &&
    (!decide (lowered py (textOf py program "submission_state") ∈ ["closed", "paused", "disabled"]) &&
      !decide (lowered py (textOf py program "state") ∈ ["closed", "disabled", "archived"]))

def fields? : Json → Option Fields
  | .obj fields => some fields
  | _ => none

/-- What is iterated over: the elements of a list; a dictionary has keys only, and no key is a program. -/
def elements : Json → List Json
  | .arr values => values
  | _ => []

/-- `programmes`, before they are sorted. -/
def openPrograms (catalog : Fields) : List Fields :=
  ((elements (get catalog "programs")).filterMap fields?).filter (openBounty py)

def handleOf (program : Fields) : String := textOf py program "handle"

def isGold (program : Fields) : Bool := isTrue (get program "gold_standard_safe_harbor")

/-- `existing` -/
def existingIndex (catalog : Fields) : List (String × Fields) :=
  match get catalog "feasibility_index" with
  | .obj entries => entries.filterMap fun entry => (fields? entry.2).map fun record => (entry.1, record)
  | _ => []

/-- `_checked_sort_key` -/
def checkedSortKey (handle : String) (existing : List (String × Fields)) : Nat ×ₗ String ×ₗ String :=
  match existing.find? fun entry => decide (entry.1 = handle) with
  | none => toLex (0, toLex ("", handle))
  | some (_, record) => toLex (if isTrue (get record "retryable") = true then 0 else 1, toLex (textOf py record "checked_at", handle))

/-- The key of the sort. -/
def sortKey (existing : List (String × Fields)) (program : Fields) : Nat ×ₗ (Nat ×ₗ String ×ₗ String) ×ₗ String :=
  toLex (if isGold program = true then 0 else 1, toLex (checkedSortKey py (handleOf py program) existing, handleOf py program))

/-- `limit` -/
def batchLimit (catalog : Fields) (batchSize : Option Int) : Int :=
  batchSize.getD (if (existingIndex catalog).isEmpty = true then py.initialBatchSize else py.regularBatchSize)

/-- `selected` -/
def selectedHandles (catalog : Fields) (batchSize : Option Int) : List String :=
  (((sortByKey (sortKey py (existingIndex catalog)) (openPrograms py catalog)).map (handleOf py)).filter fun handle =>
    decide (handle ≠ "")).take (max 1 (min 24 (batchLimit py catalog batchSize))).toNat

/-! ## Inspections -/

/-- `HackerOneClientError` -/
structure ClientError where
  message : String
  status : Option Int

def mentions (message part : String) : Bool := decide (part.toList <:+: message.toList)

/-- `_client_failure_reason` -/
def clientFailureReason (e : ClientError) : String × Bool :=
  let message := String.ofList (py.unicode.lower e.message.toList)
  if e.status = some 429 then ("hackerone_rate_limited", true)
  else if (e.status.any fun status => decide (500 ≤ status)) = true then ("hackerone_upstream_unavailable", true)
  else if mentions message "timed out" = true then ("hackerone_timeout", true)
  else if mentions message "connection failed" = true then ("hackerone_connection_failed", true)
  else if mentions message "i/o failed" = true then ("hackerone_io_failed", true)
  else if mentions message "not json" = true then ("hackerone_response_not_json", false)
  else if mentions message "structured scope is invalid" = true then ("hackerone_structured_scope_invalid", false)
  else if (["response has no", "response must be", "paginated response", "program policy is invalid", "program name is invalid",
      "handle mismatch"].any (mentions message)) = true then ("hackerone_response_shape_invalid", false)
  else
    match e.status with
    | some 401 => ("hackerone_http_401", false)
    | some 403 => ("hackerone_http_403", false)
    | some 404 => ("hackerone_http_404", false)
    | _ => ("hackerone_snapshot_invalid", false)

/-- What the review draft of a snapshot says. -/
structure Draft where
  usable : Bool
  blockers : List Json
  primaryUrl : String
  scopeMode : String
  snapshotSha256 : String

/-- What HackerOne answers about a program: an error of the client, a draft, or an error that is not caught. -/
inductive Answer where
  | failure (e : ClientError)
  | draft (draft : Draft)
  | raises (e : PyError)

/-- `_inspect_handle` -/
def inspectHandle (answer : Answer) (checkedAt : PyDateTime) (handle : String) : Except PyError Fields :=
  match answer with
  | .failure e =>
    let (reason, retryable) := clientFailureReason py e
    .ok [("handle", .str handle), ("status", .str (if retryable = true then "unavailable" else "blocked")),
      ("project_compatible", if retryable = true then .null else .bool false),
      ("blockers", .arr [.str (if retryable = true then "review_unavailable" else reason)]), ("failure_reason", .str reason),
      ("retryable", .bool retryable), ("upstream_status", (e.status.map Json.int).getD .null),
      ("checked_at", .str checkedAt.isoformat), ("contains_secrets", .bool false)]
  | .draft draft =>
    .ok [("handle", .str handle), ("status", .str (if draft.usable = true then "compatible" else "blocked")),
      ("project_compatible", .bool draft.usable), ("blockers", .arr draft.blockers), ("primary_url", .str draft.primaryUrl),
      ("scope_mode", .str draft.scopeMode), ("snapshot_sha256", .str draft.snapshotSha256),
      ("checked_at", .str checkedAt.isoformat), ("contains_secrets", .bool false)]
  | .raises e => .error e

/-! ## The refresh -/

/-- What a call meets: the answers about the programs and when they come, the order in which the inspections are over, the times of the
clock, and what other writers make of the table before the save. -/
structure Pass where
  answer : String → Answer
  checkedAt : String → PyDateTime
  completed : List String → List String
  completed_perm : ∀ handles, (completed handles).Perm handles
  indexedAt : PyDateTime
  updatedAt : PyDateTime
  meanwhile : Store → Store

/-- What a call returns: its `status`, and the handles that were checked. -/
inductive Outcome where
  | catalogNotInitialized
  | empty
  | conflict
  | refreshed (handles : List String)
  deriving DecidableEq

/-- The index of a catalog after some inspections: of the programs that are there still. -/
def updatedIndex (catalog : Fields) (results : List (String × Fields)) : Fields :=
  let existing : Fields := (existingIndex catalog).map fun entry => (entry.1, Json.obj entry.2)
  let updated := results.foldl (fun index result => set index result.1 (.obj result.2)) existing
  updated.filter fun entry => decide (entry.1 ≠ "") && (openPrograms py catalog).any fun program => decide (handleOf py program = entry.1)

/-- `refresh_hackerone_feasibility_batch` -/
def refreshFeasibilityBatch (pass : Pass) (store : Store) (batchSize : Option Int) : Except PyError Outcome × Store :=
  match store "current" with
  | none => (.ok .catalogNotInitialized, store)
  | some row =>
    let selected := selectedHandles py row.document batchSize
    if selected = [] then (.ok .empty, store)
    else
      let inspected := (pass.completed selected).mapM fun handle =>
        (inspectHandle py (pass.answer handle) (pass.checkedAt handle) handle).map fun record => (handle, record)
      match inspected with
      | .error e => (.error e, store)
      | .ok results =>
        let updated := set (set (set row.document "feasibility_index" (.obj (updatedIndex py row.document results)))
          "feasibility_updated_at" (.str pass.indexedAt.isoformat)) "updated_at" (.str pass.updatedAt.isoformat)
        match saveCatalogState py (pass.meanwhile store) updated row.version with
        | .error (.campaignConflictError _) => (.ok .conflict, pass.meanwhile store)
        | .error e => (.error e, pass.meanwhile store)
        | .ok saved => (.ok (.refreshed selected), saved)

end Feasibility

end XbowPerso
