import XbowPerso.HackerOneBinding

/-!
# The pages of a HackerOne collection

`get_all_pages` asks for one page after another and stops at a page that is short, or at its bound on pages;
`fetch_hackerone_program_snapshot` reads the structured scopes of a program with it and imports them. The remote side is the client's
`get_json`, for a path and a query.
-/

namespace XbowPerso

namespace HackerOnePaging

open HackerOneBinding (jsonSha256)
open HackerOneScope (ScopeEnv ScopePreview get importStructuredScope)

/-- `HackerOneClientError` -/
structure ClientError where
  message : String
  statusCode : Option Nat

abbrev Query := Dict String Json

/-- `get_json`: the fields of the object that a path and a query give. -/
structure Client where
  getJson : String → Query → Except ClientError (List (String × Json))

variable (client : Client)

def clientError {α : Type} (message : String) : Except ClientError α := .error ⟨message, none⟩

/-! ## Paging -/

/-- `_PAGE_SIZE` -/
def pageSizeLimit : Int := 100

/-- `_MAX_PAGES` -/
def maxPagesLimit : Int := 100

/-- The query for a page. -/
def pageQuery (query : Query) (number size : Nat) : Query :=
  (((query.erase "page[number]").erase "page[size]").set "page[number]" (.int number)).set "page[size]" (.int size)

def isObject : Json → Bool
  | .obj _ => true
  | _ => false

/-- The items of a page. -/
def pageData (document : List (String × Json)) : Except ClientError (List Json) :=
  match get document "data" with
  | .arr data =>
    if data.any (fun item => !isObject item) = true then clientError "HackerOne paginated response contains invalid items"
    else .ok data
  | _ => clientError "HackerOne paginated response has no data list"

/-- The loop over the pages, with how many it may still ask for, the number of the next one and the items so far. -/
def collect (path : String) (query : Query) (pageSize : Nat) : Nat → Nat → List Json → Except ClientError (List Json)
  | 0, _, items => .ok items
  | left + 1, number, items =>
    match client.getJson path (pageQuery query number pageSize) with
    | .error e => .error e
    | .ok document =>
      match pageData document with
      | .error e => .error e
      | .ok data =>
        if data.length < pageSize then .ok (items ++ data) else collect path query pageSize left (number + 1) (items ++ data)

/-- `get_all_pages` -/
def getAllPages (path : String) (query : Query) (maxPages pageSize : Int) : Except ClientError (List Json) :=
  if ¬ (1 ≤ maxPages ∧ maxPages ≤ maxPagesLimit) then clientError "HackerOne pagination max_pages is invalid"
  else if ¬ (1 ≤ pageSize ∧ pageSize ≤ pageSizeLimit) then clientError "HackerOne pagination page_size is invalid"
  else collect client path query pageSize.toNat maxPages.toNat 1 []

/-! ## The snapshot of a program -/

def handleChars : List Char := "abcdefghijklmnopqrstuvwxyz0123456789_-".toList

/-- `_validate_handle` -/
def validateHandle (u : Unicode) (handle : String) : Except ClientError String :=
  if handle.length < 1 ∨ 128 < handle.length then clientError "HackerOne program handle is invalid"
  else if handle ≠ PyText.strip handle ∨ handle.toList ≠ u.lower handle.toList then
    clientError "HackerOne program handle is invalid"
  else if handle.toList.head? = some '-' ∨ handle.toList.any (fun c => decide (c ∉ handleChars)) = true then
    clientError "HackerOne program handle is invalid"
  else .ok handle

/-- `_PROGRAM_FIELDS` -/
def programFields : List String :=
  ["handle", "name", "policy", "submission_state", "state", "offers_bounties", "open_scope", "fast_payments",
    "gold_standard_safe_harbor"]

/-- `_program_projection` -/
def programProjection (document : List (String × Json)) (expectedHandle : String) : Except ClientError (List (String × Json)) :=
  match get document "data" with
  | .obj data =>
    match get data "attributes" with
    | .obj attributes =>
      match get attributes "handle", get attributes "name", get attributes "policy" with
      | .str remoteHandle, name, policy =>
        if remoteHandle ≠ expectedHandle then clientError "HackerOne program handle mismatch"
        else
          match name with
          | .str text =>
            if PyText.strip text = "" then clientError "HackerOne program name is invalid"
            else
              match policy with
              | .str _ => .ok (programFields.map fun field => (field, get attributes field))
              | _ => clientError "HackerOne program policy is invalid"
          | _ => clientError "HackerOne program name is invalid"
      | _, _, _ => clientError "HackerOne program handle mismatch"
    | _ => clientError "HackerOne program response has no attributes object"
  | _ => clientError "HackerOne program response has no resource object"

/-- `_sorted_resources` -/
def sortedResources (resources : List Json) : List Json := resources.insertionSort fun a b => a.dumpsSorted ≤ b.dumpsSorted

/-- `HackerOneProgramSnapshot` -/
structure ProgramSnapshot where
  handle : String
  program : List (String × Json)
  document : Json
  scopeExclusions : List Json
  preview : ScopePreview
  snapshotSha256 : String

/-- The document that a list of scopes is imported from. -/
def scopeDocument (scopes : List Json) : Json := .obj [("data", .arr scopes), ("links", .obj [])]

def programPath (handle : String) : String := "hackers/programs/" ++ handle

def scopesPath (handle : String) : String := programPath handle ++ "/structured_scopes"

def exclusionsPath (handle : String) : String := programPath handle ++ "/scope_exclusions"

/-- What the digest of a snapshot is taken from. -/
def canonical (handle : String) (program : List (String × Json)) (scopes exclusions : List Json) : Json :=
  .obj [("handle", .str handle), ("program", .obj program), ("structured_scopes", .arr scopes), ("scope_exclusions", .arr exclusions)]

/-- The last lines of `fetch_hackerone_program_snapshot`, with everything that they need. -/
def makeSnapshot (env : ScopeEnv) (sha : Sha256) (handle : String) (program : List (String × Json)) (scopes exclusions : List Json) :
    Except ClientError ProgramSnapshot :=
  match importStructuredScope env (scopeDocument scopes) with
  | .error _ => clientError "HackerOne structured scope is invalid"
  | .ok preview =>
    .ok ⟨handle, program, scopeDocument scopes, exclusions, preview, jsonSha256 sha (canonical handle program scopes exclusions)⟩

/-- `fetch_hackerone_program_snapshot` -/
def fetchProgramSnapshot (env : ScopeEnv) (sha : Sha256) (handle : String) : Except ClientError ProgramSnapshot :=
  match validateHandle env.unicode handle with
  | .error e => .error e
  | .ok handle =>
    match client.getJson (programPath handle) .empty with
    | .error e => .error e
    | .ok document =>
      match programProjection document handle with
      | .error e => .error e
      | .ok program =>
        match getAllPages client (scopesPath handle) .empty maxPagesLimit pageSizeLimit with
        | .error e => .error e
        | .ok scopes =>
          match getAllPages client (exclusionsPath handle) .empty maxPagesLimit pageSizeLimit with
          | .error e => .error e
          | .ok exclusions => makeSnapshot env sha handle program (sortedResources scopes) (sortedResources exclusions)

/-! ## The remote collection -/

/-- The remote side answers, as long as it does, with the pages of a collection; after the last one the pages are empty. The other
fields of an answer, its links among them, may be anything. -/
def Serves (path : String) (query : Query) (pageSize : Nat) (pages : List (List Json)) : Prop :=
  ∀ number document, 1 ≤ number → client.getJson path (pageQuery query number pageSize) = .ok document →
    get document "data" = .arr (pages.getD (number - 1) [])

/-- No page that has something comes after a short one. -/
def FullBefore (pageSize : Nat) (pages : List (List Json)) : Prop :=
  ∀ i page, pages[i]? = some page → page ≠ [] → ∀ j < i, pageSize ≤ (pages.getD j []).length

/-- And every page that has something is within the bound. -/
def Exhaustible (maxPages pageSize : Nat) (pages : List (List Json)) : Prop :=
  FullBefore pageSize pages ∧ ∀ i page, pages[i]? = some page → page ≠ [] → i < maxPages

end HackerOnePaging

end XbowPerso
