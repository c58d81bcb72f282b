import XbowPerso.AuditSeal
import XbowPerso.Lib.ByKey
import XbowPerso.Lib.PyUrl

/-!
# The preview of an OpenAPI document

`build_openapi_read_only_preview` makes a case of every operation that only reads. What a case says of authentication and of its
parameters is modelled here; its other parts (texts, tags, responses, signals and their priority) are taken as they come.
-/

namespace XbowPerso

/-- What the preview takes from the interpreter. -/
structure OpenApiEnv where
  unicode : Unicode
  /-- `str(value)` -/
  str : Json → String
  str_str : ∀ s, str (.str s) = s

namespace OpenApiPreview

open AuditSeal (truthy)
open PyText (strip)

/-- The fields of an object. -/
abbrev Fields := List (String × Json)

/-- `fields.get(key)` -/
def get? (fields : Fields) (key : String) : Option Json := (fields.find? fun f => decide (f.1 = key)).map Prod.snd

/-- `fields.get(key)`, where a key that is missing counts as a null. -/
def get (fields : Fields) (key : String) : Json := (get? fields key).getD .null

def previewError {α : Type} (message : String) : Except PyError α := .error (.valueError message)

variable (env : OpenApiEnv)

/-- `text.lower()` -/
def lower (text : String) : String := String.ofList (env.unicode.lower text.toList)

/-- `str(fields.get(key) or "").strip()` -/
def fieldText (fields : Fields) (key : String) : String :=
  let value := get fields key
  strip (if truthy value then env.str value else "")

/-! ## Security -/

/-- `MAX_SECURITY_REFERENCES` -/
def maxSecurityReferences : Nat := 100

/-- `MAX_SECURITY_SCHEME_NAME_LENGTH` -/
def maxSchemeNameLength : Nat := 160

/-- The names of the schemes of an alternative; what is no object names none. -/
def alternativeNames : Json → List String
  | .obj fields => fields.map Prod.fst
  | _ => []

/-- The loop over the names, with the set of those so far; it ends when the set is full. -/
def collectNames (names : List String) : List String → Except PyError (List String)
  | [] => .ok names
  | rawName :: rest =>
    let name := strip rawName
    if maxSchemeNameLength < name.length then previewError "OpenAPI security scheme reference exceeds 160 characters"
    else
      let names := if name = "" ∨ name ∈ names then names else names ++ [name]
      if maxSecurityReferences ≤ names.length then .ok names else collectNames names rest

/-- `_security_requirement_names` -/
def securityRequirementNames : Json → Except PyError (List String)
  | .arr alternatives =>
    match collectNames [] (alternatives.flatMap alternativeNames) with
    | .error e => .error e
    | .ok names => .ok (names.insertionSort fun a b => a ≤ b)
  | _ => .ok []

/-- The security requirement that holds for an operation: its own, or that of the document. -/
def effectiveSecurity (document operation : Fields) : Json := (get? operation "security").getD (get document "security")

inductive SecuritySource where
  | operation | document | none
  deriving DecidableEq

def securitySource (document operation : Fields) : SecuritySource :=
  if (get? operation "security").isSome then .operation
  else if (get? document "security").isSome then .document
  else .none

/-- `operation.get("security") == []` for an operation that has one. -/
def explicitlyPublic (operation : Fields) : Bool :=
  match get? operation "security" with
  | some (.arr []) => true
  | _ => false

/-! ## Parameters -/

/-- `MAX_PARAMETER_NAME_LENGTH` -/
def maxParameterNameLength : Nat := 160

/-- `MAX_PARAMETER_SCHEMA_TYPE_LENGTH` -/
def maxSchemaTypeLength : Nat := 80

/-- The parameters that a case has at most. -/
def maxParameters : Nat := 100

/-- A parameter of a case. -/
structure Parameter where
  name : String
  location : String
  required : Bool
  schemaType : Option String
  deriving DecidableEq

/-- An inline parameter with a name and a known location. -/
structure Declaration where
  name : String
  location : String
  fields : Fields

def knownLocations : List String := ["path", "query", "header", "cookie"]

/-- The lines that pass over an item of a list of parameters. -/
def declaration? : Json → Option Declaration
  | .obj fields =>
    if (get? fields "$ref").isSome then none
    else
      let name := fieldText env fields "name"
      let location := lower env (fieldText env fields "in")
      if name = "" ∨ location ∉ knownLocations then none else some ⟨name, location, fields⟩
  | _ => none

/-- The declarations of a path item or of an operation. -/
def declarations (source : Fields) : List Declaration :=
  match get source "parameters" with
  | .arr items => items.filterMap (declaration? env)
  | _ => []

namespace Declaration

variable (d : Declaration)

/-- The key under which a parameter is seen: its name in lower case, wherever it stands. -/
def seenKey : String × String := (d.location, lower env d.name)

/-- `schema_type` -/
def schemaType : String :=
  match get d.fields "schema" with
  | .obj schema => fieldText env schema "type"
  | _ => ""

/-- The parameter that a declaration becomes. -/
def parameter : Parameter where
  name := d.name
  location := d.location
  required := truthy (get d.fields "required") || decide (d.location = "path")
  schemaType := if d.schemaType env = "" then none else some (d.schemaType env)

end Declaration

theorem any_seen (key : String × String) (seen : List (String × String)) :
    (seen.any fun other => decide (other = key)) = true ↔ key ∈ seen := by
  simp only [List.any_eq_true, decide_eq_true_eq, exists_eq_right]

local instance decidableSeen (key : String × String) (seen : List (String × String)) : Decidable (key ∈ seen) :=
  decidable_of_iff _ (any_seen key seen)

/-- The loop over the declarations, with the keys seen and the parameters so far. -/
def normalize (seen : List (String × String)) (normalized : List Parameter) : List Declaration → Except PyError (List Parameter)
  | [] => .ok normalized
  | d :: rest =>
    if maxParameterNameLength < d.name.length then previewError "OpenAPI parameter name exceeds 160 characters"
    else if d.seenKey env ∈ seen then normalize seen normalized rest
    else if maxSchemaTypeLength < (d.schemaType env).length then previewError "OpenAPI parameter schema type exceeds 80 characters"
    else
      let normalized := normalized ++ [d.parameter env]
      if maxParameters ≤ normalized.length then .ok normalized else normalize (d.seenKey env :: seen) normalized rest

/-- `_normalized_parameters` -/
def normalizedParameters (pathItem operation : Fields) : Except PyError (List Parameter) :=
  normalize env [] [] (declarations env pathItem ++ declarations env operation)

/-! ## Cases -/

/-- The parts of a case that are taken as they come: those before its security, and those after its parameters. -/
structure Parts (η τ : Type) where
  head : Fields → Except PyError η
  tail : Fields → String → Fields → List Parameter → Bool → Except PyError τ
  priority : τ → Int

/-- `OpenApiTestCase` -/
structure Case (η τ : Type) where
  method : String
  path : String
  head : η
  authenticationDeclared : Bool
  securitySchemeNames : List String
  securitySource : SecuritySource
  explicitlyPublic : Bool
  parameters : List Parameter
  tail : τ

variable {η τ : Type} (parts : Parts η τ) (document : Fields)

/-- The case of an operation. -/
def makeCase (path : String) (pathItem : Fields) (method : String) (operation : Fields) : Except PyError (Case η τ) :=
  match parts.head operation with
  | .error e => .error e
  | .ok head =>
    let security := effectiveSecurity document operation
    match securityRequirementNames security with
    | .error e => .error e
    | .ok names =>
      match normalizedParameters env pathItem operation with
      | .error e => .error e
      | .ok parameters =>
        match parts.tail document path operation parameters (truthy security) with
        | .error e => .error e
        | .ok tail =>
          .ok ⟨method, path, head, truthy security, names, securitySource document operation, explicitlyPublic operation, parameters, tail⟩

/-- `READ_ONLY_METHODS` -/
def readOnlyMethods : List String := ["get", "head", "options"]

/-- What a field of a path item is to the preview: an operation that only reads, one that may write, something invalid, or no operation. -/
inductive FieldKind where
  | reads (method : String) (operation : Fields)
  | writes
  | invalid
  | other

def fieldKind (field : String × Json) : FieldKind :=
  let normalized := lower env field.1
  if ['x', '-'].isPrefixOf normalized.toList = true ∨ normalized ∈ ["parameters", "summary", "description", "$ref"] then .other
  else if normalized ∉ readOnlyMethods then
    if normalized ∈ ["post", "put", "patch", "delete", "trace"] then .writes else .other
  else
    match field.2 with
    | .obj operation => .reads (normalized.map Char.toUpper) operation
    | _ => .invalid

/-- `MAX_CASES` -/
def maxCases : Nat := 500

/-- The cases and the counts of what was skipped. -/
structure Progress (η τ : Type) where
  cases : List (Case η τ)
  skippedMutating : Nat
  skippedInvalid : Nat

/-- The loop over the fields of a path item. -/
def addFields (path : String) (pathItem : Fields) (progress : Progress η τ) : Fields → Except PyError (Progress η τ)
  | [] => .ok progress
  | field :: rest =>
    match fieldKind env field with
    | .other => addFields path pathItem progress rest
    | .writes => addFields path pathItem { progress with skippedMutating := progress.skippedMutating + 1 } rest
    | .invalid => addFields path pathItem { progress with skippedInvalid := progress.skippedInvalid + 1 } rest
    | .reads method operation =>
      match makeCase env parts document path pathItem method operation with
      | .error e => .error e
      | .ok made =>
        let cases := progress.cases ++ [made]
        if maxCases < cases.length then previewError "OpenAPI preview exceeds 500 cases"
        else addFields path pathItem { progress with cases := cases } rest

/-- `MAX_PATH_LENGTH` -/
def maxPathLength : Nat := 2048

/-- The loop over the paths. -/
def addPaths (progress : Progress η τ) : Fields → Except PyError (Progress η τ)
  | [] => .ok progress
  | (path, .obj pathItem) :: rest =>
    if path.toList.head? ≠ some '/' then addPaths { progress with skippedInvalid := progress.skippedInvalid + 1 } rest
    else if maxPathLength < path.length then previewError "OpenAPI path exceeds 2048 characters"
    else
      match addFields env parts document path pathItem progress pathItem with
      | .error e => .error e
      | .ok progress => addPaths progress rest
  | _ :: rest => addPaths { progress with skippedInvalid := progress.skippedInvalid + 1 } rest

/-- `MAX_DOCUMENT_BYTES` -/
def maxDocumentBytes : Nat := 2 * 1024 * 1024

/-- `MAX_PATHS` -/
def maxPaths : Nat := 250

/-- `MAX_SOURCE_VERSION_LENGTH` -/
def maxSourceVersionLength : Nat := 40

/-- `str(document.get("openapi") or document.get("swagger") or "").strip()` -/
def sourceVersion (document : Fields) : String :=
  if truthy (get document "openapi") then fieldText env document "openapi" else fieldText env document "swagger"

/-- The order of the cases: the higher priority first, then the path, then the method. -/
def caseLe (a b : Case η τ) : Prop :=
  parts.priority b.tail < parts.priority a.tail ∨
    parts.priority a.tail = parts.priority b.tail ∧ (a.path < b.path ∨ a.path = b.path ∧ a.method ≤ b.method)

instance : DecidableRel (caseLe parts) := fun _ _ => inferInstanceAs (Decidable (_ ∨ _))

/-- `build_openapi_read_only_preview`: the cases, and the counts of what was skipped. -/
def buildPreview (document : Fields) : Except PyError (Progress η τ) :=
  if maxDocumentBytes < (Json.obj document).dumpsSorted.utf8ByteSize then previewError "OpenAPI document exceeds 2097152 bytes"
  else if sourceVersion env document = "" then previewError "OpenAPI/Swagger version is required"
  else if maxSourceVersionLength < (sourceVersion env document).length then
    previewError "OpenAPI/Swagger version exceeds 40 characters"
  else
    match get document "paths" with
    | .obj paths =>
      if maxPaths < paths.length then previewError "OpenAPI document exceeds 250 paths"
      else
        match addPaths env parts document ⟨[], 0, 0⟩ (Json.sortFields paths) with
        | .error e => .error e
        | .ok progress => .ok { progress with cases := progress.cases.insertionSort (caseLe parts) }
    | _ => previewError "OpenAPI paths must be an object"

end OpenApiPreview

end XbowPerso
