import XbowPerso.RunnerRpc
import XbowPerso.Lib.Dict
import XbowPerso.Lib.Json
import XbowPerso.Lib.PosixPath

/-!
# Admission of a manifest

`build_strix_manifest_admission_plan`: the entries and the environment of a manifest as metadata, in the order of their paths and
keys, and the digest of its canonical text. An attribute that the code only compares or tests is the value it is compared with or
the result of the test; the version and the root are kept as they are, since they go into the text.
-/

namespace XbowPerso

open RunnerRpc (isHexOfLength)

/-- The SHA-256 digest of the standard library, in hexadecimal. -/
structure Sha256 where
  hex : List UInt8 → String
  hex_valid : ∀ bytes, isHexOfLength 64 (hex bytes) = true

/-- `text.encode("utf-8")`. -/
def utf8 (s : String) : List UInt8 := s.toUTF8.data.toList

@[simp] theorem length_utf8 (s : String) : (utf8 s).length = s.utf8ByteSize := Array.length_toList

theorem utf8_injective : Function.Injective utf8 := by
  intro s t h
  have hdata : s.toUTF8.data = t.toUTF8.data := Array.toList_inj.mp h
  exact String.toByteArray_inj.mp (ByteArray.ext hdata)

/-- A text of Python. One with a lone surrogate has no UTF-8 form; it is given by its code points. -/
inductive PyStr where
  | text (s : String)
  | surrogates (codePoints : List Nat)
  deriving DecidableEq

/-- A key of a mapping: a text, a path with its POSIX form, or some other object. -/
inductive PyKey where
  | str (s : PyStr)
  | path (posix : PyStr)
  | other (identity : Nat)
  deriving DecidableEq

namespace ManifestAdmission

def schema : String := "strix-manifest-admission-v1"

def maxEntries : Nat := 128
def maxEntryPathBytes : Nat := 512
def maxInlineFileBytes : Nat := 1024 * 1024
def maxTotalInlineFileBytes : Nat := 4 * 1024 * 1024
def maxEnvVars : Nat := 64
def maxEnvKeyBytes : Nat := 128
def maxEnvValueBytes : Nat := 4096
def maxTotalEnvValueBytes : Nat := 16 * 1024
def maxLocalSourcePathBytes : Nat := 4096

/-- An entry of a manifest: its type, its content where that is bytes, and its source as a text where there is one. -/
structure Entry where
  kind : Option String
  content : Option (List UInt8)
  src : Option PyStr

/-- A manifest. The entries and the values of the environment are none where they are not mappings; a value of the environment is
none where it is not a text. -/
structure Manifest where
  version : Json
  root : Json
  hasUsers : Bool
  hasGroups : Bool
  hasExtraPathGrants : Bool
  entries : Option (Dict PyKey Entry)
  environment : Option (Dict PyKey (Option PyStr))

/-- `StrixManifestEntryPlan`. -/
structure EntryPlan where
  path : String
  kind : String
  contentBytes : Option Nat
  contentSha256 : Option String
  localSourcePresent : Bool
  localSourcePathRedacted : Bool
  localSourcePathSha256 : Option String
  localSourceContentSha256 : Option String
  localSourceContentInspected : Bool
  contentUploaded : Bool

/-- `StrixManifestEnvironmentPlan`. -/
structure EnvironmentPlan where
  key : String
  valueBytes : Nat
  valueSha256 : String

/-- `StrixManifestAdmissionPlan`. -/
structure AdmissionPlan where
  schema : String
  manifestVersion : Json
  root : Json
  entries : List EntryPlan
  environment : List EnvironmentPlan
  entryCount : Nat
  inlineFileCount : Nat
  localDirCount : Nat
  inlineFileBytes : Nat
  environmentValueBytes : Nat
  hostPathsIncluded : Bool
  rawFileContentIncluded : Bool
  filesystemIoPerformed : Bool
  manifestMaterialized : Bool
  uploadEnabled : Bool
  manifestDigest : String

/-! ## Texts and paths -/

/-- `ord(char) < 0x20 or ord(char) == 0x7F`. -/
def isControl (c : Char) : Bool := c.toNat < 0x20 || c.toNat == 0x7F

/-- `_safe_text` on a text. -/
def safeText (value : PyStr) (name : String) (maxBytes : Nat) : Except String String :=
  match value with
  | .surrogates _ => .error (name ++ " is invalid")
  | .text s =>
    if s = "" ∨ maxBytes < s.length then .error (name ++ " is invalid")
    else if maxBytes < s.utf8ByteSize ∨ s.toList.any isControl = true then .error (name ++ " is invalid")
    else .ok s

/-- `str(path)` of the pure path. -/
def pureText (raw : List Char) : List Char :=
  if PosixPath.pureParts raw = [] then ['.'] else PosixPath.join (PosixPath.pureParts raw)

/-- The lines of `_normalize_entry_path` after the check of the text. -/
def normalizeRaw (raw : String) : Except String String :=
  if '\\' ∈ raw.toList then .error "manifest entry path must use POSIX separators"
  else if raw.toList.head? = some '/' then .error "manifest entry path must be workspace-relative"
  else if PosixPath.pureParts raw.toList = [] ∨ (PosixPath.pureParts raw.toList).any PosixPath.isDots = true ∨
      pureText raw.toList ≠ PosixPath.stripSlashes raw.toList then
    .error "manifest entry path is invalid"
  else .ok (String.ofList (pureText raw.toList))

/-- `_normalize_entry_path` on the text of the path. -/
def normalizeText (rawValue : PyStr) : Except String String :=
  match safeText rawValue "manifest entry path" maxEntryPathBytes with
  | .error e => .error e
  | .ok raw => normalizeRaw raw

/-- `_normalize_entry_path`. -/
def normalizeEntryPath (value : PyKey) : Except String String :=
  match value with
  | .path posix => normalizeText posix
  | .str s => normalizeText s
  | .other _ => .error "manifest entry path must be text or Path"

/-! ## The entries -/

/-- `_entry_kind`. -/
def entryKind (entry : Entry) : Except String String :=
  match entry.kind with
  | some kind => if kind = "file" ∨ kind = "local_dir" then .ok kind else .error "manifest entry type is unsupported"
  | none => .error "manifest entry type is unsupported"

/-- The plan of a file. -/
def filePlan (sha : Sha256) (path : String) (content : List UInt8) : EntryPlan where
  path := path
  kind := "file"
  contentBytes := some content.length
  contentSha256 := some (sha.hex content)
  localSourcePresent := false
  localSourcePathRedacted := false
  localSourcePathSha256 := none
  localSourceContentSha256 := none
  localSourceContentInspected := false
  contentUploaded := false

/-- The plan of a local directory. -/
def localDirPlan (sha : Sha256) (path sourceText : String) : EntryPlan where
  path := path
  kind := "local_dir"
  contentBytes := none
  contentSha256 := none
  localSourcePresent := true
  localSourcePathRedacted := true
  localSourcePathSha256 := some (sha.hex (utf8 sourceText))
  localSourceContentSha256 := none
  localSourceContentInspected := false
  contentUploaded := false

/-- `_plan_file`. -/
def planFile (sha : Sha256) (path : String) (entry : Entry) : Except String EntryPlan :=
  match entry.content with
  | none => .error "manifest file content must be bytes"
  | some content =>
    if maxInlineFileBytes < content.length then .error "manifest inline file exceeds byte limit"
    else .ok (filePlan sha path content)

/-- `_plan_local_dir`. -/
def planLocalDir (sha : Sha256) (path : String) (entry : Entry) : Except String EntryPlan :=
  match entry.src with
  | none => .error "manifest local directory source is unavailable"
  | some source =>
    match safeText source "manifest local directory source" maxLocalSourcePathBytes with
    | .error e => .error e
    | .ok sourceText => .ok (localDirPlan sha path sourceText)

/-- The loop of `_plan_entries`: what is planned so far, and the bytes of its files. -/
def planEntryItems (sha : Sha256) (planned : List EntryPlan) (total : Nat) :
    List (PyKey × Entry) → Except String (List EntryPlan)
  | [] => .ok planned
  | (rawPath, entry) :: rest =>
    match normalizeEntryPath rawPath with
    | .error e => .error e
    | .ok path =>
      if path ∈ planned.map (·.path) then .error "manifest contains duplicate normalized entry paths"
      else
        match entryKind entry with
        | .error e => .error e
        | .ok kind =>
          if kind = "file" then
            match planFile sha path entry with
            | .error e => .error e
            | .ok item =>
              if maxTotalInlineFileBytes < total + item.contentBytes.getD 0 then
                .error "manifest inline content exceeds total byte limit"
              else planEntryItems sha (planned ++ [item]) (total + item.contentBytes.getD 0) rest
          else
            match planLocalDir sha path entry with
            | .error e => .error e
            | .ok item => planEntryItems sha (planned ++ [item]) total rest

/-- A path and a proper ancestor of it among the paths. -/
def overlaps (paths : List String) : Bool :=
  paths.any fun path => (PosixPath.ancestors path.toList).any fun p => decide (String.ofList p ∈ paths)

/-- `_plan_entries`. -/
def planEntries (sha : Sha256) (entries : Option (Dict PyKey Entry)) : Except String (List EntryPlan) :=
  match entries with
  | none => .error "manifest entries must be a mapping"
  | some entries =>
    if maxEntries < entries.size then .error "manifest entry count exceeds limit"
    else
      match planEntryItems sha [] 0 entries.entries with
      | .error e => .error e
      | .ok planned =>
        if overlaps (planned.map (·.path)) = true then .error "manifest entry paths overlap"
        else .ok (planned.insertionSort (fun a b => a.path ≤ b.path))

/-! ## The environment -/

def isKeyStart (c : Char) : Bool := (decide ('A' ≤ c) && decide (c ≤ 'Z')) || (decide ('a' ≤ c) && decide (c ≤ 'z')) || c = '_'

def isKeyChar (c : Char) : Bool := isKeyStart c || (decide ('0' ≤ c) && decide (c ≤ '9'))

/-- `_ENV_KEY_RE.fullmatch`. -/
def isEnvKey (key : String) : Bool :=
  match key.toList with
  | [] => false
  | c :: cs => isKeyStart c && cs.all isKeyChar && decide (cs.length ≤ 127)

/-- The loop of `_plan_environment`. -/
def planEnvironmentItems (sha : Sha256) (planned : List EnvironmentPlan) (total : Nat) :
    List (PyKey × Option PyStr) → Except String (List EnvironmentPlan)
  | [] => .ok planned
  | (rawKey, rawValue) :: rest =>
    match rawKey with
    | .str rawKey =>
      match safeText rawKey "manifest environment key" maxEnvKeyBytes with
      | .error e => .error e
      | .ok key =>
        if isEnvKey key = false then .error "manifest environment key is invalid"
        else
          match rawValue with
          | none => .error "manifest environment supports literal string values only"
          | some (.surrogates codePoints) =>
            if maxEnvValueBytes < codePoints.length then .error "manifest environment value exceeds byte limit"
            else if 0 ∈ codePoints then .error "manifest environment value contains NUL"
            else .error "manifest environment value is invalid"
          | some (.text value) =>
            if maxEnvValueBytes < value.length then .error "manifest environment value exceeds byte limit"
            else if '\x00' ∈ value.toList then .error "manifest environment value contains NUL"
            else if maxEnvValueBytes < value.utf8ByteSize then .error "manifest environment value exceeds byte limit"
            else if maxTotalEnvValueBytes < total + value.utf8ByteSize then
              .error "manifest environment exceeds total byte limit"
            else
              planEnvironmentItems sha (planned ++ [⟨key, value.utf8ByteSize, sha.hex (utf8 value)⟩])
                (total + value.utf8ByteSize) rest
    | .path _ | .other _ => .error "manifest environment key must be text"

/-- `_plan_environment`. -/
def planEnvironment (sha : Sha256) (environment : Option (Dict PyKey (Option PyStr))) :
    Except String (List EnvironmentPlan) :=
  match environment with
  | none => .error "manifest environment must expose a value mapping"
  | some values =>
    if maxEnvVars < values.size then .error "manifest environment variable count exceeds limit"
    else
      match planEnvironmentItems sha [] 0 values.entries with
      | .error e => .error e
      | .ok planned => .ok (planned.insertionSort (fun a b => a.key ≤ b.key))

/-! ## The plan -/

/-- The bytes of the files of a plan. -/
def fileBytes (entries : List EntryPlan) : Nat :=
  ((entries.filter (fun e => e.kind = "file")).map (fun e => e.contentBytes.getD 0)).sum

/-- The bytes of the values of an environment. -/
def environmentBytes (environment : List EnvironmentPlan) : Nat := (environment.map (·.valueBytes)).sum

def jsonNat (n : Nat) : Json := .int n

/-- A value or `None`. -/
def jsonOption (f : α → Json) : Option α → Json
  | none => .null
  | some a => f a

/-- `StrixManifestEntryPlan.to_dict`. -/
def EntryPlan.toDict (e : EntryPlan) : List (String × Json) :=
  [("path", .str e.path), ("kind", .str e.kind), ("content_bytes", jsonOption jsonNat e.contentBytes),
    ("content_sha256", jsonOption .str e.contentSha256), ("local_source_present", .bool e.localSourcePresent),
    ("local_source_path_redacted", .bool e.localSourcePathRedacted),
    ("local_source_path_sha256", jsonOption .str e.localSourcePathSha256),
    ("local_source_content_sha256", jsonOption .str e.localSourceContentSha256),
    ("local_source_content_inspected", .bool e.localSourceContentInspected), ("content_uploaded", .bool e.contentUploaded)]

/-- `StrixManifestEnvironmentPlan.to_dict`. -/
def EnvironmentPlan.toDict (e : EnvironmentPlan) : List (String × Json) :=
  [("key", .str e.key), ("value_bytes", jsonNat e.valueBytes), ("value_sha256", .str e.valueSha256)]

/-- The payload of `_canonical_payload`. -/
def payload (version root : Json) (entries : List EntryPlan) (environment : List EnvironmentPlan) : List (String × Json) :=
  [("schema", .str schema), ("manifest_version", version), ("root", root),
    ("entries", .arr (entries.map fun e => .obj e.toDict)), ("environment", .arr (environment.map fun e => .obj e.toDict)),
    ("host_paths_included", .bool false), ("raw_file_content_included", .bool false),
    ("filesystem_io_performed", .bool false), ("manifest_materialized", .bool false), ("upload_enabled", .bool false)]

/-- The text of `_canonical_payload`, before it is encoded. -/
def canonicalPayload (version root : Json) (entries : List EntryPlan) (environment : List EnvironmentPlan) : String :=
  (Json.obj (payload version root entries environment)).dumpsSorted

/-- `build_strix_manifest_admission_plan`. -/
def buildStrixManifestAdmissionPlan (sha : Sha256) (manifest : Manifest) : Except String AdmissionPlan :=
  if Json.pyEq manifest.version (.int 1) = false then .error "manifest version is unsupported"
  else if Json.pyEq manifest.root (.str "/workspace") = false then .error "manifest root must be /workspace"
  else if manifest.hasUsers = true then .error "manifest users are unsupported by the prepared remote backend"
  else if manifest.hasGroups = true then .error "manifest groups are unsupported by the prepared remote backend"
  else if manifest.hasExtraPathGrants = true then
    .error "manifest extra_path_grants are unsupported by the prepared remote backend"
  else
    match planEntries sha manifest.entries with
    | .error e => .error e
    | .ok entries =>
      match planEnvironment sha manifest.environment with
      | .error e => .error e
      | .ok environment => .ok {
          schema := schema, manifestVersion := manifest.version, root := manifest.root
          entries := entries, environment := environment
          entryCount := entries.length
          inlineFileCount := entries.countP (fun e => e.kind = "file")
          localDirCount := entries.countP (fun e => e.kind = "local_dir")
          inlineFileBytes := fileBytes entries
          environmentValueBytes := environmentBytes environment
          hostPathsIncluded := false, rawFileContentIncluded := false, filesystemIoPerformed := false
          manifestMaterialized := false, uploadEnabled := false
          manifestDigest := sha.hex (utf8 (canonicalPayload manifest.version manifest.root entries environment)) }

/-- The text of the plan's own fields, in the canonical form of `_canonical_plan`. -/
def AdmissionPlan.canonicalJson (p : AdmissionPlan) : String :=
  (Json.obj [("schema", .str p.schema), ("manifest_version", p.manifestVersion), ("root", p.root),
    ("entries", .arr (p.entries.map fun e => .obj e.toDict)),
    ("environment", .arr (p.environment.map fun e => .obj e.toDict)), ("host_paths_included", .bool p.hostPathsIncluded),
    ("raw_file_content_included", .bool p.rawFileContentIncluded),
    ("filesystem_io_performed", .bool p.filesystemIoPerformed), ("manifest_materialized", .bool p.manifestMaterialized),
    ("upload_enabled", .bool p.uploadEnabled)]).dumpsSorted

end ManifestAdmission

end XbowPerso
