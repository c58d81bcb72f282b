import XbowPerso.ManifestAdmission
import XbowPerso.Lib.JsonRoundTrip

/-!
# The runner's check of a manifest plan

`verify_canonical_manifest_plan`: the text must be the canonical JSON of a plan, have the signed digest, and describe entries and an
environment that meet every limit and have the signed counts. The values of a dictionary are read after its keys are checked.
-/

namespace XbowPerso

namespace RunnerRpc

open ManifestAdmission (isControl isEnvKey)

def planSchema : String := "strix-manifest-admission-v1"

/-- `_PLAN_MAX_BYTES`. -/
def planMaxBytes : Nat := 256 * 1024

def planKeys : List String :=
  ["schema", "manifest_version", "root", "entries", "environment", "host_paths_included", "raw_file_content_included",
    "filesystem_io_performed", "manifest_materialized", "upload_enabled"]

def planFlags : List String :=
  ["host_paths_included", "raw_file_content_included", "filesystem_io_performed", "manifest_materialized", "upload_enabled"]

def planEntryKeys : List String :=
  ["path", "kind", "content_bytes", "content_sha256", "local_source_present", "local_source_path_redacted",
    "local_source_path_sha256", "local_source_content_sha256", "local_source_content_inspected", "content_uploaded"]

def planEnvKeys : List String := ["key", "value_bytes", "value_sha256"]

/-! ## Values of a dictionary -/

/-- A dictionary of JSON. -/
abbrev JsonDict := List (String × Json)

/-- `set(d) == keys`. -/
def exactKeys (d : JsonDict) (keys : List String) : Bool :=
  d.all (fun f => decide (f.1 ∈ keys)) && keys.all (fun k => decide (k ∈ d.map (·.1)))

/-- `d[key]` for a key that is there. -/
def item (d : JsonDict) (key : String) : Json := (d.lookup key).getD .null

def isStr (v : Json) (s : String) : Bool :=
  match v with
  | .str t => decide (t = s)
  | _ => false

def isBool (v : Json) (b : Bool) : Bool :=
  match v with
  | .bool c => c == b
  | _ => false

def isNull (v : Json) : Bool :=
  match v with
  | .null => true
  | _ => false

/-- `_plan_count`: the integer, where it is one within the bound. -/
def planCount? (v : Json) (upper : Nat) : Option Nat :=
  match v with
  | .int n => if 0 ≤ n ∧ n ≤ upper then some n.toNat else none
  | _ => none

/-- `_valid_digest` on a value of JSON: the digest, where it is one. -/
def validDigest? (v : Json) : Option String :=
  match v with
  | .str s => if isHexOfLength 64 s = true then some s else none
  | _ => none

/-- `_plan_path` on a text. -/
def isPlanPath (s : String) : Bool :=
  decide (s ≠ "") && decide (s.length ≤ 512) && decide (s.toList.head? ≠ some '/') && decide (s.toList.getLast? ≠ some '/') &&
    decide ('\\' ∉ s.toList) && !(PosixPath.segments s.toList).any PosixPath.isDots && !s.toList.any isControl &&
    decide (s.utf8ByteSize ≤ 512)

/-- `_plan_path` on a value of JSON: the path, where it is one. -/
def planPath? (v : Json) : Option String :=
  match v with
  | .str s => if isPlanPath s = true then some s else none
  | _ => none

/-! ## Entries and environment -/

/-- What the loop over the entries counts. -/
structure PlanTotals where
  files : Nat
  localDirs : Nat
  fileBytes : Nat
  deriving DecidableEq

/-- The lines of the loop over the entries that check an entry by itself: its path, and the bytes of its content when it is a file. -/
def checkEntry (v : Json) (paths : List String) : Except String (String × Option Nat) :=
  match v with
  | .obj d =>
    if exactKeys d planEntryKeys = false then .error "invalid plan entry metadata"
    else
      match planPath? (item d "path") with
      | none => .error "invalid plan entry path"
      | some path =>
        if path ∈ paths then .error "invalid plan entry path"
        else if (PosixPath.ancestors path.toList).any (fun p => decide (String.ofList p ∈ paths)) = true then
          .error "plan entry paths overlap"
        else if isBool (item d "local_source_content_inspected") false = false ∨ isBool (item d "content_uploaded") false = false ∨
            isNull (item d "local_source_content_sha256") = false then
          .error "unsafe plan entry metadata"
        else if isStr (item d "kind") "file" = true then
          match planCount? (item d "content_bytes") (1024 * 1024), validDigest? (item d "content_sha256") with
          | some bytes, some _ =>
            if isBool (item d "local_source_present") false = false ∨
                isBool (item d "local_source_path_redacted") false = false ∨
                isNull (item d "local_source_path_sha256") = false then
              .error "invalid inline file metadata"
            else .ok (path, some bytes)
          | _, _ => .error "invalid inline file metadata"
        else if isStr (item d "kind") "local_dir" = true then
          if isNull (item d "content_bytes") = false ∨ isNull (item d "content_sha256") = false ∨
              isBool (item d "local_source_present") true = false ∨
              isBool (item d "local_source_path_redacted") true = false ∨
              validDigest? (item d "local_source_path_sha256") = none then
            .error "invalid local directory metadata"
          else .ok (path, none)
        else .error "unsupported manifest entry type"
  | _ => .error "invalid plan entry metadata"

/-- One entry more. -/
def PlanTotals.add (t : PlanTotals) : Option Nat → PlanTotals
  | some bytes => { t with files := t.files + 1, fileBytes := t.fileBytes + bytes }
  | none => { t with localDirs := t.localDirs + 1 }

/-- The loop over the entries: the paths in their order, and the totals. -/
def checkEntries (paths : List String) (t : PlanTotals) : List Json → Except String (List String × PlanTotals)
  | [] => .ok (paths, t)
  | v :: vs =>
    match checkEntry v paths with
    | .error e => .error e
    | .ok (path, bytes) => checkEntries (paths ++ [path]) (t.add bytes) vs

/-- The loop over the environment: the keys in their order, and the bytes of the values. -/
def checkEnvironment (keys : List String) (total : Nat) : List Json → Except String (List String × Nat)
  | [] => .ok (keys, total)
  | v :: vs =>
    match v with
    | .obj d =>
      if exactKeys d planEnvKeys = false then .error "invalid environment metadata"
      else
        match item d "key", planCount? (item d "value_bytes") 4096, validDigest? (item d "value_sha256") with
        | .str key, some bytes, some _ =>
          if isEnvKey key = false ∨ key ∈ keys then .error "invalid environment metadata"
          else checkEnvironment (keys ++ [key]) (total + bytes) vs
        | _, _, _ => .error "invalid environment metadata"
    | _ => .error "invalid environment metadata"

/-- The counts that a ticket signs. -/
structure SignedCounts where
  entryCount : Nat
  inlineFileCount : Nat
  localDirCount : Nat
  inlineFileBytes : Nat
  environmentValueBytes : Nat
  deriving DecidableEq

/-- `sorted(texts)`. -/
def sortedTexts (texts : List String) : List String := texts.insertionSort (· ≤ ·)

/-- The checks of the entries and the environment of a plan. -/
def checkPlanLists (entries env : Json) (counts : SignedCounts) : Except String Unit :=
  match entries with
  | .arr entries =>
    if 128 < entries.length then .error "invalid manifest plan entries"
    else
      match env with
      | .arr env =>
        if 64 < env.length then .error "invalid manifest plan environment"
        else
          match checkEntries [] ⟨0, 0, 0⟩ entries with
          | .error e => .error e
          | .ok (paths, t) =>
            if paths ≠ sortedTexts paths ∨ 4 * 1024 * 1024 < t.fileBytes then
              .error "manifest entry order or byte limit invalid"
            else
              match checkEnvironment [] 0 env with
              | .error e => .error e
              | .ok (keys, envBytes) =>
                if keys ≠ sortedTexts keys ∨ 16 * 1024 < envBytes then .error "environment order or byte limit invalid"
                else if entries.length ≠ counts.entryCount ∨ t.files ≠ counts.inlineFileCount ∨
                    t.localDirs ≠ counts.localDirCount ∨ t.fileBytes ≠ counts.inlineFileBytes ∨
                    envBytes ≠ counts.environmentValueBytes then
                  .error "manifest plan differs from signed ticket counts"
                else .ok ()
      | _ => .error "invalid manifest plan environment"
  | _ => .error "invalid manifest plan entries"

/-- `verify_canonical_manifest_plan`: the length of the text in bytes. -/
def verifyCanonicalManifestPlan (sha : Sha256) (planJson manifestDigest : String) (counts : SignedCounts) :
    Except String Nat :=
  if planMaxBytes < planJson.length ∨ planMaxBytes < planJson.utf8ByteSize then
    .error "manifest plan length exceeds limit"
  else
    match Json.loads planJson with
    | none => .error "manifest plan must be canonical UTF-8 JSON"
    | some plan =>
      match plan with
      | .obj d =>
        if exactKeys d planKeys = false ∨ plan.dumpsSorted ≠ planJson then
          .error "manifest plan shape or encoding invalid"
        else if isHexOfLength 64 manifestDigest = false ∨ sha.hex (utf8 planJson) ≠ manifestDigest then
          .error "manifest plan does not match signed digest"
        else if isStr (item d "schema") planSchema = false ∨ planCount? (item d "manifest_version") 1 ≠ some 1 ∨
            isStr (item d "root") "/workspace" = false ∨ planFlags.any (fun k => !isBool (item d k) false) = true then
          .error "unsafe manifest plan invariants"
        else
          match checkPlanLists (item d "entries") (item d "environment") counts with
          | .error e => .error e
          | .ok () => .ok planJson.utf8ByteSize
      | _ => .error "manifest plan shape or encoding invalid"

/-! ## What a plan says of its entries -/

/-- `entry["path"]`. -/
def entryPath? (v : Json) : Option String :=
  match v with
  | .obj d =>
    match item d "path" with
    | .str path => some path
    | _ => none
  | _ => none

/-- The path, the digest and the size of an entry that is a file. -/
def planFile? (v : Json) : Option (String × String × Nat) :=
  match v with
  | .obj d =>
    if isStr (item d "kind") "file" = true then
      match item d "path", item d "content_sha256", item d "content_bytes" with
      | .str path, .str digest, .int bytes => some (path, digest, bytes.toNat)
      | _, _, _ => none
    else none
  | _ => none

/-- The entries of a plan's text. -/
def planEntries (planJson : String) : List Json :=
  match Json.loads planJson with
  | some (.obj d) =>
    match item d "entries" with
    | .arr entries => entries
    | _ => []
  | _ => []

end RunnerRpc

namespace ManifestAdmission

/-- The counts that are signed for a plan. -/
def AdmissionPlan.counts (p : AdmissionPlan) : RunnerRpc.SignedCounts :=
  ⟨p.entryCount, p.inlineFileCount, p.localDirCount, p.inlineFileBytes, p.environmentValueBytes⟩

end ManifestAdmission

end XbowPerso
