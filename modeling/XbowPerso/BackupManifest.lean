import XbowPerso.AuditSeal

/-!
# Manifests of backups

`dr_manifest`: a manifest lists the artifacts of a backup and is sealed with the audit key, verification compares it with the files, and
the restore preflight blocks what verification does not report valid. Manifests of version 1 predate the seal.
-/

namespace XbowPerso

namespace BackupManifest

open AuditSeal (compareDigest)

/-- A parsed manifest document. -/
abbrev Manifest := AuditEntry

/-- `_LEGACY_SIGNATURE_FIELDS` -/
def legacySignatureFields : List String := ["manifest_signature", "manifest_signature_alg", "integrity_mode"]

/-- `_V2_SIGNATURE_FIELDS` -/
def v2SignatureFields : List String := ["manifest_signature", "manifest_signature_alg"]

/-- `_V2_INTEGRITY_MODE` -/
def v2IntegrityMode : String := "sha256-artifacts+hmac-sha256-manifest"

/-- `version == n` -/
def isVersion (manifest : Manifest) (n : Int) : Bool := (manifest.get "version").pyEq (.int n)

/-- `_canonical_manifest` -/
def canonicalManifest (manifest : Manifest) : List UInt8 :=
  manifest.canonicalWithout (if isVersion manifest 1 then legacySignatureFields else v2SignatureFields)

/-- `DisasterRecoveryError` -/
def recoveryError (message : String) : PyError := .runtimeError message

/-- `value in (None, "")` -/
def isUnset (value : Json) : Bool := value.pyEq .null || value.pyEq (.str "")

/-- `resolve_secret`, whose errors are those of the recovery. -/
def resolved (message : String) : ResolvedSecret → Except PyError (Option String)
  | .error _ => .error (recoveryError message)
  | .ok secret => .ok (ResolvedSecret.key (.ok secret))

variable (env : AuditEnv) (secret : ResolvedSecret)

/-- `_seal_manifest` -/
def sealManifest (manifest : Manifest) : Except PyError Manifest :=
  match resolved "DR manifest signing key is unavailable" secret with
  | .error e => .error e
  | .ok none =>
    .ok (((manifest.set "manifest_signature_alg" .null trivial).set "manifest_signature" .null trivial).set "integrity_mode"
      (.str "sha256-artifacts") (distinct_str _))
  | .ok (some key) =>
    let sealed := ((manifest.set "version" (.int 2) (distinct_int _)).set "manifest_signature_alg" (.str "hmac-sha256")
      (distinct_str _)).set "integrity_mode" (.str v2IntegrityMode) (distinct_str _)
    .ok (sealed.set "manifest_signature" (.str (env.hmac key (canonicalManifest sealed))) (distinct_str _))

/-- `_verification_secret` -/
def verificationSecret : Except PyError String :=
  match resolved "DR manifest verification key is unavailable" secret with
  | .error e => .error e
  | .ok none => .error (recoveryError "DR manifest verification key is unavailable")
  | .ok (some key) => .ok key

/-- A digit of `int(text, 16)`, which takes the decimal digits of every script. -/
def isBase16Digit (c : Char) : Bool := (PyText.decimalValue? c).isSome || ('a' ≤ c && c ≤ 'f') || ('A' ≤ c && c ≤ 'F')

/-- Digits with single underscores between them; the flag says that a digit has to follow. -/
def readsDigits : Bool → List Char → Bool
  | needed, [] => !needed
  | needed, c :: rest => if c = '_' then !needed && readsDigits true rest else isBase16Digit c && readsDigits false rest

/-- `int(text, 16)` returns. -/
def readsBase16 (text : String) : Bool :=
  let unsigned := match PyText.stripChars text.toList with
    | '+' :: rest => rest
    | '-' :: rest => rest
    | digits => digits
  match unsigned with
  | '0' :: 'x' :: '_' :: rest => readsDigits true rest
  | '0' :: 'X' :: '_' :: rest => readsDigits true rest
  | '0' :: 'x' :: rest => readsDigits true rest
  | '0' :: 'X' :: rest => readsDigits true rest
  | digits => readsDigits true digits

/-- What follows the checks of the fields: the signature against the one of the key. -/
def compareSignature (manifest : Manifest) (signature : String) : Except PyError (Option Bool) :=
  match verificationSecret secret with
  | .error e => .error e
  | .ok key =>
    match compareDigest env (.str signature) (env.hmac key (canonicalManifest manifest)) with
    | .error e => .error e
    | .ok valid => .ok (some valid)

/-- `_verify_manifest_signature` -/
def verifyManifestSignature (manifest : Manifest) : Except PyError (Option Bool) :=
  let algorithm := manifest.get "manifest_signature_alg"
  let integrityMode := manifest.get "integrity_mode"
  if isVersion manifest 2 then
    match manifest.get "manifest_signature" with
    | .str signature =>
      if algorithm.pyEq (.str "hmac-sha256") = false ∨ integrityMode.pyEq (.str v2IntegrityMode) = false ∨ signature.length ≠ 64 ∨
          readsBase16 signature = false then
        .error (recoveryError "signed DR manifest authentication metadata is missing or invalid")
      else compareSignature env secret manifest signature
    | _ => .error (recoveryError "signed DR manifest authentication metadata is missing or invalid")
  else if isVersion manifest 1 then
    match manifest.get "manifest_signature" with
    | .null =>
      if isUnset algorithm = false then .error (recoveryError "legacy DR manifest signature metadata is inconsistent")
      else if (isUnset integrityMode || integrityMode.pyEq (.str "sha256-artifacts")) = false then
        .error (recoveryError "legacy DR manifest signature metadata is inconsistent")
      else .ok none
    | signature =>
      if algorithm.pyEq (.str "hmac-sha256") = false then .error (recoveryError "unsupported DR manifest signature algorithm")
      else
        match signature with
        | .str signature => compareSignature env secret manifest signature
        | _ => .error (recoveryError "legacy DR manifest signature is invalid")
  else .error (recoveryError "unsupported manifest format")

/-! ## The files -/

/-- A file of a backup: whether it is a regular file, its name and its content. -/
structure BackupFile where
  regular : Bool
  name : String
  content : List UInt8

/-- `_safe_backup_file` -/
def safeBackupFile (file : BackupFile) (label : String) : Except PyError BackupFile :=
  if file.regular = false then .error (recoveryError (label ++ " backup file is unavailable"))
  else if file.content.length ≤ 0 then .error (recoveryError (label ++ " backup file is empty"))
  else if file.content.length > 50 * 1024 * 1024 * 1024 then
    .error (recoveryError (label ++ " backup file exceeds 50 GiB safety limit"))
  else .ok file

structure Backup where
  postgresDump : BackupFile
  redisSnapshot : BackupFile
  vaultCopy : BackupFile

/-- The files under their kinds. -/
def Backup.files (backup : Backup) : List (String × BackupFile) :=
  [("postgres", backup.postgresDump), ("redis", backup.redisSnapshot), ("vault", backup.vaultCopy)]

/-- An artifact as `build_backup_manifest` describes it. -/
structure Artifact where
  kind : String
  filename : String
  sizeBytes : Nat
  sha256 : String

def Artifact.of (kind : String) (file : BackupFile) : Artifact := ⟨kind, file.name, file.content.length, env.sha.hex file.content⟩

/-- The artifacts of `build_backup_manifest`. -/
def buildArtifacts : List (String × BackupFile) → Except PyError (List Artifact)
  | [] => .ok []
  | (kind, file) :: files => do
    let file ← safeBackupFile file kind
    let rest ← buildArtifacts files
    pure (Artifact.of env kind file :: rest)

/-! ## Verification -/

/-- `item.get(key)` -/
def itemGet (item : List (String × Json)) (key : String) : Json := (item.lookup key).getD .null

/-- `expected.get(kind)`: the last artifact of the kind. -/
def expected? (items : List Json) (kind : String) : Option (List (String × Json)) :=
  items.reverse.findSome? fun
    | .obj fields => if env.str (itemGet fields "kind") = kind then some fields else none
    | _ => none

/-- One round of the loop over the kinds. -/
def verifyArtifact (items : List Json) (right : Artifact) : Except PyError Bool :=
  match expected? env items right.kind with
  | none => .ok false
  | some left =>
    match itemGet left "size_bytes" with
    | .int size =>
      if size < 0 then .error (recoveryError "manifest artifact size is invalid")
      else
        match itemGet left "filename", itemGet left "sha256" with
        | .str filename, .str sha256 => .ok (decide (filename = right.filename ∧ size = right.sizeBytes ∧ sha256 = right.sha256))
        | _, _ => .error (recoveryError "manifest artifact metadata is invalid")
    | _ => .error (recoveryError "manifest artifact size is invalid")

def verifyArtifacts (items : List Json) : List Artifact → Except PyError (List (String × Bool))
  | [] => .ok []
  | right :: rights => do
    let valid ← verifyArtifact env items right
    let rest ← verifyArtifacts items rights
    pure ((right.kind, valid) :: rest)

/-- What `verify_backup_manifest` returns. -/
structure Verification where
  valid : Bool
  artifacts : List (String × Bool)
  manifestSignatureValid : Option Bool
  manifestCreatedAt : Json

/-- `verify_backup_manifest`, for a document that was read. -/
def verifyBackupManifest (manifest : Manifest) (backup : Backup) : Except PyError Verification :=
  match manifest.get "artifacts" with
  | .arr items =>
    if (isVersion manifest 1 || isVersion manifest 2) = false then .error (recoveryError "unsupported manifest format")
    else
      match verifyManifestSignature env secret manifest with
      | .error e => .error e
      | .ok (some false) => .ok ⟨false, [], some false, .null⟩
      | .ok signatureValid => do
        let current ← buildArtifacts env backup.files
        let results ← verifyArtifacts env items current
        pure ⟨results.all (·.2), results, signatureValid, manifest.get "created_at"⟩
  | _ => .error (recoveryError "unsupported manifest format")

/-- What the preflight finds in the three files. -/
structure Inspection where
  postgresRecognized : Bool
  redisRecognized : Bool
  vaultRecognized : Bool

/-- The blockers of `assess_restore_preflight`; the age of an authenticated manifest is judged by the parameter. -/
def preflightBlockers (freshness : Json → List String) (inspection : Inspection) (verification : Verification) : List String :=
  (if verification.valid then [] else ["backup_integrity_invalid"]) ++
    (if inspection.postgresRecognized then [] else ["postgres_dump_format_unrecognized"]) ++
    (if inspection.redisRecognized then [] else ["redis_snapshot_format_unrecognized"]) ++
    (if inspection.vaultRecognized then [] else ["vault_backup_format_unrecognized"]) ++
    (if verification.manifestSignatureValid = some true then freshness verification.manifestCreatedAt else [])

/-- `restore_preflight_ready` -/
def preflightReady (freshness : Json → List String) (inspection : Inspection) (verification : Verification) : Bool :=
  (preflightBlockers freshness inspection verification).isEmpty

/-! ## What a seal is for -/

/-- The document carries the signature of the key. -/
def SealedWith (key : String) (manifest : Manifest) : Prop :=
  (isVersion manifest 1 = true ∨ isVersion manifest 2 = true) ∧
    manifest.get "manifest_signature" = .str (env.hmac key (canonicalManifest manifest))

/-- Whoever wrote the document has no signature of the key but those of the manifests that were sealed. -/
def WithoutKey (key : String) (issued : List Manifest) (manifest : Manifest) : Prop :=
  SealedWith env key manifest → ∃ m ∈ issued, canonicalManifest manifest = canonicalManifest m

/-- The two manifests have the same artifact entries, up to the order of the keys in them. -/
def SameArtifacts (a b : Manifest) : Prop := (a.get "artifacts").sortKeys = (b.get "artifacts").sortKeys

/-- A manifest of version 1 without a signature. -/
def UnsignedLegacy (manifest : Manifest) : Prop :=
  isVersion manifest 2 = false ∧ isVersion manifest 1 = true ∧ manifest.get "manifest_signature" = .null ∧
    isUnset (manifest.get "manifest_signature_alg") = true ∧
    (isUnset (manifest.get "integrity_mode") || (manifest.get "integrity_mode").pyEq (.str "sha256-artifacts")) = true

/-- The last entry of the kind describes the file, which can be read. -/
def DescribesFile (items : List Json) (kind : String) (file : BackupFile) : Prop :=
  file.regular = true ∧ 0 < file.content.length ∧ file.content.length ≤ 50 * 1024 * 1024 * 1024 ∧
    ∃ entry, expected? env items kind = some entry ∧ itemGet entry "filename" = .str file.name ∧
      itemGet entry "size_bytes" = .int file.content.length ∧ itemGet entry "sha256" = .str (env.sha.hex file.content)

/-- The artifact entries describe the files of the backup. -/
def Describes (manifest : Manifest) (backup : Backup) : Prop :=
  ∃ items, manifest.get "artifacts" = .arr items ∧ ∀ entry ∈ backup.files, DescribesFile env items entry.1 entry.2

end BackupManifest

end XbowPerso
