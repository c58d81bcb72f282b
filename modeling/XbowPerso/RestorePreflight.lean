import XbowPerso.SecretVault

/-!
# The preflight of a restore

`_inspect_vault_copy` looks at a copy of the vault file without the key: the size, the version, and of every secret the name and the
lengths of what its record decodes to. Beside it stand the writes of the vault, `set_secret` and `rekey_vault`, as they come one after the
other, and what `get_secret` reads of a file before it decrypts.
-/

namespace XbowPerso

/-- Authenticated encryption with a tag of sixteen bytes. -/
structure TaggedAesGcm extends AesGcm where
  length_encrypt : ∀ key nonce text data, (encrypt key nonce text data).length = text.length + 16
  length_decrypt : ∀ key nonce ciphertext data text, decrypt key nonce ciphertext data = some text → ciphertext.length = text.length + 16

namespace RestorePreflight

open SecretVault (Document Record Call decodeUtf8 urlsafeEncode urlsafeDecode nameChars loadDocument text maxFileBytes)

/-! ## Writes -/

/-- Twelve bytes that were drawn. -/
abbrev Nonce := { bytes : List UInt8 // bytes.length = 12 }

/-- A write of the vault, with the keys that are loaded and the nonces that are drawn. -/
inductive Write where
  | setSecret (key : List UInt8) (name value : String) (nonce : Nonce)
  | rekey (oldKey newKey : List UInt8) (nonces : String → Nonce)

variable (aes : TaggedAesGcm)

/-- The loop that decrypts everything; none where it raises. -/
def plaintexts (oldKey : List UInt8) : List (String × Record) → Option (List (String × List UInt8))
  | [] => some []
  | (name, record) :: rest =>
    match urlsafeDecode record.nonce, urlsafeDecode record.ciphertext with
    | some nonce, some ciphertext =>
      match aes.decrypt oldKey nonce ciphertext (utf8 name), plaintexts oldKey rest with
      | some plaintext, some others => some ((name, plaintext) :: others)
      | _, _ => none
    | _, _ => none

/-- The record of a text. -/
def sealedRecord (key : List UInt8) (name : String) (plaintext : List UInt8) (nonce : Nonce) : Record :=
  ⟨urlsafeEncode nonce.1, urlsafeEncode (aes.encrypt key nonce.1 plaintext (utf8 name))⟩

/-- What a write makes of the document of the file: `set_secret` and `rekey_vault` up to `_atomic_write`. -/
def writeDocument (file : Option Document) : Write → Except PyError Document
  | .setSecret key name value nonce =>
    match (Call.mk name value nonce.1).check, loadDocument (file.map .document) with
    | .ok (), .ok document => .ok (document.set name (sealedRecord aes key name (utf8 value) nonce))
    | .error e, _ => .error e
    | _, .error e => .error e
  | .rekey oldKey newKey nonces =>
    if oldKey = newKey then .error (.runtimeError "new vault master key must differ from current key")
    else
      match loadDocument (file.map .document) with
      | .error e => .error e
      | .ok document =>
        match plaintexts aes oldKey document.entries with
        | none => .error (.runtimeError "vault rekey validation failed")
        | some texts => .ok (Dict.ofList (texts.map fun t => (t.1, sealedRecord aes newKey t.1 t.2 (nonces t.1))))

/-- The file after a write; a write that raises leaves it as it is. -/
def afterWrite (file : Option Document) (write : Write) : Option Document :=
  match writeDocument aes file write with
  | .error _ => file
  | .ok document => some document

/-- The file after some writes, from a vault that has none. -/
def afterWrites (writes : List Write) : Option Document := writes.foldl (afterWrite aes) none

/-! ## The preflight -/

/-- A file: whether its path is a symlink, whether it is a regular file, whether its mode keeps it private, and its bytes. -/
structure VaultFile where
  isSymlink : Bool
  isFile : Bool
  isPrivate : Bool
  bytes : List UInt8

/-- `_MAX_VAULT_BYTES` -/
def maxVaultBytes : Nat := 1024 * 1024

/-- `_SECRET_NAME_RE` -/
def isSecretName (name : String) : Bool :=
  decide (1 ≤ name.length) && decide (name.length ≤ 128) && name.toList.all fun c => decide (c ∈ nameChars)

/-- `_decode_vault_field` -/
def decodeVaultField : Option Json → Option (List UInt8)
  | some (.str value) => if value = "" then none else urlsafeDecode value
  | _ => none

/-- The checks of the loop over the secrets. -/
def isVaultRecord (entry : String × Json) : Bool :=
  isSecretName entry.1 &&
    match entry.2 with
    | .obj record =>
      ((decodeVaultField (record.lookup "nonce")).any fun nonce => decide (nonce.length = 12)) &&
        (decodeVaultField (record.lookup "ciphertext")).any fun ciphertext =>
          decide (16 ≤ ciphertext.length) && decide (ciphertext.length ≤ 16400)
    | _ => false

/-- What the check of the vault reports. -/
structure VaultReport where
  recognized : Bool
  format : String
  secretCount : Nat
  deriving DecidableEq

def recognizedReport (secretCount : Nat) : VaultReport := ⟨true, "xbow_vault_v1", secretCount⟩

def unrecognizedReport : VaultReport := ⟨false, "unrecognized", 0⟩

/-- `DisasterRecoveryError` -/
def recoveryError {α : Type} (message : String) : Except PyError α := .error (.runtimeError message)

/-- `json.loads(path.read_text(encoding="utf-8"))`; none where it raises. -/
def loadJson (bytes : List UInt8) : Option Json := (decodeUtf8 bytes).bind Json.loads

/-- The secrets of a payload of version 1. -/
def secrets? (payload : List (String × Json)) : Option (List (String × Json)) :=
  match payload.lookup "version", payload.lookup "secrets" with
  | some version, some (.obj secrets) => if version.pyEq (.int 1) = true then some secrets else none
  | _, _ => none

/-- `_inspect_vault_copy` -/
def inspectVaultCopy (file : VaultFile) : Except PyError VaultReport :=
  if file.isSymlink = true ∨ file.isFile = false then recoveryError "vault backup file is unavailable"
  else if file.bytes = [] then recoveryError "vault backup file is empty"
  else if maxVaultBytes < file.bytes.length then recoveryError "vault backup structure is invalid"
  else
    match loadJson file.bytes with
    | none => recoveryError "vault backup structure is invalid"
    | some (.obj payload) =>
      match secrets? payload with
      | none => .ok unrecognizedReport
      | some secrets => if secrets.all isVaultRecord = true then .ok (recognizedReport secrets.length) else .ok unrecognizedReport
    -- a payload that is no dictionary has no `get`
    | some _ => .error (.typeError "payload has no attribute 'get'")

/-! ## The reader -/

/-- `_load_document` of a file that exists: its secrets. -/
def readSecrets (file : VaultFile) : Except PyError (List (String × Json)) :=
  if file.isFile = false ∨ maxFileBytes < file.bytes.length ∨ file.isPrivate = false then .error (.runtimeError "vault file is invalid")
  else
    match loadJson file.bytes with
    | none => .error (.runtimeError "vault file is invalid")
    | some (.obj payload) =>
      match secrets? payload with
      | none => .error (.runtimeError "unsupported vault format")
      | some secrets => .ok secrets
    | some _ => .error (.typeError "payload has no attribute 'get'")

/-- The nonce and the ciphertext that `get_secret` gives to the decryption; none where it raises before. -/
def sealedBytes? : Json → Option (List UInt8 × List UInt8)
  | .obj record =>
    match record.lookup "nonce", record.lookup "ciphertext" with
    | some (.str nonce), some (.str ciphertext) =>
      match urlsafeDecode nonce, urlsafeDecode ciphertext with
      | some nonce, some ciphertext => some (nonce, ciphertext)
      | _, _ => none
    | _, _ => none
  | _ => none

end RestorePreflight

end XbowPerso
