import XbowPerso.SecretVault
import XbowPerso.Lib.PyUrl

/-!
# The migration of an environment file to the vault

`_legacy_sources` collects the secrets of an environment file and of the process, and `rewrite_env_file` removes their assignments
once the vault holds each of them. A file is given by its text as it is decoded; what the operating system says about a path is part
of the surroundings.
-/

namespace XbowPerso

namespace VaultMigration

open PyText (isPySpace stripChars)
open SecretVault (Content getSecret)

abbrev Text := List Char

/-! ## Texts and lines -/

/-- The newlines of a file as `read_text` gives them. -/
def universalNewlines : Text → Text
  | '\r' :: '\n' :: cs => '\n' :: universalNewlines cs
  | '\r' :: cs => '\n' :: universalNewlines cs
  | c :: cs => c :: universalNewlines cs
  | [] => []

/-- The code points at which `str.splitlines` ends a line. -/
def lineBreaks : List Nat := [0x0A, 0x0B, 0x0C, 0x0D, 0x1C, 0x1D, 0x1E, 0x85, 0x2028, 0x2029]

/-- `str.splitlines` from inside a line, whose characters so far stand in reverse. -/
def splitlinesFrom (line : Text) : Text → List Text
  | [] => if line = [] then [] else [line.reverse]
  | '\r' :: '\n' :: cs => line.reverse :: splitlinesFrom [] cs
  | c :: cs => if c.toNat ∈ lineBreaks then line.reverse :: splitlinesFrom [] cs else splitlinesFrom (c :: line) cs

/-- `text.splitlines()` -/
def splitlines (text : Text) : List Text := splitlinesFrom [] text

/-- `text.removePrefix(prefix)` -/
def removePrefix (start text : Text) : Text := if start.isPrefixOf text then text.drop start.length else text

/-- `text.lstrip()` -/
def lstrip (text : Text) : Text := text.dropWhile isPySpace

/-- `text.rstrip()` -/
def rstrip (text : Text) : Text := text.rdropWhile isPySpace

def exportPrefix : Text := "export ".toList

/-! ## What is migrated -/

/-- `_STATIC_MAPPINGS` -/
def staticMappings : List (String × String) :=
  [("hackerone_api_username", "XBOW_HACKERONE_API_USERNAME"), ("hackerone_api_token", "XBOW_HACKERONE_API_TOKEN"),
    ("pentagi_api_token", "XBOW_PENTAGI_API_TOKEN"), ("llm_api_key", "LLM_API_KEY"),
    ("perplexity_api_key", "PERPLEXITY_API_KEY"), ("audit_hmac_key", "XBOW_AUDIT_HMAC_KEY"),
    ("alert_webhook_hmac_key", "XBOW_ALERT_WEBHOOK_HMAC_KEY")]

/-- `_BROWSER_PREFIX` -/
def browserPrefix : Text := "XBOW_BROWSER_SECRET_".toList

/-- `_RELEVANT_STATIC_ENV` -/
def relevantStaticEnv : List Text :=
  "XBOW_API_TOKEN".toList :: "XBOW_API_TOKEN_FILE".toList :: staticMappings.map fun m => m.2.toList

/-- A name that the migration looks at. -/
def isRelevant (name : Text) : Bool := decide (name ∈ relevantStaticEnv) || browserPrefix.isPrefixOf name

def envNameChars : Text := "ABCDEFGHIJKLMNOPQRSTUVWXYZ0123456789_".toList

def vaultSuffixChars : Text := "abcdefghijklmnopqrstuvwxyz0123456789_".toList

/-- A regular file: its text unless it is no UTF-8, whether its mode shuts out group and others, and its size. -/
structure RegularFile where
  text : Option Text
  isPrivate : Bool
  size : Nat

/-- What the functions read from their surroundings: the process environment, what stands at a path, and whether writing works. The
empty path is the current directory, which is no regular file. -/
structure Surroundings where
  environ : Dict Text Text
  isSymlink : Text → Bool
  regularFile : Text → Option RegularFile
  pathText : Text → Text
  backupExists : Text → Bool
  writeFails : Bool
  current : regularFile [] = none

variable (u : Unicode) (aes : AesGcm) (key : List UInt8) (vault : Option Content) (s : Surroundings)

/-- `VaultMigrationError` -/
def migrationError {α : Type} (message : String) : Except PyError α := .error (.runtimeError message)

/-- The text of a regular file that is no symbolic link and passes a check. -/
def readChecked (path : Text) (check : RegularFile → Bool) : Option Text :=
  if s.isSymlink path then none
  else (s.regularFile path).bind fun file => if check file then file.text.map universalNewlines else none

/-- `_safe_secret_file` -/
def safeSecretFile (path : Text) : Except PyError Text :=
  match readChecked s path fun file => file.isPrivate && decide (1 ≤ file.size ∧ file.size ≤ 16384) with
  | none => migrationError "legacy API token file is unavailable"
  | some text => if stripChars text = [] then migrationError "legacy API token file is empty" else .ok (stripChars text)

/-- `_decode_env_value` -/
def decodeEnvValue (raw : Text) : Text :=
  let value := stripChars raw
  match value with
  | c :: rest =>
    if 2 ≤ value.length ∧ value.getLast? = some c ∧ (c = '\'' ∨ c = '"') then rest.dropLast else value
  | [] => []

/-- The name and the raw value of a line, as the loop of `_source_env_file` reads it. -/
def assignment? (line : Text) : Option (Text × Text) :=
  let stripped := stripChars line
  if stripped = [] ∨ stripped.head? = some '#' then none
  else
    let stripped := if exportPrefix.isPrefixOf stripped then lstrip (removePrefix exportPrefix stripped) else stripped
    if '=' ∈ stripped then some (stripChars (stripped.takeWhile (· ≠ '=')), (stripped.dropWhile (· ≠ '=')).tail) else none

/-- The loop of `_source_env_file`, from a line number on. -/
def sourceLines (values : Dict Text Text) (lineNumber : Nat) : List Text → Except PyError (Dict Text Text)
  | [] => .ok values
  | line :: lines =>
    match assignment? line with
    | none => sourceLines values (lineNumber + 1) lines
    | some (name, raw) =>
      if isRelevant name then
        if name = [] ∨ name.any (fun c => decide (c ∉ envNameChars)) = true then
          migrationError ("invalid relevant environment name at line " ++ toString lineNumber)
        else
          match values.get? name with
          | some existing =>
            if existing ≠ decodeEnvValue raw then migrationError ("conflicting duplicate source for " ++ String.ofList name)
            else sourceLines (values.set name (decodeEnvValue raw)) (lineNumber + 1) lines
          | none => sourceLines (values.set name (decodeEnvValue raw)) (lineNumber + 1) lines
      else sourceLines values (lineNumber + 1) lines

/-- `_source_env_file` -/
def sourceEnvFile (path : Text) : Except PyError (Dict Text Text) :=
  match readChecked s path fun file => file.isPrivate && decide (file.size ≤ 1024 * 1024) with
  | none => migrationError "source environment file is unavailable"
  | some text => sourceLines .empty 1 (splitlines text)

/-- The loop of `_merged_source_environment`. -/
def mergeProcess (values : Dict Text Text) : List (Text × Text) → Except PyError (Dict Text Text)
  | [] => .ok values
  | (name, value) :: rest =>
    if isRelevant name = false ∨ value = [] then mergeProcess values rest
    else
      match values.get? name with
      | some existing =>
        if existing ≠ value then migrationError ("conflicting process/file source for " ++ String.ofList name)
        else mergeProcess (values.set name value) rest
      | none => mergeProcess (values.set name value) rest

/-- `_merged_source_environment` -/
def mergedSourceEnvironment (path : Text) : Except PyError (Dict Text Text) :=
  match if path = [] then .ok .empty else sourceEnvFile s path with
  | .error e => .error e
  | .ok values => mergeProcess values s.environ.entries

/-- The secrets found: under the name of each in the vault, its source and its value. -/
abbrev Sources := Dict String (Text × Text)

/-- `(env.get(name) or "").strip()` -/
def strippedValue (env : Dict Text Text) (name : String) : Text := stripChars ((env.get? name.toList).getD [])

/-- The source of the API token. -/
def apiTokenSource (env : Dict Text Text) : Except PyError Sources :=
  let inlineApi := strippedValue env "XBOW_API_TOKEN"
  let apiFile := strippedValue env "XBOW_API_TOKEN_FILE"
  if inlineApi ≠ [] ∧ apiFile ≠ [] then migrationError "API token has conflicting legacy sources"
  else if inlineApi ≠ [] then .ok (Dict.empty.set "api_token" ("XBOW_API_TOKEN".toList, inlineApi))
  else if apiFile ≠ [] then
    match safeSecretFile s apiFile with
    | .error e => .error e
    | .ok value => .ok (Dict.empty.set "api_token" ("XBOW_API_TOKEN_FILE".toList, value))
  else .ok .empty

/-- One turn of the loop over the static mappings. -/
def addStatic (env : Dict Text Text) (result : Sources) (mapping : String × String) : Sources :=
  match env.get? mapping.2.toList with
  | none => result
  | some value => if value = [] then result else result.set mapping.1 (mapping.2.toList, value)

/-- The suffix of a browser secret. -/
def browserSuffix (envName : Text) : Text := u.lower (stripChars (removePrefix browserPrefix envName))

/-- The name of a browser secret in the vault. -/
def browserKey (envName : Text) : String := "browser." ++ String.ofList (browserSuffix u envName)

/-- The loop over the browser secrets. -/
def addBrowser (result : Sources) : List (Text × Text) → Except PyError Sources
  | [] => .ok result
  | (envName, value) :: rest =>
    if browserPrefix.isPrefixOf envName = false ∨ value = [] then addBrowser result rest
    else if browserSuffix u envName = [] ∨ (browserSuffix u envName).any (fun c => decide (c ∉ vaultSuffixChars)) = true then
      migrationError "browser secret environment name is invalid"
    else addBrowser (result.set (browserKey u envName) (envName, value)) rest

/-- `_legacy_sources` -/
def legacySources (path : Text) : Except PyError Sources :=
  match mergedSourceEnvironment s path with
  | .error e => .error e
  | .ok env =>
    match apiTokenSource s env with
    | .error e => .error e
    | .ok result => addBrowser u (staticMappings.foldl (addStatic env) result) env.entries

/-- `_vault_key_file` -/
def vaultKeyFile : Except PyError Text :=
  let inlineKey := strippedValue s.environ "XBOW_VAULT_MASTER_KEY"
  let raw := strippedValue s.environ "XBOW_VAULT_MASTER_KEY_FILE"
  if inlineKey ≠ [] then migrationError "inline vault master key is forbidden for migration"
  else if raw = [] then migrationError "XBOW_VAULT_MASTER_KEY_FILE is required"
  else if s.isSymlink raw then migrationError "vault master key file must not be a symlink"
  else .ok (s.pathText raw)

/-- `_existing_matches` -/
def existingMatches (name : String) (value : Text) : Except PyError (Option Bool) :=
  match getSecret aes key vault name with
  | .ok current => .ok (some (decide (current = String.ofList value)))
  | .error (.runtimeError "secret not found") => .ok none
  | .error _ => migrationError "existing vault could not be verified"

/-- The check that the vault holds every source. -/
def verifySources : List (String × Text × Text) → Except PyError Unit
  | [] => .ok ()
  | (name, _, value) :: rest =>
    match existingMatches aes key vault name value with
    | .error e => .error e
    | .ok (some true) => verifySources rest
    | .ok _ => migrationError "refusing env rewrite before vault verification"

/-- The settings of the vault, which a rewritten file sets anew. -/
def vaultSettings : List Text :=
  ["XBOW_VAULT_ENABLED".toList, "XBOW_VAULT_MASTER_KEY".toList, "XBOW_VAULT_MASTER_KEY_FILE".toList]

/-- Whether the loop of `rewrite_env_file` keeps a line. -/
def isKept (names : List Text) (line : Text) : Bool :=
  let stripped := stripChars line
  if stripped = [] ∨ stripped.head? = some '#' ∨ '=' ∉ stripped then true
  else
    let name := stripChars ((lstrip (removePrefix exportPrefix stripped)).takeWhile (· ≠ '='))
    !(decide (name ∈ names) || browserPrefix.isPrefixOf name)

/-- The text that is written. -/
def rendered (kept : List Text) (keyFile : Text) : Text :=
  rstrip (['\n'].intercalate (kept ++
    ["XBOW_VAULT_ENABLED=true".toList, "XBOW_VAULT_MASTER_KEY_FILE=".toList ++ keyFile])) ++ ['\n']

/-- `source_env_file or path_value` -/
def sourcePath (path : Text) : Option Text → Text
  | none | some [] => path
  | some file => file

/-- `rewrite_env_file`: the text that it leaves in the file. -/
def rewriteEnvFile (path : Text) (source : Option Text) : Except PyError Text :=
  match readChecked s path fun _ => true with
  | none => migrationError "environment file is unavailable"
  | some original =>
    match legacySources u s (sourcePath path source) with
    | .error e => .error e
    | .ok sources =>
      if sources.entries = [] then migrationError "no legacy secret sources are present to rewrite"
      else
        match verifySources aes key vault sources.entries with
        | .error e => .error e
        | .ok () =>
          match vaultKeyFile s with
          | .error e => .error e
          | .ok keyFile =>
            if s.backupExists path then migrationError "environment backup already exists"
            else if s.writeFails then migrationError "environment rewrite failed"
            else
              .ok (rendered ((splitlines original).filter (isKept (sources.entries.map (fun e => e.2.1) ++ vaultSettings)))
                keyFile)

end VaultMigration

end XbowPerso
