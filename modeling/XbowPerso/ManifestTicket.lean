import XbowPerso.RunnerPlan
import Mathlib.Algebra.Order.Floor.Ring
import Mathlib.Data.Rat.Floor

/-!
# Signed manifest tickets

`build_strix_runner_manifest_ticket` and `verify_strix_runner_manifest_ticket`: the descriptor of a manifest with an interval of
validity, signed with a secret the broker and the runner share. A clock reading is a rational number, or none when it is not
finite; the fields of a ticket have the types that its checks ask for.
-/

namespace XbowPerso

open RunnerRpc (isHexOfLength SignedCounts)
open ManifestAdmission (isControl)

/-- The HMAC of the standard library with SHA-256, in hexadecimal. -/
structure HmacSha256 where
  hex : List UInt8 → List UInt8 → String
  hex_valid : ∀ key message, isHexOfLength 64 (hex key message) = true

namespace ManifestTicket

def ticketSchema : String := "strix-runner-manifest-ticket-v2"

/-- `STRIX_RUNNER_MANIFEST_TICKET_TTL_SECONDS`. -/
def ttlSeconds : Int := 120

/-- `STRIX_RUNNER_MANIFEST_TICKET_CLOCK_SKEW_SECONDS`. -/
def clockSkewSeconds : Int := 5

/-- The last second that a clock may read. -/
def maxClock : Int := 253402300799

def signatureDomain : List UInt8 := utf8 "xbow:strix-runner-manifest-ticket:v2\x00"

/-- A secret that `_secret_bytes` accepts. -/
structure Secret where
  text : String
  min_le : 32 ≤ text.utf8ByteSize
  le_max : text.utf8ByteSize ≤ 4096

/-- The descriptor of a manifest, as the broker gives it. -/
structure Descriptor where
  schema : String
  contractHash : String
  requestId : String
  image : PyStr
  exposedPorts : List Int
  manifestDigest : String
  entryCount : Int
  inlineFileCount : Int
  localDirCount : Int
  inlineFileBytes : Int
  environmentValueBytes : Int
  hostPathsIncluded : Bool
  rawFileContentIncluded : Bool
  filesystemIoPerformed : Bool
  manifestMaterialized : Bool
  uploadEnabled : Bool
  activeExecutionEnabled : Bool
  deriving DecidableEq

/-- `StrixRunnerManifestTicket`. -/
structure Ticket where
  schema : String
  descriptor : Descriptor
  issuedAt : Int
  expiresAt : Int
  signatureAlg : String
  signature : String
  deriving DecidableEq

/-! ## The checks -/

/-- The characters of an identifier. -/
def isIdChar (c : Char) : Bool := c.isAlphanum || c = '.' || c = '_' || c = ':' || c = '-'

/-- `_ID_RE.fullmatch`. -/
def isId (s : String) : Bool := decide (1 ≤ s.length) && decide (s.length ≤ 128) && s.toList.all isIdChar

/-- The code points of a text. -/
def codePoints : PyStr → List Nat
  | .text s => s.toList.map Char.toNat
  | .surrogates codePoints => codePoints

/-- `_valid_image`: the check of an image's name. -/
def isImage (value : PyStr) : Bool :=
  decide (1 ≤ (codePoints value).length) && decide ((codePoints value).length ≤ 512) &&
    !(codePoints value).any (fun n => n < 0x20 || n == 0x7F)

/-- `_valid_ports`: the error, if there is one. -/
def portsError (value : List Int) : Option String :=
  if 16 < value.length then some "runner manifest exposed ports are invalid"
  else if value.any (fun port => !(decide (1 ≤ port) && decide (port ≤ 65535))) = true then
    some "runner manifest exposed port is invalid"
  else if ¬ value.Nodup then some "runner manifest exposed ports contain duplicates"
  else none

/-- The counts of a descriptor with their names and their bounds. -/
def Descriptor.bounds (d : Descriptor) : List (String × Int × Int) :=
  [("entry_count", d.entryCount, 128), ("inline_file_count", d.inlineFileCount, 128), ("local_dir_count", d.localDirCount, 128),
    ("inline_file_bytes", d.inlineFileBytes, 4 * 1024 * 1024),
    ("environment_value_bytes", d.environmentValueBytes, 16 * 1024)]

/-- `_validate_descriptor`: the error, if there is one. -/
def descriptorError (d : Descriptor) : Option String :=
  if d.schema ≠ ManifestAdmission.schema then some "runner manifest admission schema is unsupported"
  else if isHexOfLength 64 d.contractHash = false then some "runner manifest contract hash is invalid"
  else if isId d.requestId = false then some "runner manifest request id is invalid"
  else if isImage d.image = false then some "runner manifest image is invalid"
  else
    match portsError d.exposedPorts with
    | some e => some e
    | none =>
      if isHexOfLength 64 d.manifestDigest = false then some "runner manifest digest is invalid"
      else
        match d.bounds.find? (fun b => !(decide (0 ≤ b.2.1) && decide (b.2.1 ≤ b.2.2))) with
        | some b => some ("runner manifest " ++ b.1 ++ " is invalid")
        | none =>
          if d.inlineFileCount + d.localDirCount ≠ d.entryCount then some "runner manifest entry counts are inconsistent"
          else if d.hostPathsIncluded || d.rawFileContentIncluded || d.filesystemIoPerformed || d.manifestMaterialized ||
              d.uploadEnabled || d.activeExecutionEnabled then
            some "runner manifest safety invariants changed"
          else none

/-- `_ticket_clock`: the reading, where it is one that a ticket can be checked at. -/
def ticketClock? (now : Option ℚ) : Option ℚ := now.filter (fun t => decide (1 ≤ t) && decide (t ≤ maxClock))

/-- `_validate_ticket_times`: the error, if there is one. -/
def timesError (issuedAt expiresAt : Int) (now : ℚ) : Option String :=
  if ¬ (1 ≤ issuedAt ∧ issuedAt ≤ maxClock ∧ 1 ≤ expiresAt ∧ expiresAt ≤ maxClock ∧ 0 < expiresAt - issuedAt ∧
      expiresAt - issuedAt ≤ ttlSeconds) then
    some "runner manifest ticket validity interval is invalid"
  else if now + clockSkewSeconds < issuedAt then some "runner manifest ticket is not yet valid"
  else if expiresAt ≤ now then some "runner manifest ticket has expired"
  else none

/-! ## Signing and verifying -/

/-- How signing or verifying fails. -/
inductive TicketError where
  | rejected (message : String)
  | unicodeEncodeError
  deriving DecidableEq

/-- The text of `_canonical_bytes`, before it is encoded; none where the image has no UTF-8 form. -/
def canonicalText? (schema : String) (d : Descriptor) (issuedAt expiresAt : Int) : Option String :=
  match d.image with
  | .surrogates _ => none
  | .text image => some (Json.obj [("schema", .str schema), ("manifest_schema", .str d.schema),
      ("contract_hash", .str d.contractHash), ("request_id", .str d.requestId), ("issued_at", .int issuedAt),
      ("expires_at", .int expiresAt), ("image", .str image), ("exposed_ports", .arr (d.exposedPorts.map .int)),
      ("manifest_digest", .str d.manifestDigest), ("entry_count", .int d.entryCount),
      ("inline_file_count", .int d.inlineFileCount), ("local_dir_count", .int d.localDirCount),
      ("inline_file_bytes", .int d.inlineFileBytes), ("environment_value_bytes", .int d.environmentValueBytes),
      ("host_paths_included", .bool d.hostPathsIncluded), ("raw_file_content_included", .bool d.rawFileContentIncluded),
      ("filesystem_io_performed", .bool d.filesystemIoPerformed), ("manifest_materialized", .bool d.manifestMaterialized),
      ("upload_enabled", .bool d.uploadEnabled),
      ("active_execution_enabled", .bool d.activeExecutionEnabled)]).dumpsSorted

/-- The signature of a descriptor and its interval. -/
def signature? (hmac : HmacSha256) (secret : Secret) (d : Descriptor) (issuedAt expiresAt : Int) : Option String :=
  (canonicalText? ticketSchema d issuedAt expiresAt).map fun text => hmac.hex (utf8 secret.text) (signatureDomain ++ utf8 text)

/-- `build_strix_runner_manifest_ticket`. -/
def buildStrixRunnerManifestTicket (hmac : HmacSha256) (secret : Secret) (d : Descriptor) (now : Option ℚ) :
    Except TicketError Ticket :=
  match ticketClock? now with
  | none => .error (.rejected "runner manifest ticket clock is invalid")
  | some now =>
    match descriptorError d with
    | some e => .error (.rejected e)
    | none =>
      match timesError ⌊now⌋ (⌊now⌋ + ttlSeconds) ⌊now⌋ with
      | some e => .error (.rejected e)
      | none =>
        match signature? hmac secret d ⌊now⌋ (⌊now⌋ + ttlSeconds) with
        | none => .error .unicodeEncodeError
        | some signature => .ok ⟨ticketSchema, d, ⌊now⌋, ⌊now⌋ + ttlSeconds, "hmac-sha256", signature⟩

/-- What a request for a session says besides its ticket. -/
structure Presented where
  requestId : String
  image : PyStr
  exposedPorts : List Int
  manifestDigest : String

/-- `verify_strix_runner_manifest_ticket`: the error, if there is one. -/
def ticketError (hmac : HmacSha256) (secret : Secret) (t : Ticket) (p : Presented) (now : Option ℚ) : Option TicketError :=
  if t.schema ≠ ticketSchema then some (.rejected "runner manifest ticket schema is unsupported")
  else if t.descriptor.schema ≠ ManifestAdmission.schema then
    some (.rejected "runner manifest ticket admission schema is unsupported")
  else if t.signatureAlg ≠ "hmac-sha256" then
    some (.rejected "runner manifest ticket signature algorithm is unsupported")
  else if isHexOfLength 64 t.signature = false then some (.rejected "runner manifest ticket signature is invalid")
  else
    match descriptorError t.descriptor with
    | some e => some (.rejected e)
    | none =>
      match timesError t.issuedAt t.expiresAt t.issuedAt with
      | some e => some (.rejected e)
      | none =>
        match signature? hmac secret t.descriptor t.issuedAt t.expiresAt with
        | none => some .unicodeEncodeError
        | some expected =>
          if t.signature ≠ expected then some (.rejected "runner manifest ticket signature mismatch")
          else
            match ticketClock? now with
            | none => some (.rejected "runner manifest ticket clock is invalid")
            | some now =>
              match timesError t.issuedAt t.expiresAt now with
              | some e => some (.rejected e)
              | none =>
                match portsError p.exposedPorts with
                | some e => some (.rejected e)
                | none =>
                  if isImage p.image = false then some (.rejected "runner manifest image is invalid")
                  else if t.descriptor.requestId ≠ p.requestId ∨ t.descriptor.image ≠ p.image ∨
                      t.descriptor.exposedPorts ≠ p.exposedPorts ∨ t.descriptor.manifestDigest ≠ p.manifestDigest then
                    some (.rejected "runner manifest ticket does not match create request")
                  else none

/-- The counts that a ticket signs. -/
def Ticket.counts (t : Ticket) : SignedCounts :=
  ⟨t.descriptor.entryCount.toNat, t.descriptor.inlineFileCount.toNat, t.descriptor.localDirCount.toNat,
    t.descriptor.inlineFileBytes.toNat, t.descriptor.environmentValueBytes.toNat⟩

end ManifestTicket

end XbowPerso
