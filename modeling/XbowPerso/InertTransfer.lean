import XbowPerso.RunnerSessions
import XbowPerso.Lib.Dialogue

/-!
# The broker's inert transfer

`verify_inert_manifest_files`: the broker builds the plan of the files, has a session prepared for it, sends the plan and the files
in chunks, and releases the session. A request that may have been processed although its reply is lost is never sent again; a
status request asks what became of it. The program is a dialogue with the runner; `Posted` is what one call of `_post_runner` sees.
-/

namespace XbowPerso

namespace InertTransfer

open RunnerRpc (Operation Reply SessionRef FileChunk Snapshot ChunkReceipt PrepareRequest Crypto maxFileChunkBytes isHexOfLength)
open ManifestAdmission (AdmissionPlan EntryPlan Entry Manifest buildStrixManifestAdmissionPlan maxInlineFileBytes
  maxTotalInlineFileBytes)
open ManifestTicket (Secret Ticket buildStrixRunnerManifestTicket)
open Dialogue (Call)
open Dialogue.Call (attempt ask check finally_ ofExcept)

/-- The exceptions of a transfer: `StrixInertTransferError`, its subclass `StrixInertTransportUncertain`, and `KeyError`. -/
inductive TransferError where
  | transferError (message : String)
  | transportUncertain (message : String)
  | keyError (key : String)
  deriving DecidableEq

/-- The exception is a `StrixInertTransferError`. -/
def TransferError.isTransferError : TransferError → Bool
  | .transferError _ | .transportUncertain _ => true
  | .keyError _ => false

/-- What a call of `_post_runner` sees: an authentic reply, an HTTP error, or nothing that tells the outcome. -/
inductive Posted where
  | reply (r : Reply)
  | httpError (code : Nat)
  | uncertain (message : String)

/-- A dialogue with the runner. -/
abbrev Transfer (α : Type) := Call TransferError Operation Posted α

/-- The path of an operation. -/
def path : Operation → String
  | .prepare _ => "/v1/session/prepare"
  | .preparationStatus .. => "/v1/session/preparation-status"
  | .planReceipt .. => "/v1/session/plan-receipt"
  | .verificationStatus .. => "/v1/session/verification-status"
  | .fileChunk .. => "/v1/session/file-chunk"
  | .release .. => "/v1/session/release"
  | .releaseStatus .. => "/v1/session/release-status"

/-- How `_post_runner` ends. -/
def readPosted (op : Operation) : Posted → Except TransferError Reply
  | .reply r => .ok r
  | .httpError code => .error (.transferError ("runner rejected " ++ path op ++ " (HTTP " ++ toString code ++ ")"))
  | .uncertain message => .error (.transportUncertain message)

/-- `_post_runner`. -/
def postRunner (op : Operation) : Transfer Reply := ask op (readPosted op)

/-! ## The plan -/

/-- The files and the bytes of the text that a plan may have. -/
def maxFiles : Nat := 128
def maxCanonicalBytes : Nat := 256 * 1024

/-- A mapping of files: the value of a key is none where it is not bytes. -/
abbrev Files := Dict PyKey (Option (List UInt8))

/-- The loop of `_canonical_plan` over the files. -/
def checkFiles (total : Nat) : List (PyKey × Option (List UInt8)) → Except TransferError Unit
  | [] => .ok ()
  | (path, data) :: rest =>
    match path, data with
    | .str _, some data =>
      if maxInlineFileBytes < data.length then .error (.transferError "inline file exceeds byte limit")
      else if maxTotalInlineFileBytes < total + data.length then .error (.transferError "inline files exceed aggregate limit")
      else checkFiles (total + data.length) rest
    | _, _ => .error (.transferError "only inline bytes and paths are accepted")

/-- The manifest of the files. -/
def manifestOf (files : Files) : Manifest where
  version := .int 1
  root := .str "/workspace"
  hasUsers := false
  hasGroups := false
  hasExtraPathGrants := false
  entries := some (files.mapValues fun data => ⟨some "file", data, none⟩)
  environment := some Dict.empty

/-- `_canonical_plan`. The files are none where they are not a mapping. -/
def canonicalPlan (sha : Sha256) (files : Option Files) : Except TransferError (String × AdmissionPlan) :=
  match files with
  | none => .error (.transferError "invalid file collection")
  | some files =>
    if maxFiles < files.size then .error (.transferError "invalid file collection")
    else
      match checkFiles 0 files.entries with
      | .error e => .error e
      | .ok () =>
        match buildStrixManifestAdmissionPlan sha (manifestOf files) with
        | .error _ => .error (.transferError "invalid inline-file manifest")
        | .ok plan =>
          if sha.hex (utf8 plan.canonicalJson) ≠ plan.manifestDigest then
            .error (.transferError "canonical manifest digest mismatch")
          else if maxCanonicalBytes < (utf8 plan.canonicalJson).length then
            .error (.transferError "canonical manifest plan too large")
          else .ok (plan.canonicalJson, plan)

/-! ## The call -/

/-- `secrets.token_hex(16)`. -/
structure Token where
  text : String
  valid : isHexOfLength 32 text = true

/-- The tokens that a call draws; those of a chunk by its path and its offset. -/
structure Tokens where
  request : Token
  lookup : Token
  plan : Token
  planProof : Token
  chunk : String → Nat → Token
  chunkProof : String → Nat → Token
  release : Token
  releaseProof : Token

/-- What the call gets: the keys of the environment, whether `authorize_strix_contract_request` accepts the contract for its own
target and rate, the hash of the contract, the image, the ports and the files, and the broker's clock. -/
structure Arguments where
  verificationKey : String
  admissionKey : String
  transportKey : String
  authorized : Bool
  contractHash : String
  image : PyStr
  exposedPorts : List Int
  files : Option Files
  clock : Option ℚ

/-- `InertManifestVerificationReceipt`. -/
structure Receipt where
  contractHash : String
  manifestDigest : String
  verifiedInlineFiles : Nat
  verifiedInlineBytes : Nat
  sessionReleased : Bool
  manifestMaterialized : Bool
  activeExecutionEnabled : Bool

/-- `_keys`: the secret that tickets are signed with. -/
def keys (args : Arguments) : Except TransferError Secret :=
  if args.verificationKey = "" ∨ 4096 < args.verificationKey.utf8ByteSize then
    .error (.transferError "broker contract key unavailable")
  else if h : 32 ≤ args.admissionKey.utf8ByteSize ∧ args.admissionKey.utf8ByteSize ≤ 4096 then
    if 32 ≤ args.transportKey.utf8ByteSize ∧ args.transportKey.utf8ByteSize ≤ 4096 then .ok ⟨args.admissionKey, h.1, h.2⟩
    else .error (.transferError "runner transport key unavailable")
  else .error (.transferError "runner admission key unavailable")

/-- The descriptor that is signed. -/
def descriptor (args : Arguments) (requestId : String) (plan : AdmissionPlan) : ManifestTicket.Descriptor where
  schema := plan.schema
  contractHash := args.contractHash
  requestId := requestId
  image := args.image
  exposedPorts := args.exposedPorts
  manifestDigest := plan.manifestDigest
  entryCount := plan.entryCount
  inlineFileCount := plan.inlineFileCount
  localDirCount := plan.localDirCount
  inlineFileBytes := plan.inlineFileBytes
  environmentValueBytes := plan.environmentValueBytes
  hostPathsIncluded := false
  rawFileContentIncluded := false
  filesystemIoPerformed := false
  manifestMaterialized := false
  uploadEnabled := false
  activeExecutionEnabled := false

/-- `_SESSION_ID_RE.fullmatch`. -/
def isSessionId (s : String) : Bool :=
  decide (s.toList.take 9 = "prepared-".toList) && isHexOfLength 32 (String.ofList (s.toList.drop 9))

/-- `request_id`. -/
def Tokens.requestId (tokens : Tokens) : String := "inert-" ++ tokens.request.text

/-- The request for a session: when its reply is lost, the session is looked up. -/
def requestSession (args : Arguments) (tokens : Tokens) (plan : AdmissionPlan) (ticket : Ticket) : Transfer Reply := do
  match ← attempt (postRunner (.prepare ⟨tokens.requestId, args.image, args.exposedPorts, plan.manifestDigest, ticket⟩)) with
  | .error (.transportUncertain _) =>
    postRunner (.preparationStatus ("lookup-" ++ tokens.lookup.text) tokens.requestId args.contractHash plan.manifestDigest)
  | result => ofExcept result

/-- The id of the session that is prepared. -/
def prepareSession (args : Arguments) (tokens : Tokens) (plan : AdmissionPlan) (ticket : Ticket) : Transfer String := do
  match ← requestSession args tokens plan ticket with
  | .prepared sessionId contractHash manifestDigest expiresInSeconds =>
    check (isSessionId sessionId = true ∧ contractHash = args.contractHash ∧ manifestDigest = plan.manifestDigest ∧
      1 ≤ expiresInSeconds ∧ expiresInSeconds ≤ 900) (.transferError "runner preparation receipt invalid")
    pure sessionId
  | _ => .throw (.transferError "runner preparation receipt invalid")

/-- `_verification_snapshot`. -/
def verificationSnapshot (base : SessionRef) (filePath : Option String) (token : Token) : Transfer Snapshot := do
  match ← postRunner (.verificationStatus ("proof-" ++ token.text) base filePath) with
  | .verificationStatus snapshot =>
    check (snapshot.sessionId = base.sessionId ∧ snapshot.contractHash = base.contractHash ∧
      snapshot.manifestDigest = base.manifestDigest ∧ snapshot.filePath = filePath)
      (.transferError "runner verification snapshot invalid")
    pure snapshot
  | _ => .throw (.transferError "runner verification snapshot invalid")

/-- The plan is sent, once. -/
def sendPlan (base : SessionRef) (tokens : Tokens) (planJson : String) (plan : AdmissionPlan) : Transfer Unit := do
  match ← attempt (postRunner (.planReceipt ("plan-" ++ tokens.plan.text) base planJson)) with
  | .error (.transportUncertain _) =>
    let snapshot ← verificationSnapshot base none tokens.planProof
    check (snapshot.planVerified = true ∧ snapshot.inlineFileCount = plan.inlineFileCount ∧ snapshot.verifiedInlineFiles = 0 ∧
      snapshot.allInlineFilesVerified = decide (plan.inlineFileCount = 0) ∧ snapshot.filePrefixSha256 = none ∧
      snapshot.fileBytesReceived = none) (.transferError "runner plan outcome uncertain")
  | .error e => .throw e
  | .ok (.planVerified sessionId manifestDigest planBytesVerified) =>
    check (sessionId = base.sessionId ∧ manifestDigest = plan.manifestDigest ∧ planBytesVerified = (utf8 planJson).length)
      (.transferError "runner plan receipt invalid")
  | .ok _ => .throw (.transferError "runner plan receipt invalid")

/-- What the broker compares after a chunk. -/
structure FileProgress where
  sessionId : String
  filePath : Option String
  fileBytesReceived : Option Nat
  filePrefixSha256 : Option String
  fileSha256Verified : Option Bool
  verifiedInlineFiles : Nat
  allInlineFilesVerified : Bool
  deriving DecidableEq

def progressOfReceipt (r : ChunkReceipt) : FileProgress :=
  ⟨r.sessionId, some r.filePath, some r.fileBytesReceived, some r.filePrefixSha256, some r.fileSha256Verified,
    r.verifiedInlineFiles, r.allInlineFilesVerified⟩

def progressOfSnapshot (s : Snapshot) : FileProgress :=
  ⟨s.sessionId, s.filePath, s.fileBytesReceived, s.filePrefixSha256, s.fileSha256Verified, s.verifiedInlineFiles,
    s.allInlineFilesVerified⟩

/-- The chunk of a file at an offset. -/
def chunkAt (data : List UInt8) (offset : Nat) : List UInt8 := (data.drop offset).take maxFileChunkBytes

/-- The chunk ends the file. -/
def isFinal (data : List UInt8) (offset : Nat) : Bool := decide (offset + (chunkAt data offset).length = data.length)

/-- The request with the chunk of a file at an offset. -/
def chunkRequest (base : SessionRef) (entry : EntryPlan) (data : List UInt8) (offset : Nat) : FileChunk where
  session := base
  filePath := entry.path
  contentSha256 := entry.contentSha256.getD ""
  offset := offset
  chunkBase64 := String.ofList (Base64.encode (chunkAt data offset))
  final := isFinal data offset

/-- The progress that the runner must show after a chunk. -/
def expectedProgress (sha : Sha256) (base : SessionRef) (plan : AdmissionPlan) (number : Nat) (entry : EntryPlan)
    (data sent : List UInt8) (offset : Nat) : FileProgress where
  sessionId := base.sessionId
  filePath := some entry.path
  fileBytesReceived := some (offset + (chunkAt data offset).length)
  filePrefixSha256 := some (sha.hex sent)
  fileSha256Verified := some (isFinal data offset)
  verifiedInlineFiles := if isFinal data offset = true then number else number - 1
  allInlineFilesVerified := isFinal data offset && decide (number = plan.inlineFileCount)

/-- A chunk is sent, once: what the runner shows of the file afterwards. -/
def chunkProgress (base : SessionRef) (tokens : Tokens) (plan : AdmissionPlan) (entry : EntryPlan) (data : List UInt8)
    (offset : Nat) : Transfer FileProgress := do
  match ← attempt (postRunner (.fileChunk ("chunk-" ++ (tokens.chunk entry.path offset).text)
    (chunkRequest base entry data offset))) with
  | .error (.transportUncertain _) =>
    let snapshot ← verificationSnapshot base (some entry.path) (tokens.chunkProof entry.path offset)
    check (snapshot.planVerified = true ∧ snapshot.inlineFileCount = plan.inlineFileCount ∧ snapshot.fileFailed = some false)
      (.transferError "runner file outcome uncertain")
    pure (progressOfSnapshot snapshot)
  | .error e => .throw e
  | .ok (.chunk receipt) =>
    check (receipt.fileVerified = isFinal data offset) (.transferError "runner file receipt invalid")
    pure (progressOfReceipt receipt)
  | .ok _ => .throw (.transferError "runner file receipt invalid")

/-- The body of the loop over the offsets. -/
def sendChunk (sha : Sha256) (base : SessionRef) (tokens : Tokens) (plan : AdmissionPlan) (number : Nat) (entry : EntryPlan)
    (data sent : List UInt8) (offset : Nat) : Transfer Unit := do
  let progress ← chunkProgress base tokens plan entry data offset
  check (progress = expectedProgress sha base plan number entry data sent offset)
    (.transferError "runner file receipt invalid")

/-- The offsets of the chunks of a file. -/
def offsets (data : List UInt8) : List Nat :=
  if data = [] then [0]
  else (List.range ((data.length + maxFileChunkBytes - 1) / maxFileChunkBytes)).map (· * maxFileChunkBytes)

/-- The loop over the offsets; `sent` is what the prefix digest has been fed. -/
def sendChunks (sha : Sha256) (base : SessionRef) (tokens : Tokens) (plan : AdmissionPlan) (number : Nat) (entry : EntryPlan)
    (data : List UInt8) : List UInt8 → List Nat → Transfer Unit
  | _, [] => pure ()
  | sent, offset :: rest => do
    let sent := sent ++ chunkAt data offset
    sendChunk sha base tokens plan number entry data sent offset
    sendChunks sha base tokens plan number entry data sent rest

/-- `files[path]`. -/
def fileContent (files : Option Files) (path : String) : Except TransferError (List UInt8) :=
  match files.bind (·.get? (.str (.text path))) with
  | some (some data) => .ok data
  | _ => .error (.keyError path)

/-- The loop over the files; `number` is the number of the next one. -/
def sendFiles (sha : Sha256) (base : SessionRef) (tokens : Tokens) (plan : AdmissionPlan) (files : Option Files) :
    Nat → List EntryPlan → Transfer Unit
  | _, [] => pure ()
  | number, entry :: rest => do
    let data ← ofExcept (fileContent files entry.path)
    sendChunks sha base tokens plan number entry data [] (offsets data)
    sendFiles sha base tokens plan files (number + 1) rest

/-- The session is released, or its release is proved by a receipt. -/
def releaseSession (base : SessionRef) (tokens : Tokens) : Transfer Unit := do
  let releaseId := "release-" ++ tokens.release.text
  match ← attempt (postRunner (.release releaseId base.sessionId base.contractHash)) with
  | .error (.transportUncertain _) =>
    match ← postRunner (.releaseStatus ("release-proof-" ++ tokens.releaseProof.text) base releaseId) with
    | .releaseStatus sessionId releaseRequestId contractHash manifestDigest =>
      check (releaseRequestId = releaseId ∧ contractHash = base.contractHash ∧ manifestDigest = base.manifestDigest)
        (.transferError "runner release proof invalid")
      check (sessionId = base.sessionId) (.transferError "runner release receipt invalid")
    | _ => .throw (.transferError "runner release proof invalid")
  | .error e => .throw e
  | .ok (.released sessionId) => check (sessionId = base.sessionId) (.transferError "runner release receipt invalid")
  | .ok _ => .throw (.transferError "runner release receipt invalid")

/-- The part of `verify_inert_manifest_files` after the session is prepared. -/
def transferFiles (sha : Sha256) (base : SessionRef) (tokens : Tokens) (planJson : String) (plan : AdmissionPlan)
    (files : Option Files) : Transfer Unit :=
  finally_
    (do sendPlan base tokens planJson plan
        sendFiles sha base tokens plan files 1 (plan.entries.filter fun e => e.kind = "file"))
    (releaseSession base tokens)

/-- `build_strix_runner_manifest_ticket` under the name of its failure. -/
def signTicket (crypto : Crypto) (secret : Secret) (args : Arguments) (requestId : String) (plan : AdmissionPlan) :
    Except TransferError Ticket :=
  match buildStrixRunnerManifestTicket crypto.hmac secret (descriptor args requestId plan) args.clock with
  | .error _ => .error (.transferError "manifest admission rejected")
  | .ok ticket => .ok ticket

/-- `verify_inert_manifest_files`. -/
def verifyInertManifestFiles (crypto : Crypto) (args : Arguments) (tokens : Tokens) : Transfer Receipt := do
  let secret ← ofExcept (keys args)
  check (args.authorized = true) (.transferError "execution contract rejected")
  let (planJson, plan) ← ofExcept (canonicalPlan crypto.sha args.files)
  let ticket ← ofExcept (signTicket crypto secret args tokens.requestId plan)
  let sessionId ← prepareSession args tokens plan ticket
  transferFiles crypto.sha ⟨sessionId, args.contractHash, plan.manifestDigest⟩ tokens planJson plan args.files
  pure ⟨args.contractHash, plan.manifestDigest, plan.inlineFileCount, plan.inlineFileBytes, true, false, false⟩

end InertTransfer

end XbowPerso
