import XbowPerso.ManifestTicket
import XbowPerso.Lib.Base64

/-!
# The sessions of the runner

`RunnerRpcService` behind its authentication: preparing a session with a signed ticket, receiving the plan and the chunks of its
files, releasing it, and the status requests for lost replies. The sessions, the release receipts and the tickets live in the
memory of the process; the journal of consumed tickets is kept by SQLite. Each handler runs under one lock, so it is one step.
-/

namespace XbowPerso

namespace RunnerRpc

open ManifestTicket (Ticket ticketError isId isImage)

def preparedSessionTtl : Int := 900
def maxPreparedSessions : Nat := 128
def maxPreparationTickets : Nat := 1024
def maxReleaseReceipts : Nat := 1024
def maxFileChunkBytes : Nat := 64 * 1024

/-- The longest Base64 text of a chunk. -/
def maxChunkBase64 : Nat := (maxFileChunkBytes + 2) / 3 * 4

/-- `_InertFileProof`. The state of the hash is the bytes it has been fed. -/
structure InertFileProof where
  expectedDigest : String
  expectedBytes : Nat
  receivedBytes : Nat
  hashState : List UInt8
  verified : Bool
  failed : Bool

/-- A proof that has received nothing. -/
def InertFileProof.start (digest : String) (bytes : Nat) : InertFileProof := ⟨digest, bytes, 0, [], false, false⟩

/-- `_PreparedSession`. -/
structure PreparedSession where
  sessionId : String
  preparationRequestId : String
  contractHash : String
  manifestDigest : String
  expiresAt : ℚ
  counts : SignedCounts
  planVerified : Bool
  fileProofs : Dict String InertFileProof

/-- `_ReleasedSession`. -/
structure ReleasedSession where
  sessionId : String
  releaseRequestId : String
  contractHash : String
  manifestDigest : String
  expiresAt : ℚ

/-- What the process keeps in memory. -/
structure Memory where
  prepared : Dict String PreparedSession
  released : Dict String ReleasedSession
  tickets : Dict (String × String) ℚ

/-- The memory of a process that has just started. -/
def Memory.empty : Memory := ⟨Dict.empty, Dict.empty, Dict.empty⟩

/-- The rows of `consumed_tickets`: the contract hash and the request id of a ticket, and the second it expires. -/
abbrev Journal := Dict (String × String) Int

/-- The runner's state. -/
structure State where
  memory : Memory
  journal : Journal

/-- How the runner was started. -/
structure Config where
  activeExecution : Bool
  admissionSecret : Option ManifestTicket.Secret
  hasReplayStore : Bool

/-- The functions of the standard library that the runner uses. -/
structure Crypto where
  sha : Sha256
  hmac : HmacSha256

/-- What a request meets: the readings of the two clocks, whether the journal's database fails, and the tokens that are drawn. -/
structure Circumstances where
  wall : Option ℚ
  monotonic : Option ℚ
  wallAtJournal : Option ℚ
  journalFails : Bool
  tokens : List String

/-! ## Requests and replies -/

/-- A request for a session. -/
structure PrepareRequest where
  requestId : String
  image : PyStr
  exposedPorts : List Int
  manifestDigest : String
  admission : Ticket

/-- The session that a request is about, as it names it. -/
structure SessionRef where
  sessionId : String
  contractHash : String
  manifestDigest : String

/-- A chunk of a file. -/
structure FileChunk where
  session : SessionRef
  filePath : String
  contentSha256 : String
  offset : Int
  chunkBase64 : String
  final : Bool

/-- The inert operations of the runner. -/
inductive Operation where
  | prepare (r : PrepareRequest)
  | preparationStatus (requestId preparationRequestId contractHash manifestDigest : String)
  | planReceipt (requestId : String) (session : SessionRef) (planJson : String)
  | verificationStatus (requestId : String) (session : SessionRef) (filePath : Option String)
  | fileChunk (requestId : String) (chunk : FileChunk)
  | release (requestId sessionId contractHash : String)
  | releaseStatus (requestId : String) (session : SessionRef) (releaseRequestId : String)

/-- The snapshot of a verification status. -/
structure Snapshot where
  sessionId : String
  contractHash : String
  manifestDigest : String
  planVerified : Bool
  inlineFileCount : Nat
  verifiedInlineFiles : Nat
  allInlineFilesVerified : Bool
  filePath : Option String
  fileBytesReceived : Option Nat
  filePrefixSha256 : Option String
  fileSha256Verified : Option Bool
  fileFailed : Option Bool

/-- What the runner says about a chunk it has taken. -/
structure ChunkReceipt where
  fileVerified : Bool
  sessionId : String
  filePath : String
  fileBytesReceived : Nat
  filePrefixSha256 : String
  fileSha256Verified : Bool
  verifiedInlineFiles : Nat
  allInlineFilesVerified : Bool

/-- A reply; `noReply` stands for a call that raises, or that is still drawing session ids. -/
inductive Reply where
  | error (status : Nat) (code : String)
  | prepared (sessionId contractHash manifestDigest : String) (expiresInSeconds : Int)
  | planVerified (sessionId manifestDigest : String) (planBytesVerified : Nat)
  | verificationStatus (snapshot : Snapshot)
  | chunk (receipt : ChunkReceipt)
  | released (sessionId : String)
  | releaseStatus (sessionId releaseRequestId contractHash manifestDigest : String)
  | noReply

/-! ## The journal and the tables -/

/-- What consuming a ticket finds. -/
inductive ConsumeOutcome where
  | consumed
  | replayed
  | capacity
  deriving DecidableEq, Repr

/-- `DELETE FROM consumed_tickets WHERE expires_at <= ?`. -/
def Journal.purge (j : Journal) (now : Int) : Journal := j.filter (fun row => decide (now < row.2))

/-- `_DurablePreparationReplay.consume`. -/
def Journal.consume (j : Journal) (ticketId : String × String) (expiresAt now : Int) : ConsumeOutcome × Journal :=
  let j := j.purge now
  if h : ticketId ∈ j.keys then (.replayed, j)
  else if maxPreparationTickets ≤ j.size then (.capacity, j)
  else (.consumed, j.append ticketId expiresAt h)

/-- `int(x)` of a clock reading. -/
def truncate (x : ℚ) : Int := if 0 ≤ x then ⌊x⌋ else ⌈x⌉

/-- `_prune_prepared_sessions`. -/
def Memory.prune (m : Memory) (now : ℚ) : Memory where
  prepared := m.prepared.filter (fun e => decide (now < e.2.expiresAt))
  released := m.released.filter (fun e => decide (now < e.2.expiresAt))
  tickets := m.tickets.dropWhile (fun e => decide (e.2 ≤ now))

/-- The identifier of a ticket in the tables. -/
def ticketId (t : Ticket) : String × String := (t.descriptor.contractHash, t.descriptor.requestId)

/-- The session of a ticket. -/
def newSession (t : Ticket) (sessionId : String) (expiresAt : ℚ) : PreparedSession where
  sessionId := sessionId
  preparationRequestId := t.descriptor.requestId
  contractHash := t.descriptor.contractHash
  manifestDigest := t.descriptor.manifestDigest
  expiresAt := expiresAt
  counts := t.counts
  planVerified := false
  fileProofs := Dict.empty

/-- The session id of the first token whose id is not in use. -/
def drawSessionId (m : Memory) (tokens : List String) : Option String :=
  (tokens.map ("prepared-" ++ ·)).find? fun id => decide (id ∉ m.prepared.keys) && decide (id ∉ m.released.keys)

/-! ## Preparing a session -/

/-- The part of `_prepare_session` under the lock. -/
def admitTicket (s : State) (t : Ticket) (now : ℚ) (c : Circumstances) : Reply × State :=
  let m := s.memory.prune now
  if ticketId t ∈ m.tickets.keys then (.error 409 "preparation_ticket_replayed", ⟨m, s.journal⟩)
  else if maxPreparedSessions ≤ m.prepared.size then (.error 503 "prepared_session_capacity_reached", ⟨m, s.journal⟩)
  else if maxPreparationTickets ≤ m.tickets.size then (.error 503 "preparation_ticket_capacity_reached", ⟨m, s.journal⟩)
  else
    match c.wallAtJournal with
    | none => (.noReply, ⟨m, s.journal⟩)
    | some wall =>
      if c.journalFails = true then (.error 503 "preparation_replay_store_unavailable", ⟨m, s.journal⟩)
      else
        match s.journal.consume (ticketId t) t.expiresAt (truncate wall) with
        | (.replayed, j) => (.error 409 "preparation_ticket_replayed", ⟨m, j⟩)
        | (.capacity, j) => (.error 503 "preparation_ticket_capacity_reached", ⟨m, j⟩)
        | (.consumed, j) =>
          match drawSessionId m c.tokens with
          | none => (.noReply, ⟨m, j⟩)
          | some sessionId =>
            (.prepared sessionId t.descriptor.contractHash t.descriptor.manifestDigest preparedSessionTtl,
              ⟨{ m with
                  prepared := m.prepared.set sessionId (newSession t sessionId (now + preparedSessionTtl))
                  tickets := m.tickets.set (ticketId t) (now + preparedSessionTtl) }, j⟩)

/-- `_prepare_session`. -/
def prepareSession (crypto : Crypto) (cfg : Config) (s : State) (r : PrepareRequest) (c : Circumstances) : Reply × State :=
  if cfg.activeExecution = true then (.error 409 "inert_session_required", s)
  else
    match cfg.admissionSecret with
    | none => (.error 503 "manifest_admission_key_unavailable", s)
    | some secret =>
      if cfg.hasReplayStore = false then (.error 503 "preparation_replay_store_unavailable", s)
      else
        match ticketError crypto.hmac secret r.admission ⟨r.requestId, r.image, r.exposedPorts, r.manifestDigest⟩ c.wall with
        | some (.rejected _) => (.error 403 "manifest_admission_rejected", s)
        | some .unicodeEncodeError => (.noReply, s)
        | none =>
          match c.monotonic with
          | none => (.error 503 "clock_unavailable", s)
          | some now => admitTicket s r.admission now c

/-- What the other handlers have in common: inert mode, a clock, and the tables pruned at its reading. -/
def underLock (cfg : Config) (s : State) (c : Circumstances) (body : ℚ → Memory → Reply × Memory) : Reply × State :=
  if cfg.activeExecution = true then (.error 409 "inert_session_required", s)
  else
    match c.monotonic with
    | none => (.error 503 "clock_unavailable", s)
    | some now => ((body now (s.memory.prune now)).1, ⟨(body now (s.memory.prune now)).2, s.journal⟩)

/-- `_preparation_status`: the sessions are read in their order until one has the request id. -/
def preparationStatus (preparationRequestId contractHash manifestDigest : String) (now : ℚ) (m : Memory) : Reply :=
  match m.prepared.values.find? (fun item => decide (item.preparationRequestId = preparationRequestId)) with
  | none => .error 404 "prepared_session_not_found"
  | some item =>
    if item.contractHash ≠ contractHash then .error 403 "prepared_session_contract_mismatch"
    else if item.manifestDigest ≠ manifestDigest then .error 403 "manifest_digest_mismatch"
    else .prepared item.sessionId item.contractHash item.manifestDigest ⌈item.expiresAt - now⌉

/-- The session that a request names, or the error of a request that does not know it. -/
def findSession (m : Memory) (ref : SessionRef) : Except Reply PreparedSession :=
  match m.prepared.get? ref.sessionId with
  | none => .error (.error 404 "prepared_session_not_found")
  | some item =>
    if item.contractHash ≠ ref.contractHash then .error (.error 403 "prepared_session_contract_mismatch")
    else if item.manifestDigest ≠ ref.manifestDigest then .error (.error 403 "manifest_digest_mismatch")
    else .ok item

/-! ## The plan and the files -/

/-- The proofs of the files of a plan. -/
def fileProofs (planJson : String) : Dict String InertFileProof :=
  Dict.ofList (((planEntries planJson).filterMap planFile?).map fun f => (f.1, .start f.2.1 f.2.2))

/-- `_receive_plan` under the lock. -/
def receivePlan (sha : Sha256) (ref : SessionRef) (planJson : String) (m : Memory) : Reply × Memory :=
  match findSession m ref with
  | .error e => (e, m)
  | .ok item =>
    if item.planVerified = true then (.error 409 "manifest_plan_already_verified", m)
    else
      match verifyCanonicalManifestPlan sha planJson item.manifestDigest item.counts with
      | .error _ => (.error 400 "manifest_plan_rejected", m)
      | .ok verifiedBytes =>
        let verified := { item with planVerified := true, fileProofs := fileProofs planJson }
        (.planVerified item.sessionId item.manifestDigest verifiedBytes,
          { m with prepared := m.prepared.set item.sessionId verified })

/-- The files of a session that are verified. -/
def verifiedFiles (item : PreparedSession) : Nat := item.fileProofs.values.countP (·.verified)

/-- `_verification_status` under the lock. -/
def verificationStatus (sha : Sha256) (ref : SessionRef) (filePath : Option String) (m : Memory) : Reply :=
  match findSession m ref with
  | .error e => e
  | .ok item =>
    let snapshot (proof : Option InertFileProof) : Reply := .verificationStatus {
      sessionId := item.sessionId
      contractHash := item.contractHash
      manifestDigest := item.manifestDigest
      planVerified := item.planVerified
      inlineFileCount := item.counts.inlineFileCount
      verifiedInlineFiles := verifiedFiles item
      allInlineFilesVerified := item.planVerified && decide (verifiedFiles item = item.counts.inlineFileCount)
      filePath := filePath
      fileBytesReceived := proof.map (·.receivedBytes)
      filePrefixSha256 := proof.map fun p => sha.hex p.hashState
      fileSha256Verified := proof.map (·.verified)
      fileFailed := proof.map (·.failed) }
    match filePath with
    | none => snapshot none
    | some path =>
      if item.planVerified = false then .error 409 "manifest_plan_not_verified"
      else
        match item.fileProofs.get? path with
        | none => .error 404 "manifest_file_not_found"
        | some proof => snapshot (some proof)

/-- `_decode_inert_chunk`: none where it raises. -/
def decodeInertChunk (encoded : String) : Option (List UInt8) :=
  if maxChunkBase64 < encoded.length then none
  else
    match Base64.decode encoded.toList with
    | none => none
    | some content =>
      if maxFileChunkBytes < content.length ∨ Base64.encode content ≠ encoded.toList then none else some content

/-- The part of `_receive_file_chunk` that works on the proof of the file: the error, or whether the file is now verified, and the
proof afterwards. -/
def receiveChunk (sha : Sha256) (proof : InertFileProof) (chunk : FileChunk) : Except (Nat × String) Bool × InertFileProof :=
  if proof.expectedDigest ≠ chunk.contentSha256 then (.error (403, "manifest_file_digest_mismatch"), proof)
  else if proof.verified || proof.failed then (.error (409, "manifest_file_already_finalized"), proof)
  else if chunk.offset ≠ proof.receivedBytes then (.error (409, "manifest_file_offset_mismatch"), proof)
  else
    match decodeInertChunk chunk.chunkBase64 with
    | none => (.error (400, "manifest_file_chunk_invalid"), proof)
    | some content =>
      let nextBytes := proof.receivedBytes + content.length
      if proof.expectedBytes < nextBytes then (.error (413, "manifest_file_size_exceeded"), proof)
      else if (content = [] ∧ chunk.final = false) ∨ chunk.final ≠ decide (nextBytes = proof.expectedBytes) then
        (.error (400, "manifest_file_finalization_invalid"), proof)
      else
        let proof := { proof with hashState := proof.hashState ++ content, receivedBytes := nextBytes }
        if chunk.final = false then (.ok false, proof)
        else if sha.hex proof.hashState ≠ proof.expectedDigest then
          (.error (422, "manifest_file_content_mismatch"), { proof with failed := true })
        else (.ok true, { proof with verified := true })

/-- `_receive_file_chunk` under the lock. The proof is an object that the session refers to, so it changes with the error as well. -/
def receiveFileChunk (sha : Sha256) (chunk : FileChunk) (m : Memory) : Reply × Memory :=
  match findSession m chunk.session with
  | .error e => (e, m)
  | .ok item =>
    if item.planVerified = false then (.error 409 "manifest_plan_not_verified", m)
    else
      match item.fileProofs.get? chunk.filePath with
      | none => (.error 404 "manifest_file_not_found", m)
      | some proof =>
        let (result, proof) := receiveChunk sha proof chunk
        let item := { item with fileProofs := item.fileProofs.set chunk.filePath proof }
        let m := { m with prepared := m.prepared.set item.sessionId item }
        match result with
        | .error (status, code) => (.error status code, m)
        | .ok isLast => (.chunk {
            fileVerified := isLast
            sessionId := item.sessionId
            filePath := chunk.filePath
            fileBytesReceived := proof.receivedBytes
            filePrefixSha256 := sha.hex proof.hashState
            fileSha256Verified := proof.verified
            verifiedInlineFiles := verifiedFiles item
            allInlineFilesVerified := decide (verifiedFiles item = item.counts.inlineFileCount) }, m)

/-! ## Releasing a session -/

/-- `_release_session` under the lock. -/
def releaseSession (requestId sessionId contractHash : String) (m : Memory) : Reply × Memory :=
  match m.prepared.get? sessionId with
  | none => (.error 404 "prepared_session_not_found", m)
  | some item =>
    if item.contractHash ≠ contractHash then (.error 403 "prepared_session_contract_mismatch", m)
    else
      let released := if maxReleaseReceipts ≤ m.released.size then m.released.dropFirst else m.released
      (.released item.sessionId,
        { m with
          prepared := m.prepared.erase item.sessionId
          released := released.set item.sessionId
            ⟨item.sessionId, requestId, item.contractHash, item.manifestDigest, item.expiresAt⟩ })

/-- `_release_status` under the lock. -/
def releaseStatus (ref : SessionRef) (releaseRequestId : String) (m : Memory) : Reply :=
  match m.released.get? ref.sessionId with
  | none => .error 404 "release_receipt_not_found"
  | some item =>
    if item.contractHash ≠ ref.contractHash then .error 403 "prepared_session_contract_mismatch"
    else if item.manifestDigest ≠ ref.manifestDigest then .error 403 "manifest_digest_mismatch"
    else if item.releaseRequestId ≠ releaseRequestId then .error 404 "release_receipt_not_found"
    else .releaseStatus item.sessionId item.releaseRequestId item.contractHash item.manifestDigest

/-! ## Dispatch -/

/-- What `_validate_operation_payload` asks of the fields that name a session. -/
def SessionRef.isValid (ref : SessionRef) : Bool :=
  isId ref.sessionId && isHexOfLength 64 ref.contractHash && isHexOfLength 64 ref.manifestDigest

/-- `_validate_operation_payload`. -/
def Operation.isValid : Operation → Bool
  | .prepare r =>
    isId r.requestId && isImage r.image && (ManifestTicket.portsError r.exposedPorts).isNone && isHexOfLength 64 r.manifestDigest
  | .preparationStatus requestId preparationRequestId contractHash manifestDigest =>
    isId requestId && isId preparationRequestId && isHexOfLength 64 contractHash && isHexOfLength 64 manifestDigest
  | .planReceipt requestId session planJson => isId requestId && session.isValid && decide (planJson.length ≤ 256 * 1024)
  | .verificationStatus requestId session filePath => isId requestId && session.isValid && filePath.all isPlanPath
  | .fileChunk requestId chunk =>
    isId requestId && chunk.session.isValid && isPlanPath chunk.filePath && isHexOfLength 64 chunk.contentSha256 &&
      decide (0 ≤ chunk.offset) && decide (chunk.offset ≤ 1024 * 1024) && decide (chunk.chunkBase64.length ≤ maxChunkBase64)
  | .release requestId sessionId contractHash => isId requestId && isId sessionId && isHexOfLength 64 contractHash
  | .releaseStatus requestId session releaseRequestId => isId requestId && session.isValid && isId releaseRequestId

/-- The lines of `handle` after the authentication of a request. -/
def handle (crypto : Crypto) (cfg : Config) (s : State) (op : Operation) (c : Circumstances) : Reply × State :=
  if op.isValid = false then (.error 400 "invalid_request", s)
  else
    match op with
    | .prepare r => prepareSession crypto cfg s r c
    | .preparationStatus _ preparationRequestId contractHash manifestDigest =>
      underLock cfg s c fun now m => (preparationStatus preparationRequestId contractHash manifestDigest now m, m)
    | .planReceipt _ session planJson => underLock cfg s c fun _ m => receivePlan crypto.sha session planJson m
    | .verificationStatus _ session filePath =>
      underLock cfg s c fun _ m => (verificationStatus crypto.sha session filePath m, m)
    | .fileChunk _ chunk => underLock cfg s c fun _ m => receiveFileChunk crypto.sha chunk m
    | .release requestId sessionId contractHash =>
      underLock cfg s c fun _ m => releaseSession requestId sessionId contractHash m
    | .releaseStatus _ session releaseRequestId =>
      underLock cfg s c fun _ m => (releaseStatus session releaseRequestId m, m)

/-! ## Runs -/

/-- What happens to the runner: a request that passed its authentication, or a restart. -/
inductive Event where
  | request (op : Operation) (c : Circumstances)
  | restart

/-- The reply to an event, and the state after it: a restart loses the memory and keeps the journal. -/
def Event.apply (crypto : Crypto) (cfg : Config) (s : State) : Event → Reply × State
  | .request op c => handle crypto cfg s op c
  | .restart => (.noReply, ⟨.empty, s.journal⟩)

/-- The replies to the events of a run. -/
def replies (crypto : Crypto) (cfg : Config) (s : State) : List Event → List (Event × Reply)
  | [] => []
  | e :: es => (e, (e.apply crypto cfg s).1) :: replies crypto cfg (e.apply crypto cfg s).2 es

/-- The state after the events of a run. -/
def after (crypto : Crypto) (cfg : Config) (s : State) (run : List Event) : State :=
  run.foldl (fun s e => (e.apply crypto cfg s).2) s

/-- The runs of a process from its start: what it was sent and what it replied, and the state it is in. -/
inductive History (crypto : Crypto) (cfg : Config) : List (Event × Reply) → State → Prop
  | start (j : Journal) : History crypto cfg [] ⟨.empty, j⟩
  | event {log : List (Event × Reply)} {s : State} (h : History crypto cfg log s) (e : Event) :
      History crypto cfg (log ++ [(e, (e.apply crypto cfg s).1)]) (e.apply crypto cfg s).2

/-- The proof of a file of a session. -/
def proofOf (s : State) (S path : String) : Option InertFileProof :=
  (s.memory.prepared.get? S).bind fun item => item.fileProofs.get? path

end RunnerRpc

end XbowPerso
