import XbowPerso.RunnerSessions

/-!
# What the runner's handlers do to its sessions

Every event first forgets some of what is in memory: what has expired, or everything at a restart. What it does then is one of a few
steps: nothing, a session prepared, a plan verified, a chunk given to the proof of a file, or a session released. The invariants of
a history are derived from these steps.
-/

namespace XbowPerso

namespace RunnerRpc

variable {crypto : Crypto} {cfg : Config} {sha : Sha256}

/-! ## The proof of one file -/

/-- A chunk that the proof of its file takes: it starts where the last one ended, ends within the file, and is final exactly when it
ends the file. -/
structure Takes (proof : InertFileProof) (chunk : FileChunk) (content : List UInt8) : Prop where
  digest : proof.expectedDigest = chunk.contentSha256
  notVerified : proof.verified = false
  notFailed : proof.failed = false
  offset : chunk.offset = proof.receivedBytes
  decoded : decodeInertChunk chunk.chunkBase64 = some content
  fits : proof.receivedBytes + content.length ≤ proof.expectedBytes
  nonempty : content ≠ [] ∨ chunk.final = true
  final : chunk.final = decide (proof.receivedBytes + content.length = proof.expectedBytes)

/-- The proof after the bytes of a chunk. -/
def InertFileProof.feed (proof : InertFileProof) (content : List UInt8) : InertFileProof :=
  { proof with hashState := proof.hashState ++ content, receivedBytes := proof.receivedBytes + content.length }

/-- What a chunk does to the proof of its file. -/
inductive ChunkStep (sha : Sha256) (proof : InertFileProof) (chunk : FileChunk) :
    Except (Nat × String) Bool × InertFileProof → Prop
  | refused (e : Nat × String) : ChunkStep sha proof chunk (.error e, proof)
  | fed {content : List UInt8} (h : Takes proof chunk content) (hfinal : chunk.final = false) :
      ChunkStep sha proof chunk (.ok false, proof.feed content)
  | mismatch {content : List UInt8} (h : Takes proof chunk content) (hfinal : chunk.final = true)
      (hhex : sha.hex (proof.hashState ++ content) ≠ proof.expectedDigest) :
      ChunkStep sha proof chunk (.error (422, "manifest_file_content_mismatch"), { proof.feed content with failed := true })
  | verified {content : List UInt8} (h : Takes proof chunk content) (hfinal : chunk.final = true)
      (hhex : sha.hex (proof.hashState ++ content) = proof.expectedDigest) :
      ChunkStep sha proof chunk (.ok true, { proof.feed content with verified := true })

theorem receiveChunk_step (sha : Sha256) (proof : InertFileProof) (chunk : FileChunk) :
    ChunkStep sha proof chunk (receiveChunk sha proof chunk) := by
  unfold receiveChunk
  split
  · exact .refused _
  rename_i hdigest
  split
  · exact .refused _
  rename_i hopen
  split
  · exact .refused _
  rename_i hoffset
  split
  · exact .refused _
  rename_i content hdecoded
  dsimp only
  split
  · exact .refused _
  rename_i hfits
  split
  · exact .refused _
  rename_i hfinalization
  rw [not_or, not_not] at hfinalization
  obtain ⟨hverified, hfailed⟩ : proof.verified = false ∧ proof.failed = false := by simpa using hopen
  have htakes : Takes proof chunk content := by
    refine ⟨not_not.mp hdigest, hverified, hfailed, not_not.mp hoffset, hdecoded, not_lt.mp hfits, ?_, hfinalization.2⟩
    by_cases hempty : content = []
    · right
      simpa [hempty] using hfinalization.1
    · exact .inl hempty
  split
  · rename_i hfinal
    exact .fed htakes hfinal
  rename_i hfinal
  rw [Bool.not_eq_false] at hfinal
  split
  · rename_i hhex
    exact .mismatch htakes hfinal hhex
  · rename_i hhex
    exact .verified htakes hfinal (not_not.mp hhex)

variable {proof : InertFileProof}

/-- A chunk that is taken goes through. -/
theorem receiveChunk_of_takes {chunk : FileChunk} {content : List UInt8} (h : Takes proof chunk content)
    (hhex : chunk.final = true → sha.hex (proof.hashState ++ content) = proof.expectedDigest) :
    receiveChunk sha proof chunk =
      (.ok chunk.final, { proof.feed content with verified := chunk.final }) := by
  have hopen : ¬ (proof.verified || proof.failed) = true := by simp [h.notVerified, h.notFailed]
  have hfinalization : ¬ ((content = [] ∧ chunk.final = false) ∨
      chunk.final ≠ decide (proof.receivedBytes + content.length = proof.expectedBytes)) := by
    rintro (⟨hempty, hfinal⟩ | hne)
    · rcases h.nonempty with hne | htrue
      · exact hne hempty
      · rw [hfinal] at htrue
        cases htrue
    · exact hne h.final
  rw [receiveChunk, if_neg (not_not.mpr h.digest), if_neg hopen, if_neg (not_not.mpr h.offset), h.decoded]
  dsimp only
  rw [if_neg (not_lt.mpr h.fits), if_neg hfinalization]
  cases hfinal : chunk.final with
  | false =>
    have hsame : proof.verified = false := h.notVerified
    rw [if_pos rfl, InertFileProof.feed, ← hsame]
  | true => rw [if_neg (by simp), if_neg (not_not.mpr (hhex hfinal)), InertFileProof.feed]

/-- What holds of every proof of a session: it has received what it was fed, no more than expected, and is verified only when what
it was fed has the expected length and digest. -/
structure ProofOk (sha : Sha256) (proof : InertFileProof) : Prop where
  received : proof.receivedBytes = proof.hashState.length
  le_expected : proof.receivedBytes ≤ proof.expectedBytes
  verified : proof.verified = true → proof.receivedBytes = proof.expectedBytes ∧ sha.hex proof.hashState = proof.expectedDigest

theorem proofOk_start (digest : String) (bytes : Nat) : ProofOk sha (.start digest bytes) :=
  ⟨rfl, Nat.zero_le _, fun h => by cases h⟩

theorem ProofOk.feed (h : ProofOk sha proof) {chunk : FileChunk} {content : List UInt8}
    (htakes : Takes proof chunk content) : ProofOk sha (proof.feed content) := by
  refine ⟨?_, htakes.fits, fun hv => ?_⟩
  · simp [InertFileProof.feed, h.received]
  · have hv' : proof.verified = true := hv
    rw [htakes.notVerified] at hv'
    cases hv'

theorem ProofOk.receiveChunk (h : ProofOk sha proof) (chunk : FileChunk) :
    ProofOk sha (receiveChunk sha proof chunk).2 := by
  have hstep := receiveChunk_step sha proof chunk
  generalize RunnerRpc.receiveChunk sha proof chunk = result at hstep
  cases hstep with
  | refused e => exact h
  | fed htakes hfinal => exact h.feed htakes
  | mismatch htakes hfinal hhex =>
    have hfed := h.feed htakes
    exact ⟨hfed.received, hfed.le_expected, fun hv => hfed.verified hv⟩
  | verified htakes hfinal hhex =>
    have hfed := h.feed htakes
    refine ⟨hfed.received, hfed.le_expected, fun _ => ⟨?_, hhex⟩⟩
    have hends := htakes.final
    rw [hfinal] at hends
    exact of_decide_eq_true hends.symm

/-- What a proof expects does not change. -/
def InertFileProof.expected (proof : InertFileProof) : String × Nat := (proof.expectedDigest, proof.expectedBytes)

theorem expected_receiveChunk (sha : Sha256) (proof : InertFileProof) (chunk : FileChunk) :
    (receiveChunk sha proof chunk).2.expected = proof.expected := by
  have hstep := receiveChunk_step sha proof chunk
  generalize receiveChunk sha proof chunk = result at hstep
  cases hstep <;> rfl

/-! ## The steps of the handlers -/

/-- A memory that has nothing that the other has not. -/
structure Forgets (m m' : Memory) : Prop where
  prepared : ∀ {S item}, m'.prepared.get? S = some item → m.prepared.get? S = some item
  released : ∀ {S item}, m'.released.get? S = some item → m.released.get? S = some item

theorem Forgets.refl (m : Memory) : Forgets m m := ⟨id, id⟩

theorem forgets_prune (m : Memory) (now : ℚ) : Forgets m (m.prune now) := by
  constructor
  · intro S item h
    rw [Memory.prune, Dict.get?_filter] at h
    exact (Option.filter_eq_some_iff.mp h).1
  · intro S item h
    rw [Memory.prune, Dict.get?_filter] at h
    exact (Option.filter_eq_some_iff.mp h).1

theorem forgets_empty (m : Memory) : Forgets m .empty := by
  constructor
  · intro S item h
    cases h
  · intro S item h
    cases h

/-- The session that a reference names and that has the contract and the manifest it says. -/
structure Finds (m : Memory) (ref : SessionRef) (item : PreparedSession) : Prop where
  prepared : m.prepared.get? ref.sessionId = some item
  contract : item.contractHash = ref.contractHash
  manifest : item.manifestDigest = ref.manifestDigest

variable {m : Memory} {item : PreparedSession}

theorem findSession_eq_ok {ref : SessionRef} :
    findSession m ref = .ok item ↔ Finds m ref item := by
  unfold findSession
  constructor
  · intro h
    split at h
    · cases h
    rename_i found hfound
    split at h
    · cases h
    rename_i hcontract
    split at h
    · cases h
    rename_i hmanifest
    cases h
    exact ⟨hfound, not_not.mp hcontract, not_not.mp hmanifest⟩
  · intro h
    rw [h.prepared]
    dsimp only
    rw [if_neg (not_not.mpr h.contract), if_neg (not_not.mpr h.manifest)]

/-- The session with another proof for the file of a chunk. -/
def PreparedSession.setProof (item : PreparedSession) (path : String) (proof : InertFileProof) : PreparedSession :=
  { item with fileProofs := item.fileProofs.set path proof }

/-- The session with its plan verified. -/
def PreparedSession.verifyPlan (item : PreparedSession) (planJson : String) : PreparedSession :=
  { item with planVerified := true, fileProofs := RunnerRpc.fileProofs planJson }

/-- The memory with a session replaced. -/
def Memory.setSession (m : Memory) (item : PreparedSession) : Memory :=
  { m with prepared := m.prepared.set item.sessionId item }

/-- The reply to a chunk that has been taken. -/
def chunkReceipt (sha : Sha256) (item : PreparedSession) (path : String) (proof : InertFileProof) (isLast : Bool) : ChunkReceipt where
  fileVerified := isLast
  sessionId := item.sessionId
  filePath := path
  fileBytesReceived := proof.receivedBytes
  filePrefixSha256 := sha.hex proof.hashState
  fileSha256Verified := proof.verified
  verifiedInlineFiles := verifiedFiles item
  allInlineFilesVerified := decide (verifiedFiles item = item.counts.inlineFileCount)

/-- The reply to a chunk. -/
def chunkReply (sha : Sha256) (item : PreparedSession) (path : String) (proof : InertFileProof) :
    Except (Nat × String) Bool → Reply
  | .error (status, code) => .error status code
  | .ok isLast => .chunk (chunkReceipt sha item path proof isLast)

/-- What the handlers do to a memory that has forgotten what it had to. -/
inductive MemoryStep (sha : Sha256) (m : Memory) : Event → Reply → Memory → Prop
  | quiet (e : Event) (reply : Reply) (hprepared : ∀ S h d x, reply = .prepared S h d x → ∃ id r h d c, e =
        .request (.preparationStatus id r h d) c) (hplan : ∀ S d n, reply ≠ .planVerified S d n) (hchunk : ∀ r, reply ≠ .chunk r)
      (hreleased : ∀ S, reply ≠ .released S) : MemoryStep sha m e reply m
  | prepared {r : PrepareRequest} {c : Circumstances} {S : String} {until_ : ℚ} {tickets : Dict (String × String) ℚ}
      (hnew : m.prepared.get? S = none) :
      MemoryStep sha m (.request (.prepare r) c)
        (.prepared S r.admission.descriptor.contractHash r.admission.descriptor.manifestDigest preparedSessionTtl)
        { m with prepared := m.prepared.set S (newSession r.admission S until_), tickets := tickets }
  | planned {id : String} {ref : SessionRef} {text : String} {c : Circumstances} {item : PreparedSession} {bytes : Nat}
      (hfinds : Finds m ref item) (hnot : item.planVerified = false)
      (hplan : verifyCanonicalManifestPlan sha text item.manifestDigest item.counts = .ok bytes) :
      MemoryStep sha m (.request (.planReceipt id ref text) c) (.planVerified item.sessionId item.manifestDigest bytes)
        (m.setSession (item.verifyPlan text))
  | chunk {id : String} {chunk : FileChunk} {c : Circumstances} {item : PreparedSession} {proof : InertFileProof}
      (hfinds : Finds m chunk.session item) (hverified : item.planVerified = true)
      (hproof : item.fileProofs.get? chunk.filePath = some proof) :
      MemoryStep sha m (.request (.fileChunk id chunk) c)
        (chunkReply sha (item.setProof chunk.filePath (receiveChunk sha proof chunk).2) chunk.filePath
          (receiveChunk sha proof chunk).2 (receiveChunk sha proof chunk).1)
        (m.setSession (item.setProof chunk.filePath (receiveChunk sha proof chunk).2))
  | released {id S contractHash : String} {c : Circumstances} {item : PreparedSession} {kept : Dict String ReleasedSession}
      (hfound : m.prepared.get? S = some item) (hkept : ∀ {S' r}, kept.get? S' = some r → m.released.get? S' = some r) :
      MemoryStep sha m (.request (.release id S contractHash) c) (.released item.sessionId)
        { m with prepared := m.prepared.erase item.sessionId
                 released := kept.set item.sessionId
                    ⟨item.sessionId, id, item.contractHash, item.manifestDigest, item.expiresAt⟩ }

/-- An error leaves the memory as it is. -/
theorem MemoryStep.error (sha : Sha256) (m : Memory) (e : Event) (status : Nat) (code : String) :
    MemoryStep sha m e (.error status code) m :=
  .quiet _ _ (by simp) (by simp) (by simp) (by simp)

theorem MemoryStep.noReply (sha : Sha256) (m : Memory) (e : Event) : MemoryStep sha m e .noReply m :=
  .quiet _ _ (by simp) (by simp) (by simp) (by simp)

theorem findSession_error {ref : SessionRef} {reply : Reply} (h : findSession m ref = .error reply) :
    ∃ status code, reply = .error status code := by
  unfold findSession at h
  split at h
  · cases h
    exact ⟨_, _, rfl⟩
  split at h
  · cases h
    exact ⟨_, _, rfl⟩
  split at h
  · cases h
    exact ⟨_, _, rfl⟩
  · cases h

theorem receivePlan_step (sha : Sha256) (m : Memory) (id : String) (ref : SessionRef) (text : String) (c : Circumstances) :
    MemoryStep sha m (.request (.planReceipt id ref text) c) (receivePlan sha ref text m).1 (receivePlan sha ref text m).2 := by
  unfold receivePlan
  split
  · rename_i reply hfind
    obtain ⟨status, code, rfl⟩ := findSession_error hfind
    exact .error ..
  rename_i item hfind
  split
  · exact .error ..
  rename_i hnot
  split
  · exact .error ..
  rename_i bytes hplan
  exact .planned (findSession_eq_ok.mp hfind) (by simpa using hnot) hplan

theorem receiveFileChunk_step (sha : Sha256) (m : Memory) (id : String) (chunk : FileChunk) (c : Circumstances) :
    MemoryStep sha m (.request (.fileChunk id chunk) c) (receiveFileChunk sha chunk m).1 (receiveFileChunk sha chunk m).2 := by
  unfold receiveFileChunk
  split
  · rename_i reply hfind
    obtain ⟨status, code, rfl⟩ := findSession_error hfind
    exact .error ..
  rename_i item hfind
  split
  · exact .error ..
  rename_i hverified
  split
  · exact .error ..
  rename_i proof hproof
  rw [Bool.not_eq_false] at hverified
  have hstep : MemoryStep sha m (.request (.fileChunk id chunk) c) _ _ := MemoryStep.chunk (findSession_eq_ok.mp hfind) hverified hproof
  generalize receiveChunk sha proof chunk = result at hstep
  obtain ⟨(_ | isLast), proof'⟩ := result
  · exact hstep
  · exact hstep

theorem releaseSession_step (sha : Sha256) (m : Memory) (id S contractHash : String) (c : Circumstances) :
    MemoryStep sha m (.request (.release id S contractHash) c) (releaseSession id S contractHash m).1
      (releaseSession id S contractHash m).2 := by
  unfold releaseSession
  split
  · exact .error ..
  rename_i item hfound
  split
  · exact .error ..
  refine .released hfound fun {S' r} h => ?_
  split at h
  · exact Dict.mem_entries.mp (List.mem_of_mem_tail (Dict.mem_entries.mpr h))
  · exact h

theorem verificationStatus_quiet (sha : Sha256) (m : Memory) (e : Event) (ref : SessionRef) (path : Option String) :
    MemoryStep sha m e (verificationStatus sha ref path m) m := by
  unfold verificationStatus
  split
  · rename_i reply hfind
    obtain ⟨status, code, rfl⟩ := findSession_error hfind
    exact .error ..
  dsimp only
  split
  · exact .quiet _ _ (by simp) (by simp) (by simp) (by simp)
  split
  · exact .error ..
  split
  · exact .error ..
  exact .quiet _ _ (by simp) (by simp) (by simp) (by simp)

theorem releaseStatus_quiet (sha : Sha256) (m : Memory) (e : Event) (ref : SessionRef) (id : String) :
    MemoryStep sha m e (releaseStatus ref id m) m := by
  unfold releaseStatus
  split
  · exact .error ..
  split
  · exact .error ..
  split
  · exact .error ..
  split
  · exact .error ..
  exact .quiet _ _ (by simp) (by simp) (by simp) (by simp)

theorem preparationStatus_quiet (sha : Sha256) (m : Memory) (c : Circumstances) (id r h d : String) (now : ℚ) :
    MemoryStep sha m (.request (.preparationStatus id r h d) c) (preparationStatus r h d now m) m := by
  unfold preparationStatus
  split
  · exact .error ..
  split
  · exact .error ..
  split
  · exact .error ..
  exact .quiet _ _ (fun _ _ _ _ _ => ⟨_, _, _, _, _, rfl⟩) (by simp) (by simp) (by simp)

/-- A token whose id is in use is passed over. -/
theorem get?_drawSessionId {tokens : List String} {S : String} (h : drawSessionId m tokens = some S) :
    m.prepared.get? S = none := by
  have hfree := List.find?_some h
  rw [Bool.and_eq_true] at hfree
  exact Dict.get?_eq_none.mpr (of_decide_eq_true hfree.1)

theorem admitTicket_step (sha : Sha256) (s : State) (r : PrepareRequest) (now : ℚ) (c : Circumstances) :
    MemoryStep sha (s.memory.prune now) (.request (.prepare r) c) (admitTicket s r.admission now c).1
      (admitTicket s r.admission now c).2.memory := by
  unfold admitTicket
  dsimp only
  split
  · exact .error ..
  split
  · exact .error ..
  split
  · exact .error ..
  split
  · exact .noReply ..
  split
  · exact .error ..
  split
  · exact .error ..
  · exact .error ..
  split
  · exact .noReply ..
  rename_i S hdraw
  exact .prepared (get?_drawSessionId hdraw)

/-- The handlers under the lock: the tables are pruned, or the request fails before. -/
theorem underLock_step {s : State} {e : Event} {c : Circumstances} {body : ℚ → Memory → Reply × Memory}
    (hbody : ∀ now, MemoryStep sha (s.memory.prune now) e (body now (s.memory.prune now)).1 (body now (s.memory.prune now)).2) :
    ∃ m, Forgets s.memory m ∧ MemoryStep sha m e (underLock cfg s c body).1 (underLock cfg s c body).2.memory := by
  unfold underLock
  split
  · exact ⟨_, .refl _, .error ..⟩
  split
  · exact ⟨_, .refl _, .error ..⟩
  · rename_i now hnow
    exact ⟨_, forgets_prune _ now, hbody now⟩

/-- What an event does to the memory. -/
theorem apply_step (crypto : Crypto) (cfg : Config) (s : State) (e : Event) :
    ∃ m, Forgets s.memory m ∧ MemoryStep crypto.sha m e (e.apply crypto cfg s).1 (e.apply crypto cfg s).2.memory := by
  cases e with
  | restart => exact ⟨_, forgets_empty _, .noReply ..⟩
  | request op c =>
    show ∃ m, Forgets s.memory m ∧ MemoryStep crypto.sha m _ (handle crypto cfg s op c).1 (handle crypto cfg s op c).2.memory
    unfold handle
    split
    · exact ⟨_, .refl _, .error ..⟩
    cases op with
    | prepare r =>
      show ∃ m, Forgets s.memory m ∧
        MemoryStep crypto.sha m _ (prepareSession crypto cfg s r c).1 (prepareSession crypto cfg s r c).2.memory
      unfold prepareSession
      split
      · exact ⟨_, .refl _, .error ..⟩
      split
      · exact ⟨_, .refl _, .error ..⟩
      split
      · exact ⟨_, .refl _, .error ..⟩
      split
      · exact ⟨_, .refl _, .error ..⟩
      · exact ⟨_, .refl _, .noReply ..⟩
      split
      · exact ⟨_, .refl _, .error ..⟩
      · rename_i now hnow
        exact ⟨_, forgets_prune _ now, admitTicket_step ..⟩
    | preparationStatus id r h d => exact underLock_step fun now => preparationStatus_quiet ..
    | planReceipt id ref text => exact underLock_step fun now => receivePlan_step ..
    | verificationStatus id ref path => exact underLock_step fun now => verificationStatus_quiet ..
    | fileChunk id chunk => exact underLock_step fun now => receiveFileChunk_step ..
    | release id S h => exact underLock_step fun now => releaseSession_step ..
    | releaseStatus id ref r => exact underLock_step fun now => releaseStatus_quiet ..

/-! ## What holds in every state of a history -/

/-- The runner has said of a session that its plan is verified, when it was sent the text. -/
def PlanReceived (log : List (Event × Reply)) (S text : String) : Prop :=
  ∃ id ref c d n, (Event.request (.planReceipt id ref text) c, Reply.planVerified S d n) ∈ log

/-- The runner has said of a session that it is released, when it was sent the release request. -/
def ReleaseReceived (log : List (Event × Reply)) (S id : String) : Prop :=
  ∃ h c, (Event.request (.release id S h) c, Reply.released S) ∈ log

/-- What holds of every session in memory. -/
structure SessionOk (sha : Sha256) (log : List (Event × Reply)) (S : String) (item : PreparedSession) : Prop where
  id : item.sessionId = S
  proofs : ∀ {path proof}, item.fileProofs.get? path = some proof → ProofOk sha proof
  noPlan : item.planVerified = false → ∀ path, item.fileProofs.get? path = none
  plan : item.planVerified = true → ∃ text bytes, PlanReceived log S text ∧
    verifyCanonicalManifestPlan sha text item.manifestDigest item.counts = .ok bytes ∧
    ∀ path, (item.fileProofs.get? path).map (·.expected) = ((fileProofs text).get? path).map (·.expected)

/-- The sessions in memory are as they should be, and every release receipt was given for a request. -/
structure Traced (sha : Sha256) (log : List (Event × Reply)) (m : Memory) : Prop where
  prepared : ∀ {S item}, m.prepared.get? S = some item → SessionOk sha log S item
  released : ∀ {S r}, m.released.get? S = some r → r.sessionId = S ∧ ReleaseReceived log S r.releaseRequestId

variable {log : List (Event × Reply)}

theorem SessionOk.mono {log' : List (Event × Reply)} {S : String} (h : SessionOk sha log S item)
    (hsub : log ⊆ log') : SessionOk sha log' S item := by
  refine ⟨h.id, h.proofs, h.noPlan, fun hv => ?_⟩
  obtain ⟨text, bytes, ⟨id, ref, c, d, n, hmem⟩, hplan, hexpected⟩ := h.plan hv
  exact ⟨text, bytes, ⟨id, ref, c, d, n, hsub hmem⟩, hplan, hexpected⟩

theorem Traced.mono {log' : List (Event × Reply)} (h : Traced sha log m) (hsub : log ⊆ log') :
    Traced sha log' m := by
  refine ⟨fun hS => (h.prepared hS).mono hsub, fun hS => ?_⟩
  obtain ⟨hid, id, c, hmem⟩ := h.released hS
  exact ⟨hid, id, c, hsub hmem⟩

theorem Traced.forgets {m' : Memory} (h : Traced sha log m) (hforgets : Forgets m m') :
    Traced sha log m' :=
  ⟨fun hS => h.prepared (hforgets.prepared hS), fun hS => h.released (hforgets.released hS)⟩

/-- The proofs of a plan have received nothing. -/
theorem get?_fileProofs {text path : String} (h : (fileProofs text).get? path = some proof) :
    ∃ digest bytes, proof = .start digest bytes := by
  have hgeneral : ∀ (files : List (String × String × Nat)) (d : Dict String InertFileProof),
      (∀ p q, d.get? p = some q → ∃ digest bytes, q = .start digest bytes) →
      ∀ p q, ((files.map fun f => (f.1, InertFileProof.start f.2.1 f.2.2)).foldl (fun d e => d.set e.1 e.2) d).get? p = some q →
        ∃ digest bytes, q = .start digest bytes := by
    intro files
    induction files with
    | nil => exact fun d hd => hd
    | cons f files ih =>
      intro d hd
      refine ih _ fun p q hq => ?_
      rw [Dict.get?_set] at hq
      split at hq
      · exact ⟨_, _, (Option.some.inj hq).symm⟩
      · exact hd p q hq
  exact hgeneral _ _ (by simp) path proof h

theorem sessionOk_new (log : List (Event × Reply)) (t : ManifestTicket.Ticket) (S : String) (until_ : ℚ) :
    SessionOk sha log S (newSession t S until_) :=
  ⟨rfl, fun h => (by cases h), fun _ _ => rfl, fun h => (by cases h)⟩

/-- A session keeps what it should be when a file takes a chunk. -/
theorem SessionOk.setProof {S path : String} (h : SessionOk sha log S item)
    {proof' : InertFileProof} (hfound : item.fileProofs.get? path = some proof) (hok : ProofOk sha proof')
    (hexpected : proof'.expected = proof.expected) : SessionOk sha log S (item.setProof path proof') := by
  have hget : ∀ p, (item.setProof path proof').fileProofs.get? p = if p = path then some proof' else item.fileProofs.get? p :=
    fun p => Dict.get?_set
  refine ⟨h.id, ?_, ?_, ?_⟩
  · intro p q hq
    rw [hget] at hq
    split at hq
    · exact Option.some.inj hq ▸ hok
    · exact h.proofs hq
  · intro hv
    have hnone := h.noPlan hv path
    rw [hfound] at hnone
    cases hnone
  · intro hv
    obtain ⟨text, bytes, hreceived, hplan, hsame⟩ := h.plan hv
    refine ⟨text, bytes, hreceived, hplan, fun p => ?_⟩
    rw [hget]
    split
    · rename_i hp
      rw [hp, ← hsame, hfound, Option.map_some, Option.map_some, hexpected]
    · exact hsame p

/-- A session of the memory replaced by one that is as it should be. -/
theorem Traced.setSession (h : Traced sha log m)
    (hitem : SessionOk sha log item.sessionId item) : Traced sha log (m.setSession item) := by
  refine ⟨fun {S found} hS => ?_, h.released⟩
  rw [show (m.setSession item).prepared = m.prepared.set item.sessionId item from rfl, Dict.get?_set] at hS
  split at hS
  · rename_i hSid
    rw [← Option.some.inj hS, hSid]
    exact hitem
  · exact h.prepared hS

/-- A step keeps the memory as it should be. -/
theorem Traced.step {m' : Memory} {e : Event} {reply : Reply} (h : Traced sha log m)
    (hstep : MemoryStep sha m e reply m') : Traced sha (log ++ [(e, reply)]) m' := by
  have hmono : log ⊆ log ++ [(e, reply)] := List.subset_append_left _ _
  have hlast : (e, reply) ∈ log ++ [(e, reply)] := List.mem_append_right _ (List.mem_singleton_self _)
  have hm := h.mono hmono
  cases hstep with
  | quiet => exact hm
  | @prepared r c S until_ tickets hnew =>
    refine ⟨fun {S' item} hS => ?_, hm.released⟩
    rw [Dict.get?_set] at hS
    split at hS
    · rename_i hSS
      rw [← Option.some.inj hS, hSS]
      exact sessionOk_new _ _ _ _
    · exact hm.prepared hS
  | @planned id ref text c item bytes hfinds hnot hplan =>
    have hitem := hm.prepared hfinds.prepared
    have hid : item.sessionId = ref.sessionId := hitem.id
    refine hm.setSession ⟨rfl, fun {path proof} hp => ?_, fun hv => (by cases hv), fun _ => ?_⟩
    · obtain ⟨digest, size, rfl⟩ := get?_fileProofs hp
      exact proofOk_start _ _
    · exact ⟨text, bytes, ⟨id, ref, c, _, _, hlast⟩, hplan, fun path => rfl⟩
  | @chunk id chunk c item proof hfinds hverified hproof =>
    have hitem := hm.prepared hfinds.prepared
    have hok : SessionOk sha _ item.sessionId item := hitem.id ▸ hitem
    exact hm.setSession (hok.setProof hproof ((hitem.proofs hproof).receiveChunk chunk) (expected_receiveChunk sha proof chunk))
  | @released id S contractHash c item kept hfound hkept =>
    have hid : item.sessionId = S := (h.prepared hfound).id
    subst hid
    constructor
    · intro S' item' hS'
      by_cases hSS : S' = item.sessionId
      · rw [hSS, Dict.get?_erase_self] at hS'
        cases hS'
      · rw [Dict.get?_erase_of_ne hSS] at hS'
        exact hm.prepared hS'
    · intro S' r hS'
      rw [Dict.get?_set] at hS'
      split at hS'
      · rename_i hSS
        rw [← Option.some.inj hS', hSS]
        exact ⟨rfl, _, _, hlast⟩
      · exact hm.released (hkept hS')

/-- A history goes on with the events of a run. -/
theorem History.run {log : List (Event × Reply)} {s : State} (h : History crypto cfg log s) (events : List Event) :
    History crypto cfg (log ++ replies crypto cfg s events) (after crypto cfg s events) := by
  induction events generalizing log s with
  | nil =>
    rw [replies, List.append_nil]
    exact h
  | cons e events ih =>
    have hnext := ih (h.event e)
    rw [List.append_assoc] at hnext
    exact hnext

/-- In every state of a history the memory is as it should be. -/
theorem History.traced {s : State} (h : History crypto cfg log s) :
    Traced crypto.sha log s.memory := by
  induction h with
  | start j => exact ⟨fun h => (by cases h), fun h => (by cases h)⟩
  | event h e ih =>
    obtain ⟨m, hforgets, hstep⟩ := apply_step crypto cfg _ e
    exact (ih.forgets hforgets).step hstep

end RunnerRpc

end XbowPerso
