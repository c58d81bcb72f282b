import XbowPerso.Lemmas.InertTransfer
import XbowPerso.Lemmas.RunnerSessions

/-!
# A transfer against a runner that is ready

Every request is delivered to the runner, and every reply to the broker. As long as the session is kept, each request of the broker
has the effect it is sent for.
-/

namespace XbowPerso

namespace RunnerRpc

open ManifestAdmission (PlanPath)

variable {crypto : Crypto} {cfg : Config} {sha : Sha256}

/-! ## Requests are valid -/

theorem isIdChar_of_isLowerHex {c : Char} (h : isLowerHex c = true) : ManifestTicket.isIdChar c = true := by
  unfold isLowerHex at h
  unfold ManifestTicket.isIdChar
  rw [Bool.or_eq_true, Bool.and_eq_true, decide_eq_true_eq, decide_eq_true_eq] at h
  have halnum : c.isAlphanum = true := by
    rcases h with h | ⟨ha, hf⟩
    · rw [Char.isAlphanum, h, Bool.or_true]
    · have hlower : c.isLower = true := by
        change (decide (c.val ≥ 'a'.val) && decide (c.val ≤ 'z'.val)) = true
        rw [Bool.and_eq_true, decide_eq_true_eq, decide_eq_true_eq]
        exact ⟨ha, le_trans hf (by decide)⟩
      change ((c.isUpper || c.isLower) || c.isDigit) = true
      rw [hlower, Bool.or_true, Bool.true_or]
  rw [halnum]
  rfl

theorem isHexOfLength_iff {n : Nat} {s : String} :
    isHexOfLength n s = true ↔ s.toList.length = n ∧ ∀ c ∈ s.toList, isLowerHex c = true := by
  rw [isHexOfLength, Bool.and_eq_true, beq_iff_eq, List.all_eq_true, String.length_toList]

/-- A short prefix and a token of 32 digits make an identifier. -/
theorem isId_append {pre token : String} (hpre : pre.toList.all ManifestTicket.isIdChar = true) (hlen : pre.length ≤ 96)
    (htoken : isHexOfLength 32 token = true) : ManifestTicket.isId (pre ++ token) = true := by
  obtain ⟨hlength, hhex⟩ := isHexOfLength_iff.mp htoken
  have hsum : (pre ++ token).length = pre.length + 32 := by
    rw [String.length_append, ← String.length_toList (s := token), hlength]
  have hall : (pre ++ token).toList.all ManifestTicket.isIdChar = true := by
    rw [String.toList_append, List.all_append, hpre, List.all_eq_true.mpr fun c hc => isIdChar_of_isLowerHex (hhex c hc)]
    rfl
  rw [ManifestTicket.isId, hall, hsum]
  simp
  omega

/-! ## Under the lock -/

/-- The runner is in inert mode and its clock can be read. -/
structure Serves (cfg : Config) (c : Circumstances) (now : ℚ) : Prop where
  inert : cfg.activeExecution = false
  clock : c.monotonic = some now

variable {s : State} {c : Circumstances} {now : ℚ}

theorem underLock_eq (h : Serves cfg c now) (body : ℚ → Memory → Reply × Memory) :
    underLock cfg s c body = ((body now (s.memory.prune now)).1, ⟨(body now (s.memory.prune now)).2, s.journal⟩) := by
  rw [underLock, if_neg (by rw [h.inert]; exact Bool.false_ne_true), h.clock]

variable {item : PreparedSession}

theorem get?_prune {m : Memory} {S : String} (h : m.prepared.get? S = some item)
    (hlive : now < item.expiresAt) : (m.prune now).prepared.get? S = some item := by
  rw [Memory.prune, Dict.get?_filter, h, Option.filter_eq_some_iff]
  exact ⟨rfl, decide_eq_true hlive⟩

/-- A session that requests can work on: it is in memory under its own name and not expired. -/
structure Held (m : Memory) (ref : SessionRef) (now : ℚ) (item : PreparedSession) : Prop where
  prepared : m.prepared.get? ref.sessionId = some item
  id : item.sessionId = ref.sessionId
  contract : item.contractHash = ref.contractHash
  manifest : item.manifestDigest = ref.manifestDigest
  live : now < item.expiresAt

variable {ref : SessionRef}

theorem Held.find {m : Memory} (h : Held m ref now item) :
    findSession (m.prune now) ref = .ok item :=
  findSession_eq_ok.mpr ⟨get?_prune h.prepared h.live, h.contract, h.manifest⟩

theorem get?_setSession {m : Memory} (h : item.sessionId = ref.sessionId) :
    (m.setSession item).prepared.get? ref.sessionId = some item := by
  rw [show (m.setSession item).prepared = m.prepared.set item.sessionId item from rfl, h]
  exact Dict.get?_set_self

/-- The plan is verified. -/
theorem handle_planReceipt (h : Serves cfg c now) {id text : String}
    {bytes : Nat} (hvalid : (Operation.planReceipt id ref text).isValid = true)
    (hheld : Held s.memory ref now item) (hnot : item.planVerified = false)
    (hplan : verifyCanonicalManifestPlan crypto.sha text item.manifestDigest item.counts = .ok bytes) :
    handle crypto cfg s (.planReceipt id ref text) c =
      (.planVerified item.sessionId item.manifestDigest bytes,
        ⟨(s.memory.prune now).setSession (item.verifyPlan text), s.journal⟩) := by
  rw [handle, if_neg (by rw [hvalid]; exact Bool.noConfusion)]
  rw [underLock_eq h, receivePlan, hheld.find]
  dsimp only
  rw [hnot, if_neg Bool.false_ne_true, hplan]
  rfl

/-- A chunk is taken. -/
theorem handle_fileChunk (h : Serves cfg c now) {id : String} {chunk : FileChunk}
    {proof : InertFileProof} {content : List UInt8}
    (hvalid : (Operation.fileChunk id chunk).isValid = true) (hheld : Held s.memory chunk.session now item)
    (hplanned : item.planVerified = true) (hproof : item.fileProofs.get? chunk.filePath = some proof)
    (htakes : Takes proof chunk content)
    (hhex : chunk.final = true → crypto.sha.hex (proof.hashState ++ content) = proof.expectedDigest) :
    handle crypto cfg s (.fileChunk id chunk) c =
      (.chunk (chunkReceipt crypto.sha (item.setProof chunk.filePath { proof.feed content with verified := chunk.final })
          chunk.filePath { proof.feed content with verified := chunk.final } chunk.final),
        ⟨(s.memory.prune now).setSession (item.setProof chunk.filePath { proof.feed content with verified := chunk.final }),
          s.journal⟩) := by
  rw [handle, if_neg (by rw [hvalid]; exact Bool.noConfusion)]
  rw [underLock_eq h, receiveFileChunk, hheld.find]
  dsimp only
  rw [if_neg (by rw [hplanned]; exact Bool.noConfusion), hproof]
  dsimp only
  rw [receiveChunk_of_takes htakes hhex]
  rfl

/-- The session is released. -/
theorem handle_release (h : Serves cfg c now) {id : String}
    (hvalid : (Operation.release id ref.sessionId ref.contractHash).isValid = true)
    (hheld : Held s.memory ref now item) :
    (handle crypto cfg s (.release id ref.sessionId ref.contractHash) c).1 = .released ref.sessionId := by
  rw [handle, if_neg (by rw [hvalid]; exact Bool.noConfusion)]
  rw [underLock_eq h, releaseSession, get?_prune hheld.prepared hheld.live]
  dsimp only
  rw [if_neg (not_not.mpr hheld.contract)]
  exact congrArg Reply.released hheld.id

end RunnerRpc

end XbowPerso
