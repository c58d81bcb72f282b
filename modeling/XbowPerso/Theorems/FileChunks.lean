import XbowPerso.Theorems.InertTransfer

/-!
# The chunks of a file

From the state in which the plan of a session has just been verified, whatever chunks are sent and in whatever order: the chunks
that are accepted for a file follow each other from its beginning and stay within its size, the file becomes verified only when
together they have its size and its digest, and a file that is verified or has failed stays as it is. Requests of the other kinds
and restarts may come in between, except requests for a session, which could give the name of a forgotten session away again.
-/

namespace XbowPerso

namespace RunnerRpc

variable {crypto : Crypto} {cfg : Config} {sha : Sha256} {S path digest : String} {bytes : Nat}

/-! ## What is accepted -/

/-- The event is a request for a session. -/
def Event.prepares : Event → Bool
  | .request (.prepare _) _ => true
  | _ => false

/-- The offset and the content of a chunk that is accepted for a file of a session. -/
def acceptedChunk (S path : String) : Event × Reply → Option (Int × List UInt8)
  | (.request (.fileChunk _ chunk) _, .chunk _) =>
    if chunk.session.sessionId = S ∧ chunk.filePath = path then
      (decodeInertChunk chunk.chunkBase64).map fun content => (chunk.offset, content)
    else none
  | _ => none

/-- The chunks that are accepted for a file of a session. -/
def accepted (S path : String) (log : List (Event × Reply)) : List (Int × List UInt8) := log.filterMap (acceptedChunk S path)

/-- The concatenation of chunks. -/
def contents (chunks : List (Int × List UInt8)) : List UInt8 := chunks.flatMap (·.2)

/-- Each chunk starts where the one before it ends. -/
def Contiguous (start : Nat) : List (Int × List UInt8) → Prop
  | [] => True
  | (offset, content) :: rest => offset = start ∧ Contiguous (start + content.length) rest

variable {chunks : List (Int × List UInt8)}

theorem contiguous_snoc {start : Nat} {offset : Int} {content : List UInt8}
    (h : Contiguous start chunks) (hoffset : offset = start + (contents chunks).length) :
    Contiguous start (chunks ++ [(offset, content)]) := by
  induction chunks generalizing start with
  | nil => exact ⟨by simpa [contents] using hoffset, trivial⟩
  | cons chunk chunks ih =>
    obtain ⟨first, bytes⟩ := chunk
    refine ⟨h.1, ih h.2 ?_⟩
    rw [hoffset, contents, contents, List.flatMap_cons, List.length_append]
    push_cast
    ring

/-! ## One event -/

/-- What an event does to the proof of a file, and the chunk that is accepted for it. -/
inductive ProofStep (sha : Sha256) (proof : InertFileProof) : Option (Int × List UInt8) → InertFileProof → Prop
  | same : ProofStep sha proof none proof
  | fed {chunk : FileChunk} {content : List UInt8} (h : Takes proof chunk content) :
      ProofStep sha proof (some (chunk.offset, content)) (proof.feed content)
  | mismatch {chunk : FileChunk} {content : List UInt8} (h : Takes proof chunk content) :
      ProofStep sha proof none { proof.feed content with failed := true }
  | verified {chunk : FileChunk} {content : List UInt8} (h : Takes proof chunk content)
      (hhex : sha.hex (proof.hashState ++ content) = proof.expectedDigest)
      (hends : proof.receivedBytes + content.length = proof.expectedBytes) :
      ProofStep sha proof (some (chunk.offset, content)) { proof.feed content with verified := true }

variable {reply : Reply}

variable {e : Event}

theorem acceptedChunk_of_quiet (h : ∀ r, reply ≠ .chunk r) : acceptedChunk S path (e, reply) = none := by
  unfold acceptedChunk
  split
  · rename_i heq
    exact absurd (Prod.mk.inj heq).2 (h _)
  rfl

theorem acceptedChunk_of_ne {id : String} {chunk : FileChunk} {c : Circumstances}
    (h : ¬ (chunk.session.sessionId = S ∧ chunk.filePath = path)) :
    acceptedChunk S path (.request (.fileChunk id chunk) c, reply) = none := by
  cases reply with
  | chunk r => exact if_neg h
  | _ => rfl

variable {proof : InertFileProof}

/-- A chunk of the file, and what becomes of the proof. -/
theorem proofStep_of_chunk {id : String} {chunk : FileChunk} {c : Circumstances} {item : PreparedSession}
    (hS : chunk.session.sessionId = S) (hpath : chunk.filePath = path) :
    ProofStep sha proof (acceptedChunk S path (.request (.fileChunk id chunk) c,
      chunkReply sha item chunk.filePath (receiveChunk sha proof chunk).2 (receiveChunk sha proof chunk).1))
      (receiveChunk sha proof chunk).2 := by
  have hstep := receiveChunk_step sha proof chunk
  generalize receiveChunk sha proof chunk = result at hstep
  have haccepted : ∀ {content r}, decodeInertChunk chunk.chunkBase64 = some content →
      acceptedChunk S path (.request (.fileChunk id chunk) c, .chunk r) = some (chunk.offset, content) := by
    intro content r hdecoded
    rw [acceptedChunk, if_pos ⟨hS, hpath⟩, hdecoded]
    rfl
  cases hstep with
  | refused e => exact .same
  | @fed content htakes hfinal =>
    rw [chunkReply, haccepted htakes.decoded]
    exact .fed htakes
  | mismatch htakes hfinal hhex => exact .mismatch htakes
  | @verified content htakes hfinal hhex =>
    rw [chunkReply, haccepted htakes.decoded]
    have hends := htakes.final
    rw [hfinal] at hends
    exact .verified htakes hhex (of_decide_eq_true hends.symm)

/-- A session that is not there does not come back, and nothing is accepted for it. -/
theorem absent_step {m m' : Memory} (h : MemoryStep sha m e reply m') (hS : m.prepared.get? S = none)
    (he : e.prepares = false) (hid : ∀ {S item}, m.prepared.get? S = some item → item.sessionId = S) :
    m'.prepared.get? S = none ∧ acceptedChunk S path (e, reply) = none := by
  have hset : ∀ {ref : String} {item item' : PreparedSession}, m.prepared.get? ref = some item → item'.sessionId = item.sessionId →
      (m.setSession item').prepared.get? S = none := by
    intro ref item item' hfound hsame
    rw [show (m.setSession item').prepared = m.prepared.set item'.sessionId item' from rfl, Dict.get?_set_of_ne]
    · exact hS
    · intro heq
      rw [heq, hsame, hid hfound, hfound] at hS
      cases hS
  cases h with
  | quiet e reply hprepared hplan hchunk hreleased => exact ⟨hS, acceptedChunk_of_quiet hchunk⟩
  | prepared => cases he
  | planned hfinds hnot hplan => exact ⟨hset hfinds.prepared rfl, rfl⟩
  | chunk hfinds hverified hproof =>
    refine ⟨hset hfinds.prepared rfl, acceptedChunk_of_ne fun heq => ?_⟩
    have hfound := hfinds.prepared
    rw [heq.1, hS] at hfound
    cases hfound
  | @released id S' contractHash c item kept hfound hkept =>
    refine ⟨?_, rfl⟩
    by_cases hSS : S = item.sessionId
    · rw [hSS]
      exact Dict.get?_erase_self
    · rw [Dict.get?_erase_of_ne hSS]
      exact hS

/-- A session that is there and whose plan is verified goes, or keeps its files, one of which may take a chunk. -/
theorem present_step {m m' : Memory} {item : PreparedSession}
    (h : MemoryStep sha m e reply m') (hS : m.prepared.get? S = some item) (hplanned : item.planVerified = true)
    (hproof : item.fileProofs.get? path = some proof) (he : e.prepares = false)
    (hid : ∀ {S item}, m.prepared.get? S = some item → item.sessionId = S) :
    (m'.prepared.get? S = none ∧ acceptedChunk S path (e, reply) = none) ∨
      ∃ proof', (m'.prepared.get? S).bind (·.fileProofs.get? path) = some proof' ∧
        ProofStep sha proof (acceptedChunk S path (e, reply)) proof' := by
  have hkept : (m.prepared.get? S).bind (·.fileProofs.get? path) = some proof := by
    rw [hS]
    exact hproof
  cases h with
  | quiet e reply hprepared hplan hchunk hreleased =>
    rw [acceptedChunk_of_quiet hchunk]
    exact .inr ⟨proof, hkept, .same⟩
  | prepared => cases he
  | @planned id ref text c item' bytes hfinds hnot hplan =>
    have hne : S ≠ item'.sessionId := by
      intro heq
      rw [heq, hid hfinds.prepared, hfinds.prepared] at hS
      rw [Option.some.inj hS, hplanned] at hnot
      cases hnot
    refine .inr ⟨proof, ?_, .same⟩
    rw [show (m.setSession (item'.verifyPlan text)).prepared = m.prepared.set item'.sessionId (item'.verifyPlan text) from rfl,
      Dict.get?_set_of_ne hne]
    exact hkept
  | @chunk id chunk c item' proof' hfinds hverified hproof' =>
    right
    rw [show (m.setSession (item'.setProof chunk.filePath (receiveChunk sha proof' chunk).2)).prepared =
      m.prepared.set item'.sessionId (item'.setProof chunk.filePath (receiveChunk sha proof' chunk).2) from rfl, Dict.get?_set]
    have hid' := hid hfinds.prepared
    by_cases hSS : S = chunk.session.sessionId
    · have hitem : item' = item := by
        have hfound := hfinds.prepared
        rw [← hSS, hS] at hfound
        exact (Option.some.inj hfound).symm
      rw [if_pos (hSS.trans hid'.symm), hitem, Option.bind_some]
      have hget : ∀ p, (item.setProof chunk.filePath (receiveChunk sha proof' chunk).2).fileProofs.get? p =
          if p = chunk.filePath then some (receiveChunk sha proof' chunk).2 else item.fileProofs.get? p := fun p => Dict.get?_set
      by_cases hpath : path = chunk.filePath
      · have hsame : proof' = proof := by
          rw [hitem, ← hpath, hproof] at hproof'
          exact (Option.some.inj hproof').symm
        subst hsame
        rw [hget, if_pos hpath]
        exact ⟨_, rfl, proofStep_of_chunk hSS.symm hpath.symm⟩
      · rw [hget, if_neg hpath, acceptedChunk_of_ne fun heq => hpath heq.2.symm]
        exact ⟨proof, hproof, .same⟩
    · rw [if_neg (fun heq => hSS (heq.trans hid')), acceptedChunk_of_ne fun heq => hSS heq.1.symm]
      exact ⟨proof, hkept, .same⟩
  | @released id S' contractHash c item' kept hfound hkept' =>
    by_cases hSS : S = item'.sessionId
    · left
      rw [hSS]
      exact ⟨Dict.get?_erase_self, rfl⟩
    · right
      refine ⟨proof, ?_, .same⟩
      rw [Dict.get?_erase_of_ne hSS]
      exact hkept

/-- The session is not in memory. -/
def Absent (s : State) (S : String) : Prop := s.memory.prepared.get? S = none

variable {log : List (Event × Reply)} {s : State}

theorem absent_apply (hs : History crypto cfg log s) (e : Event) (he : e.prepares = false)
    (hS : Absent s S) : Absent (e.apply crypto cfg s).2 S ∧ acceptedChunk S path (e, (e.apply crypto cfg s).1) = none := by
  obtain ⟨m, hforgets, hstep⟩ := apply_step crypto cfg s e
  refine absent_step hstep ?_ he fun hfound => (hs.traced.prepared (hforgets.prepared hfound)).id
  cases hm : m.prepared.get? S with
  | none => rfl
  | some item =>
    have hfound := hforgets.prepared hm
    rw [hS] at hfound
    cases hfound

theorem proofOf_apply (hs : History crypto cfg log s) (e : Event) (he : e.prepares = false)
    (hproof : proofOf s S path = some proof) :
    (Absent (e.apply crypto cfg s).2 S ∧ acceptedChunk S path (e, (e.apply crypto cfg s).1) = none) ∨
      ∃ proof', proofOf (e.apply crypto cfg s).2 S path = some proof' ∧
        ProofStep crypto.sha proof (acceptedChunk S path (e, (e.apply crypto cfg s).1)) proof' := by
  obtain ⟨item, hitem, hfile⟩ := Option.bind_eq_some_iff.mp hproof
  obtain ⟨m, hforgets, hstep⟩ := apply_step crypto cfg s e
  have hid : ∀ {S item}, m.prepared.get? S = some item → item.sessionId = S :=
    fun hfound => (hs.traced.prepared (hforgets.prepared hfound)).id
  have hplanned : item.planVerified = true := by
    by_contra hnot
    have hnone := (hs.traced.prepared hitem).noPlan (by simpa using hnot) path
    rw [hfile] at hnone
    cases hnone
  cases hm : m.prepared.get? S with
  | none => exact .inl (absent_step hstep hm he hid)
  | some found =>
    have hfound := hforgets.prepared hm
    rw [hitem] at hfound
    rw [← Option.some.inj hfound] at hm
    exact present_step hstep hm hplanned hfile he hid

/-! ## The run -/

/-- What the accepted chunks of a file say about its proof. -/
structure Received (sha : Sha256) (digest : String) (bytes : Nat) (chunks : List (Int × List UInt8)) (proof : InertFileProof) :
    Prop where
  digest : proof.expectedDigest = digest
  bytes : proof.expectedBytes = bytes
  ok : ProofOk sha proof
  fed : proof.failed = false → proof.hashState = contents chunks
  notBoth : proof.verified = true → proof.failed = false

theorem contents_snoc (chunks : List (Int × List UInt8)) (offset : Int) (content : List UInt8) :
    contents (chunks ++ [(offset, content)]) = contents chunks ++ content := by
  simp [contents]

/-- One event keeps what the accepted chunks say, and the next chunk follows the ones before. -/
theorem Received.step {proof' : InertFileProof} {acc : Option (Int × List UInt8)}
    (h : Received sha digest bytes chunks proof) (hstep : ProofStep sha proof acc proof') (hcontiguous : Contiguous 0 chunks) :
    Received sha digest bytes (chunks ++ acc.toList) proof' ∧ Contiguous 0 (chunks ++ acc.toList) := by
  have hnext : ∀ {chunk : FileChunk} {content : List UInt8}, Takes proof chunk content →
      Contiguous 0 (chunks ++ [(chunk.offset, content)]) := by
    intro chunk content htakes
    refine contiguous_snoc hcontiguous ?_
    rw [htakes.offset, h.ok.received, h.fed htakes.notFailed]
    simp
  cases hstep with
  | same =>
    rw [Option.toList_none, List.append_nil]
    exact ⟨h, hcontiguous⟩
  | @fed chunk content htakes =>
    refine ⟨⟨h.digest, h.bytes, h.ok.feed htakes, fun _ => ?_, fun _ => htakes.notFailed⟩, hnext htakes⟩
    rw [Option.toList_some, contents_snoc, ← h.fed htakes.notFailed]
    rfl
  | @mismatch chunk content htakes =>
    rw [Option.toList_none, List.append_nil]
    have hfed := h.ok.feed htakes
    refine ⟨⟨h.digest, h.bytes, ⟨hfed.received, hfed.le_expected, hfed.verified⟩, fun hf => (by cases hf), fun hv => ?_⟩,
      hcontiguous⟩
    have hv' : proof.verified = true := hv
    rw [htakes.notVerified] at hv'
    cases hv'
  | @verified chunk content htakes hhex hends =>
    have hfed := h.ok.feed htakes
    refine ⟨⟨h.digest, h.bytes, ⟨hfed.received, hfed.le_expected, fun _ => ⟨hends, hhex⟩⟩, fun _ => ?_,
      fun _ => htakes.notFailed⟩, hnext htakes⟩
    rw [Option.toList_some, contents_snoc, ← h.fed htakes.notFailed]
    rfl

theorem accepted_cons (x : Event × Reply) (log : List (Event × Reply)) :
    accepted S path (x :: log) = (acceptedChunk S path x).toList ++ accepted S path log := by
  rw [accepted, List.filterMap_cons, accepted]
  cases acceptedChunk S path x <;> rfl

variable {run : List Event}

/-- Nothing is accepted for a session that is not there. -/
theorem absent_run (hs : History crypto cfg log s)
    (hrun : ∀ e ∈ run, e.prepares = false) (hS : Absent s S) :
    Absent (after crypto cfg s run) S ∧ accepted S path (replies crypto cfg s run) = [] := by
  induction run generalizing log s with
  | nil => exact ⟨hS, rfl⟩
  | cons e run ih =>
    obtain ⟨hS', hnone⟩ := absent_apply hs e (hrun e List.mem_cons_self) hS
    obtain ⟨hend, haccepted⟩ := ih (hs.event e) (fun e he => hrun e (List.mem_cons_of_mem _ he)) hS'
    refine ⟨hend, ?_⟩
    rw [replies, accepted_cons, hnone, haccepted]
    rfl

theorem proofOf_eq_none_of_absent (h : Absent s S) : proofOf s S path = none := by
  rw [proofOf, h]
  rfl

/-- Over a run. -/
theorem received_run (hs : History crypto cfg log s)
    (hrun : ∀ e ∈ run, e.prepares = false) (hproof : proofOf s S path = some proof)
    (hreceived : Received crypto.sha digest bytes chunks proof)
    (hcontiguous : Contiguous 0 chunks) :
    Contiguous 0 (chunks ++ accepted S path (replies crypto cfg s run)) ∧
      ∀ proof', proofOf (after crypto cfg s run) S path = some proof' →
        Received crypto.sha digest bytes (chunks ++ accepted S path (replies crypto cfg s run)) proof' := by
  induction run generalizing log s proof chunks with
  | nil =>
    rw [replies, show accepted S path [] = [] from rfl, List.append_nil]
    refine ⟨hcontiguous, fun proof' hproof' => ?_⟩
    have hsame : some proof = some proof' := hproof.symm.trans hproof'
    exact Option.some.inj hsame ▸ hreceived
  | cons e run ih =>
    have hrest : ∀ e ∈ run, e.prepares = false := fun e he => hrun e (List.mem_cons_of_mem _ he)
    rw [replies, accepted_cons, ← List.append_assoc]
    rcases proofOf_apply hs e (hrun e List.mem_cons_self) hproof with ⟨habsent, hnone⟩ | ⟨proof', hproof', hstep⟩
    · obtain ⟨hend, haccepted⟩ := absent_run (hs.event e) hrest habsent
      rw [hnone, haccepted, Option.toList_none, List.append_nil, List.append_nil]
      refine ⟨hcontiguous, fun proof' hproof' => ?_⟩
      rw [show after crypto cfg s (e :: run) = after crypto cfg (e.apply crypto cfg s).2 run from rfl,
        proofOf_eq_none_of_absent hend] at hproof'
      cases hproof'
    · obtain ⟨hreceived', hcontiguous'⟩ := hreceived.step hstep hcontiguous
      exact ih (hs.event e) hrest hproof' hreceived' hcontiguous'

/-- A file that is verified or has failed stays as it is. -/
theorem final_run (hs : History crypto cfg log s)
    (hrun : ∀ e ∈ run, e.prepares = false) (hproof : proofOf s S path = some proof)
    (hfinal : proof.verified = true ∨ proof.failed = true) :
    accepted S path (replies crypto cfg s run) = [] ∧
      ∀ proof', proofOf (after crypto cfg s run) S path = some proof' → proof' = proof := by
  induction run generalizing log s with
  | nil =>
    refine ⟨rfl, fun proof' hproof' => ?_⟩
    have hsame : some proof = some proof' := hproof.symm.trans hproof'
    exact (Option.some.inj hsame).symm
  | cons e run ih =>
    have hrest : ∀ e ∈ run, e.prepares = false := fun e he => hrun e (List.mem_cons_of_mem _ he)
    rw [replies, accepted_cons, show after crypto cfg s (e :: run) = after crypto cfg (e.apply crypto cfg s).2 run from rfl]
    rcases proofOf_apply hs e (hrun e List.mem_cons_self) hproof with ⟨habsent, hnone⟩ | ⟨proof', hproof', hstep⟩
    · obtain ⟨hend, haccepted⟩ := absent_run (hs.event e) hrest habsent
      rw [hnone, haccepted, proofOf_eq_none_of_absent hend]
      exact ⟨rfl, fun proof' hproof' => (by cases hproof')⟩
    · have hopen : ∀ {chunk : FileChunk} {content : List UInt8}, ¬ Takes proof chunk content := by
        intro chunk content htakes
        rcases hfinal with hv | hf
        · rw [htakes.notVerified] at hv
          cases hv
        · rw [htakes.notFailed] at hf
          cases hf
      generalize acceptedChunk S path (e, (e.apply crypto cfg s).1) = acc at hstep
      cases hstep with
      | same => exact ih (hs.event e) hrest hproof'
      | fed htakes => exact absurd htakes hopen
      | mismatch htakes => exact absurd htakes hopen
      | verified htakes => exact absurd htakes hopen

/-- The protocol of the chunks of a file, from the state in which its session has a verified plan and has received nothing. -/
theorem file_chunk_protocol {log : List (Event × Reply)} {s : State} (hs : History crypto cfg log s)
    (hstart : proofOf s S path = some (.start digest bytes)) (run : List Event) (hrun : ∀ e ∈ run, e.prepares = false) :
    Contiguous 0 (accepted S path (replies crypto cfg s run)) ∧
      ∀ proof, proofOf (after crypto cfg s run) S path = some proof →
        proof.receivedBytes ≤ bytes ∧
        (proof.failed = false → proof.hashState = contents (accepted S path (replies crypto cfg s run))) ∧
        (proof.verified = true → (contents (accepted S path (replies crypto cfg s run))).length = bytes ∧
          crypto.sha.hex (contents (accepted S path (replies crypto cfg s run))) = digest) ∧
        (proof.verified = true ∨ proof.failed = true → ∀ later : List Event, (∀ e ∈ later, e.prepares = false) →
          accepted S path (replies crypto cfg (after crypto cfg s run) later) = [] ∧
          ∀ proof', proofOf (after crypto cfg (after crypto cfg s run) later) S path = some proof' → proof' = proof) := by
  have hbegin : Received crypto.sha digest bytes [] (.start digest bytes) :=
    ⟨rfl, rfl, proofOk_start _ _, fun _ => rfl, fun hv => (by cases hv)⟩
  obtain ⟨hcontiguous, hreceived⟩ := received_run hs hrun hstart hbegin trivial
  rw [List.nil_append] at hcontiguous hreceived
  refine ⟨hcontiguous, fun proof hproof => ?_⟩
  have hend := hreceived proof hproof
  refine ⟨hend.bytes ▸ hend.ok.le_expected, hend.fed, fun hv => ?_, fun hfinal later hlater => ?_⟩
  · obtain ⟨hlength, hhex⟩ := hend.ok.verified hv
    rw [← hend.fed (hend.notBoth hv), ← hend.ok.received, hlength, hhex]
    exact ⟨hend.bytes, hend.digest⟩
  · exact final_run (hs.run run) hlater hproof hfinal

/-- The session of the sample transfer. -/
def sampleSession : String := "prepared-" ++ InertTransfer.sampleToken.text

example : sampleSession.length = 41 := by decide +kernel

/-- A history that ends when the plan of the sample file has been verified. -/
theorem exists_history_planned : ∃ log s, History sampleCrypto sampleConfig log s ∧
    proofOf s sampleSession "a/b" = some (.start (sampleCrypto.sha.hex [1, 2]) 2) := by
  obtain ⟨text, hplan⟩ := InertTransfer.canonicalPlan_sample sampleCrypto.sha InertTransfer.sample_path.1 InertTransfer.sample_path.2
  have hplan' : InertTransfer.canonicalPlan sampleCrypto.sha (InertTransfer.sampleArguments "a/b").files =
    .ok (text, InertTransfer.sampleFilePlan sampleCrypto.sha "a/b") := hplan
  have hcounts := InertTransfer.planCounts hplan'
  obtain ⟨s₁, hprepare, hsession⟩ := InertTransfer.run_prepareSession (InertTransfer.sampleReady "a/b") hcounts
  obtain ⟨s₂, item, hsend, hgoing, -, hentries⟩ := InertTransfer.run_sendPlan (InertTransfer.sampleReady "a/b") hplan' hsession
  obtain ⟨log₁, hruns₁⟩ := InertTransfer.exists_runs_serve hprepare []
  obtain ⟨log₂, hruns₂⟩ := InertTransfer.exists_runs_serve hsend log₁
  have h₁ := (InertTransfer.later_of_runs hruns₁).2 (.start _)
  refine ⟨log₂, s₂, (InertTransfer.later_of_runs hruns₂).2 h₁, ?_⟩
  have hfile : item.fileProofs.get? "a/b" = some (.start (sampleCrypto.sha.hex [1, 2]) 2) :=
    Dict.mem_entries.mp (hentries ▸ List.mem_singleton.mpr rfl)
  rw [proofOf, show s₂.memory.prepared.get? sampleSession = some item from hgoing.prepared]
  exact hfile

/-- The second byte is sent first, and then both. -/
def sampleChunks : List Event :=
  [(1, [2], true), (0, [1, 2], true)].map fun (offset, content, final) =>
    .request (.fileChunk "file-request" ⟨⟨sampleSession, sampleCrypto.sha.hex [], sampleCrypto.sha.hex []⟩, "a/b",
      sampleCrypto.sha.hex [1, 2], offset, String.ofList (Base64.encode content), final⟩) (InertTransfer.sampleCircumstances 0)

example : sampleChunks.map Event.prepares = [false, false] := by decide +kernel

theorem file_chunk_protocol_sample : ∃ s, proofOf s sampleSession "a/b" = some (.start (sampleCrypto.sha.hex [1, 2]) 2) ∧
    Contiguous 0 (accepted sampleSession "a/b" (replies sampleCrypto sampleConfig s sampleChunks)) ∧
      ∀ proof, proofOf (after sampleCrypto sampleConfig s sampleChunks) sampleSession "a/b" = some proof →
        proof.receivedBytes ≤ 2 ∧
        (proof.verified = true →
          (contents (accepted sampleSession "a/b" (replies sampleCrypto sampleConfig s sampleChunks))).length = 2) := by
  obtain ⟨log, s, hs, hstart⟩ := exists_history_planned
  have hchunks : ∀ e ∈ sampleChunks, e.prepares = false := by simp [sampleChunks, Event.prepares]
  obtain ⟨hcontiguous, hall⟩ := file_chunk_protocol hs hstart sampleChunks hchunks
  refine ⟨s, hstart, hcontiguous, fun proof hproof => ?_⟩
  obtain ⟨hbytes, -, hverified, -⟩ := hall proof hproof
  exact ⟨hbytes, fun hv => (hverified hv).1⟩

end RunnerRpc

end XbowPerso
