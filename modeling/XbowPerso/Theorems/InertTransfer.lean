import XbowPerso.Theorems.CleanTransfer

/-!
# The inert transfer is sound

Between the broker's requests anything may happen to the runner: a request of the broker may be processed any number of times or
not at all, others may send theirs, and the process may be restarted. A reply that the broker reads was given by the runner to that
very request. When the call returns a receipt, the runner had verified the broker's plan for the session, had been fed exactly the
bytes of every file of it, and had released the session.
-/

namespace XbowPerso

namespace InertTransfer

open RunnerRpc
open ManifestAdmission (AdmissionPlan EntryPlan filePlan)
open Dialogue

variable {crypto : Crypto} {cfg : Config} {sha : Sha256}

/-! ## The channel -/

/-- What the runner was sent and replied since it was started, and its state. -/
abbrev World := List (Event × Reply) × State

/-- What may happen during one call of `_post_runner`. -/
def Answers (crypto : Crypto) (cfg : Config) (w : World) (op : Operation) (p : Posted) (w' : World) : Prop :=
  ∃ events, w' = (w.1 ++ replies crypto cfg w.2 events, after crypto cfg w.2 events) ∧
    ∀ r, p = .reply r → ∃ c, (Event.request op c, r) ∈ replies crypto cfg w.2 events

/-- A later world. -/
def Later (crypto : Crypto) (cfg : Config) (w w' : World) : Prop :=
  w.1 <+: w'.1 ∧ (History crypto cfg w.1 w.2 → History crypto cfg w'.1 w'.2)

theorem Later.refl (w : World) : Later crypto cfg w w := ⟨List.prefix_refl _, id⟩

theorem Later.trans {a b c : World} (hab : Later crypto cfg a b) (hbc : Later crypto cfg b c) : Later crypto cfg a c :=
  ⟨hab.1.trans hbc.1, fun h => hbc.2 (hab.2 h)⟩

variable {w w' : World} {op : Operation}

theorem Answers.later {p : Posted} (h : Answers crypto cfg w op p w') :
    Later crypto cfg w w' := by
  obtain ⟨events, rfl, -⟩ := h
  exact ⟨List.prefix_append _ _, fun hw => hw.run events⟩

theorem later_of_runs {α : Type} {c : Dialogue.Prog Operation Posted α} {a : α}
    (h : Runs (Answers crypto cfg) w c w' a) : Later crypto cfg w w' :=
  h.rel Later.refl Later.trans Answers.later

variable {s : State} {r : Reply}

/-- The event of a reply, and the state in which it happened. -/
theorem exists_of_mem_replies {events : List Event} {e : Event} (h : (e, r) ∈ replies crypto cfg s events) :
    ∃ before rest, events = before ++ e :: rest ∧ (e.apply crypto cfg (after crypto cfg s before)).1 = r := by
  induction events generalizing s with
  | nil => cases h
  | cons first events ih =>
    rcases List.mem_cons.mp h with heq | hmem
    · obtain ⟨rfl, rfl⟩ := Prod.mk.inj heq
      exact ⟨[], events, rfl, rfl⟩
    · obtain ⟨before, rest, rfl, hr⟩ := ih hmem
      exact ⟨first :: before, rest, rfl, hr⟩

theorem replies_append (s : State) (as bs : List Event) :
    replies crypto cfg s (as ++ bs) = replies crypto cfg s as ++ replies crypto cfg (after crypto cfg s as) bs := by
  induction as generalizing s with
  | nil => rfl
  | cons e as ih =>
    have hrest := ih (e.apply crypto cfg s).2
    rw [List.cons_append, replies, replies, hrest, List.cons_append]
    rfl

/-- A reply that is read: the runner gave it in a state of its history, before and after which the history is known. -/
structure Replied (crypto : Crypto) (cfg : Config) (w w' : World) (op : Operation) (r : Reply) (c : Circumstances)
    (log : List (Event × Reply)) (s : State) : Prop where
  history : History crypto cfg log s
  result : (handle crypto cfg s op c).1 = r
  logged : log ++ [(.request op c, r)] <+: w'.1

theorem Answers.replied (h : Answers crypto cfg w op (.reply r) w')
    (hw : History crypto cfg w.1 w.2) : ∃ c log s, Replied crypto cfg w w' op r c log s := by
  obtain ⟨events, rfl, hreply⟩ := h
  obtain ⟨c, hmem⟩ := hreply r rfl
  obtain ⟨before, rest, rfl, hr⟩ := exists_of_mem_replies hmem
  refine ⟨c, _, _, hw.run before, hr, ?_⟩
  rw [replies_append, ← List.append_assoc, List.prefix_append_right_inj]
  rw [replies, hr]
  exact List.prefix_append [_] _

variable {c : Circumstances} {log : List (Event × Reply)}

/-- The world after the event of a reply. -/
theorem Replied.after
    (h : Replied crypto cfg w w' op r c log s) :
    History crypto cfg (log ++ [(.request op c, r)]) (handle crypto cfg s op c).2 := by
  have hnext := h.history.event (.request op c)
  rw [show (Event.apply crypto cfg s (.request op c)).1 = r from h.result] at hnext
  exact hnext

theorem Replied.mem
    (h : Replied crypto cfg w w' op r c log s) : (Event.request op c, r) ∈ w'.1 :=
  h.logged.subset (List.mem_append_right _ (List.mem_singleton_self _))

/-- What a call of `_post_runner` that ends well has read. -/
theorem runs_postRunner (h : Runs (Answers crypto cfg) w (postRunner op).prog w' (.ok r))
    (hw : History crypto cfg w.1 w.2) : ∃ c log s, Replied crypto cfg w w' op r c log s := by
  obtain ⟨p, hstep, hread⟩ := runs_ask h
  cases p with
  | reply r' =>
    cases hread
    exact hstep.replied hw
  | httpError code => cases hread
  | uncertain message => cases hread

/-! ## What the runner's replies say -/

/-- The runner was, at a point of its history, done with a file of a session, having been fed these bytes. -/
def FileReceived (crypto : Crypto) (cfg : Config) (log : List (Event × Reply)) (S path : String) (data : List UInt8) : Prop :=
  ∃ log₁ s₁ proof, log₁ <+: log ∧ History crypto cfg log₁ s₁ ∧ proofOf s₁ S path = some proof ∧ proof.verified = true ∧
    proof.hashState = data

variable {S : String} {data : List UInt8}

variable {log' : List (Event × Reply)}

theorem FileReceived.mono {path : String}
    (h : FileReceived crypto cfg log S path data) (hlog : log <+: log') : FileReceived crypto cfg log' S path data := by
  obtain ⟨log₁, s₁, proof, hfront, hrest⟩ := h
  exact ⟨log₁, s₁, proof, hfront.trans hlog, hrest⟩

variable {text : String}

theorem PlanReceived.mono (h : PlanReceived log S text) (hlog : log <+: log') :
    PlanReceived log' S text := by
  obtain ⟨id, ref, c, d, n, hmem⟩ := h
  exact ⟨id, ref, c, d, n, hlog.subset hmem⟩

theorem ReleaseReceived.mono {id : String} (h : ReleaseReceived log S id)
    (hlog : log <+: log') : ReleaseReceived log' S id := by
  obtain ⟨hash, c, hmem⟩ := h
  exact ⟨hash, c, hlog.subset hmem⟩

/-- A status request that is answered by the handler under the lock. -/
theorem underLock_reply {body : ℚ → Memory → Reply × Memory}
    (h : (underLock cfg s c body).1 = r) (hr : ∀ status code, r ≠ .error status code) :
    ∃ now, (body now (s.memory.prune now)).1 = r ∧ (underLock cfg s c body).2.memory = (body now (s.memory.prune now)).2 := by
  unfold underLock at h ⊢
  split at h
  · exact absurd h.symm (hr _ _)
  rename_i hactive
  split at h
  · exact absurd h.symm (hr _ _)
  rename_i now hnow
  rw [if_neg hactive]
  exact ⟨now, h, rfl⟩

/-- A snapshot that the runner gives shows a session in memory, and the proof of the file it is about. -/
theorem snapshot_spec {m : Memory} {ref : SessionRef} {filePath : Option String} {snapshot : Snapshot}
    (h : verificationStatus sha ref filePath m = .verificationStatus snapshot) :
    ∃ item, Finds m ref item ∧ snapshot.planVerified = item.planVerified ∧
      ∀ path, filePath = some path → ∃ proof, item.fileProofs.get? path = some proof ∧
        snapshot.filePrefixSha256 = some (sha.hex proof.hashState) ∧ snapshot.fileSha256Verified = some proof.verified := by
  unfold verificationStatus at h
  split at h
  · rename_i reply hfind
    obtain ⟨status, code, rfl⟩ := findSession_error hfind
    cases h
  rename_i item hfind
  dsimp only at h
  split at h
  · cases h
    exact ⟨item, findSession_eq_ok.mp hfind, rfl, by simp⟩
  split at h
  · cases h
  split at h
  · cases h
  rename_i proof hproof
  cases h
  refine ⟨item, findSession_eq_ok.mp hfind, rfl, fun path hpath => ?_⟩
  cases hpath
  exact ⟨proof, hproof, rfl, rfl⟩

variable {base : SessionRef}

/-- A snapshot that is read. -/
theorem runs_verificationSnapshot {filePath : Option String} {token : Token}
    {snapshot : Snapshot} (h : Runs (Answers crypto cfg) w (verificationSnapshot base filePath token).prog w' (.ok snapshot))
    (hw : History crypto cfg w.1 w.2) :
    ∃ log s item, log <+: w'.1 ∧ History crypto cfg log s ∧ s.memory.prepared.get? base.sessionId = some item ∧
      item.manifestDigest = base.manifestDigest ∧ snapshot.planVerified = item.planVerified ∧
      ∀ path, filePath = some path → ∃ proof, item.fileProofs.get? path = some proof ∧
        snapshot.filePrefixSha256 = some (crypto.sha.hex proof.hashState) ∧
        snapshot.fileSha256Verified = some proof.verified := by
  obtain ⟨w₁, r, hpost, hrest⟩ := runs_bind_ok h
  obtain ⟨c, log, s, hreplied⟩ := runs_postRunner hpost hw
  cases r with
  | verificationStatus found =>
    obtain ⟨w₂, u, hcheck, hpure⟩ := runs_bind_ok hrest
    obtain ⟨rfl, -⟩ := runs_check hcheck
    obtain ⟨rfl, hsame⟩ := runs_pure hpure
    cases hsame
    have hresult := hreplied.result
    unfold handle at hresult
    split at hresult
    · cases hresult
    obtain ⟨now, hbody, -⟩ := underLock_reply hresult (by simp)
    obtain ⟨item, hfinds, hplan, hfile⟩ := snapshot_spec hbody
    exact ⟨log, s, item, (List.prefix_append _ _).trans hreplied.logged, hreplied.history,
      (forgets_prune _ now).prepared hfinds.prepared, hfinds.manifest, hplan, hfile⟩
  | _ => exact absurd hrest not_runs_throw

/-! ## The steps of the call -/

/-- No other bytes have this digest. -/
def NoCollision (sha : Sha256) (bytes : List UInt8) : Prop := ∀ other, sha.hex other = sha.hex bytes → other = bytes

/-- The digest of a verified plan. -/
theorem digest_of_verify {digest : String} {counts : SignedCounts} {bytes : Nat}
    (h : verifyCanonicalManifestPlan sha text digest counts = .ok bytes) : sha.hex (utf8 text) = digest := by
  unfold verifyCanonicalManifestPlan at h
  split at h
  · cases h
  split at h
  · cases h
  split at h
  swap
  · cases h
  split at h
  · cases h
  split at h
  · cases h
  rename_i hdigest
  rw [not_or, not_not] at hdigest
  exact hdigest.2

/-- The plan of a session that has the digest of the broker's text is that text. -/
theorem planReceived_of_session {item : PreparedSession}
    (hitem : SessionOk sha log S item) (hverified : item.planVerified = true) (hdigest : item.manifestDigest = sha.hex (utf8 text))
    (hunique : NoCollision sha (utf8 text)) : PlanReceived log S text := by
  obtain ⟨found, bytes, hreceived, hplan, -⟩ := hitem.plan hverified
  have hsame := digest_of_verify hplan
  rw [hdigest] at hsame
  have htext := utf8_injective (hunique _ hsame)
  exact htext ▸ hreceived

variable {tokens : Tokens} {plan : AdmissionPlan} {u : Unit}

/-- The plan is sent. -/
theorem runs_sendPlan
    (h : Runs (Answers crypto cfg) w (sendPlan base tokens text plan).prog w' (.ok u)) (hw : History crypto cfg w.1 w.2)
    (hdigest : base.manifestDigest = crypto.sha.hex (utf8 text)) (hunique : NoCollision crypto.sha (utf8 text)) :
    PlanReceived w'.1 base.sessionId text := by
  obtain ⟨w₁, x, hattempt, hrest⟩ := runs_bind_ok h
  have hpost := runs_attempt hattempt
  have hw₁ := (later_of_runs hpost).2 hw
  split at hrest
  · obtain ⟨w₂, snapshot, hsnapshot, hcheck⟩ := runs_bind_ok hrest
    obtain ⟨rfl, hverified, -⟩ := runs_check hcheck
    obtain ⟨log, s, item, hlog, hs, hitem, hmanifest, hplan, -⟩ := runs_verificationSnapshot hsnapshot hw₁
    have hreceived := planReceived_of_session (hs.traced.prepared hitem) (hplan ▸ hverified) (hmanifest.trans hdigest) hunique
    exact PlanReceived.mono hreceived hlog
  · exact absurd hrest not_runs_throw
  · obtain ⟨rfl, hsession, -⟩ := runs_check hrest
    obtain ⟨c, log, s, hreplied⟩ := runs_postRunner hpost hw
    rw [hsession] at hreplied
    exact ⟨_, base, c, _, _, hreplied.mem⟩
  · exact absurd hrest not_runs_throw

/-- A chunk that the runner says it has taken: the proof of the file afterwards. -/
theorem proofOf_of_chunkReceipt {id : String} {chunk : FileChunk} {receipt : ChunkReceipt}
    (hs : History crypto cfg log s)
    (h : (handle crypto cfg s (.fileChunk id chunk) c).1 = .chunk receipt) :
    ∃ proof, proofOf (handle crypto cfg s (.fileChunk id chunk) c).2 chunk.session.sessionId chunk.filePath = some proof ∧
      receipt.filePrefixSha256 = crypto.sha.hex proof.hashState ∧ receipt.fileSha256Verified = proof.verified := by
  obtain ⟨m, hforgets, hstep⟩ := apply_step crypto cfg s (.request (.fileChunk id chunk) c)
  rw [show Event.apply crypto cfg s (.request (.fileChunk id chunk) c) = handle crypto cfg s (.fileChunk id chunk) c from rfl,
    h] at hstep
  generalize hm' : (handle crypto cfg s (.fileChunk id chunk) c).2.memory = m' at hstep
  generalize hreply : Reply.chunk receipt = reply at hstep
  cases hstep with
  | quiet e reply hprepared hplan hchunk hreleased => exact absurd hreply.symm (hchunk receipt)
  | @chunk id chunk c item proof hfinds hverified hproof =>
    have hid := (hs.traced.prepared (hforgets.prepared hfinds.prepared)).id
    refine ⟨(receiveChunk crypto.sha proof chunk).2, ?_, ?_⟩
    · rw [proofOf, hm', show ∀ i : PreparedSession, (m.setSession i).prepared = m.prepared.set i.sessionId i from fun _ => rfl,
        show (item.setProof chunk.filePath (receiveChunk crypto.sha proof chunk).2).sessionId = chunk.session.sessionId from hid,
        Dict.get?_set_self]
      exact Dict.get?_set_self
    · generalize receiveChunk crypto.sha proof chunk = result at hreply
      obtain ⟨⟨status, code⟩ | isLast, proof'⟩ := result
      · cases hreply
      · cases hreply
        exact ⟨rfl, rfl⟩

variable {number : Nat}

/-- A chunk is sent: when it ends the file, the runner is done with the file and has been fed what was sent. -/
theorem runs_sendChunk {entry : EntryPlan}
    {sent : List UInt8} {offset : Nat}
    (h : Runs (Answers crypto cfg) w (sendChunk crypto.sha base tokens plan number entry data sent offset).prog w' (.ok u))
    (hw : History crypto cfg w.1 w.2) (hfinal : isFinal data offset = true) (hsent : sent = data)
    (hunique : NoCollision crypto.sha data) : FileReceived crypto cfg w'.1 base.sessionId entry.path data := by
  obtain ⟨w₁, progress, hprogress, hcheck⟩ := runs_bind_ok h
  obtain ⟨rfl, hexpected⟩ := runs_check hcheck
  obtain ⟨w₂, x, hattempt, hrest⟩ := runs_bind_ok hprogress
  have hpost := runs_attempt hattempt
  have hw₂ := (later_of_runs hpost).2 hw
  have hfront : progress.filePrefixSha256 = some (crypto.sha.hex data) := by
    rw [hexpected, ← hsent]
    rfl
  have hverified : progress.fileSha256Verified = some true := by
    rw [hexpected, ← hfinal]
    rfl
  have hbytes : ∀ {proof : InertFileProof}, some (crypto.sha.hex proof.hashState) = progress.filePrefixSha256 →
      proof.hashState = data := by
    intro proof hhex
    exact hunique _ (Option.some.inj (hhex.trans hfront))
  split at hrest
  · obtain ⟨w₃, snapshot, hsnapshot, hrest⟩ := runs_bind_ok hrest
    obtain ⟨w₄, v, hsafe, hpure⟩ := runs_bind_ok hrest
    obtain ⟨rfl, -⟩ := runs_check hsafe
    obtain ⟨rfl, hsame⟩ := runs_pure hpure
    cases hsame
    obtain ⟨log, s, item, hlog, hs, hitem, -, -, hfile⟩ := runs_verificationSnapshot hsnapshot hw₂
    obtain ⟨proof, hproof, hhex, hdone⟩ := hfile _ rfl
    refine ⟨log, s, proof, hlog, hs, ?_, ?_, hbytes hhex.symm⟩
    · rw [proofOf, hitem]
      exact hproof
    · exact Option.some.inj (hdone.symm.trans hverified)
  · exact absurd hrest not_runs_throw
  · obtain ⟨w₃, v, hsafe, hpure⟩ := runs_bind_ok hrest
    obtain ⟨rfl, -⟩ := runs_check hsafe
    obtain ⟨rfl, hsame⟩ := runs_pure hpure
    cases hsame
    obtain ⟨c, log, s, hreplied⟩ := runs_postRunner hpost hw
    obtain ⟨proof, hproof, hhex, hdone⟩ := proofOf_of_chunkReceipt hreplied.history hreplied.result
    refine ⟨_, _, proof, hreplied.logged, hreplied.after, hproof, ?_, hbytes (congrArg some hhex.symm)⟩
    exact hdone ▸ Option.some.inj hverified
  · exact absurd hrest not_runs_throw

/-- All chunks of a file are sent. -/
theorem runs_sendChunks {entry : EntryPlan}
    {sent : List UInt8} {rest : List Nat}
    (h : Runs (Answers crypto cfg) w (sendChunks crypto.sha base tokens plan number entry data sent rest).prog w' (.ok u))
    (hw : History crypto cfg w.1 w.2) (hcuts : Cuts data sent rest) (hne : rest ≠ []) (hunique : NoCollision crypto.sha data) :
    FileReceived crypto cfg w'.1 base.sessionId entry.path data := by
  induction rest generalizing w sent with
  | nil => exact absurd rfl hne
  | cons offset rest ih =>
    obtain ⟨w₁, v, hchunk, hrest⟩ := runs_bind_ok h
    obtain ⟨-, -, hfinal, -, hcuts'⟩ := hcuts
    have hlater := later_of_runs hrest
    by_cases hnil : rest = []
    · subst hnil
      exact (runs_sendChunk hchunk hw (hfinal.mpr rfl) hcuts' hunique).mono hlater.1
    · exact ih hrest ((later_of_runs hchunk).2 hw) hcuts' hnil

/-- All files are sent. -/
theorem runs_sendFiles {files : Option Files}
    {entries : List EntryPlan}
    (h : Runs (Answers crypto cfg) w (sendFiles crypto.sha base tokens plan files number entries).prog w' (.ok u))
    (hw : History crypto cfg w.1 w.2)
    (hunique : ∀ path data, fileContent files path = .ok data → NoCollision crypto.sha data) :
    ∀ entry ∈ entries, ∃ data, fileContent files entry.path = .ok data ∧
      FileReceived crypto cfg w'.1 base.sessionId entry.path data := by
  induction entries generalizing w number with
  | nil => simp
  | cons first entries ih =>
    obtain ⟨w₁, data, hcontent, hrest⟩ := runs_bind_ok h
    obtain ⟨rfl, hdata⟩ := runs_done.mp hcontent
    obtain ⟨w₂, v, hchunks, hfiles⟩ := runs_bind_ok hrest
    have hlater := later_of_runs hchunks
    have hreceived := runs_sendChunks hchunks hw (cuts_offsets data) (offsets_ne_nil data) (hunique _ _ hdata.symm)
    intro entry hentry
    rcases List.mem_cons.mp hentry with rfl | hentry
    · exact ⟨data, hdata.symm, hreceived.mono (later_of_runs hfiles).1⟩
    · exact ih hfiles (hlater.2 hw) entry hentry

/-- The session is released. -/
theorem runs_releaseSession
    (h : Runs (Answers crypto cfg) w (releaseSession base tokens).prog w' (.ok u)) (hw : History crypto cfg w.1 w.2) :
    ReleaseReceived w'.1 base.sessionId ("release-" ++ tokens.release.text) := by
  obtain ⟨w₁, x, hattempt, hrest⟩ := runs_bind_ok h
  have hpost := runs_attempt hattempt
  have hw₁ := (later_of_runs hpost).2 hw
  split at hrest
  · obtain ⟨w₂, r, hstatus, hrest⟩ := runs_bind_ok hrest
    obtain ⟨c, log, s, hreplied⟩ := runs_postRunner hstatus hw₁
    split at hrest
    · obtain ⟨w₃, v, hproof, hsession⟩ := runs_bind_ok hrest
      obtain ⟨rfl, hid, -⟩ := runs_check hproof
      obtain ⟨rfl, hsession⟩ := runs_check hsession
      have hresult := hreplied.result
      unfold handle at hresult
      split at hresult
      · cases hresult
      obtain ⟨now, hbody, -⟩ := underLock_reply hresult (by simp)
      unfold releaseStatus at hbody
      split at hbody
      · cases hbody
      rename_i item hitem
      split at hbody
      · cases hbody
      split at hbody
      · cases hbody
      split at hbody
      · cases hbody
      cases hbody
      obtain ⟨-, hreceived⟩ := hreplied.history.traced.released ((forgets_prune _ now).released hitem)
      rw [hid] at hreceived
      exact ReleaseReceived.mono hreceived ((List.prefix_append _ _).trans hreplied.logged)
    · exact absurd hrest not_runs_throw
  · exact absurd hrest not_runs_throw
  · obtain ⟨rfl, hsession⟩ := runs_check hrest
    obtain ⟨c, log, s, hreplied⟩ := runs_postRunner hpost hw
    rw [hsession] at hreplied
    exact ⟨_, c, hreplied.mem⟩
  · exact absurd hrest not_runs_throw

/-- When the call returns a receipt, the runner has verified the plan of the files for a session, has been fed exactly the bytes of
every file of the plan, and has released the session. -/
theorem inert_transfer_sound {args : Arguments} {tokens : Tokens} {w w' : World} {receipt : Receipt}
    (hw : History crypto cfg w.1 w.2)
    (h : Runs (Answers crypto cfg) w (verifyInertManifestFiles crypto args tokens).prog w' (.ok receipt))
    (hplan : ∀ text plan, canonicalPlan crypto.sha args.files = .ok (text, plan) → NoCollision crypto.sha (utf8 text))
    (hfiles : ∀ path data, fileContent args.files path = .ok data → NoCollision crypto.sha data) :
    ∃ text plan S, canonicalPlan crypto.sha args.files = .ok (text, plan) ∧ PlanReceived w'.1 S text ∧
      (∀ entry ∈ plan.entries, entry.kind = "file" → ∃ data, fileContent args.files entry.path = .ok data ∧
        FileReceived crypto cfg w'.1 S entry.path data) ∧
      ReleaseReceived w'.1 S ("release-" ++ tokens.release.text) ∧
      receipt = ⟨args.contractHash, plan.manifestDigest, plan.inlineFileCount, plan.inlineFileBytes, true, false, false⟩ := by
  obtain ⟨w₁, secret, hkeys, h₁⟩ := runs_bind_ok h
  obtain ⟨rfl, -⟩ := runs_done.mp hkeys
  obtain ⟨w₂, v, hauthorized, h₂⟩ := runs_bind_ok h₁
  obtain ⟨rfl, -⟩ := runs_check hauthorized
  obtain ⟨w₃, ⟨text, plan⟩, hread, h₃⟩ := runs_bind_ok h₂
  obtain ⟨rfl, hcanonical⟩ := runs_done.mp hread
  obtain ⟨w₄, ticket, hticket, h₄⟩ := runs_bind_ok h₃
  obtain ⟨rfl, -⟩ := runs_done.mp hticket
  obtain ⟨w₅, S, hprepare, h₅⟩ := runs_bind_ok h₄
  obtain ⟨w₆, u, htransfer, hpure⟩ := runs_bind_ok h₅
  obtain ⟨rfl, hreceipt⟩ := runs_pure hpure
  obtain ⟨files, -, -, -, -, hdigest, -⟩ := canonicalPlan_eq_ok hcanonical.symm
  have hw₅ := (later_of_runs hprepare).2 hw
  obtain ⟨w₇, hbody, hrelease⟩ := runs_finally htransfer
  obtain ⟨w₈, v, hsend, hsendFiles⟩ := runs_bind_ok hbody
  have hw₈ := (later_of_runs hsend).2 hw₅
  have hw₇ := (later_of_runs hsendFiles).2 hw₈
  have hlater₈ := (later_of_runs hsendFiles).trans (later_of_runs hrelease)
  have hlater₇ := later_of_runs hrelease
  have hreceived := runs_sendPlan hsend hw₅ hdigest (hplan _ _ hcanonical.symm)
  have hall := runs_sendFiles hsendFiles hw₈ hfiles
  refine ⟨text, plan, S, hcanonical.symm, PlanReceived.mono hreceived hlater₈.1, fun entry hentry hkind => ?_,
    runs_releaseSession hrelease hw₇, Except.ok.inj hreceipt⟩
  obtain ⟨data, hdata, hfile⟩ := hall entry (List.mem_filter.mpr ⟨hentry, by simpa using hkind⟩)
  exact ⟨data, hdata, hfile.mono hlater₇.1⟩

/-! ## The channel that delivers everything -/

/-- The run on the channel that delivers everything is a run of this channel. -/
theorem exists_runs_serve {α : Type} {circumstances : Nat → Circumstances} {c : Transfer α} {x x' : Nat × State}
    {r : Except TransferError α} (h : run (serve crypto cfg circumstances) c.prog x = (r, x')) (log : List (Event × Reply)) :
    ∃ log', Runs (Answers crypto cfg) (log, x.2) c.prog (log', x'.2) r := by
  have hstep : ∀ {y : Nat × State} {w : World} (op : Operation), w.2 = y.2 →
      ∃ w', Answers crypto cfg w op (serve crypto cfg circumstances op y).1 w' ∧ w'.2 = (serve crypto cfg circumstances op y).2.2 := by
    rintro ⟨n, s⟩ ⟨log, t⟩ op rfl
    refine ⟨_, ⟨[.request op (circumstances n)], rfl, fun r hr => ⟨circumstances n, ?_⟩⟩, rfl⟩
    have hreply : (handle crypto cfg t op (circumstances n)).1 = r := by
      have hposted : posted (handle crypto cfg t op (circumstances n)).1 = .reply r := hr
      unfold posted at hposted
      split at hposted
      · cases hposted
      · cases hposted
      · exact Posted.reply.inj hposted
    exact List.mem_singleton.mpr (congrArg (Prod.mk _) hreply.symm)
  obtain ⟨⟨log', t⟩, hruns, ht⟩ := exists_runs_of_run (R := fun (y : Nat × State) (w : World) => w.2 = y.2) hstep c.prog
    (show (log, x.2).2 = x.2 from rfl)
  have hstate : t = x'.2 := by
    rw [h] at ht
    exact ht
  rw [h, hstate] at hruns
  exact ⟨log', hruns⟩

/-- The digests of the bytes 1 and 2 and of the plan of the file `a/b` with this content. -/
def contentHex : String := "a12871fee210fb8619291eaea194581cbd2531e4b23759d225f6806923f63222"

def planHex : String := "0e569c660d22ec5fb27c854603ccae1f2d3465b32a3bc24f088450b599145f50"

def transferPlanText : String :=
  ManifestAdmission.canonicalPayload (.int 1) (.str "/workspace")
    [{ filePlan ManifestAdmission.sampleSha "a/b" [1, 2] with contentSha256 := some contentHex }] []

/-- SHA-256 on what the transfer of this file hashes. -/
def transferHex (bytes : List UInt8) : String :=
  if bytes = [1, 2] then contentHex
  else if bytes = utf8 transferPlanText then planHex
  else String.ofList (List.replicate 64 '0')

theorem transferHex_cases (bytes : List UInt8) :
    (bytes = [1, 2] ∧ transferHex bytes = contentHex) ∨
      (bytes ≠ [1, 2] ∧ bytes = utf8 transferPlanText ∧ transferHex bytes = planHex) ∨
      (bytes ≠ [1, 2] ∧ bytes ≠ utf8 transferPlanText ∧ transferHex bytes = String.ofList (List.replicate 64 '0')) := by
  unfold transferHex
  split_ifs with h₁ h₂
  · exact .inl ⟨h₁, rfl⟩
  · exact .inr (.inl ⟨h₁, h₂, rfl⟩)
  · exact .inr (.inr ⟨h₁, h₂, rfl⟩)

theorem transfer_digests : contentHex ≠ planHex ∧ contentHex ≠ String.ofList (List.replicate 64 '0') ∧
    planHex ≠ String.ofList (List.replicate 64 '0') := by
  decide +kernel

def transferSha : Sha256 where
  hex := transferHex
  hex_valid bytes := by
    rcases transferHex_cases bytes with ⟨-, h⟩ | ⟨-, -, h⟩ | ⟨-, -, h⟩
    · rw [h]
      decide +kernel
    · rw [h]
      decide +kernel
    · rw [h]
      decide +kernel

theorem transferHex_content : transferHex [1, 2] = contentHex := by
  rcases transferHex_cases [1, 2] with ⟨-, h⟩ | ⟨hne, -⟩ | ⟨hne, -⟩
  · exact h
  · exact absurd rfl hne
  · exact absurd rfl hne

theorem noCollision_transfer {bytes : List UInt8} (h : bytes = [1, 2] ∨ bytes = utf8 transferPlanText) :
    NoCollision transferSha bytes := by
  obtain ⟨hcontent, hzeros, hplan⟩ := transfer_digests
  intro other hother
  have hsame : transferHex other = transferHex bytes := hother
  rcases transferHex_cases bytes with ⟨hb, hd⟩ | ⟨-, hb, hd⟩ | ⟨hb, hb', -⟩
  · rcases transferHex_cases other with ⟨ho, -⟩ | ⟨-, -, hd'⟩ | ⟨-, -, hd'⟩
    · rw [ho, hb]
    · exact absurd ((hd.symm.trans hsame.symm).trans hd') hcontent
    · exact absurd ((hd.symm.trans hsame.symm).trans hd') hzeros
  · rcases transferHex_cases other with ⟨-, hd'⟩ | ⟨-, ho, -⟩ | ⟨-, -, hd'⟩
    · exact absurd ((hd'.symm.trans hsame).trans hd) hcontent
    · rw [ho, hb]
    · exact absurd ((hd.symm.trans hsame.symm).trans hd') hplan
  · rcases h with h | h
    · exact absurd h hb
    · exact absurd h hb'

def transferCrypto : Crypto := { sampleCrypto with sha := transferSha }

/-- The text of the plan of the file. -/
theorem canonicalPlan_transfer : canonicalPlan transferSha (some (sampleFiles "a/b")) =
    .ok (transferPlanText, sampleFilePlan transferSha "a/b") := by
  obtain ⟨text, hplan⟩ := canonicalPlan_sample transferSha sample_path.1 sample_path.2
  obtain ⟨-, -, -, -, htext, -⟩ := canonicalPlan_eq_ok hplan
  have hfile : filePlan transferSha "a/b" [1, 2] =
      { filePlan ManifestAdmission.sampleSha "a/b" [1, 2] with contentSha256 := some contentHex } := by
    rw [filePlan, show transferSha.hex [1, 2] = contentHex from transferHex_content]
    rfl
  have hsame : (sampleFilePlan transferSha "a/b").canonicalJson = transferPlanText := by
    rw [ManifestAdmission.AdmissionPlan.canonicalJson,
      show (sampleFilePlan transferSha "a/b").entries = [filePlan transferSha "a/b" [1, 2]] from rfl, hfile]
    rfl
  rw [hplan, htext, hsame]

theorem fileContent_transfer {path : String} (h : fileContent (some (sampleFiles "a/b")) path = .ok data) :
    data = [1, 2] := by
  unfold fileContent at h
  split at h
  · rename_i found hfound
    have hmem := List.mem_singleton.mp (Dict.mem_entries.mpr hfound)
    cases h
    exact Option.some.inj (Prod.mk.inj hmem).2
  · cases h

/-- The receipt of the transfer of one file. -/
theorem inert_transfer_sound_sample : ∃ (w' : World) (receipt : Receipt) (text : String) (plan : AdmissionPlan) (S : String),
    canonicalPlan transferCrypto.sha (sampleArguments "a/b").files = .ok (text, plan) ∧ PlanReceived w'.1 S text ∧
      (∀ entry ∈ plan.entries, entry.kind = "file" → ∃ data, fileContent (sampleArguments "a/b").files entry.path = .ok data ∧
        FileReceived transferCrypto sampleConfig w'.1 S entry.path data) ∧
      ReleaseReceived w'.1 S ("release-" ++ sampleTokens.release.text) ∧
      receipt = ⟨(sampleArguments "a/b").contractHash, plan.manifestDigest, plan.inlineFileCount, plan.inlineFileBytes, true, false,
        false⟩ := by
  have hplan : canonicalPlan transferCrypto.sha (sampleArguments "a/b").files = .ok (transferPlanText, _) := canonicalPlan_transfer
  obtain ⟨result, hresult, hcases⟩ := run_accepted (sampleReady "a/b") hplan
  have htexts : ∀ text plan, canonicalPlan transferCrypto.sha (sampleArguments "a/b").files = .ok (text, plan) →
      NoCollision transferCrypto.sha (utf8 text) := by
    intro text plan hother
    have htext := (Prod.mk.inj (Except.ok.inj (hplan.symm.trans hother))).1
    exact htext ▸ noCollision_transfer (.inr rfl)
  have hcontents : ∀ path data, fileContent (sampleArguments "a/b").files path = .ok data →
      NoCollision transferCrypto.sha data := fun path data hdata => noCollision_transfer (.inl (fileContent_transfer hdata))
  rcases hcases with ⟨⟨receipt, rfl⟩, -⟩ | ⟨-, hslash⟩
  · obtain ⟨log, hruns⟩ := exists_runs_serve (Prod.mk.eta).symm []
    rw [hresult] at hruns
    have hsound := inert_transfer_sound (.start _) hruns htexts hcontents
    exact ⟨_, receipt, hsound⟩
  · exact absurd hslash not_hasSlashKey_sample

end InertTransfer

end XbowPerso
