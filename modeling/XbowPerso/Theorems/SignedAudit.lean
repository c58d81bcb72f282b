import XbowPerso.SealedChain
import XbowPerso.Theorems.CampaignChain

/-!
# What an accepted audit says about signatures

Every entry that a verifier checks has the hash of its own canonical bytes, and one that carries a signature carries the one of the
key. An entry without a signature passes on its hash alone.
-/

namespace XbowPerso

open AuditSeal

/-- The hash of an entry is that of its canonical bytes, and its signature is missing or made with the key over them. -/
structure Genuine (env : AuditEnv) (secret : ResolvedSecret) (canonical : List UInt8) (hash signature algorithm : Json) : Prop where
  digest : env.str hash = env.sha.hex canonical
  signed : signature = .null ∨
    (algorithm = .str "hmac-sha256" ∧ ∃ key, secret.key = some key ∧ env.str signature = env.hmac key canonical)

/-! ## The chains of decisions and of workers -/

namespace SealedChain

variable {ι : Type} {env : AuditEnv} {format : SealFormat ι} {secret : ResolvedSecret} {state next : State}

/-- What an entry has that passed. -/
def GenuineEntry (env : AuditEnv) (format : SealFormat ι) (secret : ResolvedSecret) (item : ι) : Prop :=
  Genuine env secret (format.canonical item) ((format.entry item).get format.hashField)
    ((format.entry item).get format.signatureField) ((format.entry item).get format.algorithmField)

theorem genuine_of_checkEntry {item : ι} (h : checkEntry env format secret state item = .ok (.ok next)) :
    GenuineEntry env format secret item := by
  unfold checkEntry at h
  dsimp only at h
  split at h
  · cases h
  split at h
  · cases h
  split at h
  · cases h
  · cases h
  · rename_i hdigest
    split at h
    · cases h
    · cases h
    · rename_i hsignature
      exact ⟨str_eq_of_compareDigest hdigest, of_checkSignature hsignature⟩

theorem genuine_of_checkEntries {items : List ι} (h : checkEntries env format secret state items = .ok (next, none)) :
    ∀ item ∈ items, GenuineEntry env format secret item := by
  induction items generalizing state with
  | nil => exact fun item hitem => absurd hitem List.not_mem_nil
  | cons item items ih =>
    unfold checkEntries at h
    split at h
    · cases h
    · cases h
    · rename_i state' hcheck
      intro x hx
      rcases List.mem_cons.mp hx with rfl | hx
      · exact genuine_of_checkEntry hcheck
      · exact ih h x hx

theorem mem_sortedSealed {items : List ι} {item : ι} :
    item ∈ sortedSealed format items ↔ item ∈ items ∧ isSealed format item = true := by
  unfold sortedSealed
  rw [(List.perm_insertionSort _ _).mem_iff, List.mem_filter]

theorem genuine_of_verify {nameOf : ι → String} {items : List ι} {verdict : Verdict}
    (h : verify env format nameOf secret items = .ok verdict) (hvalid : verdict.valid = true) :
    ∀ item ∈ items, isSealed format item = true → GenuineEntry env format secret item := by
  unfold verify at h
  split at h
  · cases h
  rename_i state reason hcheck
  cases h
  rw [Option.isNone_iff_eq_none.mp hvalid] at hcheck
  exact fun item hitem hsealed => genuine_of_checkEntries hcheck item (mem_sortedSealed.mpr ⟨hitem, hsealed⟩)

end SealedChain

/-! ## The chain of a campaign, and a receipt -/

namespace CampaignAudit

variable {env : AuditEnv} {secret : ResolvedSecret} {state next : ChainState}

theorem quiet_key (secret : ResolvedSecret) : (quiet secret).key = secret.key := by
  cases secret <;> rfl

theorem genuine_of_checkEvents {items : List AuditEntry} (h : checkEvents env secret state items = .ok (next, none)) :
    ∀ item ∈ items, Genuine env secret (canonicalEvent item) (item.get "event_hash") (item.get "event_signature")
      (item.get "event_signature_alg") := by
  induction items generalizing state with
  | nil => exact fun item hitem => absurd hitem List.not_mem_nil
  | cons item items ih =>
    unfold checkEvents at h
    split at h
    · cases h
    · cases h
    · rename_i state' hcheck
      obtain ⟨hpasses, rfl⟩ := passes_of_checkEvent hcheck
      intro x hx
      rcases List.mem_cons.mp hx with rfl | hx
      · have hsigned := of_checkSignature hpasses.signature
        rw [quiet_key] at hsigned
        exact ⟨str_eq_of_compareDigest hpasses.digest, hsigned⟩
      · exact ih h x hx

theorem genuine_of_verify {events : List AuditEntry} {verdict : Verdict}
    (h : verifyCampaignEventChain env secret events = .ok verdict) (hvalid : verdict.valid = true) :
    ∀ item ∈ events.drop verdict.legacyUnsealed, Genuine env secret (canonicalEvent item) (item.get "event_hash")
      (item.get "event_signature") (item.get "event_signature_alg") := by
  unfold verifyCampaignEventChain at h
  dsimp only at h
  split at h
  · cases h
  rename_i state reason hcheck
  cases h
  rw [Option.isNone_iff_eq_none.mp hvalid] at hcheck
  exact genuine_of_checkEvents hcheck

end CampaignAudit

namespace PolicyIntegrity

variable {env : AuditEnv} {secret : ResolvedSecret} {receipt : AuditEntry} {verdict : Verdict}

theorem of_verifySigned {hashValid : Bool} (h : verifySigned env secret receipt hashValid = .ok verdict) (hvalid : verdict.valid = true) :
    hashValid = true ∧ receipt.get "signature_alg" = .str "hmac-sha256" ∧
      ∃ key, secret.key = some key ∧ env.str (receipt.get "signature") = env.hmac key (canonicalPolicyReceipt receipt) := by
  unfold verifySigned at h
  split at h
  · cases h
    cases hvalid
  rename_i halgorithm
  split at h
  · cases h
  split at h
  · cases h
    cases hvalid
  rename_i key hkey
  split at h
  · cases h
  rename_i signatureValid hcompare
  cases h
  obtain ⟨hhash, hsignature⟩ := Bool.and_eq_true_iff.mp hvalid
  subst hsignature
  exact ⟨hhash, eq_str_of_pyEq ((Bool.not_eq_false _).mp halgorithm), key, hkey, str_eq_of_compareDigest hcompare⟩

theorem genuine_of_verify (h : verifyPolicyReceipt env secret receipt = .ok verdict) (hvalid : verdict.valid = true) :
    Genuine env secret (canonicalPolicyReceipt receipt) (receipt.get "receipt_hash") (receipt.get "signature")
      (receipt.get "signature_alg") := by
  unfold verifyPolicyReceipt at h
  dsimp only at h
  split at h
  · cases h
    cases hvalid
  rename_i hpresent
  -- a hash that is there is compared as its own text
  have hstr : strOr env (receipt.get "receipt_hash") "" = env.str (receipt.get "receipt_hash") := by
    unfold strOr at hpresent ⊢
    split at hpresent
    · rename_i htruthy
      rw [if_pos htruthy]
    · exact absurd rfl hpresent
  split at h
  · cases h
  rename_i hashValid hcompare
  have hdigest : hashValid = true → env.str (receipt.get "receipt_hash") = env.sha.hex (canonicalPolicyReceipt receipt) := by
    rintro rfl
    have heq := str_eq_of_compareDigest hcompare
    rwa [env.str_str, hstr] at heq
  split at h
  · rename_i hnull
    cases h
    exact ⟨hdigest hvalid, .inl (eq_null_of_pyEq hnull)⟩
  · obtain ⟨hhash, halgorithm, hsigned⟩ := of_verifySigned h hvalid
    exact ⟨hdigest hhash, .inr ⟨halgorithm, hsigned⟩⟩

end PolicyIntegrity

/-- Whatever the four verifiers accept is genuine: the events from the first sealed one on, the decisions and outcomes with a number
and a hash, and the receipt. -/
theorem genuine_of_accepted (env : AuditEnv) (secret : ResolvedSecret) :
    (∀ events verdict, CampaignAudit.verifyCampaignEventChain env secret events = .ok verdict → verdict.valid = true →
      ∀ item ∈ events.drop verdict.legacyUnsealed, Genuine env secret (CampaignAudit.canonicalEvent item) (item.get "event_hash")
        (item.get "event_signature") (item.get "event_signature_alg")) ∧
    (∀ decisions verdict, DecisionAudit.verifyDecisionAuditChain env secret decisions = .ok verdict → verdict.valid = true →
      ∀ item ∈ decisions, SealedChain.isSealed DecisionAudit.format item = true →
        SealedChain.GenuineEntry env DecisionAudit.format secret item) ∧
    (∀ events verdict, WorkerAudit.verifyWorkerAuditChain env secret events = .ok verdict → verdict.valid = true →
      ∀ item ∈ events, (item.get "type").pyEq (.str "worker_outcome") = true → SealedChain.isSealed WorkerAudit.format item = true →
        SealedChain.GenuineEntry env WorkerAudit.format secret item) ∧
    ∀ receipt verdict, PolicyIntegrity.verifyPolicyReceipt env secret receipt = .ok verdict → verdict.valid = true →
      Genuine env secret (PolicyIntegrity.canonicalPolicyReceipt receipt) (receipt.get "receipt_hash") (receipt.get "signature")
        (receipt.get "signature_alg") := by
  refine ⟨fun events verdict h hvalid => CampaignAudit.genuine_of_verify h hvalid,
    fun decisions verdict h hvalid => SealedChain.genuine_of_verify h hvalid, ?_,
    fun receipt verdict h hvalid => PolicyIntegrity.genuine_of_verify h hvalid⟩
  intro events verdict h hvalid item hitem htype hsealed
  exact SealedChain.genuine_of_verify h hvalid item (List.mem_filter.mpr ⟨hitem, htype⟩) hsealed

/-- The sealed sample event is accepted, and signed with the key. -/
theorem genuine_of_accepted_sample :
    ∀ item ∈ CampaignAudit.build CampaignAudit.sampleEnv (CampaignAudit.sampleAppends (.ok (some "audit-key"))),
      Genuine CampaignAudit.sampleEnv (.ok (some "audit-key")) (CampaignAudit.canonicalEvent item) (item.get "event_hash")
        (item.get "event_signature") (item.get "event_signature_alg") := by
  have hbuilt := CampaignAudit.built_build CampaignAudit.sampleEnv (.ok (some "audit-key"))
    (CampaignAudit.sampleAppends (.ok (some "audit-key"))) fun a ha => by
      rw [List.mem_singleton.mp ha]
      exact .inr rfl
  obtain ⟨verdict, hverify, hvalid, hlegacy⟩ := CampaignAudit.fullySealed_of_built hbuilt
  have hgenuine := (genuine_of_accepted CampaignAudit.sampleEnv (.ok (some "audit-key"))).1 _ verdict hverify hvalid
  rwa [hlegacy, List.drop_zero] at hgenuine

/-! ## A chain without signatures -/

/-- A chain that somebody without the key made, with plain hashes: the verifier that has a key reports it valid. -/
theorem unsigned_chain_accepted :
    ¬ ∀ events verdict, CampaignAudit.verifyCampaignEventChain CampaignAudit.sampleEnv (.ok (some "audit-key")) events = .ok verdict →
      verdict.valid = true → ∀ item ∈ events, (item.get "event_signature") = .str
        (CampaignAudit.sampleEnv.hmac "audit-key" (CampaignAudit.canonicalEvent item)) := by
  intro hall
  have hbuilt := CampaignAudit.built_build CampaignAudit.sampleEnv (.ok (some "audit-key"))
    (CampaignAudit.sampleAppends (.ok none)) fun a ha => by
      rw [List.mem_singleton.mp ha]
      exact .inl rfl
  obtain ⟨verdict, hverify, hvalid, -⟩ := CampaignAudit.fullySealed_of_built hbuilt
  have hsigned := hall _ verdict hverify hvalid _ (List.mem_singleton.mpr rfl)
  rw [(CampaignAudit.get_sealWith _ _ _).2.2.1] at hsigned
  cases hsigned

end XbowPerso
