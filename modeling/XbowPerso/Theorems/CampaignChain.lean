import XbowPerso.CampaignAudit
import XbowPerso.Lemmas.AuditSeal
import XbowPerso.Lib.EventLog
import XbowPerso.Theorems.PlanAgreement

/-!
# The chain of a campaign's events

Sealed events pass the verification, and a chain that passes it entirely is a chain of hashes over canonical bytes.
-/

namespace XbowPerso

namespace CampaignAudit

open AuditSeal

variable {env : AuditEnv} {secret : ResolvedSecret} {state next : ChainState} {item : AuditEntry}

/-! ## What an accepted event has -/

/-- An event that passes the checks in a state. -/
structure Passes (env : AuditEnv) (secret : ResolvedSecret) (state : ChainState) (item : AuditEntry) : Prop where
  seq : (item.get "event_seq").pyEq (.int state.expectedSeq) = true
  previous : (item.get "previous_event_hash").pyEq state.previous = true
  digest : compareDigest env (item.get "event_hash") (env.sha.hex (canonicalEvent item)) = .ok true
  signature : checkSignature env "campaign event" (quiet secret) (item.get "event_signature") (item.get "event_signature_alg")
    (canonicalEvent item) = .ok none

/-- The state after an event. -/
def ChainState.after (env : AuditEnv) (state : ChainState) (item : AuditEntry) : ChainState :=
  ⟨.str (env.sha.hex (canonicalEvent item)), state.expectedSeq + 1, state.checked + 1⟩

theorem ChainState.after_previous (env : AuditEnv) (state : ChainState) (item : AuditEntry) :
    (state.after env item).previous = ((some (env.sha.hex (canonicalEvent item))).map Json.str).getD .null := rfl

theorem checkEvent_of_passes (h : Passes env secret state item) : checkEvent env secret state item = .ok (.ok (state.after env item)) := by
  have hne : ¬ true = false := by decide
  unfold checkEvent
  rw [h.seq, if_neg hne, h.previous, if_neg hne]
  dsimp only
  rw [h.digest]
  dsimp only
  rw [h.signature]
  rfl

theorem passes_of_checkEvent (h : checkEvent env secret state item = .ok (.ok next)) :
    Passes env secret state item ∧ next = state.after env item := by
  unfold checkEvent at h
  split at h
  · cases h
  rename_i hseq
  split at h
  · cases h
  rename_i hprevious
  dsimp only at h
  split at h
  · cases h
  · cases h
  · rename_i hdigest
    split at h
    · cases h
    · cases h
    · rename_i hsignature
      cases h
      exact ⟨⟨(Bool.not_eq_false _).mp hseq, (Bool.not_eq_false _).mp hprevious, hdigest, hsignature⟩, rfl⟩

/-! ## Sealed events pass -/

theorem checkEvents_append {items rest : List AuditEntry} (h : checkEvents env secret state items = .ok (next, none)) :
    checkEvents env secret state (items ++ rest) = checkEvents env secret next rest := by
  induction items generalizing state with
  | nil =>
    cases h
    rfl
  | cons item items ih =>
    unfold checkEvents at h
    rw [List.cons_append, checkEvents]
    split at h
    · cases h
    · cases h
    · exact ih h

theorem canonicalEvent_set {entry : AuditEntry} {k : String} {v : Json} (hv : v.Distinct) (hk : k ∈ volatileFields) :
    canonicalEvent (entry.set k v hv) = canonicalEvent entry := canonicalWithout_set hv hk

theorem canonicalEvent_sealWith (env : AuditEnv) (key : Option String) (event : AuditEntry) :
    canonicalEvent (sealWith env key event) = canonicalEvent event := by
  unfold sealWith
  rw [canonicalEvent_set _ (by decide), canonicalEvent_set _ (by decide), canonicalEvent_set _ (by decide)]

theorem get_sealWith (env : AuditEnv) (key : Option String) (event : AuditEntry) :
    (sealWith env key event).get "event_hash" = .str (env.sha.hex (canonicalEvent event)) ∧
      (sealWith env key event).get "event_signature_alg" = (sign env key (canonicalEvent event)).1 ∧
      (sealWith env key event).get "event_signature" = (sign env key (canonicalEvent event)).2 ∧
      (sealWith env key event).get "event_seq" = event.get "event_seq" ∧
      (sealWith env key event).get "previous_event_hash" = event.get "previous_event_hash" := by
  unfold sealWith
  simp [AuditEntry.get_set]

theorem get_linked (event : AuditEntry) (events : List AuditEntry) :
    (linked event events).get "event_seq" = .int (events.length + 1) ∧
      (linked event events).get "previous_event_hash" = previousHash events := by
  unfold linked
  simp [AuditEntry.get_set]

/-- The state of a verification that has passed all events. -/
def passedState (events : List AuditEntry) : ChainState := ⟨previousHash events, events.length + 1, events.length⟩

/-- A chain that passes, in which every event carries a digest. -/
structure Built (env : AuditEnv) (secret : ResolvedSecret) (events : List AuditEntry) : Prop where
  passes : checkEvents env secret ⟨.null, 1, 0⟩ events = .ok (passedState events, none)
  hashed : ∀ item ∈ events, ∃ content, item.get "event_hash" = .str (env.sha.hex content)

variable {events : List AuditEntry}

theorem previousHash_pyEq (h : Built env secret events) :
    (previousHash events).pyEq (previousHash events) = true := by
  unfold previousHash
  split
  · exact pyEq_null
  · rename_i last hlast
    obtain ⟨content, hhash⟩ := h.hashed last (List.mem_of_getLast? hlast)
    rw [hhash]
    exact pyEq_str _

theorem Built.append (h : Built env secret events) (event : AuditEntry) {signer : ResolvedSecret}
    (hkey : signer.key = none ∨ signer.key = secret.key) : Built env secret (appendCampaignEvent env events (event, signer)) := by
  unfold appendCampaignEvent sealCampaignEvent
  cases signer with
  | error e => exact h
  | ok resolved =>
    dsimp only
    obtain ⟨hhash, halg, hsig, hseq, hprevious⟩ := get_sealWith env (ResolvedSecret.key (.ok resolved)) (linked event events)
    obtain ⟨hlseq, hlprevious⟩ := get_linked event events
    have hcanonical := canonicalEvent_sealWith env (ResolvedSecret.key (.ok resolved)) (linked event events)
    have hpasses : Passes env secret (passedState events) (sealWith env (ResolvedSecret.key (.ok resolved)) (linked event events)) := by
      refine ⟨?_, ?_, ?_, ?_⟩
      · rw [hseq, hlseq]
        exact pyEq_int _
      · rw [hprevious, hlprevious]
        exact previousHash_pyEq h
      · rw [hhash, hcanonical]
        exact compareDigest_self env (env.sha.hex_valid _)
      · rw [halg, hsig, hcanonical]
        have hquiet : (quiet secret).key = secret.key := by cases secret <;> rfl
        exact checkSignature_sign env "campaign event" (hquiet ▸ hkey) _
    refine ⟨?_, ?_⟩
    · rw [checkEvents_append h.passes, checkEvents, checkEvent_of_passes hpasses]
      dsimp only
      rw [checkEvents]
      refine congrArg (fun state => Except.ok (state, none)) ?_
      have hlast : previousHash (events ++ [sealWith env (ResolvedSecret.key (.ok resolved)) (linked event events)]) =
          .str (env.sha.hex (canonicalEvent (linked event events))) := by
        unfold previousHash
        rw [List.getLast?_concat]
        exact hhash
      unfold ChainState.after passedState
      rw [hcanonical, hlast, List.length_append]
      rfl
    · intro item hitem
      rcases List.mem_append.mp hitem with hitem | hitem
      · exact h.hashed item hitem
      · rw [List.mem_singleton.mp hitem]
        exact ⟨_, hhash⟩

theorem built_build (env : AuditEnv) (secret : ResolvedSecret) (appends : List (AuditEntry × ResolvedSecret))
    (hkeys : ∀ a ∈ appends, a.2.key = none ∨ a.2.key = secret.key) : Built env secret (build env appends) := by
  induction appends using List.reverseRecOn with
  | nil => exact ⟨rfl, fun item h => absurd h List.not_mem_nil⟩
  | append_singleton appends a ih =>
    unfold build
    rw [List.foldl_concat]
    have hbuilt := ih fun b hb => hkeys b (List.mem_append_left _ hb)
    exact hbuilt.append a.1 (hkeys a (List.mem_append_right _ (List.mem_singleton.mpr rfl)))

theorem firstSealed_of_built (h : Built env secret events) : firstSealed events = 0 := by
  unfold firstSealed
  cases events with
  | nil => rfl
  | cons item rest =>
    obtain ⟨content, hhash⟩ := h.hashed item List.mem_cons_self
    have hne : env.sha.hex content ≠ "" := by
      intro hempty
      have hvalid := env.sha.hex_valid content
      rw [hempty] at hvalid
      exact absurd hvalid (by decide)
    rw [List.findIdx_cons, hhash]
    simp [truthy, hne]

/-! ## A chain that passes is a chain of hashes -/

/-- The hash of the event before, when it is a text. -/
def namedHash (item : AuditEntry) : Option String := text? (item.get "previous_event_hash")

theorem linked_of_checkEvents {items : List AuditEntry} {previous : Option String}
    (hprevious : state.previous = (previous.map Json.str).getD .null)
    (h : checkEvents env secret state items = .ok (next, none)) :
    HashChain.Linked canonicalEvent env.sha.hex namedHash previous items ∧
      ∀ item ∈ items, env.str (item.get "event_hash") = env.sha.hex (canonicalEvent item) := by
  induction items generalizing state previous with
  | nil => exact ⟨trivial, fun item h => absurd h List.not_mem_nil⟩
  | cons item items ih =>
    unfold checkEvents at h
    split at h
    · cases h
    · cases h
    · rename_i state' hcheck
      obtain ⟨hpasses, rfl⟩ := passes_of_checkEvent hcheck
      obtain ⟨hlinked, hhashes⟩ := ih (state.after_previous env item) h
      refine ⟨⟨?_, hlinked⟩, fun x hx => ?_⟩
      · have hpy := hpasses.previous
        rw [hprevious] at hpy
        unfold namedHash
        cases previous with
        | none =>
          rw [eq_null_of_pyEq hpy]
          rfl
        | some p =>
          rw [eq_str_of_pyEq hpy]
          rfl
      · rcases List.mem_cons.mp hx with rfl | hx
        · exact str_eq_of_compareDigest hpasses.digest
        · exact hhashes x hx

theorem namedHash_of_canonical_eq {x y : AuditEntry} (h : canonicalEvent x = canonicalEvent y) {s : String}
    (hx : namedHash x = some s) : namedHash y = some s := by
  unfold namedHash at hx ⊢
  rw [get_of_canonicalWithout_eq h (by decide) (eq_str_of_text? hx)]
  rfl

theorem namedHash_eq {x y : AuditEntry} (h : canonicalEvent x = canonicalEvent y) : namedHash x = namedHash y := by
  refine Option.ext fun s => ?_
  exact ⟨namedHash_of_canonical_eq h, namedHash_of_canonical_eq h.symm⟩

/-- The verification reports a chain valid, with no event before the first sealed one. -/
def FullySealed (env : AuditEnv) (secret : ResolvedSecret) (events : List AuditEntry) : Prop :=
  ∃ verdict, verifyCampaignEventChain env secret events = .ok verdict ∧ verdict.valid = true ∧ verdict.legacyUnsealed = 0

theorem checkEvents_of_fullySealed (h : FullySealed env secret events) :
    ∃ state, checkEvents env secret ⟨.null, 1, 0⟩ events = .ok (state, none) := by
  obtain ⟨verdict, hverify, hvalid, hlegacy⟩ := h
  unfold verifyCampaignEventChain at hverify
  dsimp only at hverify
  split at hverify
  · cases hverify
  rename_i state reason hcheck
  cases hverify
  dsimp only at hvalid hlegacy
  rw [hlegacy, List.take_zero, List.drop_zero, Option.isNone_iff_eq_none.mp hvalid] at hcheck
  exact ⟨state, hcheck⟩

theorem fullySealed_of_built (h : Built env secret events) : FullySealed env secret events := by
  refine ⟨⟨true, events.length, 0, none⟩, ?_, rfl, rfl⟩
  unfold verifyCampaignEventChain
  dsimp only
  rw [firstSealed_of_built h, List.take_zero, List.drop_zero]
  rw [show previousHash [] = .null from rfl, h.passes]
  rfl

/-- What is appended is verified, and fully sealed chains of one length with the same last hash have the same canonical bytes, as long
as the hash has no collision among them. -/
theorem campaign_chain (env : AuditEnv) (secret : ResolvedSecret) :
    (∀ appends : List (AuditEntry × ResolvedSecret), (∀ a ∈ appends, a.2.key = none ∨ a.2.key = secret.key) →
      FullySealed env secret (build env appends)) ∧
    ∀ (xs ys : List AuditEntry) (secret' : ResolvedSecret), FullySealed env secret xs → FullySealed env secret' ys →
      xs.length = ys.length →
      xs.getLast?.map (fun item => item.get "event_hash") = ys.getLast?.map (fun item => item.get "event_hash") →
      (∀ x ∈ xs, ∀ y ∈ ys, env.sha.hex (canonicalEvent x) = env.sha.hex (canonicalEvent y) → canonicalEvent x = canonicalEvent y) →
      xs.map canonicalEvent = ys.map canonicalEvent := by
  refine ⟨fun appends hkeys => fullySealed_of_built (built_build env secret appends hkeys), ?_⟩
  intro xs ys secret' hxs hys hlength hlast hinj
  obtain ⟨_, hcheck⟩ := checkEvents_of_fullySealed hxs
  obtain ⟨_, hcheck'⟩ := checkEvents_of_fullySealed hys
  have hstart : ((none : Option String).map Json.str).getD .null = .null := rfl
  obtain ⟨hlinked, hhash⟩ := linked_of_checkEvents hstart.symm hcheck
  obtain ⟨hlinked', hhash'⟩ := linked_of_checkEvents hstart.symm hcheck'
  refine HashChain.map_content_eq hlinked hlinked' hlength ?_ hinj fun x _ y _ h => namedHash_eq h
  cases hx : xs.getLast? with
  | none =>
    rw [hx] at hlast
    cases hy : ys.getLast? with
    | none => rfl
    | some y =>
      rw [hy] at hlast
      cases hlast
  | some x =>
    rw [hx] at hlast
    cases hy : ys.getLast? with
    | none =>
      rw [hy] at hlast
      cases hlast
    | some y =>
      rw [hy] at hlast
      have hsame : x.get "event_hash" = y.get "event_hash" := Option.some.inj hlast
      refine congrArg some ?_
      show env.sha.hex (canonicalEvent x) = env.sha.hex (canonicalEvent y)
      rw [← hhash x (List.mem_of_getLast? hx), ← hhash' y (List.mem_of_getLast? hy), hsame]

/-! ## A chain of one event -/

/-- The text of a value, for values that are texts as Python writes it. -/
def sampleStr (v : Json) : String := (text? v).getD v.dumps

def sampleEnv : AuditEnv :=
  ⟨ManifestAdmission.sampleSha, fun _ message => ManifestAdmission.sampleSha.hex message,
    fun _ message => ManifestAdmission.sampleSha.hex_valid message, sampleStr, fun _ => rfl⟩

def sampleEvent : AuditEntry := AuditEntry.set ⟨.empty, fun _ h => absurd h List.not_mem_nil⟩ "type" (.str "started") (distinct_str _)

def sampleAppends (signer : ResolvedSecret) : List (AuditEntry × ResolvedSecret) := [(sampleEvent, signer)]

/-- The event sealed with a key and without one: both chains pass, and they have the same canonical bytes. -/
theorem campaign_chain_sample :
    FullySealed sampleEnv (.ok (some "audit-key")) (build sampleEnv (sampleAppends (.ok (some "audit-key")))) ∧
      (build sampleEnv (sampleAppends (.ok (some "audit-key")))).map canonicalEvent =
        (build sampleEnv (sampleAppends (.ok none))).map canonicalEvent := by
  obtain ⟨hbuilt, hsame⟩ := campaign_chain sampleEnv (.ok (some "audit-key"))
  have hsigned := hbuilt (sampleAppends (.ok (some "audit-key"))) fun a ha => by
    rw [List.mem_singleton.mp ha]
    exact .inr rfl
  have hunsigned := hbuilt (sampleAppends (.ok none)) fun a ha => by
    rw [List.mem_singleton.mp ha]
    exact .inl rfl
  refine ⟨hsigned, hsame _ _ _ hsigned hunsigned rfl ?_ fun x hx y hy _ => ?_⟩
  · have hhash : ∀ key, (sealWith sampleEnv key (linked sampleEvent [])).get "event_hash" =
        .str (sampleEnv.sha.hex (canonicalEvent (linked sampleEvent []))) := fun key => (get_sealWith _ _ _).1
    exact congrArg some ((hhash (some "audit-key")).trans (hhash none).symm)
  · rw [List.mem_singleton.mp hx, List.mem_singleton.mp hy, canonicalEvent_sealWith, canonicalEvent_sealWith]

end CampaignAudit

end XbowPerso
