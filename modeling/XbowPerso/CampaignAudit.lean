import XbowPerso.AuditSeal

/-!
# The audit of a campaign's events

`append_campaign_event` seals an event with its number, the hash of the event before it, the hash of its own canonical bytes and, when
a key is configured, a signature; `verify_campaign_event_chain` checks these from the first sealed event on.
-/

namespace XbowPerso

namespace CampaignAudit

open AuditSeal

/-- `_VOLATILE_FIELDS`. -/
def volatileFields : List String := ["event_hash", "event_signature", "event_signature_alg"]

/-- `_canonical_event`. -/
def canonicalEvent (event : AuditEntry) : List UInt8 := event.canonicalWithout volatileFields

/-- `events[-1].get("event_hash") if events else None`. -/
def previousHash (events : List AuditEntry) : Json :=
  match events.getLast? with
  | none => .null
  | some last => last.get "event_hash"

theorem previousHash_distinct (events : List AuditEntry) : (previousHash events).Distinct := by
  unfold previousHash
  split
  · trivial
  · exact AuditEntry.get_distinct _ _

/-- An event with its number and the hash before it. -/
def linked (event : AuditEntry) (events : List AuditEntry) : AuditEntry :=
  (event.set "event_seq" (.int (events.length + 1)) (distinct_int _)).set "previous_event_hash" (previousHash events)
    (previousHash_distinct events)

variable (env : AuditEnv)

/-- An event with its hash and its signature. -/
def sealWith (key : Option String) (event : AuditEntry) : AuditEntry :=
  ((event.set "event_hash" (.str (env.sha.hex (canonicalEvent event))) (distinct_str _)).set "event_signature_alg"
    (sign env key (canonicalEvent event)).1 (sign_distinct env key _).1).set "event_signature"
    (sign env key (canonicalEvent event)).2 (sign_distinct env key _).2

/-- `seal_campaign_event`. -/
def sealCampaignEvent (secret : ResolvedSecret) (event : AuditEntry) (events : List AuditEntry) : Except PyError AuditEntry :=
  match secret with
  | .error _ => .error (.runtimeError "campaign audit signing configuration is invalid")
  | .ok _ => .ok (sealWith env secret.key (linked event events))

/-- `append_campaign_event`: the events after it. -/
def appendCampaignEvent (events : List AuditEntry) (append : AuditEntry × ResolvedSecret) : List AuditEntry :=
  match sealCampaignEvent env append.2 append.1 events with
  | .error _ => events
  | .ok event => events ++ [event]

/-- The chain of some appends. -/
def build (appends : List (AuditEntry × ResolvedSecret)) : List AuditEntry := appends.foldl (appendCampaignEvent env) []

/-- Where the verification is: the hash before, the number that comes, and how many events are checked. -/
structure ChainState where
  previous : Json
  expectedSeq : Nat
  checked : Nat

structure Verdict where
  valid : Bool
  checked : Nat
  legacyUnsealed : Nat
  reason : Option String
  deriving DecidableEq

/-- A key that cannot be resolved counts as none. -/
def quiet : ResolvedSecret → ResolvedSecret
  | .error _ => .ok none
  | .ok secret => .ok secret

/-- The checks of one event: the next state, or the reason to stop. -/
def checkEvent (secret : ResolvedSecret) (state : ChainState) (item : AuditEntry) : Except PyError (Except String ChainState) :=
  if (item.get "event_seq").pyEq (.int state.expectedSeq) = false then .ok (.error "campaign event sequence gap")
  else if (item.get "previous_event_hash").pyEq state.previous = false then .ok (.error "previous campaign event hash mismatch")
  else
    let canonical := canonicalEvent item
    match compareDigest env (item.get "event_hash") (env.sha.hex canonical) with
    | .error e => .error e
    | .ok false => .ok (.error "campaign event hash mismatch")
    | .ok true =>
      match checkSignature env "campaign event" (quiet secret) (item.get "event_signature") (item.get "event_signature_alg")
          canonical with
      | .error e => .error e
      | .ok (some reason) => .ok (.error reason)
      | .ok none => .ok (.ok ⟨.str (env.sha.hex canonical), state.expectedSeq + 1, state.checked + 1⟩)

/-- The loop over the events. -/
def checkEvents (secret : ResolvedSecret) : ChainState → List AuditEntry → Except PyError (ChainState × Option String)
  | state, [] => .ok (state, none)
  | state, item :: rest =>
    match checkEvent env secret state item with
    | .error e => .error e
    | .ok (.error reason) => .ok (state, some reason)
    | .ok (.ok next) => checkEvents secret next rest

/-- The place of the first sealed event. -/
def firstSealed (events : List AuditEntry) : Nat := events.findIdx fun item => truthy (item.get "event_hash")

/-- `verify_campaign_event_chain`. -/
def verifyCampaignEventChain (secret : ResolvedSecret) (events : List AuditEntry) : Except PyError Verdict :=
  let legacy := firstSealed events
  match checkEvents env secret ⟨previousHash (events.take legacy), legacy + 1, 0⟩ (events.drop legacy) with
  | .error e => .error e
  | .ok (state, reason) => .ok ⟨reason.isNone, state.checked, legacy, reason⟩

end CampaignAudit

end XbowPerso

/-!
## What sealing an event keeps

The seal of an event of a campaign sets its own fields and keeps what the event says.
-/

namespace XbowPerso

namespace CampaignAudit

open AuditSeal

/-- The fields that sealing sets. -/
def sealFields : List String := ["event_seq", "previous_event_hash", "event_hash", "event_signature_alg", "event_signature"]

/-- The two events differ in the fields of the seal at most. -/
def SameFields (x y : AuditEntry) : Prop := ∀ key, key ∉ sealFields → x.get key = y.get key

theorem sameFields_seal {env : AuditEnv} {secret : ResolvedSecret} {event sealedEvent : AuditEntry} {events : List AuditEntry}
    (h : sealCampaignEvent env secret event events = .ok sealedEvent) : SameFields sealedEvent event := by
  unfold sealCampaignEvent at h
  split at h
  · cases h
  rw [← Except.ok.inj h]
  intro key hkey
  simp only [sealFields, List.mem_cons, List.not_mem_nil, or_false, not_or] at hkey
  obtain ⟨hseq, hprevious, hhash, halg, hsignature⟩ := hkey
  unfold sealWith linked
  rw [AuditEntry.get_set, if_neg hsignature, AuditEntry.get_set, if_neg halg, AuditEntry.get_set, if_neg hhash, AuditEntry.get_set,
    if_neg hprevious, AuditEntry.get_set, if_neg hseq]

end CampaignAudit

end XbowPerso
