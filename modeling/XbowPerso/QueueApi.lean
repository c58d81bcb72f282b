import XbowPerso.Job

/-!
# The interface of the two queue backends

The settings, the calls with their results, and what both backends check before they touch their store: the validation of an
enqueue, of the kinds of a claim and of the reason of a cancellation is written out twice in the source with the same lines.
-/

namespace XbowPerso

open PyText

/-- The settings read from the environment, inside the bounds that reading them enforces. -/
structure QueueSettings where
  leaseSeconds : Int
  maxPayloadBytes : Nat
  lease_ge : 60 ≤ leaseSeconds
  lease_le : leaseSeconds ≤ 86400
  payload_ge : 1024 ≤ maxPayloadBytes
  payload_le : maxPayloadBytes ≤ 1024 * 1024

/-- The settings of an environment that sets nothing. -/
def QueueSettings.default : QueueSettings := ⟨21600, 65536, by decide, by decide, by decide, by decide⟩

/-- The length of a lease in microseconds. -/
def QueueSettings.lease (cfg : QueueSettings) : Int := cfg.leaseSeconds * 1000000

/-- What a call reads from its surroundings: the clock, once, and the identifier that `uuid4` would give. -/
structure Reading where
  now : Int
  uuid : Ident

/-- A call of the queue, with its arguments as the caller gives them. -/
inductive QueueCall where
  | enqueue (campaignId kind : String) (payload : Payload) (maxAttempts : Int) (dedupeKey : Option String)
  | claim (workerId : String)
  | claimAllowed (workerId : String) (kinds : List String)
  | claimKind (workerId kind : String)
  | heartbeat (jobId workerId : String)
  | finish (jobId workerId : String) (success : Bool) (error : Option String)
  | cancelQueued (campaignId : String)
  | cancelOwned (jobId workerId reason : String)
  | recoverExpiredLeases

def QueueCall.isEnqueue : QueueCall → Bool
  | .enqueue .. => true
  | _ => false

/-- What a call returns. -/
inductive QueueResult where
  | job (j : Option Job)
  | flag (b : Bool)
  | count (n : Nat)
  deriving DecidableEq

/-- The job that a result hands over or shows, if it does. -/
def QueueResult.job? : QueueResult → Option Job
  | .job j => j
  | _ => none

/-- The job that a call hands out: only the three claims do. -/
def QueueCall.handed : QueueCall → Except PyError QueueResult → Option Job
  | .claim _, .ok r | .claimAllowed _ _, .ok r | .claimKind _ _, .ok r => r.job?
  | _, _ => none

/-! ## Validation -/

/-- The arguments of an enqueue, as validated. -/
structure EnqueueRequest where
  campaignId : Ident
  kind : JobKind
  payload : Payload
  maxAttempts : Int
  dedupeKey : Option Ident
  attempts_ge : 1 ≤ maxAttempts
  attempts_le : maxAttempts ≤ 5

namespace EnqueueRequest

/-- The first lines of `enqueue`. -/
def validate (cfg : QueueSettings) (campaignId kind : String) (payload : Payload) (maxAttempts : Int)
    (dedupeKey : Option String) : Except PyError EnqueueRequest :=
  match boundedIdentifier campaignId "campaign_id" with
  | .error e => .error e
  | .ok campaign =>
    match JobKind.ofWord? kind with
    | none => .error (.valueError "unsupported job kind")
    | some kind =>
      if h : 1 ≤ maxAttempts ∧ maxAttempts ≤ 5 then
        match dedupeKey.mapM (fun d => boundedIdentifier d "dedupe_key") with
        | .error e => .error e
        | .ok dedupe =>
          if cfg.maxPayloadBytes < payload.encoded.utf8ByteSize then
            .error (.valueError "job payload exceeds size limit")
          else .ok ⟨campaign, kind, payload, maxAttempts, dedupe, h.1, h.2⟩
      else .error (.valueError "max_attempts must be 1..5")

/-- The request that a call makes, if it is an `enqueue` with valid arguments. -/
def ofCall (cfg : QueueSettings) : QueueCall → Option EnqueueRequest
  | .enqueue campaignId kind payload maxAttempts dedupeKey =>
    (validate cfg campaignId kind payload maxAttempts dedupeKey).toOption
  | _ => none

theorem ofCall_eq_none (cfg : QueueSettings) {c : QueueCall} (hc : c.isEnqueue = false) : ofCall cfg c = none := by
  cases c <;> first | rfl | cases hc

/-- The index value that the request asks for. -/
def dedupe (r : EnqueueRequest) : Option (Ident × JobKind × Ident) :=
  r.dedupeKey.map (fun d => (r.campaignId, r.kind, d))

/-- The new row. -/
def newJob (r : EnqueueRequest) (uuid : Ident) (now : Int) : Job where
  id := uuid
  campaignId := r.campaignId
  kind := r.kind
  payload := r.payload.encoded
  status := .queued
  attempts := 0
  maxAttempts := r.maxAttempts
  createdAt := now
  updatedAt := now
  claimedBy := none
  claimedAt := none
  lastError := none
  dedupeKey := r.dedupeKey

/-- What `enqueue` answers when the key has a job already: that job, if its payload re-encodes to the same text. -/
def answerExisting (r : EnqueueRequest) (existing : Job) : Except PyError Job :=
  match Json.loads existing.payload with
  | none => .error .jsonDecodeError
  | some stored =>
    if stored.dumpsSorted = r.payload.encoded then .ok existing
    else .error (.valueError "dedupe_key reused with different job payload")

@[simp] theorem newJob_id (r : EnqueueRequest) (uuid : Ident) (now : Int) : (r.newJob uuid now).id = uuid := rfl

@[simp] theorem newJob_dedupe (r : EnqueueRequest) (uuid : Ident) (now : Int) :
    (r.newJob uuid now).dedupe = r.dedupe := rfl

/-- A request is valid with any payload of the same encoding. -/
theorem validate_payload {cfg : QueueSettings} {campaignId kind : String} {payload payload' : Payload} {maxAttempts : Int}
    {dedupeKey : Option String} {r : EnqueueRequest} (hp : payload'.encoded = payload.encoded)
    (hr : validate cfg campaignId kind payload maxAttempts dedupeKey = .ok r) :
    validate cfg campaignId kind payload' maxAttempts dedupeKey = .ok { r with payload := payload' } ∧
      r.payload = payload := by
  unfold validate at hr ⊢
  rw [hp]
  split at hr
  · cases hr
  split at hr
  · cases hr
  split at hr
  · rename_i hbound
    split at hr
    · cases hr
    split at hr
    · cases hr
    rename_i hsize
    cases hr
    simp only [dif_pos hbound, if_neg hsize]
    exact ⟨trivial, trivial⟩
  · cases hr

/-- A request made with a dedupe key has one. -/
theorem validate_dedupe {cfg : QueueSettings} {campaignId kind : String} {payload : Payload} {maxAttempts : Int}
    {dedupeKey : String} {r : EnqueueRequest}
    (hr : validate cfg campaignId kind payload maxAttempts (some dedupeKey) = .ok r) : ∃ key, r.dedupe = some key := by
  unfold validate at hr
  split at hr
  · cases hr
  split at hr
  · cases hr
  split at hr
  · split at hr
    · cases hr
    rename_i dedupe hd
    split at hr
    · cases hr
    cases hr
    cases dedupe with
    | none =>
      simp only [Option.mapM_some] at hd
      cases hb : boundedIdentifier dedupeKey "dedupe_key" <;> rw [hb] at hd <;> cases hd
    | some d => exact ⟨_, rfl⟩
  · cases hr

/-- A new job is well formed. -/
theorem newJob_wellFormed (r : EnqueueRequest) (uuid : Ident) (now : Int) : (r.newJob uuid now).WellFormed where
  attempts_nonneg := Int.le_refl 0
  attempts_le := Int.le_of_lt r.attempts_ge
  queued := fun _ => r.attempts_ge
  idle := fun _ => ⟨rfl, rfl⟩
  running := nofun
  tried := nofun
  encoded := ⟨r.payload, rfl⟩

end EnqueueRequest

/-- The kind that `claim_kind` is asked for. -/
def requestedKind (kind : String) : Except PyError JobKind :=
  match boundedIdentifier kind "kind" with
  | .error e => .error e
  | .ok kind =>
    match JobKind.ofWord? kind.text with
    | none => .error (.valueError "unsupported job kind")
    | some kind => .ok kind

/-- The kinds that `claim_allowed` is asked for, each once, in order. -/
def requestedKinds (kinds : List String) : Except PyError (List JobKind) :=
  match kinds.mapM (fun k => boundedIdentifier k "kind") with
  | .error e => .error e
  | .ok normalized =>
    if normalized.eraseDups = [] then .error (.valueError "at least one allowed job kind is required")
    else
      match normalized.eraseDups.mapM (fun k => JobKind.ofWord? k.text) with
      | none => .error (.valueError "unsupported job kind")
      | some kinds => .ok kinds

/-- The reason that `cancel_owned` stores. -/
def cancelReason (reason : String) : Except PyError String :=
  let tail := (strip reason).toList.drop ((strip reason).toList.length - 4000)
  if tail.any (fun ch => ch.toNat < 32 && ch != '\t') then
    .error (.valueError "cancel reason contains invalid characters")
  else .ok (String.ofList tail)

end XbowPerso
