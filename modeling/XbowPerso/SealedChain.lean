import XbowPerso.AuditSeal
import Mathlib.Data.List.Sort

/-!
# The audits of decisions, of workers and of policies

`verify_decision_audit_chain` and `verify_worker_audit_chain` sort the sealed entries by their number and check one after the other;
they differ in the fields, the canonical bytes and the texts. `verify_policy_receipt` checks one receipt.
-/

namespace XbowPerso

open AuditSeal

/-- What tells the two chains apart. -/
structure SealFormat (ι : Type) where
  entry : ι → AuditEntry
  canonical : ι → List UInt8
  what : String
  hashField : String
  previousField : String
  signatureField : String
  algorithmField : String
  gapReason : String
  previousReason : String
  hashReason : String

namespace SealedChain

/-- An `int` of Python: a truth value is one. -/
def seqOf : Json → Option Int
  | .int n => some n
  | .bool b => some (if b then 1 else 0)
  | _ => none

variable {ι : Type} (env : AuditEnv) (format : SealFormat ι)

/-- An entry is sealed when it has a number and a hash. -/
def isSealed (item : ι) : Bool :=
  (seqOf ((format.entry item).get "audit_seq")).isSome && truthy ((format.entry item).get format.hashField)

def seq (item : ι) : Int := (seqOf ((format.entry item).get "audit_seq")).getD 0

/-- The sealed entries, sorted by their numbers. -/
def sortedSealed (items : List ι) : List ι :=
  (items.filter (isSealed format)).insertionSort fun a b => seq format a ≤ seq format b

/-- Where the verification is. -/
structure State where
  previous : Json
  expectedSeq : Int
  checked : Nat

structure Verdict where
  valid : Bool
  checked : Nat
  sealedEntries : Nat
  legacyUnsealed : List String
  reason : Option String

/-- The checks of one entry: the next state, or the reason to stop. -/
def checkEntry (secret : ResolvedSecret) (state : State) (item : ι) : Except PyError (Except String State) :=
  let entry := format.entry item
  if seq format item ≠ state.expectedSeq then .ok (.error format.gapReason)
  else if (entry.get format.previousField).pyEq state.previous = false then .ok (.error format.previousReason)
  else
    match compareDigest env (entry.get format.hashField) (env.sha.hex (format.canonical item)) with
    | .error e => .error e
    | .ok false => .ok (.error format.hashReason)
    | .ok true =>
      match checkSignature env format.what secret (entry.get format.signatureField) (entry.get format.algorithmField)
          (format.canonical item) with
      | .error e => .error e
      | .ok (some reason) => .ok (.error reason)
      | .ok none => .ok (.ok ⟨.str (env.str (entry.get format.hashField)), state.expectedSeq + 1, state.checked + 1⟩)

/-- The loop over the sorted entries. -/
def checkEntries (secret : ResolvedSecret) : State → List ι → Except PyError (State × Option String)
  | state, [] => .ok (state, none)
  | state, item :: rest =>
    match checkEntry env format secret state item with
    | .error e => .error e
    | .ok (.error reason) => .ok (state, some reason)
    | .ok (.ok next) => checkEntries secret next rest

/-- The verification of a list of entries, given how a legacy entry is named. -/
def verify (nameOf : ι → String) (secret : ResolvedSecret) (items : List ι) : Except PyError Verdict :=
  match checkEntries env format secret ⟨.null, 1, 0⟩ (sortedSealed format items) with
  | .error e => .error e
  | .ok (state, reason) => .ok ⟨reason.isNone, state.checked, (sortedSealed format items).length,
      (items.filter fun item => !isSealed format item).map nameOf, reason⟩

end SealedChain

/-! ## Decisions -/

namespace DecisionAudit

/-- A planner decision: the identifier of its observation, and its metadata. -/
structure Decision where
  id : String
  metadata : AuditEntry

/-- `_AUDIT_FIELDS`. -/
def auditFields : List String :=
  ["action", "agent", "reason", "priority", "graph_fingerprint", "audit_seq", "previous_decision_hash"]

/-- `_canonical_decision_payload`. -/
def canonicalDecisionPayload (d : Decision) : List UInt8 := d.metadata.canonicalOf (some d.id) auditFields

def format : SealFormat Decision where
  entry := Decision.metadata
  canonical := canonicalDecisionPayload
  what := "decision"
  hashField := "decision_hash"
  previousField := "previous_decision_hash"
  signatureField := "decision_signature"
  algorithmField := "decision_signature_alg"
  gapReason := "decision audit sequence gap"
  previousReason := "previous decision hash mismatch"
  hashReason := "decision hash mismatch"

/-- `verify_decision_audit_chain`, on the planner decisions of a graph. -/
def verifyDecisionAuditChain (env : AuditEnv) (secret : ResolvedSecret) (decisions : List Decision) :
    Except PyError SealedChain.Verdict := SealedChain.verify env format Decision.id secret decisions

end DecisionAudit

/-! ## Workers -/

namespace WorkerAudit

/-- `_AUDIT_FIELDS`. -/
def auditFields : List String :=
  ["type", "job_id", "job_kind", "success", "status", "attempts", "at", "audit_seq", "previous_worker_hash"]

/-- `_canonical_worker_event`. -/
def canonicalWorkerEvent (event : AuditEntry) : List UInt8 := event.canonicalOf none auditFields

def format : SealFormat AuditEntry where
  entry := id
  canonical := canonicalWorkerEvent
  what := "worker"
  hashField := "worker_hash"
  previousField := "previous_worker_hash"
  signatureField := "worker_signature"
  algorithmField := "worker_signature_alg"
  gapReason := "worker audit sequence gap"
  previousReason := "previous worker hash mismatch"
  hashReason := "worker outcome hash mismatch"

/-- `verify_worker_audit_chain`. -/
def verifyWorkerAuditChain (env : AuditEnv) (secret : ResolvedSecret) (events : List AuditEntry) :
    Except PyError SealedChain.Verdict :=
  SealedChain.verify env format (fun item => if truthy (item.get "job_id") then env.str (item.get "job_id") else "") secret
    (events.filter fun item => (item.get "type").pyEq (.str "worker_outcome"))

end WorkerAudit

/-! ## Policies -/

namespace PolicyIntegrity

/-- `_INTEGRITY_FIELDS`. -/
def integrityFields : List String := ["receipt_hash", "signature", "signature_alg", "integrity_mode"]

/-- `canonical_policy_receipt`. -/
def canonicalPolicyReceipt (receipt : AuditEntry) : List UInt8 := receipt.canonicalWithout integrityFields

structure Verdict where
  valid : Bool
  hashValid : Bool
  signatureValid : Option Bool
  integrityMode : String
  reason : Option String

/-- `str(value or default)`. -/
def strOr (env : AuditEnv) (value : Json) (default : String) : String := if truthy value then env.str value else default

/-- The end of `verify_policy_receipt`, for a receipt with a signature. -/
def verifySigned (env : AuditEnv) (secret : ResolvedSecret) (receipt : AuditEntry) (hashValid : Bool) : Except PyError Verdict :=
  if (receipt.get "signature_alg").pyEq (.str "hmac-sha256") = false then
    .ok ⟨false, hashValid, some false, strOr env (receipt.get "integrity_mode") "unknown", some "unsupported signature algorithm"⟩
  else
    match secret with
    | .error e => .error e
    | .ok resolved =>
      match ResolvedSecret.key (.ok resolved) with
      | none => .ok ⟨false, hashValid, none, "hmac-sha256", some "verification key unavailable"⟩
      | some key =>
        match compareDigest env (receipt.get "signature") (env.hmac key (canonicalPolicyReceipt receipt)) with
        | .error e => .error e
        | .ok signatureValid => .ok ⟨hashValid && signatureValid, hashValid, some signatureValid, "hmac-sha256",
            if hashValid && signatureValid then none else some "receipt integrity check failed"⟩

/-- `verify_policy_receipt`. -/
def verifyPolicyReceipt (env : AuditEnv) (secret : ResolvedSecret) (receipt : AuditEntry) : Except PyError Verdict :=
  let expectedHash := strOr env (receipt.get "receipt_hash") ""
  if expectedHash = "" then
    .ok ⟨false, false, none, strOr env (receipt.get "integrity_mode") "unknown", some "receipt_hash missing"⟩
  else
    match compareDigest env (.str expectedHash) (env.sha.hex (canonicalPolicyReceipt receipt)) with
    | .error e => .error e
    | .ok hashValid =>
      if (receipt.get "signature").pyEq .null = true then
        .ok ⟨hashValid, hashValid, none, strOr env (receipt.get "integrity_mode") "sha256",
          if hashValid then none else some "receipt hash mismatch"⟩
      else verifySigned env secret receipt hashValid

end PolicyIntegrity

end XbowPerso

/-!
## Recording the decisions of the planner

A run of the planner loads the graph, decides, and records its decision: `_record_decision` takes the number and the hash before it from
the graph that was loaded, seals the decision and puts it. Runs of one campaign come in between each other.
-/

namespace XbowPerso

namespace DecisionAudit

open AuditSeal

variable (env : AuditEnv)

/-! ## Sealing -/

/-- `seal_decision_metadata`, with the key that was resolved. -/
def sealDecisionMetadata (key : Option String) (id : String) (metadata : AuditEntry) : AuditEntry :=
  let canonical := canonicalDecisionPayload ⟨id, metadata⟩
  ((metadata.set "decision_hash" (.str (env.sha.hex canonical)) (distinct_str _)).set "decision_signature_alg"
    (sign env key canonical).1 (sign_distinct env key _).1).set "decision_signature" (sign env key canonical).2
    (sign_distinct env key _).2

/-- `max(sealed, key=audit_seq)`: the first of the entries with the greatest number. -/
def latest : List Decision → Option Decision
  | [] => none
  | d :: decisions =>
    some (decisions.foldl (fun best item => if SealedChain.seq format best < SealedChain.seq format item then item else best) d)

/-- `next_audit_link`: the number, and the hash before it. -/
def nextAuditLink (decisions : List Decision) : Int × Json :=
  match latest (decisions.filter (SealedChain.isSealed format)) with
  | none => (1, .null)
  | some last => (SealedChain.seq format last + 1, .str (env.str (last.metadata.get "decision_hash")))

/-! ## One recording -/

/-- What the planner decided on the graph that it loaded. -/
structure Content where
  action : String
  agent : String
  reason : String
  priority : Int
  graphFingerprint : String
  time : String
  explanation : Json
  explanation_distinct : explanation.Distinct

/-- `_stable_id("decision", action.kind, action.reason, fingerprint)` -/
def Content.id (content : Content) : String :=
  let text := "\x1f".intercalate [content.action, content.reason, content.graphFingerprint]
  "decision:" ++ String.ofList ((env.sha.hex (utf8 text)).toList.take 24)

def emptyEntry : AuditEntry := ⟨.empty, distinct_empty⟩

/-- The fields of the metadata that do not depend on the chain. -/
def Content.fields (content : Content) : AuditEntry :=
  (((((((emptyEntry.set "memory_type" (.str "planner_decision") (distinct_str _)).set "action" (.str content.action)
    (distinct_str _)).set "agent" (.str content.agent) (distinct_str _)).set "reason" (.str content.reason) (distinct_str _)).set
    "priority" (.int content.priority) (distinct_int _)).set "graph_fingerprint" (.str content.graphFingerprint) (distinct_str _)).set
    "at" (.str content.time) (distinct_str _)).set "explanation" content.explanation content.explanation_distinct

theorem nextAuditLink_distinct (decisions : List Decision) : (nextAuditLink env decisions).2.Distinct := by
  unfold nextAuditLink
  split
  · trivial
  · trivial

/-- The sealed decision, linked to the decisions of a graph. -/
def Content.toDecision (key : Option String) (content : Content) (graph : List Decision) : Decision :=
  ⟨content.id env, sealDecisionMetadata env key (content.id env)
    ((content.fields.set "audit_seq" (.int (nextAuditLink env graph).1) (distinct_int _)).set "previous_decision_hash"
      (nextAuditLink env graph).2 (nextAuditLink_distinct env graph))⟩

/-- `put_observation` of a decision: its identifier is new, or the metadata are the same. -/
def putDecision (stored : List Decision) (d : Decision) : Except PyError (List Decision) :=
  match stored.find? fun x => decide (x.id = d.id) with
  | none => .ok (stored ++ [d])
  | some x =>
    if Json.pyEq (.obj x.metadata.fields.entries) (.obj d.metadata.fields.entries) then .ok stored
    else .error (.valueError "observation id reused with different content")

/-- `_record_decision`, on the decisions of the graph that was loaded. -/
def recordDecision (secret : ResolvedSecret) (stored graph : List Decision) (content : Content) : Except PyError (List Decision) :=
  if content.id env ∈ graph.map Decision.id then .ok stored
  else
    match secret with
    | .error e => .error e
    | .ok resolved => putDecision stored (content.toDecision env (ResolvedSecret.key (.ok resolved)) graph)

/-! ## Runs of the planner -/

/-- The decisions that are stored, and for each run of the planner those of the graph that it loaded. -/
structure Planners where
  stored : List Decision
  loaded : Nat → Option (List Decision)

/-- A run loads the graph, or records what it decided on it. -/
inductive Step where
  | load (run : Nat)
  | record (run : Nat) (content : Content)

/-- A step; a recording that raises changes nothing, and ends the run. -/
def step (secret : ResolvedSecret) (s : Planners) : Step → Planners
  | .load run => { s with loaded := fun r => if r = run then some s.stored else s.loaded r }
  | .record run content =>
    match s.loaded run with
    | none => s
    | some graph =>
      let loaded := fun r => if r = run then none else s.loaded r
      match recordDecision env secret s.stored graph content with
      | .error _ => ⟨s.stored, loaded⟩
      | .ok stored => ⟨stored, loaded⟩

def steps (secret : ResolvedSecret) (s : Planners) (l : List Step) : Planners := l.foldl (step env secret) s

/-- No decision is stored, and no run has begun. -/
def initial : Planners := ⟨[], fun _ => none⟩

end DecisionAudit

end XbowPerso
