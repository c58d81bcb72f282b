import XbowPerso.QueueApi
import XbowPerso.Lib.Table
import Mathlib.Data.List.MinMax
import XbowPerso.Lib.Interleave

/-!
# The SQLite queue

The table `jobs` and the calls of `JobQueue`. Each call but `enqueue` is one transaction; `enqueue` is the statements it makes, one
after the other. A call that raises leaves the table as it was: no statement before the raise has written anything.
-/

namespace XbowPerso

/-- The table `jobs`, with its primary key and its unique index `jobs_dedupe`. -/
abbrev SqliteQueue := Table Job Ident (Ident × JobKind × Ident) Job.id Job.dedupe

namespace SqliteQueue

/-- The select of a row by its dedupe key. -/
def selectDedupe (q : SqliteQueue) (r : EnqueueRequest) : Option Job := r.dedupe.bind q.lookup?

/-- The end of an `enqueue` whose insert was refused: the row of the key decides, and without one the refusal is raised again. -/
def afterConflict (q : SqliteQueue) (r : EnqueueRequest) : Except PyError Job :=
  match q.selectDedupe r with
  | none => .error .integrityError
  | some existing => r.answerExisting existing

/-- `get(job_id)` on a normalised identifier. -/
def get (q : SqliteQueue) (id : Ident) : Option Job := q.find? id

/-- The insert of `enqueue`, and what follows it. -/
def insertJob (q : SqliteQueue) (r : EnqueueRequest) (env : Reading) : Except PyError (Job × SqliteQueue) :=
  match q.insert (r.newJob env.uuid env.now) with
  | some q' =>
    match get q' env.uuid with
    | none => .error (.runtimeError "queued job disappeared")
    | some result => .ok (result, q')
  | none =>
    match q.afterConflict r with
    | .error e => .error e
    | .ok existing => .ok (existing, q)

/-- `enqueue`. -/
def enqueue (cfg : QueueSettings) (env : Reading) (q : SqliteQueue) (campaignId kind : String) (payload : Payload)
    (maxAttempts : Int) (dedupeKey : Option String) : Except PyError (Job × SqliteQueue) :=
  match EnqueueRequest.validate cfg campaignId kind payload maxAttempts dedupeKey with
  | .error e => .error e
  | .ok r =>
    match q.selectDedupe r with
    | some existing =>
      match r.answerExisting existing with
      | .error e => .error e
      | .ok existing => .ok (existing, q)
    | none => q.insertJob r env

/-- A lease that the recovery ends: its last sign of life is older than the cutoff. -/
def Expired (cfg : QueueSettings) (now : Int) (j : Job) : Prop :=
  j.status = .running ∧ ∃ t, j.claimedAt = some t ∧ t < now - cfg.lease

instance (cfg : QueueSettings) (now : Int) (j : Job) : Decidable (Expired cfg now j) :=
  match h : j.claimedAt with
  | none => isFalse fun hx => by obtain ⟨-, t, ht, -⟩ := hx; rw [h] at ht; cases ht
  | some t =>
    if hs : j.status = .running ∧ t < now - cfg.lease then isTrue ⟨hs.1, t, h, hs.2⟩
    else isFalse fun hx => by
      obtain ⟨h1, t', ht, h2⟩ := hx
      rw [h] at ht
      cases ht
      exact hs ⟨h1, h2⟩

/-- The row of a job after the recovery. -/
def recoverRow (cfg : QueueSettings) (now : Int) (j : Job) : Job :=
  if Expired cfg now j then j.released j.recoveredStatus (some Job.expiredError) now else j

theorem recoverRow_id (cfg : QueueSettings) (now : Int) (j : Job) : (recoverRow cfg now j).id = j.id := by
  unfold recoverRow
  split <;> rfl

theorem recoverRow_dedupe (cfg : QueueSettings) (now : Int) (j : Job) : (recoverRow cfg now j).dedupe = j.dedupe := by
  unfold recoverRow
  split <;> rfl

/-- `_recover_expired_leases`: the number of stale rows, and the table with each of them requeued or failed. -/
def recoverExpired (cfg : QueueSettings) (now : Int) (q : SqliteQueue) : Nat × SqliteQueue :=
  (q.rows.countP (fun j => decide (Expired cfg now j)),
    q.update (recoverRow cfg now) (recoverRow_id cfg now) (recoverRow_dedupe cfg now))

/-- An update of the rows that meet a condition, with the number of them. -/
def updateWhere (q : SqliteQueue) (p : Job → Bool) (f : Job → Job) (hk : ∀ j, (f j).id = j.id)
    (hi : ∀ j, (f j).dedupe = j.dedupe) : Nat × SqliteQueue :=
  (q.rows.countP p, q.update (fun j => if p j then f j else j) (by intro j; split <;> simp [hk])
    (by intro j; split <;> simp [hi]))

/-- A row that a claim may select. -/
def claimable (p : JobKind → Bool) (j : Job) : Bool :=
  decide (j.status = .queued) && p j.kind && decide (j.attempts < j.maxAttempts)

/-- The update of a claim: the selected row, if it is queued still, and in `claim_kind` of the kind asked for. -/
def markRunning (q : SqliteQueue) (worker : Ident) (now : Int) (row : Job) (p : JobKind → Bool) : Nat × SqliteQueue :=
  q.updateWhere (fun j => decide (j.id = row.id) && decide (j.status = .queued) && p j.kind)
    (fun j => j.claimed worker now) (fun _ => rfl) (fun _ => rfl)

/-- `claim`: the oldest claimable job of the generic kinds. -/
def claim (cfg : QueueSettings) (env : Reading) (q : SqliteQueue) (workerId : String) :
    Except PyError (Option Job × SqliteQueue) :=
  match boundedIdentifier workerId "worker_id" with
  | .error e => .error e
  | .ok worker =>
    let recovered := (recoverExpired cfg env.now q).2
    match (recovered.rows.filter (claimable JobKind.usesGenericQueue)).argmin Job.createdAt with
    | none => .ok (none, recovered)
    | some row =>
      let updated := markRunning recovered worker env.now row (fun _ => true)
      .ok (get updated.2 row.id, updated.2)

/-- The end of the two other claims: without a row the recovery stands; an update that reached no row is rolled back, and the
recovery with it. -/
def claimRow (worker : Ident) (now : Int) (q recovered : SqliteQueue) (p : JobKind → Bool) :
    Option Job → Option Job × SqliteQueue
  | none => (none, recovered)
  | some row =>
    let updated := markRunning recovered worker now row p
    if updated.1 = 1 then (get updated.2 row.id, updated.2) else (none, q)

/-- `claim_allowed`: the oldest claimable job of the kinds given, the least identifier among the oldest. -/
def claimAllowed (cfg : QueueSettings) (env : Reading) (q : SqliteQueue) (workerId : String) (kinds : List String) :
    Except PyError (Option Job × SqliteQueue) :=
  match boundedIdentifier workerId "worker_id" with
  | .error e => .error e
  | .ok worker =>
    match requestedKinds kinds with
    | .error e => .error e
    | .ok kinds =>
      let recovered := (recoverExpired cfg env.now q).2
      .ok (claimRow worker env.now q recovered (fun _ => true)
        ((recovered.rows.filter (claimable (fun k => decide (k ∈ kinds)))).argmin
          (fun j => toLex (j.createdAt, j.id))))

/-- `claim_kind`: the oldest claimable job of one kind. -/
def claimKind (cfg : QueueSettings) (env : Reading) (q : SqliteQueue) (workerId kind : String) :
    Except PyError (Option Job × SqliteQueue) :=
  match boundedIdentifier workerId "worker_id" with
  | .error e => .error e
  | .ok worker =>
    match requestedKind kind with
    | .error e => .error e
    | .ok kind =>
      let recovered := (recoverExpired cfg env.now q).2
      .ok (claimRow worker env.now q recovered (fun k => decide (k = kind))
        ((recovered.rows.filter (claimable (fun k => decide (k = kind)))).argmin Job.createdAt))

/-- The condition of every call of a worker on its job. -/
def owned (id worker : Ident) (j : Job) : Bool := decide (j.id = id) && decide (j.OwnedBy worker)

/-- `heartbeat`. -/
def heartbeat (env : Reading) (q : SqliteQueue) (jobId workerId : String) : Except PyError (Bool × SqliteQueue) :=
  match boundedIdentifier jobId "job_id" with
  | .error e => .error e
  | .ok id =>
    match boundedIdentifier workerId "worker_id" with
    | .error e => .error e
    | .ok worker =>
      let updated := q.updateWhere (owned id worker) (fun j => j.renewed env.now) (fun _ => rfl) (fun _ => rfl)
      .ok (decide (updated.1 = 1), updated.2)

/-- `finish`. -/
def finish (env : Reading) (q : SqliteQueue) (jobId workerId : String) (success : Bool) (error : Option String) :
    Except PyError (Option Job × SqliteQueue) :=
  match boundedIdentifier jobId "job_id" with
  | .error e => .error e
  | .ok id =>
    match boundedIdentifier workerId "worker_id" with
    | .error e => .error e
    | .ok worker =>
      match q.rows.find? (owned id worker) with
      | none => .ok (none, q)
      | some row =>
        let updated := q.updateWhere (owned id worker)
          (fun j => j.released (row.finishedStatus success) (Job.errorText (error.getD "")) env.now)
          (fun _ => rfl) (fun _ => rfl)
        .ok (if updated.1 = 1 then get updated.2 id else none, updated.2)

/-- `cancel_queued`. -/
def cancelQueued (env : Reading) (q : SqliteQueue) (campaignId : String) : Except PyError (Nat × SqliteQueue) :=
  match boundedIdentifier campaignId "campaign_id" with
  | .error e => .error e
  | .ok campaign =>
    .ok (q.updateWhere (fun j => decide (j.campaignId = campaign) && decide (j.status = .queued))
      (fun j => j.released .cancelled (some Job.cancelledError) env.now) (fun _ => rfl) (fun _ => rfl))

/-- `cancel_owned`. -/
def cancelOwned (env : Reading) (q : SqliteQueue) (jobId workerId reason : String) :
    Except PyError (Option Job × SqliteQueue) :=
  match boundedIdentifier jobId "job_id" with
  | .error e => .error e
  | .ok id =>
    match boundedIdentifier workerId "worker_id" with
    | .error e => .error e
    | .ok worker =>
      match cancelReason reason with
      | .error e => .error e
      | .ok reason =>
        let updated := q.updateWhere (owned id worker)
          (fun j => j.released .cancelled (Job.errorText reason) env.now) (fun _ => rfl) (fun _ => rfl)
        .ok (if updated.1 = 1 then get updated.2 id else none, updated.2)

/-- `recover_expired_leases`. -/
def recoverExpiredLeases (cfg : QueueSettings) (env : Reading) (q : SqliteQueue) : Nat × SqliteQueue :=
  recoverExpired cfg env.now q

/-! ## Calls and runs -/

/-- The result of a call put together with the state it leaves. -/
def settle {α : Type} (q : SqliteQueue) (wrap : α → QueueResult) :
    Except PyError (α × SqliteQueue) → Except PyError QueueResult × SqliteQueue
  | .ok (a, q') => (.ok (wrap a), q')
  | .error e => (.error e, q)

/-- One call. -/
def call (cfg : QueueSettings) (env : Reading) (q : SqliteQueue) : QueueCall → Except PyError QueueResult × SqliteQueue
  | .enqueue campaignId kind payload maxAttempts dedupeKey =>
    settle q (fun j => .job (some j)) (q.enqueue cfg env campaignId kind payload maxAttempts dedupeKey)
  | .claim workerId => settle q .job (q.claim cfg env workerId)
  | .claimAllowed workerId kinds => settle q .job (q.claimAllowed cfg env workerId kinds)
  | .claimKind workerId kind => settle q .job (q.claimKind cfg env workerId kind)
  | .heartbeat jobId workerId => settle q .flag (q.heartbeat env jobId workerId)
  | .finish jobId workerId success error => settle q .job (q.finish env jobId workerId success error)
  | .cancelQueued campaignId => settle q .count (q.cancelQueued env campaignId)
  | .cancelOwned jobId workerId reason => settle q .job (q.cancelOwned env jobId workerId reason)
  | .recoverExpiredLeases => settle q .count (.ok (q.recoverExpiredLeases cfg env))

end SqliteQueue

end XbowPerso

/-!
## The calls of the SQLite queue, interleaved

`enqueue` opens a connection for each of its statements, so other clients may write between them: it is a program of its
statements. Every other call is one transaction, one step.
-/

namespace XbowPerso

open Interleave

/-- The steps of the calls: the statements of `enqueue`, and the transactions of the others. -/
inductive SqliteStep where
  | select (r : EnqueueRequest)
  | draw
  | insert (r : EnqueueRequest) (uuid : Ident) (now : Int)
  | get (id : Ident)
  | transaction (cfg : QueueSettings) (c : QueueCall)

namespace SqliteQueue

/-- What a step does to the table. -/
def apply : SqliteStep → Reading → SqliteQueue → SqliteQueue
  | .insert r uuid now, _, q => (q.insert (r.newJob uuid now)).getD q
  | .transaction cfg c, env, q => (q.call cfg env c).2
  | .select _, _, q | .draw, _, q | .get _, _, q => q

/-- A program of the queue's steps. -/
abbrev SqliteProg (α : Type) := Prog SqliteStep Reading SqliteQueue α

/-- The insert of `enqueue`, and what follows it: the new row is read back, and a refused insert is answered from the row of the key. -/
def insertSteps (r : EnqueueRequest) : SqliteProg (Except PyError Job) :=
  (Prog.read .draw fun env _ => (env.uuid, env.now)).bind fun (uuid, now) =>
    (Prog.atomic (.insert r uuid now) fun _ q =>
      ((q.insert (r.newJob uuid now)).getD q, (q.insert (r.newJob uuid now)).isSome)).bind fun
      | true => Prog.read (.get uuid) fun _ q =>
        match q.get uuid with
        | none => .error (.runtimeError "queued job disappeared")
        | some result => .ok result
      | false =>
        match r.dedupeKey with
        | none => .done (.error .integrityError)
        | some _ => Prog.read (.select r) fun _ q => q.afterConflict r

/-- `enqueue` on validated arguments. -/
def enqueueSteps (r : EnqueueRequest) : SqliteProg (Except PyError Job) :=
  match r.dedupeKey with
  | none => insertSteps r
  | some _ => (Prog.read (.select r) fun _ q => q.selectDedupe r).bind fun
    | some existing => .done (r.answerExisting existing)
    | none => insertSteps r

/-- A call. -/
def callSteps (cfg : QueueSettings) : QueueCall → SqliteProg (Except PyError QueueResult)
  | .enqueue campaignId kind payload maxAttempts dedupeKey =>
    match EnqueueRequest.validate cfg campaignId kind payload maxAttempts dedupeKey with
    | .error e => .done (.error e)
    | .ok r => (enqueueSteps r).bind fun res => .done (res.map fun j => .job (some j))
  | c => Prog.atomic (.transaction cfg c) fun env q => ((q.call cfg env c).2, (q.call cfg env c).1)

/-- The clients, each with its call, over a table. -/
def clients (q : SqliteQueue) (calls : Nat → QueueSettings × QueueCall) :
    Pool SqliteStep Reading SqliteQueue (Except PyError QueueResult) where
  shared := q
  thread k := callSteps (calls k).1 (calls k).2

/-- The identifier of an insert is not taken: `uuid4` repeats none. -/
def Fresh : SqliteStep → Reading → SqliteQueue → Prop
  | .insert _ uuid _, _, q => q.find? uuid = none
  | _, _, _ => True

instance : ∀ t env q, Decidable (Fresh t env q)
  | .insert _ uuid _, _, q => inferInstanceAs (Decidable (q.find? uuid = none))
  | .select _, _, _ | .draw, _, _ | .get _, _, _ | .transaction _ _, _, _ => isTrue trivial

end SqliteQueue

end XbowPerso
