import XbowPerso.QueueApi
import XbowPerso.Lib.Interleave
import XbowPerso.Lib.SortedSet
import Mathlib.Data.List.MinMax
import Mathlib.Tactic.Simps.Basic

/-!
# The Redis queue

The keys of `RedisJobQueue` and its calls. A transaction (a `WATCH` with its reads and the `EXEC` that went through, or the reads
that ended without one) is one atomic step; a transaction that is retried because a watched key changed has no effect and is not
shown. A call is a program of such steps, and between them any other client may move. Keys that the source names by a digest are
functions of what is digested.
-/

namespace XbowPerso

open Interleave

/-- The keys of the queue: the hashes of the jobs, the sorted sets of queued and running jobs, and the sets and hashes of the
campaigns and dedupe keys. -/
structure RedisQueue where
  jobs : Ident → Option Job
  queued : SortedSet Int Ident
  queuedKind : JobKind → SortedSet Int Ident
  running : SortedSet Int Ident
  all : List Ident
  campaign : Ident → List Ident
  dedupe : Ident → JobKind → Ident → Option Ident

/-- What a step reads from its surroundings: `utcnow()`, `time.time()` (twice, for a step that takes two scores), and the identifier
that `uuid4` would give. -/
structure RedisReading where
  now : Int
  time : Int
  time2 : Int
  uuid : Ident

/-- The steps of the calls. -/
inductive RedisStep where
  | draw
  | create (r : EnqueueRequest) (uuid : Ident) (now score : Int)
  | createDedupe (r : EnqueueRequest) (key uuid : Ident) (now score : Int)
  | get (id : Ident)
  | members (campaign : Ident)
  | staleIds
  | recover (id : Ident) (cutoff : Int)
  | claimFront (worker : Ident)
  | kindFront (kind : JobKind)
  | kindRange (kind : JobKind)
  | claimMember (worker : Ident) (kind : JobKind) (id : Ident)
  | heartbeat (id worker : Ident)
  | finish (id worker : Ident) (success : Bool) (error : Option String)
  | cancelMember (campaign id : Ident)
  | cancelOwned (id worker : Ident) (reason : String)

/-- How a turn of the loop of `claim` ends. -/
inductive ClaimTurn where
  | empty | again | handed (id : Ident)
  deriving DecidableEq

namespace RedisQueue

def empty : RedisQueue where
  jobs _ := none
  queued := .empty
  queuedKind _ := .empty
  running := .empty
  all := []
  campaign _ := []
  dedupe _ _ _ := none

/-- `SADD`. -/
def sadd (l : List Ident) (id : Ident) : List Ident := if id ∈ l then l else l ++ [id]

/-- The hash of a job is rewritten. -/
@[simps] def setJob (s : RedisQueue) (id : Ident) (j : Job) : RedisQueue := { s with jobs := Function.update s.jobs id (some j) }

/-- `ZADD` on the sorted set of a kind. -/
@[simps] def zaddKind (s : RedisQueue) (k : JobKind) (id : Ident) (score : Int) : RedisQueue :=
  { s with queuedKind := Function.update s.queuedKind k ((s.queuedKind k).zadd id score) }

/-- `ZREM` on the sorted set of a kind. -/
@[simps] def zremKind (s : RedisQueue) (k : JobKind) (id : Ident) : RedisQueue :=
  { s with queuedKind := Function.update s.queuedKind k ((s.queuedKind k).zrem id) }

@[simps] def zaddQueued (s : RedisQueue) (id : Ident) (score : Int) : RedisQueue := { s with queued := s.queued.zadd id score }
@[simps] def zremQueued (s : RedisQueue) (id : Ident) : RedisQueue := { s with queued := s.queued.zrem id }
@[simps] def zaddRunning (s : RedisQueue) (id : Ident) (score : Int) : RedisQueue := { s with running := s.running.zadd id score }
@[simps] def zremRunning (s : RedisQueue) (id : Ident) : RedisQueue := { s with running := s.running.zrem id }

/-- A job enters the sorted sets of the queued jobs: the generic one unless its kind is dedicated, and the one of its kind. -/
def zaddQueues (s : RedisQueue) (k : JobKind) (id : Ident) (score score2 : Int) : RedisQueue :=
  (if k.usesGenericQueue then s.zaddQueued id score else s).zaddKind k id score2

/-! ## The transactions -/

/-- The commands of `enqueue` that store a new job. -/
def create (r : EnqueueRequest) (uuid : Ident) (now score : Int) (s : RedisQueue) : RedisQueue :=
  let s := (s.setJob uuid (r.newJob uuid now)).zaddQueues r.kind uuid score score
  { s with
    all := sadd s.all uuid, campaign := Function.update s.campaign r.campaignId (sadd (s.campaign r.campaignId) uuid) }

/-- The transaction of `enqueue` under a dedupe key: the job that the key has already, or a new one. -/
def createDedupe (r : EnqueueRequest) (key uuid : Ident) (now score : Int) (s : RedisQueue) :
    RedisQueue × Option Ident :=
  match s.dedupe r.campaignId r.kind key with
  | some existing => (s, some existing)
  | none =>
    let s := s.create r uuid now score
    ({ s with
        dedupe := fun c k d => if c = r.campaignId ∧ k = r.kind ∧ d = key then some uuid else s.dedupe c k d },
      none)

/-- The transaction of `cancel_queued` on one member of the campaign. -/
def cancelMember (campaign id : Ident) (env : RedisReading) (s : RedisQueue) : RedisQueue × Bool :=
  match s.jobs id with
  | none => (s, false)
  | some j =>
    if j.status ≠ .queued ∨ j.campaignId ≠ campaign then (s, false)
    else
      (((s.setJob id (j.released .cancelled (some Job.cancelledError) env.now)).zremQueued id).zremKind j.kind id, true)

/-- The transaction of `cancel_owned`. -/
def cancelOwned (id worker : Ident) (reason : String) (env : RedisReading) (s : RedisQueue) : RedisQueue × Bool :=
  match s.jobs id with
  | none => (s, false)
  | some j =>
    if ¬ j.OwnedBy worker then (s, false)
    else ((s.setJob id (j.released .cancelled (Job.errorText reason) env.now)).zremRunning id, true)

/-- The transaction of `recover_expired_leases` on one stale job. -/
def recover (id : Ident) (cutoff : Int) (env : RedisReading) (s : RedisQueue) : RedisQueue × Bool :=
  match s.jobs id, s.running.score? id with
  | some j, some score =>
    if j.status ≠ .running ∨ cutoff < score then (s, false)
    else
      let s := (s.setJob id (j.released j.recoveredStatus (some Job.expiredError) env.now)).zremRunning id
      (if j.recoveredStatus = .queued then s.zaddQueues j.kind id env.time env.time2 else s, true)
  | _, _ => (s, false)

/-- A job whose attempts are used up, as `claim` leaves it. -/
def exhausted (j : Job) (now : Int) : Job :=
  { j with status := .failed, updatedAt := now, lastError := some (j.lastError.getD "retry budget exhausted") }

/-- One turn of the loop of `claim`, on the first queued job. -/
def claimFront (worker : Ident) (env : RedisReading) (s : RedisQueue) : RedisQueue × ClaimTurn :=
  match s.queued.front? with
  | none => (s, .empty)
  | some id =>
    match s.jobs id with
    | none => (s.zremQueued id, .again)
    | some j =>
      if j.status ≠ .queued then ((s.zremQueued id).zremKind j.kind id, .again)
      else if !j.kind.usesGenericQueue then (s.zremQueued id, .again)
      else if j.maxAttempts ≤ j.attempts then
        (((s.setJob id (exhausted j env.now)).zremQueued id).zremKind j.kind id, .again)
      else
        ((((s.setJob id (j.claimed worker env.now)).zremQueued id).zremKind j.kind id).zaddRunning id env.time,
          .handed id)

/-- The transaction of `claim_kind` on one member of the sorted set of the kind. -/
def claimMember (worker : Ident) (kind : JobKind) (id : Ident) (env : RedisReading) (s : RedisQueue) :
    RedisQueue × Bool :=
  match s.jobs id with
  | none => (s.zremKind kind id, false)
  | some j =>
    if j.status ≠ .queued ∨ j.kind ≠ kind ∨ j.maxAttempts ≤ j.attempts then (s.zremKind kind id, false)
    else
      ((((s.setJob id (j.claimed worker env.now)).zremQueued id).zremKind kind id).zaddRunning id env.time, true)

/-- The transaction of `heartbeat`. -/
def heartbeat (id worker : Ident) (env : RedisReading) (s : RedisQueue) : RedisQueue × Bool :=
  match s.jobs id with
  | none => (s, false)
  | some j =>
    if ¬ j.OwnedBy worker then (s, false) else ((s.setJob id (j.renewed env.now)).zaddRunning id env.time, true)

/-- The transaction of `finish`. -/
def finish (id worker : Ident) (success : Bool) (error : Option String) (env : RedisReading) (s : RedisQueue) :
    RedisQueue × Bool :=
  match s.jobs id with
  | none => (s, false)
  | some j =>
    if ¬ j.OwnedBy worker then (s, false)
    else
      let s := (s.setJob id
        (j.released (j.finishedStatus success) (Job.errorText (error.getD "")) env.now)).zremRunning id
      (if j.finishedStatus success = .queued then s.zaddQueues j.kind id env.time env.time2 else s, true)

/-- What a step does to the keys. -/
def apply : RedisStep → RedisReading → RedisQueue → RedisQueue
  | .create r uuid now score, _, s => s.create r uuid now score
  | .createDedupe r key uuid now score, _, s => (s.createDedupe r key uuid now score).1
  | .recover id cutoff, env, s => (s.recover id cutoff env).1
  | .claimFront worker, env, s => (s.claimFront worker env).1
  | .claimMember worker kind id, env, s => (s.claimMember worker kind id env).1
  | .heartbeat id worker, env, s => (s.heartbeat id worker env).1
  | .finish id worker success error, env, s => (s.finish id worker success error env).1
  | .cancelMember campaign id, env, s => (s.cancelMember campaign id env).1
  | .cancelOwned id worker reason, env, s => (s.cancelOwned id worker reason env).1
  | .draw, _, s | .get _, _, s | .members _, _, s | .staleIds, _, s | .kindFront _, _, s | .kindRange _, _, s => s

/-! ## The calls -/

/-- A program of the queue's steps. -/
abbrev RedisProg (α : Type) := Prog RedisStep RedisReading RedisQueue α

/-- `get(job_id)` on a normalised identifier. -/
def get (id : Ident) : RedisProg (Option Job) := Prog.read (.get id) fun _ s => s.jobs id

/-- How a call ends: it returns, it raises, or the turns given to its loop are used up. -/
inductive Reply where
  | returned (r : QueueResult)
  | raised (e : PyError)
  | unfinished
  deriving DecidableEq

/-- What `enqueue` returns once it has stored a new job. -/
def created (uuid : Ident) : RedisProg Reply :=
  (get uuid).bind fun
    | none => .done (.raised (.runtimeError "queued job disappeared"))
    | some j => .done (.returned (.job (some j)))

/-- What `enqueue` returns for the job that its key has. -/
def existing (r : EnqueueRequest) (id : Ident) : RedisProg Reply :=
  (get id).bind fun
    | none => .done (.raised (.runtimeError "Redis queue dedupe index is inconsistent"))
    | some j =>
      match r.answerExisting j with
      | .error e => .done (.raised e)
      | .ok j => .done (.returned (.job (some j)))

/-- `enqueue` on validated arguments. -/
def enqueueRequest (r : EnqueueRequest) : RedisProg Reply :=
  (Prog.read .draw fun env _ => (env.uuid, env.now, env.time)).bind fun (uuid, now, score) =>
    match r.dedupeKey with
    | none => (Prog.atomic (.create r uuid now score) fun _ s => (s.create r uuid now score, ())).bind fun _ => created uuid
    | some key =>
      (Prog.atomic (.createDedupe r key uuid now score) fun _ s => s.createDedupe r key uuid now score).bind fun
        | some id => existing r id
        | none => created uuid

/-- `recover_expired_leases`. -/
def recoverExpiredLeases (cfg : QueueSettings) : RedisProg Nat :=
  (Prog.read .staleIds fun env s => (env.time - cfg.lease, s.running.rangeByScore (env.time - cfg.lease))).bind
    fun (cutoff, stale) =>
      Prog.foldl (fun n id =>
        (Prog.atomic (.recover id cutoff) fun env s => s.recover id cutoff env).bind fun b =>
          .done (if b then n + 1 else n)) 0 stale

/-- The loop of `claim`, for so many turns. -/
def claimLoop (worker : Ident) : Nat → RedisProg Reply
  | 0 => .done .unfinished
  | turns + 1 =>
    (Prog.atomic (.claimFront worker) fun env s => s.claimFront worker env).bind fun
      | .empty => .done (.returned (.job none))
      | .again => claimLoop worker turns
      | .handed id => (get id).bind fun j => .done (.returned (.job j))

/-- `claim_kind` on normalised arguments. -/
def claimKind (cfg : QueueSettings) (worker : Ident) (kind : JobKind) : RedisProg (Option Job) :=
  (recoverExpiredLeases cfg).bind fun _ =>
    (Prog.read (.kindRange kind) fun _ s => (s.queuedKind kind).range).bind fun ids =>
      (Prog.firstSome (fun id =>
        (Prog.atomic (.claimMember worker kind id) fun env s => s.claimMember worker kind id env).bind fun
          | true => (get id).bind fun j => .done (some j)
          | false => .done none) ids).bind fun
        | some j => .done j
        | none => .done none

/-- The rounds of `claim_allowed`: the kind with the oldest first entry is claimed. -/
def claimRounds (cfg : QueueSettings) (worker : Ident) (kinds : List JobKind) : Nat → RedisProg (Option Job)
  | 0 => .done none
  | rounds + 1 =>
    (Prog.foldl (fun candidates k =>
      (Prog.read (.kindFront k) fun _ s => (s.queuedKind k).entries.head?).bind fun e =>
        .done (candidates ++ (e.map fun e => ((ofLex e).1, (ofLex e).2, k)).toList)) [] kinds).bind fun candidates =>
      match candidates.argmin (fun c : Int × Ident × JobKind => toLex (c.1, toLex (c.2.1, c.2.2.word))) with
      | none => .done none
      | some (_, _, kind) =>
        (claimKind cfg worker kind).bind fun
          | some j => .done (some j)
          | none => claimRounds cfg worker kinds rounds

/-- The rounds that `claim_allowed` makes at most. -/
def maxRounds : Nat := 32

/-- `cancel_queued` on a normalised identifier. -/
def cancelQueued (campaign : Ident) : RedisProg Nat :=
  (Prog.read (.members campaign) fun _ s => s.campaign campaign).bind fun ids =>
    Prog.foldl (fun n id =>
      (Prog.atomic (.cancelMember campaign id) fun env s => s.cancelMember campaign id env).bind fun b =>
        .done (if b then n + 1 else n)) 0 ids

/-- The end of a call that answers with the job if its transaction went through. -/
def answered (id : Ident) : Bool → RedisProg Reply
  | true => (get id).bind fun j => .done (.returned (.job j))
  | false => .done (.returned (.job none))

/-- A check of the arguments, and what follows it. -/
def checked {α : Type} (c : Except PyError α) (f : α → RedisProg Reply) : RedisProg Reply :=
  match c with
  | .error e => .done (.raised e)
  | .ok a => f a

/-- A call; `turns` bounds the loop of `claim`. -/
def call (cfg : QueueSettings) (turns : Nat) : QueueCall → RedisProg Reply
  | .enqueue campaignId kind payload maxAttempts dedupeKey =>
    checked (EnqueueRequest.validate cfg campaignId kind payload maxAttempts dedupeKey) enqueueRequest
  | .claim workerId =>
    checked (boundedIdentifier workerId "worker_id") fun worker =>
      (recoverExpiredLeases cfg).bind fun _ => claimLoop worker turns
  | .claimAllowed workerId kinds =>
    checked (boundedIdentifier workerId "worker_id") fun worker =>
      checked (requestedKinds kinds) fun kinds =>
        (recoverExpiredLeases cfg).bind fun _ =>
          (claimRounds cfg worker kinds maxRounds).bind fun j => .done (.returned (.job j))
  | .claimKind workerId kind =>
    checked (boundedIdentifier workerId "worker_id") fun worker =>
      checked (requestedKind kind) fun kind => (claimKind cfg worker kind).bind fun j => .done (.returned (.job j))
  | .heartbeat jobId workerId =>
    checked (boundedIdentifier jobId "job_id") fun id =>
      checked (boundedIdentifier workerId "worker_id") fun worker =>
        (Prog.atomic (.heartbeat id worker) fun env s => s.heartbeat id worker env).bind fun b =>
          .done (.returned (.flag b))
  | .finish jobId workerId success error =>
    checked (boundedIdentifier jobId "job_id") fun id =>
      checked (boundedIdentifier workerId "worker_id") fun worker =>
        (Prog.atomic (.finish id worker success error) fun env s => s.finish id worker success error env).bind
          (answered id)
  | .cancelQueued campaignId =>
    checked (boundedIdentifier campaignId "campaign_id") fun campaign =>
      (cancelQueued campaign).bind fun n => .done (.returned (.count n))
  | .cancelOwned jobId workerId reason =>
    checked (boundedIdentifier jobId "job_id") fun id =>
      checked (boundedIdentifier workerId "worker_id") fun worker =>
        checked (cancelReason reason) fun reason =>
          (Prog.atomic (.cancelOwned id worker reason) fun env s => s.cancelOwned id worker reason env).bind
            (answered id)
  | .recoverExpiredLeases => (recoverExpiredLeases cfg).bind fun n => .done (.returned (.count n))

/-- A client: calls one after the other, each with the settings it reads and the turns of its loop, and their replies. -/
def session (calls : List (QueueSettings × Nat × QueueCall)) : RedisProg (List Reply) :=
  Prog.foldl (fun replies c => (call c.1 c.2.1 c.2.2).bind fun reply => .done (replies ++ [reply])) [] calls

end RedisQueue

end XbowPerso
