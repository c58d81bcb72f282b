import XbowPerso.Lib.Simulation
import XbowPerso.Lemmas.RedisAlone
import XbowPerso.Theorems.ExecutionFencing

/-!
# Where the two backends are the same queue

The SQLite queue and the Redis queue make the same calls with the same readings, each call alone. They differ in two places. The
recovery of Redis ends a lease that is exactly at its end, and that of SQLite does not; and SQLite claims the job created first,
Redis the one that entered its queue first, which a retry or a recovery does anew. Where neither shows, the backends hand out the
same jobs and hold the same records.
-/

namespace XbowPerso

/-- A job that a claim of some kinds can hand out, after its recovery. -/
def Available (cfg : QueueSettings) (now : Int) (p : JobKind → Bool) (j : Job) : Prop :=
  (j.status = .queued ∨ SqliteQueue.Expired cfg now j) ∧ p j.kind = true ∧ j.attempts < j.maxAttempts

/-- The time since which an available job waits in its queue. -/
def waitingSince (cfg : QueueSettings) (now : Int) (j : Job) : Int :=
  if SqliteQueue.Expired cfg now j then now else j.updatedAt

/-- No lease ends at this very time. -/
def OffBoundary (cfg : QueueSettings) (now : Int) (q : SqliteQueue) : Prop :=
  ∀ j ∈ q.rows, j.status = .running → j.claimedAt ≠ some (now - cfg.lease)

/-- The available job that was created first has waited longest. -/
def InOrder (cfg : QueueSettings) (now : Int) (p : JobKind → Bool) (q : SqliteQueue) : Prop :=
  ∀ i ∈ q.rows, Available cfg now p i → (∀ j ∈ q.rows, Available cfg now p j → i.createdAt ≤ j.createdAt) →
    ∀ j ∈ q.rows, Available cfg now p j → toLex (waitingSince cfg now i, i.id) ≤ toLex (waitingSince cfg now j, j.id)

instance (cfg : QueueSettings) (now : Int) (p : JobKind → Bool) (j : Job) : Decidable (Available cfg now p j) :=
  inferInstanceAs (Decidable (_ ∧ _))

instance (cfg : QueueSettings) (now : Int) (q : SqliteQueue) : Decidable (OffBoundary cfg now q) :=
  inferInstanceAs (Decidable (∀ j ∈ q.rows, _))

instance (cfg : QueueSettings) (now : Int) (p : JobKind → Bool) (q : SqliteQueue) : Decidable (InOrder cfg now p q) :=
  inferInstanceAs (Decidable (∀ i ∈ q.rows, _))

namespace SqliteQueue

/-- The condition on a call and the table before it, for arguments that the call accepts. -/
def Agrees (e : Event) (q : SqliteQueue) : Prop :=
  match e.call with
  | .claim workerId => ∀ worker, boundedIdentifier workerId "worker_id" = .ok worker →
      OffBoundary e.settings e.env.now q ∧ InOrder e.settings e.env.now JobKind.usesGenericQueue q
  | .claimKind workerId kind => ∀ worker k, boundedIdentifier workerId "worker_id" = .ok worker →
      requestedKind kind = .ok k →
      OffBoundary e.settings e.env.now q ∧ InOrder e.settings e.env.now (fun k' => decide (k' = k)) q
  | .recoverExpiredLeases => OffBoundary e.settings e.env.now q
  | _ => True

/-- The identifier that `uuid4` gives to an `enqueue` is that of no job. -/
def FreshId (e : Event) (q : SqliteQueue) : Prop := e.call.isEnqueue = true → q.find? e.env.uuid = none

/-- The SQLite queue, showing after each call the job that it handed out and the records of all jobs. -/
def machine : Machine Event (Option Job × JobStore) SqliteQueue where
  init := Table.empty
  step q e := (q.call e.settings e.env e.call).2
  shows q e := (e.call.handed (q.call e.settings e.env e.call).1, (q.call e.settings e.env e.call).2.store)

end SqliteQueue

open Interleave
open SqliteQueue (Event Agrees FreshId Expired recoverRow sampleId)
open RedisQueue (sampleUuid)

/-- The Redis queue with the same calls, each of them alone. -/
def RedisQueue.machine (turns : Nat) : Machine Event (Option Job × JobStore) RedisQueue where
  init := .empty
  step s e := (s.callAlone e.settings turns e.env e.call).2
  shows s e := ((s.callAlone e.settings turns e.env e.call).1.answer.bind e.call.handed,
    (s.callAlone e.settings turns e.env e.call).2.jobs)

/-- A call that the two backends share: all but `claim_allowed`. -/
def QueueCall.isShared : QueueCall → Bool
  | .claimAllowed .. => false
  | _ => true

/-- The two queues hold the same jobs. -/
structure SameJobs (q : SqliteQueue) (s : RedisQueue) : Prop where
  timed : RedisQueue.Timed s
  jobs : s.jobs = q.store

/-! ## The recovery -/

/-- Away from the boundary the two recoveries end the same leases. -/
theorem staleRow_eq_recoverRow {cfg : QueueSettings} {now : Int} {q : SqliteQueue} (hoff : OffBoundary cfg now q) {j : Job}
    (hj : j ∈ q.rows) : RedisQueue.staleRow cfg now j = recoverRow cfg now j := by
  have hiff : RedisQueue.Stale cfg now j ↔ Expired cfg now j := by
    constructor
    · rintro ⟨hr, t, ht, hle⟩
      have hne : t ≠ now - cfg.lease := fun h => hoff j hj hr (h ▸ ht)
      exact ⟨hr, t, ht, lt_of_le_of_ne hle hne⟩
    · rintro ⟨hr, t, ht, hlt⟩
      exact ⟨hr, t, ht, le_of_lt hlt⟩
  unfold RedisQueue.staleRow recoverRow
  by_cases h : Expired cfg now j
  · rw [if_pos (hiff.mpr h), if_pos h]
  · rw [if_neg fun hs => h (hiff.mp hs), if_neg h]

theorem SameJobs.recovered {q : SqliteQueue} {s : RedisQueue} (h : SameJobs q s) (cfg : QueueSettings) (env : Reading)
    (hoff : OffBoundary cfg env.now q) :
    SameJobs (SqliteQueue.recoverExpired cfg env.now q).2 ((RedisQueue.recoverExpiredLeases cfg).alone env.redis s).2 := by
  obtain ⟨ht, hjobs⟩ := RedisQueue.recoverExpiredLeases_alone h.timed cfg env
  refine ⟨ht, funext fun m => ?_⟩
  have hrec : (SqliteQueue.recoverExpired cfg env.now q).2.store m = (q.find? m).map (recoverRow cfg env.now) :=
    SqliteQueue.recoverExpired_find? cfg env.now q m
  rw [hjobs m, h.jobs, hrec]
  show (q.find? m).map _ = _
  cases hm : q.find? m with
  | none => rfl
  | some j =>
    have hj : j ∈ q.rows := ((q.find?_eq_some m j).mp hm).1
    rw [Option.map_some, Option.map_some, staleRow_eq_recoverRow hoff hj]

/-! ## The claims -/

/-- The recovery makes a row claimable exactly when it is available, and sets the time since which it waits. -/
theorem claimable_recoverRow {cfg : QueueSettings} {now : Int} {p : JobKind → Bool} {j : Job} :
    SqliteQueue.claimable p (recoverRow cfg now j) = true ↔ Available cfg now p j := by
  rw [SqliteQueue.claimable_iff]
  unfold Available recoverRow
  by_cases h : Expired cfg now j
  · rw [if_pos h]
    simp only [h, Job.released_status, Job.released_kind, Job.released_attempts, Job.released_maxAttempts, or_true, true_and]
    constructor
    · rintro ⟨-, hk, hb⟩
      exact ⟨hk, hb⟩
    · rintro ⟨hk, hb⟩
      exact ⟨if_neg (not_le.mpr hb), hk, hb⟩
  · rw [if_neg h]
    simp only [h, or_false]

theorem updatedAt_recoverRow (cfg : QueueSettings) (now : Int) (j : Job) :
    (recoverRow cfg now j).createdAt = j.createdAt ∧
      ((recoverRow cfg now j).status = .queued → (recoverRow cfg now j).updatedAt = waitingSince cfg now j) := by
  unfold recoverRow waitingSince
  by_cases h : Expired cfg now j
  · rw [if_pos h, if_pos h]
    exact ⟨rfl, fun _ => rfl⟩
  · rw [if_neg h, if_neg h]
    exact ⟨rfl, fun _ => rfl⟩

/-- The row of SQLite's choice is the job of Redis's choice. -/
theorem same_choice {cfg : QueueSettings} {now : Int} {p : JobKind → Bool} {q : SqliteQueue} (hord : InOrder cfg now p q)
    {row j : Job} (hrow : (SqliteQueue.recoverExpired cfg now q).2.find? row.id = some row)
    (hj : (SqliteQueue.recoverExpired cfg now q).2.find? j.id = some j) (hc : SqliteQueue.claimable p row = true)
    (hcj : SqliteQueue.claimable p j = true)
    (hmin : ∀ i ∈ (SqliteQueue.recoverExpired cfg now q).2.rows, SqliteQueue.claimable p i = true → row.createdAt ≤ i.createdAt)
    (hfront : toLex (j.updatedAt, j.id) ≤ toLex (row.updatedAt, row.id)) : j = row := by
  -- both rows are rows of the table before the recovery
  have hbefore : ∀ {i : Job}, (SqliteQueue.recoverExpired cfg now q).2.find? i.id = some i →
      ∃ i₀ ∈ q.rows, recoverRow cfg now i₀ = i := by
    intro i hi
    rw [SqliteQueue.recoverExpired_find?] at hi
    obtain ⟨i₀, hi₀, heq⟩ := Option.map_eq_some_iff.mp hi
    exact ⟨i₀, ((q.find?_eq_some _ _).mp hi₀).1, heq⟩
  obtain ⟨row₀, hrow₀, rfl⟩ := hbefore hrow
  obtain ⟨j₀, hj₀, rfl⟩ := hbefore hj
  have holdest : ∀ i ∈ q.rows, Available cfg now p i → row₀.createdAt ≤ i.createdAt := by
    intro i hi hav
    have hmem : recoverRow cfg now i ∈ (SqliteQueue.recoverExpired cfg now q).2.rows := by
      simp only [SqliteQueue.recoverExpired, Table.rows_update]
      exact List.mem_map_of_mem hi
    have hle := hmin _ hmem (claimable_recoverRow.mpr hav)
    rwa [(updatedAt_recoverRow cfg now row₀).1, (updatedAt_recoverRow cfg now i).1] at hle
  have hle := hord row₀ hrow₀ (claimable_recoverRow.mp hc) holdest j₀ hj₀ (claimable_recoverRow.mp hcj)
  rw [← (updatedAt_recoverRow cfg now row₀).2 (SqliteQueue.claimable_iff.mp hc).1,
    ← (updatedAt_recoverRow cfg now j₀).2 (SqliteQueue.claimable_iff.mp hcj).1,
    ← SqliteQueue.recoverRow_id cfg now row₀, ← SqliteQueue.recoverRow_id cfg now j₀] at hle
  have heq := le_antisymm hfront hle
  have hid : (recoverRow cfg now j₀).id = (recoverRow cfg now row₀).id := congrArg (fun x => (ofLex x).2) heq
  rw [hid, hrow] at hj
  exact (Option.some.inj hj).symm

/-- A claim of the two backends, in order and away from the boundary: the same job, and the same records after it. -/
theorem SameJobs.claimed {cfg : QueueSettings} {env : Reading} {worker : Ident} {p : JobKind → Bool} {q q' : SqliteQueue}
    {s s' : RedisQueue} {res res' : Option Job} (hrec : SameJobs (SqliteQueue.recoverExpired cfg env.now q).2 s)
    (hord : InOrder cfg env.now p q) (hq : SqliteQueue.ClaimEffect cfg env.now worker p q res q')
    (hs : RedisQueue.FrontEffect env worker p s res' s') : res' = res ∧ SameJobs q' s' := by
  have heligible : ∀ {j : Job}, SqliteQueue.claimable p j = true ↔ RedisQueue.Eligible p j := SqliteQueue.claimable_iff
  have hfind : ∀ {id : Ident} {j : Job}, s.jobs id = some j ↔
      (SqliteQueue.recoverExpired cfg env.now q).2.find? id = some j := by
    intro id j
    rw [hrec.jobs]
    rfl
  cases hq with
  | idle hn =>
    cases hs with
    | idle _ => exact ⟨rfl, hrec⟩
    | handed j _ hj he =>
      have hno := hn j ((Table.find?_eq_some _ _ _).mp (hfind.mp hj)).1
      rw [heligible.mpr he] at hno
      cases hno
  | handed row _ hr hc hmin hq =>
    cases hs with
    | idle hn => exact absurd (heligible.mp hc) (hn row.id row (hfind.mpr hr))
    | handed j _ hj he hfront ht hs' =>
      have hsame : j = row :=
        same_choice hord hr (hfind.mp hj) hc (heligible.mpr he) hmin (hfront row.id row (hfind.mpr hr) (heligible.mp hc))
      subst hsame
      refine ⟨rfl, ht, funext fun m => ?_⟩
      have hm : q'.store m = _ := hq m
      rw [hm, hs', Function.update_apply, hrec.jobs]
      rfl

/-! ## The other calls -/

/-- A call of a worker on its job. -/
theorem SameJobs.owned {id worker : Ident} {f : Job → Job} {q q' : SqliteQueue} {s : RedisQueue} {res : Option Job}
    {out : RedisQueue × Bool} (h : SameJobs q s) (hq : SqliteQueue.OwnEffect id worker f q res q')
    (hs : RedisQueue.OwnTurn id worker f s out) : out.1.jobs = q'.store := by
  have hfind : ∀ {j : Job}, s.jobs id = some j ↔ q.find? id = some j := by
    intro j
    rw [h.jobs]
    rfl
  cases hq with
  | refused hn =>
    cases hs with
    | refused _ => exact h.jobs
    | done j _ hj ho => exact absurd ho (hn j (hfind.mp hj))
  | done j _ hj ho hq =>
    cases hs with
    | refused hn => exact absurd ho (hn j (hfind.mpr hj))
    | done i _ hi _ hs' =>
      cases hi.symm.trans (hfind.mpr hj)
      refine funext fun m => ?_
      have hm : q'.store m = _ := hq m
      rw [hm, hs', Function.update_apply, h.jobs]
      rfl

/-- An `enqueue` with valid arguments. -/
theorem SameJobs.enqueued {r : EnqueueRequest} {env : Reading} {q q' : SqliteQueue} {s s' : RedisQueue}
    {res : Except PyError Job} (h : SameJobs q s) (hfresh : q.find? env.uuid = none)
    (hq : SqliteQueue.EnqueueEffect r env q res q') (hs : RedisQueue.EnqueueTurn r env s s') : s'.jobs = q'.store := by
  -- the row of a dedupe key in one backend is the job of that key in the other
  have hkeys : ∀ {key : Ident}, r.dedupeKey = some key →
      (q.selectDedupe r = none ↔ s.dedupe r.campaignId r.kind key = none) := by
    intro key hkey
    have hdedupe : r.dedupe = some (r.campaignId, r.kind, key) := by rw [EnqueueRequest.dedupe, hkey]; rfl
    rw [SqliteQueue.selectDedupe, hdedupe, Option.bind_some, q.lookup?_eq_none, Option.eq_none_iff_forall_ne_some]
    constructor
    · intro hn id hid
      obtain ⟨j, hj, hkj⟩ := (h.timed.dedupe _ _ _ _).mp hid
      rw [h.jobs] at hj
      exact hn j ((q.find?_eq_some _ _).mp hj).1 hkj
    · intro hn j hj hkj
      refine hn j.id ((h.timed.dedupe _ _ _ _).mpr ⟨j, ?_, hkj⟩)
      rw [h.jobs]
      exact q.find?_key hj
  cases hq with
  | existing e he =>
    cases hs with
    | existing _ _ _ _ => exact h.jobs
    | created _ hd _ =>
      cases hkey : r.dedupeKey with
      | none =>
        rw [SqliteQueue.selectDedupe, EnqueueRequest.dedupe, hkey] at he
        cases he
      | some key =>
        rw [(hkeys hkey).mpr (hd key hkey)] at he
        cases he
  | created _ hn hd hq =>
    cases hs with
    | existing key id hkey hid =>
      rw [(hkeys hkey).mp hd] at hid
      cases hid
    | created _ _ hs' =>
      refine funext fun m => ?_
      have hm : q'.store m = _ := q.find?_insert hq m
      rw [hm, hs', Function.update_apply, h.jobs]
      rfl
  | taken j hj _ =>
    rw [hfresh] at hj
    cases hj

/-! ## One call of both -/

/-- A call hands out the same job in both backends, and they hold the same jobs after it. -/
def Parity (turns : Nat) (cfg : QueueSettings) (env : Reading) (c : QueueCall) (q : SqliteQueue) (s : RedisQueue) : Prop :=
  (s.callAlone cfg turns env c).1.answer.bind c.handed = c.handed (q.call cfg env c).1 ∧
    SameJobs (q.call cfg env c).2 (s.callAlone cfg turns env c).2

section

variable {turns : Nat} {cfg : QueueSettings} {env : Reading} {q : SqliteQueue} {s : RedisQueue}

theorem SameJobs.enqueue (h : SameJobs q s) (hfresh : q.find? env.uuid = none) (campaignId kind : String) (payload : Payload)
    (maxAttempts : Int) (dedupeKey : Option String) :
    Parity turns cfg env (.enqueue campaignId kind payload maxAttempts dedupeKey) q s := by
  unfold Parity
  simp only [RedisQueue.callAlone, RedisQueue.call, SqliteQueue.call]
  cases hr : EnqueueRequest.validate cfg campaignId kind payload maxAttempts dedupeKey with
  | error err =>
    unfold SqliteQueue.enqueue
    rw [hr]
    exact ⟨rfl, h⟩
  | ok r =>
    obtain ⟨res, q', heff, heq⟩ := SqliteQueue.enqueue_effect env q hr
    rw [heq]
    have hnone : s.jobs env.uuid = none := by rw [h.jobs]; exact hfresh
    obtain ⟨ht, hturn⟩ := RedisQueue.enqueueRequest_alone h.timed r env hnone
    refine ⟨?_, ht, h.enqueued hfresh heff hturn⟩
    cases ((RedisQueue.checked (.ok r) RedisQueue.enqueueRequest).alone env.redis s).1 <;> rfl

theorem SameJobs.claim (h : SameJobs q s) {workerId : String}
    (hagree : ∀ worker, boundedIdentifier workerId "worker_id" = .ok worker →
      OffBoundary cfg env.now q ∧ InOrder cfg env.now JobKind.usesGenericQueue q) :
    Parity turns cfg env (.claim workerId) q s := by
  unfold Parity
  simp only [RedisQueue.callAlone, RedisQueue.call, SqliteQueue.call]
  cases hw : boundedIdentifier workerId "worker_id" with
  | error err =>
    unfold SqliteQueue.claim
    rw [hw]
    exact ⟨rfl, h⟩
  | ok worker =>
    obtain ⟨hoff, hord⟩ := hagree worker hw
    have hrec := h.recovered cfg env hoff
    obtain ⟨res, s', heq, hfront⟩ := RedisQueue.claimLoop_alone hrec.timed env worker turns
    obtain ⟨out, hc⟩ : ∃ out, q.claim cfg env workerId = .ok out := by
      unfold SqliteQueue.claim
      rw [hw]
      dsimp only
      split <;> exact ⟨_, rfl⟩
    obtain ⟨worker', hw', heff⟩ := SqliteQueue.claim_effect hc
    cases hw.symm.trans hw'
    obtain ⟨hres, hsame⟩ := hrec.claimed hord heff hfront
    simp only [RedisQueue.checked, Prog.alone_bind, heq, hc]
    exact ⟨hres, hsame⟩

theorem SameJobs.claimKind (h : SameJobs q s) {workerId kind : String}
    (hagree : ∀ worker k, boundedIdentifier workerId "worker_id" = .ok worker → requestedKind kind = .ok k →
      OffBoundary cfg env.now q ∧ InOrder cfg env.now (fun k' => decide (k' = k)) q) :
    Parity turns cfg env (.claimKind workerId kind) q s := by
  unfold Parity
  simp only [RedisQueue.callAlone, RedisQueue.call, SqliteQueue.call]
  cases hw : boundedIdentifier workerId "worker_id" with
  | error err =>
    unfold SqliteQueue.claimKind
    rw [hw]
    exact ⟨rfl, h⟩
  | ok worker =>
    cases hk : requestedKind kind with
    | error err =>
      unfold SqliteQueue.claimKind
      rw [hw, hk]
      exact ⟨rfl, h⟩
    | ok k =>
      obtain ⟨hoff, hord⟩ := hagree worker k hw hk
      obtain ⟨res, s', heq, hfront⟩ := RedisQueue.claimKind_alone h.timed cfg env worker k
      obtain ⟨out, hc⟩ : ∃ out, q.claimKind cfg env workerId kind = .ok out := by
        unfold SqliteQueue.claimKind
        rw [hw, hk]
        exact ⟨_, rfl⟩
      obtain ⟨worker', k', hw', hk', heff⟩ := SqliteQueue.claimKind_effect hc
      cases hw.symm.trans hw'
      cases hk.symm.trans hk'
      obtain ⟨hres, hsame⟩ := (h.recovered cfg env hoff).claimed hord heff hfront
      simp only [RedisQueue.checked, Prog.alone_bind, heq, hc]
      exact ⟨hres, hsame⟩

theorem SameJobs.heartbeat (h : SameJobs q s) (jobId workerId : String) :
    Parity turns cfg env (.heartbeat jobId workerId) q s := by
  unfold Parity
  simp only [RedisQueue.callAlone, RedisQueue.call, SqliteQueue.call]
  cases hid : boundedIdentifier jobId "job_id" with
  | error err =>
    unfold SqliteQueue.heartbeat
    rw [hid]
    exact ⟨rfl, h⟩
  | ok id =>
    cases hw : boundedIdentifier workerId "worker_id" with
    | error err =>
      unfold SqliteQueue.heartbeat
      rw [hid, hw]
      exact ⟨rfl, h⟩
    | ok worker =>
      obtain ⟨out, hc⟩ : ∃ out, q.heartbeat env jobId workerId = .ok out := by
        unfold SqliteQueue.heartbeat
        rw [hid, hw]
        exact ⟨_, rfl⟩
      obtain ⟨id', worker', res, hid', hw', heff, -⟩ := SqliteQueue.heartbeat_effect hc
      cases hid.symm.trans hid'
      cases hw.symm.trans hw'
      have ht : RedisQueue.Timed (s.heartbeat id worker env.redis).1 :=
        RedisQueue.apply_timed h.timed (t := .heartbeat id worker) trivial (RedisQueue.together_redis env) trivial
      have hjobs := h.owned heff (RedisQueue.heartbeat_turn id worker env.redis)
      rw [hc]
      exact ⟨rfl, ht, hjobs⟩

theorem SameJobs.finish (h : SameJobs q s) (jobId workerId : String) (success : Bool) (error : Option String) :
    Parity turns cfg env (.finish jobId workerId success error) q s := by
  unfold Parity
  simp only [RedisQueue.callAlone, RedisQueue.call, SqliteQueue.call]
  cases hid : boundedIdentifier jobId "job_id" with
  | error err =>
    unfold SqliteQueue.finish
    rw [hid]
    exact ⟨rfl, h⟩
  | ok id =>
    cases hw : boundedIdentifier workerId "worker_id" with
    | error err =>
      unfold SqliteQueue.finish
      rw [hid, hw]
      exact ⟨rfl, h⟩
    | ok worker =>
      obtain ⟨out, hc⟩ : ∃ out, q.finish env jobId workerId success error = .ok out := by
        unfold SqliteQueue.finish
        rw [hid, hw]
        dsimp only
        split <;> exact ⟨_, rfl⟩
      obtain ⟨id', worker', hid', hw', heff⟩ := SqliteQueue.finish_effect hc
      cases hid.symm.trans hid'
      cases hw.symm.trans hw'
      have ht : RedisQueue.Timed (s.finish id worker success error env.redis).1 :=
        RedisQueue.apply_timed h.timed (t := .finish id worker success error) trivial (RedisQueue.together_redis env) trivial
      have hjobs := h.owned heff (RedisQueue.finish_turn id worker success error env.redis)
      simp only [RedisQueue.checked, Prog.alone_bind, Prog.alone_atomic, RedisQueue.answered_alone, hc]
      exact ⟨by cases ((RedisQueue.answered id _).alone _ _).1 <;> rfl, ht, hjobs⟩

theorem SameJobs.cancelOwned (h : SameJobs q s) (jobId workerId reason : String) :
    Parity turns cfg env (.cancelOwned jobId workerId reason) q s := by
  unfold Parity
  simp only [RedisQueue.callAlone, RedisQueue.call, SqliteQueue.call]
  cases hid : boundedIdentifier jobId "job_id" with
  | error err =>
    unfold SqliteQueue.cancelOwned
    rw [hid]
    exact ⟨rfl, h⟩
  | ok id =>
    cases hw : boundedIdentifier workerId "worker_id" with
    | error err =>
      unfold SqliteQueue.cancelOwned
      rw [hid, hw]
      exact ⟨rfl, h⟩
    | ok worker =>
      cases hr : cancelReason reason with
      | error err =>
        unfold SqliteQueue.cancelOwned
        rw [hid, hw, hr]
        exact ⟨rfl, h⟩
      | ok text =>
        obtain ⟨out, hc⟩ : ∃ out, q.cancelOwned env jobId workerId reason = .ok out := by
          unfold SqliteQueue.cancelOwned
          rw [hid, hw, hr]
          exact ⟨_, rfl⟩
        obtain ⟨id', worker', text', hid', hw', hr', heff⟩ := SqliteQueue.cancelOwned_effect hc
        cases hid.symm.trans hid'
        cases hw.symm.trans hw'
        cases hr.symm.trans hr'
        have ht : RedisQueue.Timed (s.cancelOwned id worker text env.redis).1 :=
          RedisQueue.apply_timed h.timed (t := .cancelOwned id worker text) trivial (RedisQueue.together_redis env) trivial
        have hjobs := h.owned heff (RedisQueue.cancelOwned_turn id worker text env.redis)
        simp only [RedisQueue.checked, Prog.alone_bind, Prog.alone_atomic, RedisQueue.answered_alone, hc]
        exact ⟨by cases ((RedisQueue.answered id _).alone _ _).1 <;> rfl, ht, hjobs⟩

theorem SameJobs.cancelQueued (h : SameJobs q s) (campaignId : String) :
    Parity turns cfg env (.cancelQueued campaignId) q s := by
  unfold Parity
  simp only [RedisQueue.callAlone, RedisQueue.call, SqliteQueue.call]
  cases hid : boundedIdentifier campaignId "campaign_id" with
  | error err =>
    unfold SqliteQueue.cancelQueued
    rw [hid]
    exact ⟨rfl, h⟩
  | ok campaign =>
    obtain ⟨out, hc⟩ : ∃ out, q.cancelQueued env campaignId = .ok out := by
      unfold SqliteQueue.cancelQueued
      rw [hid]
      exact ⟨_, rfl⟩
    obtain ⟨campaign', hid', hq⟩ := SqliteQueue.cancelQueued_effect hc
    cases hid.symm.trans hid'
    obtain ⟨ht, hjobs⟩ := RedisQueue.cancelQueued_alone h.timed campaign env
    simp only [RedisQueue.checked, Prog.alone_bind, Prog.alone_done, hc]
    refine ⟨rfl, ht, funext fun m => (hjobs m).trans ?_⟩
    rw [h.jobs]
    exact (hq m).symm

end

/-- A call of both backends, where they agree. -/
theorem SameJobs.call {q : SqliteQueue} {s : RedisQueue} (h : SameJobs q s) (turns : Nat) {e : Event}
    (hshared : e.call.isShared = true) (hfresh : FreshId e q) (hagree : Agrees e q) :
    Parity turns e.settings e.env e.call q s := by
  obtain ⟨cfg, env, c⟩ := e
  cases c with
  | enqueue campaignId kind payload maxAttempts dedupeKey => exact h.enqueue (hfresh rfl) _ _ _ _ _
  | claim workerId => exact h.claim hagree
  | claimAllowed => cases hshared
  | claimKind workerId kind => exact h.claimKind hagree
  | heartbeat jobId workerId => exact h.heartbeat _ _
  | finish jobId workerId success error => exact h.finish _ _ _ _
  | cancelQueued campaignId => exact h.cancelQueued _
  | cancelOwned jobId workerId reason => exact h.cancelOwned _ _ _
  | recoverExpiredLeases =>
    unfold Parity
    simp only [RedisQueue.callAlone, RedisQueue.call, SqliteQueue.call, Prog.alone_bind, Prog.alone_done]
    exact ⟨rfl, h.recovered cfg env hagree⟩

theorem sameJobs_empty : SameJobs Table.empty RedisQueue.empty := ⟨RedisQueue.timed_empty, rfl⟩

/-- In every run of shared calls whose steps all meet the condition, with identifiers that are new, the two backends hand out the
same jobs and hold the same records after every call. -/
theorem backend_parity (turns : Nat) (events : List Event) (hshared : ∀ e ∈ events, e.call.isShared = true)
    (hfresh : SqliteQueue.machine.Along FreshId Table.empty events)
    (hagree : SqliteQueue.machine.Along Agrees Table.empty events) :
    (RedisQueue.machine turns).trace .empty events = SqliteQueue.machine.trace Table.empty events := by
  refine Machine.trace_eq_of_simulation (R := SameJobs) (fun e q s h hC => ?_) sameJobs_empty
    ((hfresh.and hagree).and (Machine.along_of_forall hshared))
  obtain ⟨⟨hf, ha⟩, hs⟩ := hC
  obtain ⟨hhanded, hsame⟩ := h.call turns hs hf ha
  exact ⟨Prod.ext hhanded hsame.jobs, hsame⟩

/-- A job is claimed, its lease expires, and it is claimed again. -/
def recoveredEvents : List Event :=
  [⟨.default, ⟨0, sampleId⟩, .enqueue "campaign-1" "report" .empty 2 none⟩,
    ⟨.default, ⟨1000000, sampleId⟩, .claim "worker-1"⟩,
    ⟨.default, ⟨21602000000, sampleId⟩, .recoverExpiredLeases⟩,
    ⟨.default, ⟨21603000000, sampleId⟩, .claimKind "worker-2" "report"⟩]

theorem backend_parity_recovered :
    (RedisQueue.machine 0).trace .empty recoveredEvents = SqliteQueue.machine.trace Table.empty recoveredEvents := by
  refine backend_parity 0 recoveredEvents (by decide) ?_ ?_
  · exact ⟨fun _ => rfl, nofun, nofun, nofun, trivial⟩
  · refine ⟨trivial, fun worker _ => ?_, ?_, fun worker k _ hk => ?_, trivial⟩
    · decide +kernel
    · show OffBoundary _ _ _
      decide +kernel
    · have hk' : k = .report := by
        have hr : requestedKind "report" = .ok .report := by decide +kernel
        exact Except.ok.inj (hk.symm.trans hr)
      subst hk'
      decide +kernel

/-! ## Where they differ -/

/-- A job is claimed, and the recovery runs when its lease is exactly at its end. -/
def boundaryEvents : List Event :=
  [⟨.default, ⟨0, sampleId⟩, .enqueue "campaign-1" "report" .empty 2 none⟩,
    ⟨.default, ⟨1000000, sampleId⟩, .claim "worker-1"⟩,
    ⟨.default, ⟨21601000000, sampleId⟩, .recoverExpiredLeases⟩]

/-- A job is claimed and fails while a younger one waits; then a worker claims. -/
def retriedEvents : List Event :=
  [⟨.default, ⟨0, sampleId⟩, .enqueue "campaign-1" "report" .empty 2 none⟩,
    ⟨.default, ⟨1000000, sampleUuid⟩, .enqueue "campaign-1" "report" .empty 2 none⟩,
    ⟨.default, ⟨2000000, sampleId⟩, .claim "worker-1"⟩,
    ⟨.default, ⟨3000000, sampleId⟩, .finish sampleId.text "worker-1" false none⟩,
    ⟨.default, ⟨4000000, sampleId⟩, .claim "worker-1"⟩]

/-- Both runs have strictly increasing clocks. In the first the job is queued again in Redis and still running in SQLite; in the
second SQLite hands out the retried job and Redis the younger one. -/
theorem backends_differ :
    (boundaryEvents.map (·.env.now)).Pairwise (· < ·) ∧ (retriedEvents.map (·.env.now)).Pairwise (· < ·) ∧
    (SqliteQueue.machine.trace Table.empty boundaryEvents).map (fun o => (o.2 sampleId).map Job.status) =
      [some .queued, some .running, some .running] ∧
    ((RedisQueue.machine 0).trace .empty boundaryEvents).map (fun o => (o.2 sampleId).map Job.status) =
      [some .queued, some .running, some .queued] ∧
    (SqliteQueue.machine.trace Table.empty retriedEvents).map (fun o => o.1.map Job.id) =
      [none, none, some sampleId, none, some sampleId] ∧
    ((RedisQueue.machine 0).trace .empty retriedEvents).map (fun o => o.1.map Job.id) =
      [none, none, some sampleId, none, some sampleUuid] := by
  refine ⟨by decide, by decide, ?_, ?_, ?_, ?_⟩ <;> decide +kernel

end XbowPerso
