import XbowPerso.Lemmas.RedisScores

/-!
# Calls of the Redis queue that nobody interrupts

What a call does to the jobs when its steps come one after the other and read one clock: the recovery requeues or fails every job
whose claim is at least a lease old, a claim hands out the job that entered its queue first.
-/

namespace XbowPerso

open Interleave

/-- The input of a step when all clocks show the time of the call. -/
def Reading.redis (env : Reading) : RedisReading := ⟨env.now, env.now, env.now, env.uuid⟩

namespace RedisQueue

theorem together_redis (env : Reading) : Together env.redis := ⟨rfl, rfl⟩

/-- A call of a client that nobody interrupts, with one turn of the loop of `claim` and some more. -/
def callAlone (cfg : QueueSettings) (turns : Nat) (env : Reading) (s : RedisQueue) (c : QueueCall) : Reply × RedisQueue :=
  (call cfg (turns + 1) c).alone env.redis s

/-! ## The recovery -/

/-- A lease that the recovery of this backend ends. -/
def Stale (cfg : QueueSettings) (now : Int) (j : Job) : Prop :=
  j.status = .running ∧ ∃ t, j.claimedAt = some t ∧ t ≤ now - cfg.lease

open Classical in
/-- The record of a job after the recovery. -/
noncomputable def staleRow (cfg : QueueSettings) (now : Int) (j : Job) : Job :=
  if Stale cfg now j then j.released j.recoveredStatus (some Job.expiredError) now else j

theorem recoveredStatus_ne_running (j : Job) : j.recoveredStatus ≠ .running := by
  unfold Job.recoveredStatus
  split <;> nofun

/-- A recovered job is not stale again. -/
theorem staleRow_staleRow (cfg : QueueSettings) (now : Int) (j : Job) :
    staleRow cfg now (staleRow cfg now j) = staleRow cfg now j := by
  by_cases h : Stale cfg now j
  · have hrow : staleRow cfg now j = j.released j.recoveredStatus (some Job.expiredError) now := if_pos h
    rw [hrow]
    exact if_neg fun h' => absurd h'.1 (recoveredStatus_ne_running j)
  · have hrow : staleRow cfg now j = j := if_neg h
    rw [hrow, hrow]

variable {s : RedisQueue}

/-- The transaction of the recovery on one job. -/
theorem recover_jobs (h : Timed s) (cfg : QueueSettings) (env : Reading) (id m : Ident) :
    (s.recover id (env.now - cfg.lease) env.redis).1.jobs m =
      if m = id then (s.jobs m).map (staleRow cfg env.now) else s.jobs m := by
  unfold recover
  split
  · rename_i j score hj hscore
    split
    · rename_i hc
      have hfresh : ¬ Stale cfg env.now j := by
        rintro ⟨hr, t, ht, hle⟩
        obtain ⟨v, hv, hvt⟩ := h.score_running hj hr
        rw [hscore] at hv
        cases hv
        rw [ht] at hvt
        cases hvt
        rcases hc with hc | hc
        · exact hc hr
        · exact absurd hle (not_le.mpr hc)
      split
      · rename_i hm
        rw [hm, hj, Option.map_some, staleRow, if_neg hfresh]
      · rfl
    · rename_i hc
      push Not at hc
      have hstale : Stale cfg env.now j := by
        obtain ⟨v, hv, hvt⟩ := h.score_running hj hc.1
        rw [hscore] at hv
        cases hv
        exact ⟨hc.1, _, hvt, hc.2⟩
      have hjobs : ∀ s' : RedisQueue, s'.jobs = Function.update s.jobs id (some (staleRow cfg env.now j)) →
          s'.jobs m = if m = id then (s.jobs m).map (staleRow cfg env.now) else s.jobs m := by
        intro s' hs'
        rw [hs', Function.update_apply]
        split
        · rename_i hm
          rw [hm, hj]
          rfl
        · rfl
      rw [staleRow, if_pos hstale] at hjobs
      dsimp only
      split
      · exact hjobs _ (zaddQueues_jobs ..)
      · exact hjobs _ rfl
  · rename_i hnone
    split
    · rename_i hm
      subst hm
      cases hj : s.jobs m with
      | none => rfl
      | some j =>
        have hfresh : ¬ Stale cfg env.now j := by
          rintro ⟨hr, -⟩
          obtain ⟨v, hv, -⟩ := h.score_running hj hr
          exact hnone j v hj hv
        rw [Option.map_some, staleRow, if_neg hfresh]
    · rfl

/-- A loop of transactions, each of which rewrites the record of its own job, rewrites the records of the jobs it goes over. -/
theorem each_alone {t : Ident → RedisStep} {u : Ident → RedisReading → RedisQueue → RedisQueue × Bool} {env : RedisReading}
    {g : Job → Job} (hg : ∀ j, g (g j) = g j)
    (hstep : ∀ id s, Timed s → Timed (u id env s).1 ∧
      ∀ m, (u id env s).1.jobs m = if m = id then (s.jobs m).map g else s.jobs m)
    (ids : List Ident) : ∀ (n : Nat) {s : RedisQueue}, Timed s →
      let out := (Prog.foldl (fun n id => (Prog.atomic (t id) (u id)).bind fun b => .done (if b then n + 1 else n)) n ids).alone
        env s
      Timed out.2 ∧ ∀ m, out.2.jobs m = if m ∈ ids then (s.jobs m).map g else s.jobs m := by
  induction ids with
  | nil => exact fun n s h => ⟨h, fun m => (if_neg List.not_mem_nil).symm⟩
  | cons id ids ih =>
    intro n s h
    obtain ⟨h1, hself⟩ := hstep id s h
    simp only [Prog.foldl, Prog.alone_bind, Prog.alone_atomic, Prog.alone_done]
    obtain ⟨h2, hjobs⟩ := ih (if (u id env s).2 then n + 1 else n) h1
    refine ⟨h2, fun m => (hjobs m).trans ?_⟩
    rw [hself m]
    by_cases hm : m = id
    · subst hm
      have hgg : g ∘ g = g := funext hg
      rw [if_pos rfl, if_pos List.mem_cons_self, Option.map_map, hgg, ite_self]
    · rw [if_neg hm]
      by_cases hin : m ∈ ids
      · rw [if_pos hin, if_pos (List.mem_cons_of_mem id hin)]
      · rw [if_neg hin, if_neg (List.not_mem_cons_of_ne_of_not_mem hm hin)]

/-- `recover_expired_leases`. -/
theorem recoverExpiredLeases_alone (h : Timed s) (cfg : QueueSettings) (env : Reading) :
    Timed ((recoverExpiredLeases cfg).alone env.redis s).2 ∧
      ∀ m, ((recoverExpiredLeases cfg).alone env.redis s).2.jobs m = (s.jobs m).map (staleRow cfg env.now) := by
  obtain ⟨h', hjobs⟩ := each_alone (t := fun id => .recover id (env.now - cfg.lease)) (staleRow_staleRow cfg env.now)
    (fun id s h => ⟨apply_timed h (t := .recover id (env.now - cfg.lease)) trivial (together_redis env) trivial,
      recover_jobs h cfg env id⟩) (s.running.rangeByScore (env.now - cfg.lease)) 0 h
  simp only [recoverExpiredLeases, Prog.alone_bind, Prog.alone_read]
  refine ⟨h', fun m => (hjobs m).trans ?_⟩
  split
  · rfl
  · rename_i hm
    cases hj : s.jobs m with
    | none => rfl
    | some j =>
      have hfresh : ¬ Stale cfg env.now j := by
        rintro ⟨hr, t, ht, hle⟩
        obtain ⟨v, hv, hvt⟩ := h.score_running hj hr
        rw [ht] at hvt
        cases hvt
        exact hm ((SortedSet.mem_rangeByScore _ _ _).mpr ⟨t, hv, hle⟩)
      rw [Option.map_some, staleRow, if_neg hfresh]

/-! ## The claims -/

/-- A job that a claim of some kinds may hand out. -/
def Eligible (p : JobKind → Bool) (j : Job) : Prop :=
  j.status = .queued ∧ p j.kind = true ∧ j.attempts < j.maxAttempts

/-- What a claim does when its recovery is done: it finds no eligible job, or hands out the one that entered the queue first. -/
inductive FrontEffect (env : Reading) (worker : Ident) (p : JobKind → Bool) (s : RedisQueue) : Option Job → RedisQueue → Prop
  | idle (hn : ∀ id j, s.jobs id = some j → ¬ Eligible p j) : FrontEffect env worker p s none s
  | handed (j : Job) (s' : RedisQueue) (hj : s.jobs j.id = some j) (he : Eligible p j)
      (hmin : ∀ id i, s.jobs id = some i → Eligible p i → toLex (j.updatedAt, j.id) ≤ toLex (i.updatedAt, i.id))
      (ht : Timed s') (hs' : s'.jobs = Function.update s.jobs j.id (some (j.claimed worker env.now))) :
      FrontEffect env worker p s (some (j.claimed worker env.now)) s'

/-- The loop of `claim` ends with its first turn. -/
theorem claimLoop_alone (h : Timed s) (env : Reading) (worker : Ident) (turns : Nat) :
    ∃ res s', (claimLoop worker (turns + 1)).alone env.redis s = (.returned (.job res), s') ∧
      FrontEffect env worker JobKind.usesGenericQueue s res s' := by
  rcases claimFront_eq h.toIndexed env.redis worker with ⟨hf, heq⟩ | ⟨id, j, hf, hj, hs, hg, hb, heq⟩
  · refine ⟨none, s, by simp only [claimLoop, Prog.alone_bind, Prog.alone_atomic, heq, Prog.alone_done], .idle ?_⟩
    rintro id j hj ⟨hs, hg, -⟩
    have hscore := h.score_queued hj hs hg
    rw [(SortedSet.front?_eq_none _).mp hf id] at hscore
    cases hscore
  · have ht : Timed (s.claimFront worker env.redis).1 :=
      apply_timed h (t := .claimFront worker) trivial (together_redis env) trivial
    have hid : j.id = id := h.ids id j hj
    subst hid
    rw [heq] at ht
    refine ⟨_, _, ?_, .handed j _ hj ⟨hs, hg, hb⟩ (fun m i hi he => ?_) ht rfl⟩
    · simp only [claimLoop, Prog.alone_bind, Prog.alone_atomic, heq, get, Prog.alone_read, Prog.alone_done]
      congr 3
      exact Function.update_self ..
    · obtain ⟨v, hv, hle⟩ := (SortedSet.front?_eq_some _ _).mp hf
      have hm : i.id = m := h.ids m i hi
      have hvj := h.score_queued hj hs hg
      rw [hv] at hvj
      cases hvj
      rw [hm]
      exact hle m i.updatedAt (h.score_queued hi he.1 he.2.1)

/-- `claim_kind` after its recovery: the first member of the sorted set of the kind is handed out. -/
theorem claimKind_alone (h : Timed s) (cfg : QueueSettings) (env : Reading) (worker : Ident) (kind : JobKind) :
    ∃ res s', (claimKind cfg worker kind).alone env.redis s = (res, s') ∧
      FrontEffect env worker (fun k => decide (k = kind)) ((recoverExpiredLeases cfg).alone env.redis s).2 res s' := by
  obtain ⟨h1, -⟩ := recoverExpiredLeases_alone h cfg env
  simp only [claimKind, Prog.alone_bind, Prog.alone_read]
  generalize ((recoverExpiredLeases cfg).alone env.redis s).2 = s at h1 ⊢
  cases hrange : (s.queuedKind kind).range with
  | nil =>
    refine ⟨none, s, rfl, .idle ?_⟩
    rintro id j hj ⟨hs, hk, -⟩
    have hmem : id ∈ (s.queuedKind j.kind).range := (SortedSet.mem_range _ _).mpr ⟨_, h1.score_queuedKind hj hs⟩
    rw [of_decide_eq_true hk, hrange] at hmem
    exact absurd hmem List.not_mem_nil
  | cons id ids =>
    have hfront : (s.queuedKind kind).front? = some id := by rw [SortedSet.front?, hrange]; rfl
    obtain ⟨v, hv, hle⟩ := (SortedSet.front?_eq_some _ _).mp hfront
    obtain ⟨j, hj, hs, hk⟩ := (h1.queuedKind kind id).mp (by rw [hv]; rfl)
    have hid : j.id = id := h1.ids id j hj
    subst hid
    rcases claimMember_eq h1.toIndexed env.redis worker kind j.id with ⟨i, hi, -, -, hb, heq⟩ | ⟨hn, -⟩
    · cases hj.symm.trans hi
      have ht : Timed (s.claimMember worker kind j.id env.redis).1 :=
        apply_timed h1 (t := .claimMember worker kind j.id) trivial (together_redis env) trivial
      rw [heq] at ht
      have hself : ((((s.setJob j.id (j.claimed worker env.now)).zremQueued j.id).zremKind j.kind j.id).zaddRunning j.id
          env.now).jobs j.id = some (j.claimed worker env.now) := Function.update_self ..
      refine ⟨_, _, ?_, .handed j _ hj ⟨hs, decide_eq_true hk, hb⟩ (fun m i hi he => ?_) ht rfl⟩
      · simp only [Prog.firstSome, Prog.alone_bind, Prog.alone_atomic, heq, get, Prog.alone_read]
        simp only [Reading.redis, hself, Prog.alone_done]
      · have hm : i.id = m := h1.ids m i hi
        have hik : i.kind = kind := of_decide_eq_true he.2.1
        have hvj := h1.score_queuedKind hj hs
        have hvi := h1.score_queuedKind hi he.1
        rw [hk, hv] at hvj
        rw [hik] at hvi
        cases hvj
        rw [hm]
        exact hle m i.updatedAt hvi
    · exact absurd ⟨hs, hk⟩ (hn j hj)

/-! ## The calls of a worker on its job -/

/-- What a transaction of a worker on its job does: nothing unless the job runs under that worker's identifier, else one update. -/
inductive OwnTurn (id worker : Ident) (f : Job → Job) (s : RedisQueue) : RedisQueue × Bool → Prop
  | refused (hn : ∀ j, s.jobs id = some j → ¬ j.OwnedBy worker) : OwnTurn id worker f s (s, false)
  | done (j : Job) (s' : RedisQueue) (hj : s.jobs id = some j) (ho : j.OwnedBy worker)
      (hs' : s'.jobs = Function.update s.jobs id (some (f j))) : OwnTurn id worker f s (s', true)

theorem own_turn {id worker : Ident} {f : Job → Job} {done : Job → RedisQueue}
    (hdone : ∀ j, (done j).jobs = Function.update s.jobs id (some (f j))) :
    OwnTurn id worker f s (match s.jobs id with
      | none => (s, false)
      | some j => if ¬ j.OwnedBy worker then (s, false) else (done j, true)) := by
  split
  · rename_i hnone
    exact .refused fun j hj => absurd (hj.symm.trans hnone) nofun
  · rename_i j hj
    split
    · rename_i ho
      exact .refused fun i hi => Option.some.inj (hj.symm.trans hi) ▸ ho
    · rename_i ho
      exact .done j _ hj (not_not.mp ho) (hdone j)

theorem heartbeat_turn (id worker : Ident) (env : RedisReading) :
    OwnTurn id worker (fun j => j.renewed env.now) s (s.heartbeat id worker env) :=
  own_turn fun _ => rfl

theorem finish_turn (id worker : Ident) (success : Bool) (error : Option String) (env : RedisReading) :
    OwnTurn id worker (fun j => j.released (j.finishedStatus success) (Job.errorText (error.getD "")) env.now) s
      (s.finish id worker success error env) := by
  refine own_turn fun j => ?_
  split
  · exact zaddQueues_jobs ..
  · rfl

theorem cancelOwned_turn (id worker : Ident) (reason : String) (env : RedisReading) :
    OwnTurn id worker (fun j => j.released .cancelled (Job.errorText reason) env.now) s
      (s.cancelOwned id worker reason env) :=
  own_turn fun _ => rfl

/-- Answering with the job changes nothing. -/
theorem answered_alone (id : Ident) (b : Bool) (env : RedisReading) (s : RedisQueue) :
    ((answered id b).alone env s).2 = s := by
  cases b <;> rfl

/-! ## The cancellation of the queued jobs of a campaign -/

/-- The record of a job after the cancellation. -/
def cancelRow (campaign : Ident) (now : Int) (j : Job) : Job :=
  if j.campaignId = campaign ∧ j.status = .queued then j.released .cancelled (some Job.cancelledError) now else j

theorem cancelRow_cancelRow (campaign : Ident) (now : Int) (j : Job) :
    cancelRow campaign now (cancelRow campaign now j) = cancelRow campaign now j := by
  by_cases h : j.campaignId = campaign ∧ j.status = .queued
  · have hrow : cancelRow campaign now j = j.released .cancelled (some Job.cancelledError) now := if_pos h
    rw [hrow]
    exact if_neg fun h' => absurd h'.2 (by simp)
  · have hrow : cancelRow campaign now j = j := if_neg h
    rw [hrow, hrow]

/-- The transaction of the cancellation on one job. -/
theorem cancelMember_jobs (campaign : Ident) (env : RedisReading) (id m : Ident) :
    (s.cancelMember campaign id env).1.jobs m =
      if m = id then (s.jobs m).map (cancelRow campaign env.now) else s.jobs m := by
  unfold cancelMember
  split
  · rename_i hnone
    split
    · rename_i hm
      rw [hm, hnone]
      rfl
    · rfl
  · rename_i j hj
    split
    · rename_i hc
      split
      · rename_i hm
        rw [hm, hj, Option.map_some, cancelRow, if_neg (fun h => hc.elim (absurd h.2) (absurd h.1))]
      · rfl
    · rename_i hc
      push Not at hc
      simp only [zremKind_jobs, zremQueued_jobs, setJob_jobs, Function.update_apply]
      split
      · rename_i hm
        rw [hm, hj, Option.map_some, cancelRow, if_pos ⟨hc.2, hc.1⟩]
      · rfl

/-- `cancel_queued`. -/
theorem cancelQueued_alone (h : Timed s) (campaign : Ident) (env : Reading) :
    Timed ((cancelQueued campaign).alone env.redis s).2 ∧
      ∀ m, ((cancelQueued campaign).alone env.redis s).2.jobs m = (s.jobs m).map (cancelRow campaign env.now) := by
  obtain ⟨h', hjobs⟩ := each_alone (t := fun id => .cancelMember campaign id) (cancelRow_cancelRow campaign env.now)
    (fun id s h => ⟨apply_timed h (t := .cancelMember campaign id) trivial (together_redis env) trivial,
      cancelMember_jobs campaign env.redis id⟩) (s.campaign campaign) 0 h
  simp only [cancelQueued, Prog.alone_bind, Prog.alone_read]
  refine ⟨h', fun m => (hjobs m).trans ?_⟩
  split
  · rfl
  · rename_i hm
    cases hj : s.jobs m with
    | none => rfl
    | some j =>
      have hother : ¬ (j.campaignId = campaign ∧ j.status = .queued) := fun hc =>
        hm ((h.members campaign m).mpr ⟨j, hj, hc.1⟩)
      rw [Option.map_some, cancelRow, if_neg hother]

/-! ## Enqueue -/

/-- What an `enqueue` with valid arguments does: nothing when its key has a job, else it stores the new one. -/
inductive EnqueueTurn (r : EnqueueRequest) (env : Reading) (s : RedisQueue) : RedisQueue → Prop
  | existing (key id : Ident) (hkey : r.dedupeKey = some key) (hd : s.dedupe r.campaignId r.kind key = some id) :
      EnqueueTurn r env s s
  | created (s' : RedisQueue) (hd : ∀ key, r.dedupeKey = some key → s.dedupe r.campaignId r.kind key = none)
      (hs' : s'.jobs = Function.update s.jobs env.uuid (some (r.newJob env.uuid env.now))) : EnqueueTurn r env s s'

theorem created_alone (uuid : Ident) (env : RedisReading) (s : RedisQueue) : ((created uuid).alone env s).2 = s := by
  simp only [created, get, Prog.alone_bind, Prog.alone_read]
  split <;> rfl

theorem existing_alone (r : EnqueueRequest) (id : Ident) (env : RedisReading) (s : RedisQueue) :
    ((existing r id).alone env s).2 = s := by
  simp only [existing, get, Prog.alone_bind, Prog.alone_read]
  split
  · rfl
  · split <;> rfl

theorem enqueueRequest_alone (h : Timed s) (r : EnqueueRequest) (env : Reading) (hfresh : s.jobs env.uuid = none) :
    Timed ((enqueueRequest r).alone env.redis s).2 ∧ EnqueueTurn r env s ((enqueueRequest r).alone env.redis s).2 := by
  simp only [enqueueRequest, Prog.alone_bind, Prog.alone_read]
  cases hkey : r.dedupeKey with
  | none =>
    simp only [Prog.alone_bind, Prog.alone_atomic, created_alone]
    have ht : Timed (apply (.create r env.uuid env.now env.now) env.redis s) := by
      refine apply_timed h ?_ rfl hfresh
      exact hkey
    exact ⟨ht, .created _ (fun key hk => absurd (hkey.symm.trans hk) nofun) (create_jobs ..)⟩
  | some key =>
    simp only [Prog.alone_bind, Prog.alone_atomic]
    have ht : Timed (apply (.createDedupe r key env.uuid env.now env.now) env.redis s) := by
      refine apply_timed h ?_ rfl hfresh
      exact hkey
    rcases createDedupe_cases r key env.uuid env.now env.now s with ⟨id, hd, heq⟩ | ⟨hd, hnone, hjobs, -⟩
    · simp only [Reading.redis, heq, existing_alone]
      exact ⟨h, .existing key id hkey hd⟩
    · simp only [Reading.redis, hnone, created_alone]
      refine ⟨ht, .created _ (fun key' hk => ?_) hjobs⟩
      cases hkey.symm.trans hk
      exact hd

end RedisQueue

end XbowPerso
