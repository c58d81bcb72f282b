import XbowPerso.RedisQueue
import XbowPerso.Lifecycle

/-!
# What the steps of the Redis queue do

The invariant of the keys (`Indexed`): the sorted sets hold exactly the jobs whose status puts them there. Each transaction keeps
it, and is a transition of the life of all jobs.
-/

namespace XbowPerso

namespace RedisQueue

open JobStore

/-- Each job is well formed under its identifier, and each sorted set holds exactly the jobs that belong there. -/
structure Indexed (s : RedisQueue) : Prop where
  ids : ∀ id j, s.jobs id = some j → j.id = id
  wellFormed : ∀ id j, s.jobs id = some j → j.WellFormed
  queuedKind : ∀ k id, ((s.queuedKind k).score? id).isSome = true ↔
    ∃ j, s.jobs id = some j ∧ j.status = .queued ∧ j.kind = k
  queued : ∀ id, (s.queued.score? id).isSome = true ↔
    ∃ j, s.jobs id = some j ∧ j.status = .queued ∧ j.kind.usesGenericQueue = true
  running : ∀ id, (s.running.score? id).isSome = true ↔ ∃ j, s.jobs id = some j ∧ j.status = .running

/-- A step keeps the invariant, is a transition of the life of all jobs, and moves each job by one step of its life at most. -/
structure Keeps (s s' : RedisQueue) (handed : Option Ident) : Prop where
  indexed : Indexed s'
  transition : Transition s.jobs s'.jobs handed
  single : ∀ id j, s.jobs id = some j → s'.jobs id = some j ∨ ∃ j', s'.jobs id = some j' ∧ j.Step j'

theorem indexed_empty : Indexed empty where
  ids := fun _ _ h => by cases h
  wellFormed := fun _ _ h => by cases h
  queuedKind := by simp [empty]
  queued := by simp [empty]
  running := by simp [empty]

theorem Keeps.refl {s : RedisQueue} (h : Indexed s) : Keeps s s none :=
  ⟨h, .refl _, fun _ _ hj => .inl hj⟩

section

variable {s s' : RedisQueue}

@[simp] theorem zaddQueues_jobs (k : JobKind) (id : Ident) (t t2 : Int) : (s.zaddQueues k id t t2).jobs = s.jobs := by
  unfold zaddQueues
  split <;> rfl

@[simp] theorem zaddQueues_running (k : JobKind) (id : Ident) (t t2 : Int) :
    (s.zaddQueues k id t t2).running = s.running := by
  unfold zaddQueues
  split <;> rfl

@[simp] theorem zaddQueues_queuedKind (k : JobKind) (id : Ident) (t t2 : Int) :
    (s.zaddQueues k id t t2).queuedKind = Function.update s.queuedKind k ((s.queuedKind k).zadd id t2) := by
  unfold zaddQueues
  split <;> rfl

@[simp] theorem zaddQueues_queued (k : JobKind) (id : Ident) (t t2 : Int) :
    (s.zaddQueues k id t t2).queued = if k.usesGenericQueue then s.queued.zadd id t else s.queued := by
  unfold zaddQueues
  split <;> rfl

variable {id : Ident} {j : Job}

/-- A job is in the sorted set of a kind when the invariant puts it there, and in no other. -/
theorem Indexed.isSome_queuedKind (h : Indexed s) (hj : s.jobs id = some j) (k : JobKind) :
    ((s.queuedKind k).score? id).isSome = decide (j.status = .queued ∧ j.kind = k) := by
  rw [Bool.eq_iff_iff, h.queuedKind, decide_eq_true_eq]
  simp [hj]

theorem Indexed.isSome_queued (h : Indexed s) (hj : s.jobs id = some j) :
    (s.queued.score? id).isSome = decide (j.status = .queued ∧ j.kind.usesGenericQueue = true) := by
  rw [Bool.eq_iff_iff, h.queued, decide_eq_true_eq]
  simp [hj]

theorem Indexed.isSome_running (h : Indexed s) (hj : s.jobs id = some j) :
    (s.running.score? id).isSome = decide (j.status = .running) := by
  rw [Bool.eq_iff_iff, h.running, decide_eq_true_eq]
  simp [hj]

/-- The invariant after one job was rewritten, when each sorted set has followed. -/
theorem Indexed.setJob (h : Indexed s) (j' : Job) (hid : j'.id = id) (hw : j'.WellFormed)
    (hjobs : s'.jobs = Function.update s.jobs id (some j'))
    (hkind : ∀ k m, ((s'.queuedKind k).score? m).isSome =
      if m = id then decide (j'.status = .queued ∧ j'.kind = k) else ((s.queuedKind k).score? m).isSome)
    (hqueued : ∀ m, (s'.queued.score? m).isSome =
      if m = id then decide (j'.status = .queued ∧ j'.kind.usesGenericQueue = true) else (s.queued.score? m).isSome)
    (hrunning : ∀ m, (s'.running.score? m).isSome =
      if m = id then decide (j'.status = .running) else (s.running.score? m).isSome) : Indexed s' := by
  have hget : ∀ m, s'.jobs m = if m = id then some j' else s.jobs m := by
    intro m
    rw [hjobs, Function.update_apply]
  constructor
  · intro m i hi
    rw [hget] at hi
    split at hi
    · rename_i hm
      cases hi
      rw [hm, hid]
    · exact h.ids m i hi
  · intro m i hi
    rw [hget] at hi
    split at hi
    · cases hi
      exact hw
    · exact h.wellFormed m i hi
  · intro k m
    rw [hkind, hget]
    by_cases hm : m = id
    · simp [hm]
    · rw [if_neg hm, if_neg hm]
      exact h.queuedKind k m
  · intro m
    rw [hqueued, hget]
    by_cases hm : m = id
    · simp [hm]
    · rw [if_neg hm, if_neg hm]
      exact h.queued m
  · intro m
    rw [hrunning, hget]
    by_cases hm : m = id
    · simp [hm]
    · rw [if_neg hm, if_neg hm]
      exact h.running m

/-- A step of the life of one job that costs no attempt. -/
theorem keeps_of_step (hi : Indexed s') {j' : Job} (hj : s.jobs id = some j) (hstep : j.Step j')
    (ha : j'.attempts = j.attempts) (hjobs : s'.jobs = Function.update s.jobs id (some j')) : Keeps s s' none where
  indexed := hi
  transition := {
    kept := by
      intro m i hm
      by_cases hmid : m = id
      · subst hmid
        cases hj.symm.trans hm
        exact ⟨j', by rw [hjobs, Function.update_self], .single hstep, by simp [ha]⟩
      · exact ⟨i, by rw [hjobs, Function.update_of_ne hmid, hm], .refl, by simp⟩
    added := by
      intro m i hn hm
      by_cases hmid : m = id
      · subst hmid
        cases hj.symm.trans hn
      · rw [hjobs, Function.update_of_ne hmid, hn] at hm
        cases hm
    handed := fun _ h => nomatch h }
  single := by
    intro m i hm
    rw [hjobs]
    by_cases hmid : m = id
    · subst hmid
      cases hj.symm.trans hm
      exact .inr ⟨j', Function.update_self .., hstep⟩
    · exact .inl (by rw [Function.update_of_ne hmid, hm])

/-- A queued job leaves the queues: the invariant when the sorted sets have followed. -/
theorem Indexed.dequeue (h : Indexed s) (j' : Job) (hj : s.jobs id = some j)
    (hs : j.status = .queued) (hstep : j.Step j') (hq : j'.status ≠ .queued)
    (hjobs : s'.jobs = Function.update s.jobs id (some j'))
    (hkind : s'.queuedKind = Function.update s.queuedKind j.kind ((s.queuedKind j.kind).zrem id))
    (hqueued : s'.queued = s.queued.zrem id)
    (hrun : (j'.status = .running ∧ ∃ t, s'.running = s.running.zadd id t) ∨
      (j'.status ≠ .running ∧ s'.running = s.running)) : Indexed s' := by
  refine h.setJob j' (hstep.keeps.1.trans (h.ids id j hj)) (hstep.wellFormed (h.wellFormed id j hj)) hjobs ?_ ?_ ?_
  · intro k m
    rw [hkind]
    by_cases hk : k = j.kind
    · subst hk
      by_cases hm : m = id <;> simp [hm, hq]
    · rw [Function.update_of_ne hk]
      by_cases hm : m = id
      · subst hm
        simp [h.isSome_queuedKind hj, Ne.symm hk, hq]
      · simp [hm]
  · intro m
    rw [hqueued]
    by_cases hm : m = id <;> simp [hm, hq]
  · intro m
    rcases hrun with ⟨hr, t, hrun⟩ | ⟨hr, hrun⟩
    · rw [hrun]
      by_cases hm : m = id <;> simp [hm, hr]
    · rw [hrun]
      by_cases hm : m = id
      · subst hm
        simp [h.isSome_running hj, hs, hr]
      · simp [hm]

/-- A running job is released: the invariant when the sorted sets have followed. -/
theorem Indexed.release (h : Indexed s) (j' : Job) (hj : s.jobs id = some j)
    (hs : j.status = .running) (hstep : j.Step j') (hr : j'.status ≠ .running)
    (hjobs : s'.jobs = Function.update s.jobs id (some j')) (hrun : s'.running = s.running.zrem id)
    (hq : (j'.status = .queued ∧ ∃ t t2, s'.queuedKind = Function.update s.queuedKind j.kind ((s.queuedKind j.kind).zadd id t2) ∧
        s'.queued = if j.kind.usesGenericQueue then s.queued.zadd id t else s.queued) ∨
      (j'.status ≠ .queued ∧ s'.queuedKind = s.queuedKind ∧ s'.queued = s.queued)) : Indexed s' := by
  have hkind : j'.kind = j.kind := hstep.keeps.2.2.1
  refine h.setJob j' (hstep.keeps.1.trans (h.ids id j hj)) (hstep.wellFormed (h.wellFormed id j hj)) hjobs ?_ ?_ ?_
  · intro k m
    rcases hq with ⟨hq, t, t2, hqk, -⟩ | ⟨hq, hqk, -⟩
    · rw [hqk]
      by_cases hk : k = j.kind
      · subst hk
        by_cases hm : m = id <;> simp [hm, hq, hkind]
      · rw [Function.update_of_ne hk]
        by_cases hm : m = id
        · subst hm
          simp [h.isSome_queuedKind hj, hs, hkind, Ne.symm hk]
        · simp [hm]
    · rw [hqk]
      by_cases hm : m = id
      · subst hm
        simp [h.isSome_queuedKind hj, hs, hq]
      · simp [hm]
  · intro m
    rcases hq with ⟨hq, t, t2, -, hqg⟩ | ⟨hq, -, hqg⟩
    · rw [hqg, hkind]
      by_cases hg : j.kind.usesGenericQueue = true
      · by_cases hm : m = id <;> simp [hm, hq, hg]
      · by_cases hm : m = id
        · subst hm
          simp [h.isSome_queued hj, hs, hg]
        · simp [hm, hg]
    · rw [hqg]
      by_cases hm : m = id
      · subst hm
        simp [h.isSome_queued hj, hs, hq]
      · simp [hm]
  · intro m
    rw [hrun]
    by_cases hm : m = id <;> simp [hm, hr]

end

/-! ## The transactions -/

section Transactions

variable {s : RedisQueue} (h : Indexed s) (env : RedisReading)

include h

/-- `cancel_queued` on one member. -/
theorem cancelMember_keeps (campaign id : Ident) : Keeps s (s.cancelMember campaign id env).1 none := by
  unfold cancelMember
  split
  · exact .refl h
  rename_i j hj
  split
  · exact .refl h
  rename_i hc
  push Not at hc
  have hstep := Job.Step.cancel j (some Job.cancelledError) env.now hc.1
  exact keeps_of_step (h.dequeue _ hj hc.1 hstep nofun rfl rfl rfl (.inr ⟨nofun, rfl⟩)) hj hstep rfl rfl

/-- A call of a worker on its job that ends the job. -/
theorem cancelOwned_keeps (id worker : Ident) (reason : String) :
    Keeps s (s.cancelOwned id worker reason env).1 none := by
  unfold cancelOwned
  split
  · exact .refl h
  rename_i j hj
  split
  · exact .refl h
  rename_i ho
  rw [not_not] at ho
  have hstep := Job.Step.stop j .cancelled (Job.errorText reason) env.now ho.1 rfl
  exact keeps_of_step (h.release _ hj ho.1 hstep nofun rfl rfl (.inr ⟨nofun, rfl, rfl⟩)) hj hstep rfl rfl

variable {id : Ident}

/-- The end of a running job in a status that is not running, as `recover_expired_leases` and `finish` write it. -/
theorem released_keeps {j : Job} {status : JobStatus} {error : Option String} {now t t2 : Int}
    (hj : s.jobs id = some j) (hs : j.status = .running) (hstep : j.Step (j.released status error now))
    (hr : status ≠ .running) :
    Keeps s (if status = .queued then
      ((s.setJob id (j.released status error now)).zremRunning id).zaddQueues j.kind id t t2
      else (s.setJob id (j.released status error now)).zremRunning id) none := by
  split
  · rename_i hq
    exact keeps_of_step (h.release _ hj hs hstep hr (zaddQueues_jobs ..) (zaddQueues_running ..)
      (.inl ⟨hq, t, t2, zaddQueues_queuedKind .., zaddQueues_queued ..⟩)) hj hstep rfl (zaddQueues_jobs ..)
  · rename_i hq
    exact keeps_of_step (h.release _ hj hs hstep hr rfl rfl (.inr ⟨hq, rfl, rfl⟩)) hj hstep rfl rfl

/-- `recover_expired_leases` on one stale job. -/
theorem recover_keeps (id : Ident) (cutoff : Int) : Keeps s (s.recover id cutoff env).1 none := by
  unfold recover
  split
  · rename_i j score hj hscore
    split
    · exact .refl h
    rename_i hc
    push Not at hc
    refine released_keeps h hj hc.1 (Job.step_recovered j _ env.now hc.1) ?_
    unfold Job.recoveredStatus
    split <;> nofun
  · exact .refl h

/-- `finish`. -/
theorem finish_keeps (id worker : Ident) (success : Bool) (error : Option String) :
    Keeps s (s.finish id worker success error env).1 none := by
  unfold finish
  split
  · exact .refl h
  rename_i j hj
  split
  · exact .refl h
  rename_i ho
  rw [not_not] at ho
  refine released_keeps h hj ho.1 (Job.step_finished j success _ env.now ho.1) ?_
  unfold Job.finishedStatus
  split
  · nofun
  split <;> nofun

/-- `heartbeat`. -/
theorem heartbeat_keeps (id worker : Ident) : Keeps s (s.heartbeat id worker env).1 none := by
  unfold heartbeat
  split
  · exact .refl h
  rename_i j hj
  split
  · exact .refl h
  rename_i ho
  rw [not_not] at ho
  have hstep := Job.Step.renew j env.now ho.1 (by rw [ho.2]; rfl)
  refine keeps_of_step (h.setJob (j.renewed env.now) (h.ids id j hj) (hstep.wellFormed (h.wellFormed id j hj)) rfl
    ?_ ?_ ?_) hj hstep rfl rfl
  · intro k m
    by_cases hm : m = id
    · subst hm
      exact (h.isSome_queuedKind hj k).trans (if_pos rfl).symm
    · simp [hm]
  · intro m
    by_cases hm : m = id
    · subst hm
      exact (h.isSome_queued hj).trans (if_pos rfl).symm
    · simp [hm]
  · intro m
    by_cases hm : m = id <;> simp [hm, ho.1]

/-- A claim of a queued job with an attempt left. -/
theorem claimed_keeps {j : Job} {worker : Ident} {now t : Int} (hj : s.jobs id = some j)
    (hs : j.status = .queued) (hb : j.attempts < j.maxAttempts) :
    Keeps s ((((s.setJob id (j.claimed worker now)).zremQueued id).zremKind j.kind id).zaddRunning id t) (some id) where
  indexed := h.dequeue _ hj hs (.claim j worker now hs hb) nofun rfl rfl rfl (.inl ⟨rfl, t, rfl⟩)
  transition := .of_claim hj hs hb worker now fun _ => Function.update_apply ..
  single := by
    intro m i hm
    by_cases hmid : m = id
    · subst hmid
      cases hj.symm.trans hm
      exact .inr ⟨_, Function.update_self .., .claim j worker now hs hb⟩
    · exact .inl ((Function.update_of_ne hmid ..).trans hm)

/-- The job that heads the generic queue is queued, of a generic kind, and has an attempt left. -/
theorem front_claimable (hf : s.queued.front? = some id) :
    ∃ j, s.jobs id = some j ∧ j.status = .queued ∧ j.kind.usesGenericQueue = true ∧ j.attempts < j.maxAttempts := by
  obtain ⟨t, ht, -⟩ := (s.queued.front?_eq_some id).mp hf
  obtain ⟨j, hj, hs, hg⟩ := (h.queued id).mp (by rw [ht]; rfl)
  exact ⟨j, hj, hs, hg, (h.wellFormed id j hj).queued hs⟩

/-- One turn of the loop of `claim` finds the queue empty or hands out the job that heads it. -/
theorem claimFront_eq (worker : Ident) :
    (s.queued.front? = none ∧ s.claimFront worker env = (s, .empty)) ∨
    ∃ id j, s.queued.front? = some id ∧ s.jobs id = some j ∧ j.status = .queued ∧
      j.kind.usesGenericQueue = true ∧ j.attempts < j.maxAttempts ∧
      s.claimFront worker env = ((((s.setJob id (j.claimed worker env.now)).zremQueued id).zremKind j.kind id).zaddRunning
        id env.time, .handed id) := by
  unfold claimFront
  cases hf : s.queued.front? with
  | none => exact .inl ⟨rfl, rfl⟩
  | some id =>
    obtain ⟨j, hj, hs, hg, hb⟩ := front_claimable h hf
    refine .inr ⟨id, j, rfl, hj, hs, hg, hb, ?_⟩
    simp only [hj, hs, hg, ne_eq, not_true, if_false, Bool.not_true, Bool.false_eq_true, not_le.mpr hb]

/-- The transaction of `claim_kind` on a member hands it out, or changes nothing. -/
theorem claimMember_eq (worker : Ident) (kind : JobKind) (id : Ident) :
    (∃ j, s.jobs id = some j ∧ j.status = .queued ∧ j.kind = kind ∧ j.attempts < j.maxAttempts ∧
      s.claimMember worker kind id env = ((((s.setJob id (j.claimed worker env.now)).zremQueued id).zremKind j.kind
        id).zaddRunning id env.time, true)) ∨
    ((∀ j, s.jobs id = some j → ¬ (j.status = .queued ∧ j.kind = kind)) ∧
      s.claimMember worker kind id env = (s.zremKind kind id, false)) := by
  unfold claimMember
  cases hj : s.jobs id with
  | none => exact .inr ⟨fun _ hi => (by cases hi), rfl⟩
  | some j =>
    dsimp only
    by_cases hc : j.status ≠ .queued ∨ j.kind ≠ kind ∨ j.maxAttempts ≤ j.attempts
    · right
      rw [if_pos hc]
      refine ⟨?_, rfl⟩
      rintro i hi ⟨hs, hk⟩
      cases hi
      have := (h.wellFormed id j hj).queued hs
      rcases hc with hc | hc | hc
      · exact hc hs
      · exact hc hk
      · omega
    · left
      rw [if_neg hc]
      push Not at hc
      obtain ⟨hs, hk, hb⟩ := hc
      subst hk
      exact ⟨j, rfl, hs, rfl, hb, rfl⟩

/-- The removal of a member that the sorted set of the kind does not hold. -/
theorem zremKind_keeps {kind : JobKind}
    (hn : ∀ j, s.jobs id = some j → ¬ (j.status = .queued ∧ j.kind = kind)) : Keeps s (s.zremKind kind id) none where
  indexed := by
    refine ⟨h.ids, h.wellFormed, fun k m => ?_, h.queued, h.running⟩
    refine Iff.trans ?_ (h.queuedKind k m)
    show ((Function.update s.queuedKind kind ((s.queuedKind kind).zrem id) k).score? m).isSome = true ↔ _
    by_cases hk : k = kind
    · subst hk
      rw [Function.update_self, SortedSet.score?_zrem]
      by_cases hm : m = id
      · subst hm
        have : (s.queuedKind k).score? m = none := by
          rw [← Option.not_isSome_iff_eq_none, h.queuedKind]
          rintro ⟨j, hj, hjk⟩
          exact hn j hj hjk
        simp [this]
      · rw [if_neg hm]
    · rw [Function.update_of_ne hk]
  transition := .refl _
  single := fun _ _ hj => .inl hj

/-- The commands that store a new job under a fresh identifier. -/
theorem create_keeps (r : EnqueueRequest) {uuid : Ident} (now score : Int) (hfresh : s.jobs uuid = none) :
    Keeps s (s.create r uuid now score) none where
  indexed := by
    have hk : ∀ k, ((s.queuedKind k).score? uuid).isSome = false := by
      intro k
      rw [Bool.eq_false_iff, Ne, h.queuedKind]
      simp [hfresh]
    have hq : (s.queued.score? uuid).isSome = false := by
      rw [Bool.eq_false_iff, Ne, h.queued]
      simp [hfresh]
    have hr : (s.running.score? uuid).isSome = false := by
      rw [Bool.eq_false_iff, Ne, h.running]
      simp [hfresh]
    refine h.setJob (r.newJob uuid now) rfl (r.newJob_wellFormed uuid now) (zaddQueues_jobs _ _ score score) ?_ ?_ ?_
    · intro k m
      by_cases hkk : k = r.kind
      · subst hkk
        by_cases hm : m = uuid <;> simp [create, hm, EnqueueRequest.newJob]
      · by_cases hm : m = uuid
        · subst hm
          simp [create, Function.update_of_ne hkk, hk, EnqueueRequest.newJob, Ne.symm hkk]
        · simp [create, Function.update_of_ne hkk, hm]
    · intro m
      by_cases hg : r.kind.usesGenericQueue = true
      · by_cases hm : m = uuid <;> simp [create, hm, hg, EnqueueRequest.newJob]
      · by_cases hm : m = uuid
        · subst hm
          simp [create, hg, hq, EnqueueRequest.newJob]
        · simp [create, hg, hm]
    · intro m
      by_cases hm : m = uuid
      · subst hm
        simp [create, hr, EnqueueRequest.newJob]
      · simp [create, hm]
  transition := .of_new hfresh (r.newJob_wellFormed uuid now) rfl fun k => by
    simp [create, Function.update_apply]
  single := by
    intro m i hm
    left
    have hmid : m ≠ uuid := by
      rintro rfl
      cases hfresh.symm.trans hm
    simp [create, Function.update_of_ne hmid, hm]

end Transactions

/-! ## Every step -/

/-- The identifier that a step would store a new job under is not taken: `uuid4` repeats none. -/
def Fresh : RedisStep → RedisReading → RedisQueue → Prop
  | .create _ uuid _ _, _, s | .createDedupe _ _ uuid _ _, _, s => s.jobs uuid = none
  | _, _, _ => True

instance : ∀ t env s, Decidable (Fresh t env s)
  | .create _ uuid _ _, _, s | .createDedupe _ _ uuid _ _, _, s => inferInstanceAs (Decidable (s.jobs uuid = none))
  | .draw, _, _ | .get _, _, _ | .members _, _, _ | .staleIds, _, _ | .recover _ _, _, _ | .claimFront _, _, _
  | .kindFront _, _, _ | .kindRange _, _, _ | .claimMember _ _ _, _, _ | .heartbeat _ _, _, _ | .finish _ _ _ _, _, _
  | .cancelMember _ _, _, _ | .cancelOwned _ _ _, _, _ => isTrue trivial

/-- The job that a step hands out. -/
def handed : RedisStep → RedisReading → RedisQueue → Option Ident
  | .claimFront worker, env, s =>
    match (s.claimFront worker env).2 with
    | .handed id => some id
    | _ => none
  | .claimMember worker kind id, env, s => if (s.claimMember worker kind id env).2 then some id else none
  | _, _, _ => none

/-- Every step with fresh identifiers keeps the invariant, and is a transition of the life of all jobs. -/
theorem apply_keeps {s : RedisQueue} (h : Indexed s) (t : RedisStep) (env : RedisReading) (hfresh : Fresh t env s) :
    Keeps s (apply t env s) (handed t env s) := by
  cases t with
  | create r uuid now score => exact create_keeps h r now score hfresh
  | createDedupe r key uuid now score =>
    simp only [apply, createDedupe, handed]
    split
    · exact .refl h
    obtain ⟨hi, ht, hsingle⟩ := create_keeps h r now score hfresh
    exact ⟨⟨hi.ids, hi.wellFormed, hi.queuedKind, hi.queued, hi.running⟩, ht, hsingle⟩
  | recover id cutoff => exact recover_keeps h env id cutoff
  | claimFront worker =>
    simp only [apply, handed]
    rcases claimFront_eq h env worker with ⟨-, heq⟩ | ⟨id, j, -, hj, hs, -, hb, heq⟩
    · rw [heq]
      exact .refl h
    · rw [heq]
      exact claimed_keeps h hj hs hb
  | claimMember worker kind id =>
    simp only [apply, handed]
    rcases claimMember_eq h env worker kind id with ⟨j, hj, hs, -, hb, heq⟩ | ⟨hn, heq⟩
    · rw [heq]
      exact claimed_keeps h hj hs hb
    · rw [heq]
      exact zremKind_keeps h hn
  | heartbeat id worker => exact heartbeat_keeps h env id worker
  | finish id worker success error => exact finish_keeps h env id worker success error
  | cancelMember campaign id => exact cancelMember_keeps h env campaign id
  | cancelOwned id worker reason => exact cancelOwned_keeps h env id worker reason
  | draw => exact .refl h
  | get id => exact .refl h
  | members campaign => exact .refl h
  | staleIds => exact .refl h
  | kindFront kind => exact .refl h
  | kindRange kind => exact .refl h

/-- The steps that may store a new job. -/
def stores : RedisStep → Bool
  | .create .. | .createDedupe .. => true
  | _ => false

/-- The job and the worker that a call of a worker names. -/
def act : RedisStep → Option (Ident × Ident)
  | .heartbeat id worker | .finish id worker _ _ | .cancelOwned id worker _ => some (id, worker)
  | _ => none

/-- The answer that a call of a worker had an effect. -/
def accepted : RedisStep → RedisReading → RedisQueue → Bool
  | .heartbeat id worker, env, s => (s.heartbeat id worker env).2
  | .finish id worker success error, env, s => (s.finish id worker success error env).2
  | .cancelOwned id worker reason, env, s => (s.cancelOwned id worker reason env).2
  | _, _, _ => false

/-- What a step does to the hashes of the jobs, to the set that lists them and to the hashes of the dedupe keys. -/
inductive StepEffect (t : RedisStep) (env : RedisReading) (s s' : RedisQueue) : Prop
  | same (hjobs : s'.jobs = s.jobs) (hall : s'.all = s.all) (hdedupe : s'.dedupe = s.dedupe)
  | rewrite (id : Ident) (j j' : Job) (hj : s.jobs id = some j) (hjobs : s'.jobs = Function.update s.jobs id (some j'))
      (hclaim : j'.claimedAt = none ∨ j'.claimedAt = some env.now) (hmax : j'.maxAttempts = j.maxAttempts)
      (hdone : j'.status = .completed → ∃ w, act t = some (id, w) ∧ accepted t env s = true)
      (hall : s'.all = s.all) (hdedupe : s'.dedupe = s.dedupe)
  | create (r : EnqueueRequest) (id : Ident) (now : Int) (ht : stores t = true) (hn : s.jobs id = none)
      (hjobs : s'.jobs = Function.update s.jobs id (some (r.newJob id now))) (hall : s'.all = sadd s.all id)

@[simp] theorem create_jobs (r : EnqueueRequest) (uuid : Ident) (now score : Int) (s : RedisQueue) :
    (s.create r uuid now score).jobs = Function.update s.jobs uuid (some (r.newJob uuid now)) :=
  zaddQueues_jobs _ _ score score

@[simp] theorem create_dedupe (r : EnqueueRequest) (uuid : Ident) (now score : Int) (s : RedisQueue) :
    (s.create r uuid now score).dedupe = s.dedupe := by
  unfold create zaddQueues
  split <;> rfl

@[simp] theorem zaddQueues_all (s : RedisQueue) (k : JobKind) (id : Ident) (t t2 : Int) :
    (s.zaddQueues k id t t2).all = s.all := by
  unfold zaddQueues
  split <;> rfl

@[simp] theorem create_all (r : EnqueueRequest) (uuid : Ident) (now score : Int) (s : RedisQueue) :
    (s.create r uuid now score).all = sadd s.all uuid := by
  simp only [create, zaddQueues_all, setJob_all]

@[simp] theorem zaddQueues_dedupe (s : RedisQueue) (k : JobKind) (id : Ident) (t t2 : Int) :
    (s.zaddQueues k id t t2).dedupe = s.dedupe := by
  unfold zaddQueues
  split <;> rfl

/-- The end of a running job, as `recover_expired_leases` and `finish` write it. -/
theorem released_effect {t : RedisStep} {env : RedisReading} {s : RedisQueue} {id : Ident} {j : Job} {status : JobStatus}
    {error : Option String} {score score2 : Int} (hj : s.jobs id = some j)
    (hdone : status = .completed → ∃ w, act t = some (id, w) ∧ accepted t env s = true) :
    StepEffect t env s (if status = .queued then
      ((s.setJob id (j.released status error env.now)).zremRunning id).zaddQueues j.kind id score score2
      else (s.setJob id (j.released status error env.now)).zremRunning id) := by
  split
  · exact .rewrite id j _ hj (zaddQueues_jobs ..) (.inl rfl) rfl hdone (zaddQueues_all ..) (zaddQueues_dedupe ..)
  · exact .rewrite id j _ hj rfl (.inl rfl) rfl hdone rfl rfl

/-- Every step has one of these effects. -/
theorem apply_effect {s : RedisQueue} (h : Indexed s) (t : RedisStep) (env : RedisReading) (hfresh : Fresh t env s) :
    StepEffect t env s (apply t env s) := by
  cases t with
  | create r uuid now score =>
    exact .create r uuid now rfl hfresh (create_jobs r uuid now score s) (create_all r uuid now score s)
  | createDedupe r key uuid now score =>
    simp only [apply, createDedupe]
    split
    · exact .same rfl rfl rfl
    · exact .create r uuid now rfl hfresh (create_jobs r uuid now score s) (create_all r uuid now score s)
  | recover id cutoff =>
    simp only [apply, recover]
    split
    · rename_i j score hj hscore
      split
      · exact .same rfl rfl rfl
      exact released_effect hj fun hc => by
        unfold Job.recoveredStatus at hc
        split at hc <;> cases hc
    · exact .same rfl rfl rfl
  | claimFront worker =>
    simp only [apply]
    rcases claimFront_eq h env worker with ⟨-, heq⟩ | ⟨id, j, -, hj, -, -, -, heq⟩
    · rw [heq]
      exact .same rfl rfl rfl
    · rw [heq]
      exact .rewrite id j _ hj rfl (.inr rfl) rfl nofun rfl rfl
  | claimMember worker kind id =>
    simp only [apply]
    rcases claimMember_eq h env worker kind id with ⟨j, hj, -, -, -, heq⟩ | ⟨-, heq⟩
    · rw [heq]
      exact .rewrite id j _ hj rfl (.inr rfl) rfl nofun rfl rfl
    · rw [heq]
      exact .same rfl rfl rfl
  | heartbeat id worker =>
    simp only [apply, heartbeat]
    split
    · exact .same rfl rfl rfl
    rename_i j hj
    split
    · exact .same rfl rfl rfl
    rename_i ho
    exact .rewrite id j _ hj rfl (.inr rfl) rfl (fun _ => ⟨worker, rfl, by simp only [accepted, heartbeat, hj, if_neg ho]⟩) rfl rfl
  | finish id worker success error =>
    simp only [apply, finish]
    split
    · exact .same rfl rfl rfl
    rename_i j hj
    split
    · exact .same rfl rfl rfl
    rename_i ho
    exact released_effect hj fun _ => ⟨worker, rfl, by simp only [accepted, finish, hj, if_neg ho]⟩
  | cancelMember campaign id =>
    simp only [apply, cancelMember]
    split
    · exact .same rfl rfl rfl
    rename_i j hj
    split
    · exact .same rfl rfl rfl
    · exact .rewrite id j _ hj rfl (.inl rfl) rfl nofun rfl rfl
  | cancelOwned id worker reason =>
    simp only [apply, cancelOwned]
    split
    · exact .same rfl rfl rfl
    rename_i j hj
    split
    · exact .same rfl rfl rfl
    rename_i ho
    exact .rewrite id j _ hj rfl (.inl rfl) rfl (fun _ => ⟨worker, rfl, by simp only [accepted, cancelOwned, hj, if_neg ho]⟩) rfl rfl
  | draw => exact .same rfl rfl rfl
  | get id => exact .same rfl rfl rfl
  | members campaign => exact .same rfl rfl rfl
  | staleIds => exact .same rfl rfl rfl
  | kindFront kind => exact .same rfl rfl rfl
  | kindRange kind => exact .same rfl rfl rfl

end RedisQueue

end XbowPerso
