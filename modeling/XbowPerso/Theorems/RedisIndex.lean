import XbowPerso.Lemmas.RedisCalls
import XbowPerso.Lemmas.QueueLifecycle

/-!
# The index of the Redis queue

In every state that clients of the Redis queue reach, in any order of their transactions, the sorted sets hold exactly the jobs
whose status puts them there. So a queued job can be claimed, a running one can be recovered, and a job changes its owner only by
way of a state without one.
-/

namespace XbowPerso

namespace RedisQueue

open Interleave

/-- The calls of the clients, each client's in order. -/
abbrev Clients := Nat → List (QueueSettings × Nat × QueueCall)

/-- The clients at the start, over the empty queue. -/
def start (clients : Clients) : Pool RedisStep RedisReading RedisQueue (List Reply) where
  shared := empty
  thread k := session (clients k)

/-- The invariant holds in every state that the clients reach, and each of their steps does what its tag says. -/
theorem run_indexed {clients : Clients} {ls : List (Nat × RedisReading)} (h : (start clients).MeetsAll Fresh ls) :
    Indexed ((start clients).run ls).shared ∧
      ∀ m ∈ (start clients).moves ls, Indexed m.before ∧ Applies m.tag m.input m.before m.after := by
  refine Pool.run_keeps_of_follows ?_ (fun k => session_follows (clients k)) indexed_empty h
  rintro t env s s' hs hc ⟨-, rfl⟩
  exact (apply_keeps hs t env hc).indexed

/-! ## What the invariant is for -/

variable {s : RedisQueue}

variable {id : Ident} {j : Job}

/-- A queued job is listed under its kind, and the transaction of `claim_kind` hands it out to whoever asks. -/
theorem Indexed.claimable (h : Indexed s) (hj : s.jobs id = some j) (hs : j.status = .queued)
    (worker : Ident) (env : RedisReading) :
    id ∈ (s.queuedKind j.kind).range ∧ (s.claimMember worker j.kind id env).2 = true := by
  constructor
  · rw [SortedSet.mem_range, ← Option.isSome_iff_exists, h.queuedKind]
    exact ⟨j, hj, hs, rfl⟩
  · rcases claimMember_eq h env worker j.kind id with ⟨_, -, -, -, -, heq⟩ | ⟨hn, -⟩
    · rw [heq]
    · exact absurd ⟨hs, rfl⟩ (hn j hj)

/-- A generic queue that holds a job hands out the job that heads it. -/
theorem Indexed.front_handed (h : Indexed s) (hf : s.queued.front? = some id) (worker : Ident)
    (env : RedisReading) : (s.claimFront worker env).2 = .handed id := by
  rcases claimFront_eq h env worker with ⟨hn, -⟩ | ⟨id', _, hf', -, -, -, -, heq⟩
  · rw [hf] at hn
    cases hn
  · rw [hf] at hf'
    cases hf'
    rw [heq]

/-- A running job is listed with a score, and from then on its recovery requeues it or fails it. -/
theorem Indexed.recoverable (h : Indexed s) (hj : s.jobs id = some j) (hs : j.status = .running) :
    ∃ score, s.running.score? id = some score ∧ ∀ cutoff, score ≤ cutoff → ∀ env,
      id ∈ s.running.rangeByScore cutoff ∧
        (s.recover id cutoff env).1.jobs id = some (j.released j.recoveredStatus (some Job.expiredError) env.now) := by
  obtain ⟨score, hscore⟩ := Option.isSome_iff_exists.mp ((h.running id).mpr ⟨j, hj, hs⟩)
  refine ⟨score, hscore, fun cutoff hle env => ⟨(SortedSet.mem_rangeByScore _ _ _).mpr ⟨score, hscore, hle⟩, ?_⟩⟩
  have hc : ¬ (j.status ≠ .running ∨ cutoff < score) := by
    rintro (hc | hc)
    · exact hc hs
    · exact absurd hle (not_le.mpr hc)
  simp only [recover, hj, hscore, if_neg hc]
  split
  · rw [zaddQueues_jobs]
    exact Function.update_self ..
  · exact Function.update_self ..

/-- A job that two workers own, one before a step and one after it, is owned by one worker. -/
theorem owner_unchanged (h : Indexed s) {t : RedisStep} {env : RedisReading} (hfresh : Fresh t env s)
    {j' : Job} {w w' : Ident} (hj : s.jobs id = some j) (hj' : (apply t env s).jobs id = some j') (ho : j.OwnedBy w)
    (ho' : j'.OwnedBy w') : w = w' := by
  have hclaim : j'.claimedBy = j.claimedBy := by
    rcases (apply_keeps h t env hfresh).single id j hj with hsame | ⟨i, hi, hstep⟩
    · rw [hj'] at hsame
      cases hsame
      rfl
    · rw [hj'] at hi
      cases hi
      cases hstep with
      | claim worker now hs hb =>
        rw [ho.1] at hs
        cases hs
      | renew now hs hc => rfl
      | requeue error now hs hb => cases ho'.1
      | stop status error now hs ht =>
        have hrun : status = .running := ho'.1
        rw [hrun] at ht
        cases ht
      | cancel error now hs =>
        rw [ho.1] at hs
        cases hs
  rw [ho.2, ho'.2] at hclaim
  exact (Option.some.inj hclaim).symm

/-- In every state that any clients reach in any order of their steps: a job is in the sorted set of its kind, in the generic one
and in that of the running jobs exactly as its status says, and a terminal job is in none; a queued job can be claimed, a running
one recovered, and no step of the run takes a job from one owner to another. -/
theorem redis_index (clients : Clients) (ls : List (Nat × RedisReading)) (hfresh : (start clients).MeetsAll Fresh ls) :
    let s := ((start clients).run ls).shared
    (∀ id j, s.jobs id = some j →
      (∀ k, (s.queuedKind k).score? id ≠ none ↔ j.status = .queued ∧ j.kind = k) ∧
      (s.queued.score? id ≠ none ↔ j.status = .queued ∧ j.kind.usesGenericQueue = true) ∧
      (s.running.score? id ≠ none ↔ j.status = .running) ∧
      (j.status.terminal = true →
        (∀ k, (s.queuedKind k).score? id = none) ∧ s.queued.score? id = none ∧ s.running.score? id = none) ∧
      (j.status = .queued → ∀ worker env,
        id ∈ (s.queuedKind j.kind).range ∧ (s.claimMember worker j.kind id env).2 = true) ∧
      (j.status = .running → ∃ score, s.running.score? id = some score ∧ ∀ cutoff, score ≤ cutoff → ∀ env,
        id ∈ s.running.rangeByScore cutoff ∧
          (s.recover id cutoff env).1.jobs id = some (j.released j.recoveredStatus (some Job.expiredError) env.now))) ∧
    (∀ id worker env, s.queued.front? = some id → (s.claimFront worker env).2 = .handed id) ∧
    (∀ m ∈ (start clients).moves ls, ∀ id j j' w w', m.before.jobs id = some j → m.after.jobs id = some j' →
      j.OwnedBy w → j'.OwnedBy w' → w = w') := by
  intro s
  obtain ⟨h, hmoves⟩ := run_indexed hfresh
  refine ⟨fun id j hj => ?_, fun id worker env hf => h.front_handed hf worker env, ?_⟩
  · have hk : ∀ k, (s.queuedKind k).score? id ≠ none ↔ j.status = .queued ∧ j.kind = k := by
      intro k
      rw [← Option.isSome_iff_ne_none, h.isSome_queuedKind hj, decide_eq_true_eq]
    have hq : s.queued.score? id ≠ none ↔ j.status = .queued ∧ j.kind.usesGenericQueue = true := by
      rw [← Option.isSome_iff_ne_none, h.isSome_queued hj, decide_eq_true_eq]
    have hr : s.running.score? id ≠ none ↔ j.status = .running := by
      rw [← Option.isSome_iff_ne_none, h.isSome_running hj, decide_eq_true_eq]
    refine ⟨hk, hq, hr, fun ht => ⟨fun k => ?_, ?_, ?_⟩, fun hs worker env => h.claimable hj hs worker env,
      fun hs => h.recoverable hj hs⟩
    · by_contra hne
      rw [((hk k).mp hne).1] at ht
      cases ht
    · by_contra hne
      rw [(hq.mp hne).1] at ht
      cases ht
    · by_contra hne
      rw [hr.mp hne] at ht
      cases ht
  · intro m hm id j j' w w' hj hj' ho ho'
    obtain ⟨hb, -, ha⟩ := hmoves m hm
    rw [ha] at hj'
    exact owner_unchanged hb (hfresh m hm) hj hj' ho ho'

def sampleUuid : Ident := ⟨"0b8f6e1c-58f3-4f0e-9a56-1f2d3c4b5a69", by decide, by decide, by decide, by decide⟩
def sampleOwner : Ident := SqliteQueue.sampleWorker

/-- One client queues a job, another one claims. -/
def sampleClients : Clients
  | 0 => [(.default, 0, .enqueue "campaign-1" "report" .empty 2 none)]
  | 1 => [(.default, 1, .claim "worker-1")]
  | _ => []

/-- The first client draws its identifier and stores the job; the other one finds nothing to recover and takes it. -/
def sampleSchedule : List (Nat × RedisReading) :=
  let reading := ⟨1000, 1000, 1000, sampleUuid⟩
  [(0, reading), (1, reading), (0, reading), (1, reading), (0, reading), (1, reading)]

/-- The job that was claimed runs under its claimer, and is in the sorted set of the running jobs alone. -/
theorem redis_index_claimed :
    ((start sampleClients).run sampleSchedule).shared.running.score? sampleUuid ≠ none ∧
      ((start sampleClients).run sampleSchedule).shared.queued.score? sampleUuid = none := by
  obtain ⟨j, hj, hs⟩ : ∃ j, ((start sampleClients).run sampleSchedule).shared.jobs sampleUuid = some j ∧
      j.status = .running := by
    refine ⟨(EnqueueRequest.newJob ⟨⟨"campaign-1", by decide, by decide, by decide, by decide⟩, .report, .empty, 2, none,
      by decide, by decide⟩ sampleUuid 1000).claimed sampleOwner 1000, ?_, rfl⟩
    decide +kernel
  obtain ⟨-, hq, hr, -⟩ := (redis_index sampleClients sampleSchedule (by decide +kernel)).1 sampleUuid j hj
  refine ⟨hr.mpr hs, ?_⟩
  by_contra hne
  rw [(hq.mp hne).1] at hs
  cases hs

/-- The clients of the Redis queue, in any order of their transactions, live the life of all jobs from none: every job is handed out
once for each of its attempts, none is lost, and one that has ended stays as it is. -/
theorem redis_lifecycle (clients : Clients) (ls : List (Nat × RedisReading)) (hfresh : (start clients).MeetsAll Fresh ls) :
    JobStore.Lifecycle RedisQueue.jobs (fun m => handed m.tag m.input m.before) (start clients) ls := by
  refine JobStore.lifecycle_of_transitions rfl fun m hm => ?_
  obtain ⟨hb, -, ha⟩ := (run_indexed hfresh).2 m hm
  rw [ha]
  exact (apply_keeps hb m.tag m.input (hfresh m hm)).transition

/-- The job of the sample was handed out as often as it has attempts. -/
theorem redis_lifecycle_claimed : ∃ j, ((start sampleClients).run sampleSchedule).shared.jobs sampleUuid = some j ∧
    (JobStore.handouts sampleUuid (((start sampleClients).moves sampleSchedule).map fun m => handed m.tag m.input m.before) : Int) =
      j.attempts := by
  obtain ⟨j, hj⟩ := Option.isSome_iff_exists.mp
    (show (((start sampleClients).run sampleSchedule).shared.jobs sampleUuid).isSome = true by decide +kernel)
  exact ⟨j, hj, ((redis_lifecycle sampleClients sampleSchedule (by decide +kernel)).attempts sampleUuid j hj).2.1⟩

end RedisQueue

end XbowPerso
