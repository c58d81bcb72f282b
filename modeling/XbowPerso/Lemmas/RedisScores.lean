import XbowPerso.Lemmas.RedisEnqueue

/-!
# The scores of the Redis queue under one clock

When a call reads one clock, the scores are times of the jobs: a queued job is scored with the time it entered the queue, which is
its last update, and a running one with the time of its claim (`Timed`). The set of a campaign lists its jobs.
-/

namespace XbowPerso

namespace RedisQueue

open JobStore

/-- The invariant of the keys with the scores and the sets of the campaigns. -/
structure Timed (s : RedisQueue) : Prop extends Deduped s where
  kindScore : ∀ k id v, (s.queuedKind k).score? id = some v → ∃ j, s.jobs id = some j ∧ j.updatedAt = v
  queuedScore : ∀ id v, s.queued.score? id = some v → ∃ j, s.jobs id = some j ∧ j.updatedAt = v
  runningScore : ∀ id v, s.running.score? id = some v → ∃ j, s.jobs id = some j ∧ j.claimedAt = some v
  members : ∀ c id, id ∈ s.campaign c ↔ ∃ j, s.jobs id = some j ∧ j.campaignId = c

theorem timed_empty : Timed empty where
  toDeduped := deduped_empty
  kindScore := fun _ _ _ h => by cases h
  queuedScore := fun _ _ h => by cases h
  runningScore := fun _ _ h => by cases h
  members := by simp [empty]

/-- A reading in which all clocks agree. -/
def Together (env : RedisReading) : Prop := env.time = env.now ∧ env.time2 = env.now

section

variable {s s' : RedisQueue}

variable {id : Ident} {j : Job}

/-- The score of a queued job is the time of its last update. -/
theorem Timed.score_queuedKind (h : Timed s) (hj : s.jobs id = some j) (hs : j.status = .queued) :
    (s.queuedKind j.kind).score? id = some j.updatedAt := by
  obtain ⟨v, hv⟩ := Option.isSome_iff_exists.mp ((h.queuedKind j.kind id).mpr ⟨j, hj, hs, rfl⟩)
  obtain ⟨i, hi, rfl⟩ := h.kindScore j.kind id v hv
  rw [hj] at hi
  cases hi
  exact hv

theorem Timed.score_queued (h : Timed s) (hj : s.jobs id = some j) (hs : j.status = .queued)
    (hg : j.kind.usesGenericQueue = true) : s.queued.score? id = some j.updatedAt := by
  obtain ⟨v, hv⟩ := Option.isSome_iff_exists.mp ((h.queued id).mpr ⟨j, hj, hs, hg⟩)
  obtain ⟨i, hi, rfl⟩ := h.queuedScore id v hv
  rw [hj] at hi
  cases hi
  exact hv

/-- A running job is scored with the time of its claim. -/
theorem Timed.score_running (h : Timed s) (hj : s.jobs id = some j) (hs : j.status = .running) :
    ∃ t, s.running.score? id = some t ∧ j.claimedAt = some t := by
  obtain ⟨v, hv⟩ := Option.isSome_iff_exists.mp ((h.running id).mpr ⟨j, hj, hs⟩)
  obtain ⟨i, hi, hc⟩ := h.runningScore id v hv
  rw [hj] at hi
  cases hi
  exact ⟨v, hv, hc⟩

/-- One job is rewritten, and the sorted sets have followed for that job alone. -/
theorem Timed.rewrite (h : Timed s) (hd : Deduped s') {j' : Job} (hj : s.jobs id = some j) (hstep : j.Step j')
    (hjobs : s'.jobs = Function.update s.jobs id (some j')) (hcampaign : s'.campaign = s.campaign)
    (hkind : ∀ k m, m ≠ id → (s'.queuedKind k).score? m = (s.queuedKind k).score? m)
    (hqueued : ∀ m, m ≠ id → s'.queued.score? m = s.queued.score? m)
    (hrunning : ∀ m, m ≠ id → s'.running.score? m = s.running.score? m)
    (hself : j'.status = .queued → (∀ v, (s'.queuedKind j'.kind).score? id = some v → v = j'.updatedAt) ∧
      ∀ v, s'.queued.score? id = some v → v = j'.updatedAt)
    (hrun : j'.status = .running → ∀ v, s'.running.score? id = some v → j'.claimedAt = some v) : Timed s' where
  toDeduped := hd
  kindScore := by
    intro k m v hv
    by_cases hm : m = id
    · subst hm
      obtain ⟨i, hi, hs, hk⟩ := (hd.queuedKind k m).mp (by rw [hv]; rfl)
      have hij : i = j' := by
        rw [hjobs, Function.update_self] at hi
        exact (Option.some.inj hi).symm
      subst hij
      subst hk
      exact ⟨i, hi, ((hself hs).1 v hv).symm⟩
    · rw [hkind k m hm] at hv
      rw [hjobs, Function.update_of_ne hm]
      exact h.kindScore k m v hv
  queuedScore := by
    intro m v hv
    by_cases hm : m = id
    · subst hm
      obtain ⟨i, hi, hs, -⟩ := (hd.queued m).mp (by rw [hv]; rfl)
      have hij : i = j' := by
        rw [hjobs, Function.update_self] at hi
        exact (Option.some.inj hi).symm
      subst hij
      exact ⟨i, hi, ((hself hs).2 v hv).symm⟩
    · rw [hqueued m hm] at hv
      rw [hjobs, Function.update_of_ne hm]
      exact h.queuedScore m v hv
  runningScore := by
    intro m v hv
    by_cases hm : m = id
    · subst hm
      obtain ⟨i, hi, hs⟩ := (hd.running m).mp (by rw [hv]; rfl)
      have hij : i = j' := by
        rw [hjobs, Function.update_self] at hi
        exact (Option.some.inj hi).symm
      subst hij
      exact ⟨i, hi, hrun hs v hv⟩
    · rw [hrunning m hm] at hv
      rw [hjobs, Function.update_of_ne hm]
      exact h.runningScore m v hv
  members := by
    intro c m
    rw [hcampaign, h.members c m, hjobs]
    by_cases hm : m = id
    · subst hm
      have hc : j'.campaignId = j.campaignId := hstep.keeps.2.1
      simp only [Function.update_self, hj, Option.some.injEq, exists_eq_left', hc]
    · rw [Function.update_of_ne hm]

/-- A score in a set of a kind that a command has touched for one job alone. -/
theorem score?_update_zrem (z : JobKind → SortedSet Int Ident) (kind k : JobKind) {m : Ident} (hm : m ≠ id) :
    (Function.update z kind ((z kind).zrem id) k).score? m = (z k).score? m := by
  by_cases hk : k = kind
  · subst hk
    rw [Function.update_self, SortedSet.score?_zrem, if_neg hm]
  · rw [Function.update_of_ne hk]

theorem score?_update_zadd (z : JobKind → SortedSet Int Ident) (kind k : JobKind) {m : Ident} (v : Int) (hm : m ≠ id) :
    (Function.update z kind ((z kind).zadd id v) k).score? m = (z k).score? m := by
  by_cases hk : k = kind
  · subst hk
    rw [Function.update_self, SortedSet.score?_zadd, if_neg hm]
  · rw [Function.update_of_ne hk]

/-! ## The transactions -/

/-- A queued job leaves the queues, for a worker or for good. -/
theorem Timed.dequeued (h : Timed s) (hd : Deduped s') {j' : Job} (hj : s.jobs id = some j)
    (hstep : j.Step j') (hq : j'.status ≠ .queued) (hjobs : s'.jobs = Function.update s.jobs id (some j'))
    (hcampaign : s'.campaign = s.campaign)
    (hkind : s'.queuedKind = Function.update s.queuedKind j.kind ((s.queuedKind j.kind).zrem id))
    (hqueued : s'.queued = s.queued.zrem id)
    (hrun : (∃ t, j'.claimedAt = some t ∧ s'.running = s.running.zadd id t) ∨
      (j'.status ≠ .running ∧ s'.running = s.running)) : Timed s' := by
  refine h.rewrite hd hj hstep hjobs hcampaign (fun k m hm => ?_) (fun m hm => ?_) (fun m hm => ?_)
    (fun h => absurd h hq) fun hr v hv => ?_
  · rw [hkind]
    exact score?_update_zrem _ _ _ hm
  · rw [hqueued, SortedSet.score?_zrem, if_neg hm]
  · rcases hrun with ⟨t, -, hrun⟩ | ⟨-, hrun⟩
    · rw [hrun, SortedSet.score?_zadd, if_neg hm]
    · rw [hrun]
  · rcases hrun with ⟨t, hc, hrun⟩ | ⟨hn, -⟩
    · rw [hrun, SortedSet.score?_zadd, if_pos rfl] at hv
      cases hv
      exact hc
    · exact absurd hr hn

/-- A running job is released, to the queue or for good. -/
theorem Timed.released (h : Timed s) {id : Ident} {j : Job} {status : JobStatus} {error : Option String} {now : Int}
    (hj : s.jobs id = some j) (hs : j.status = .running) (hstep : j.Step (j.released status error now))
    (hr : status ≠ .running) (hd : Deduped (if status = .queued then
      ((s.setJob id (j.released status error now)).zremRunning id).zaddQueues j.kind id now now
      else (s.setJob id (j.released status error now)).zremRunning id)) :
    Timed (if status = .queued then
      ((s.setJob id (j.released status error now)).zremRunning id).zaddQueues j.kind id now now
      else (s.setJob id (j.released status error now)).zremRunning id) := by
  split at hd
  · rename_i hq
    rw [if_pos hq]
    refine h.rewrite hd hj hstep (zaddQueues_jobs ..) ?_ (fun k m hm => ?_) (fun m hm => ?_) (fun m hm => ?_)
      (fun _ => ⟨fun v hv => ?_, fun v hv => ?_⟩) fun hrun => absurd hrun hr
    · unfold zaddQueues
      split <;> rfl
    · rw [zaddQueues_queuedKind]
      exact score?_update_zadd _ _ _ _ hm
    · rw [zaddQueues_queued]
      split
      · rw [SortedSet.score?_zadd, if_neg hm]
        rfl
      · rfl
    · rw [zaddQueues_running]
      exact (SortedSet.score?_zrem ..).trans (if_neg hm)
    · rw [zaddQueues_queuedKind, Job.released_kind, Function.update_self, SortedSet.score?_zadd, if_pos rfl] at hv
      exact (Option.some.inj hv).symm
    · have hnone : s.queued.score? id = none := by
        by_contra hne
        obtain ⟨i, hi, his, -⟩ := (h.queued id).mp (Option.isSome_iff_ne_none.mpr hne)
        rw [hj] at hi
        cases hi
        rw [hs] at his
        cases his
      rw [zaddQueues_queued] at hv
      split at hv
      · rw [SortedSet.score?_zadd, if_pos rfl] at hv
        exact (Option.some.inj hv).symm
      · have hv' : s.queued.score? id = some v := hv
        rw [hnone] at hv'
        cases hv'
  · rename_i hq
    rw [if_neg hq]
    refine h.rewrite hd hj hstep rfl rfl (fun _ _ _ => rfl) (fun _ _ => rfl) (fun m hm => ?_)
      (fun h => absurd h hq) fun hrun => absurd hrun hr
    exact (SortedSet.score?_zrem ..).trans (if_neg hm)

/-- The step that stores a new job. -/
theorem Timed.created (h : Timed s) {r : EnqueueRequest} {uuid : Ident} {now : Int} (hfresh : s.jobs uuid = none)
    (hd : Deduped s') (hjobs : s'.jobs = Function.update s.jobs uuid (some (r.newJob uuid now)))
    (hkind : s'.queuedKind = Function.update s.queuedKind r.kind ((s.queuedKind r.kind).zadd uuid now))
    (hqueued : s'.queued = if r.kind.usesGenericQueue then s.queued.zadd uuid now else s.queued)
    (hrunning : s'.running = s.running)
    (hcampaign : s'.campaign = Function.update s.campaign r.campaignId (sadd (s.campaign r.campaignId) uuid)) :
    Timed s' where
  toDeduped := hd
  kindScore := by
    intro k m v hv
    by_cases hm : m = uuid
    · subst hm
      refine ⟨r.newJob m now, by rw [hjobs, Function.update_self], ?_⟩
      rw [hkind] at hv
      by_cases hk : k = r.kind
      · subst hk
        rw [Function.update_self, SortedSet.score?_zadd, if_pos rfl] at hv
        exact Option.some.inj hv
      · rw [Function.update_of_ne hk] at hv
        obtain ⟨i, hi, -⟩ := h.kindScore k m v hv
        rw [hfresh] at hi
        cases hi
    · rw [hkind, score?_update_zadd _ _ _ _ hm] at hv
      rw [hjobs, Function.update_of_ne hm]
      exact h.kindScore k m v hv
  queuedScore := by
    intro m v hv
    rw [hqueued] at hv
    by_cases hm : m = uuid
    · subst hm
      refine ⟨r.newJob m now, by rw [hjobs, Function.update_self], ?_⟩
      split at hv
      · rw [SortedSet.score?_zadd, if_pos rfl] at hv
        exact Option.some.inj hv
      · obtain ⟨i, hi, -⟩ := h.queuedScore m v hv
        rw [hfresh] at hi
        cases hi
    · rw [hjobs, Function.update_of_ne hm]
      split at hv
      · rw [SortedSet.score?_zadd, if_neg hm] at hv
        exact h.queuedScore m v hv
      · exact h.queuedScore m v hv
  runningScore := by
    intro m v hv
    rw [hrunning] at hv
    obtain ⟨i, hi, hc⟩ := h.runningScore m v hv
    have hm : m ≠ uuid := by
      rintro rfl
      rw [hfresh] at hi
      cases hi
    exact ⟨i, by rw [hjobs, Function.update_of_ne hm, hi], hc⟩
  members := by
    intro c m
    have hmem : m ∈ s'.campaign c ↔ m ∈ s.campaign c ∨ (c = r.campaignId ∧ m = uuid) := by
      rw [hcampaign]
      by_cases hc : c = r.campaignId
      · subst hc
        rw [Function.update_self, sadd]
        split
        · rename_i hin
          exact ⟨.inl, fun h => h.elim (fun h => h) fun h => h.2 ▸ hin⟩
        · simp
      · rw [Function.update_of_ne hc]
        simp [hc]
    rw [hmem, h.members c m, hjobs]
    by_cases hm : m = uuid
    · subst hm
      rw [Function.update_self, hfresh]
      constructor
      · rintro (⟨j, hj, -⟩ | ⟨hc, -⟩)
        · cases hj
        · exact ⟨_, rfl, hc.symm⟩
      · rintro ⟨j, hj, hc⟩
        cases hj
        exact .inr ⟨hc.symm, rfl⟩
    · rw [Function.update_of_ne hm]
      simp [hm]

end

/-- What the commands that store a new job do to the sets. -/
theorem create_sets (r : EnqueueRequest) (uuid : Ident) (now score : Int) (s : RedisQueue) :
    (s.create r uuid now score).queuedKind =
        Function.update s.queuedKind r.kind ((s.queuedKind r.kind).zadd uuid score) ∧
      (s.create r uuid now score).queued = (if r.kind.usesGenericQueue then s.queued.zadd uuid score else s.queued) ∧
      (s.create r uuid now score).running = s.running ∧
      (s.create r uuid now score).campaign =
        Function.update s.campaign r.campaignId (sadd (s.campaign r.campaignId) uuid) := by
  unfold create zaddQueues
  split <;> exact ⟨rfl, rfl, rfl, rfl⟩

/-- A step reads one clock: that of its input, and for a new job the clock that its call has read. -/
def Synchronous : RedisStep → RedisReading → Prop
  | .create _ _ now score, _ | .createDedupe _ _ _ now score, _ => score = now
  | _, env => Together env

/-- Every step that reads one clock keeps the scores. -/
theorem apply_timed {s : RedisQueue} (h : Timed s) {t : RedisStep} (ht : t.Keyed) {env : RedisReading}
    (hsync : Synchronous t env) (hfresh : Fresh t env s) : Timed (apply t env s) := by
  have hd := apply_deduped h.toDeduped ht env hfresh
  cases t with
  | create r uuid now score =>
    cases (show score = now from hsync)
    obtain ⟨hk, hq, hr, hc⟩ := create_sets r uuid now now s
    exact h.created hfresh hd (create_jobs r uuid _ _ s) hk hq hr hc
  | createDedupe r key uuid now score =>
    cases (show score = now from hsync)
    simp only [apply] at hd ⊢
    unfold createDedupe at hd ⊢
    split at hd
    · exact h
    obtain ⟨hk, hq, hr, hc⟩ := create_sets r uuid now now s
    exact h.created hfresh hd (create_jobs r uuid _ _ s) hk hq hr hc
  | recover id cutoff =>
    obtain ⟨h1, h2⟩ : Together env := hsync
    simp only [apply] at hd ⊢
    unfold recover at hd ⊢
    split at hd
    · rename_i j score hj hscore
      split at hd
      · rename_i hc
        rw [if_pos hc]
        exact h
      rename_i hc
      rw [if_neg hc]
      push Not at hc
      simp only [h1, h2] at hd ⊢
      refine h.released hj hc.1 (Job.step_recovered j _ env.now hc.1) ?_ hd
      unfold Job.recoveredStatus
      split <;> decide
    · exact h
  | claimFront worker =>
    obtain ⟨h1, -⟩ : Together env := hsync
    simp only [apply] at hd ⊢
    rcases claimFront_eq h.toIndexed env worker with ⟨-, heq⟩ | ⟨id, j, -, hj, hs, -, hb, heq⟩
    · rw [heq]
      exact h
    · rw [heq] at hd ⊢
      exact h.dequeued hd hj (.claim j worker env.now hs hb) (by simp) rfl rfl rfl rfl (.inl ⟨env.now, rfl, by rw [h1]; rfl⟩)
  | claimMember worker kind id =>
    obtain ⟨h1, -⟩ : Together env := hsync
    simp only [apply] at hd ⊢
    rcases claimMember_eq h.toIndexed env worker kind id with ⟨j, hj, hs, -, hb, heq⟩ | ⟨hn, heq⟩
    · rw [heq] at hd ⊢
      exact h.dequeued hd hj (.claim j worker env.now hs hb) (by simp) rfl rfl rfl rfl (.inl ⟨env.now, rfl, by rw [h1]; rfl⟩)
    · rw [heq] at hd ⊢
      refine ⟨hd, fun k m v hv => h.kindScore k m v ?_, h.queuedScore, h.runningScore, h.members⟩
      simp only [zremKind] at hv
      by_cases hk : k = kind
      · subst hk
        rw [Function.update_self, SortedSet.score?_zrem] at hv
        split at hv
        · cases hv
        · exact hv
      · rwa [Function.update_of_ne hk] at hv
  | heartbeat id worker =>
    obtain ⟨h1, -⟩ : Together env := hsync
    simp only [apply] at hd ⊢
    unfold heartbeat at hd ⊢
    split at hd
    · exact h
    rename_i j hj
    split at hd
    · rename_i ho
      rw [if_pos ho]
      exact h
    rename_i ho
    rw [not_not] at ho
    rw [if_neg (not_not.mpr ho)]
    refine h.rewrite hd hj (.renew j env.now ho.1 (by rw [ho.2]; rfl)) rfl rfl (fun _ _ _ => rfl) (fun _ _ => rfl)
      (fun m hm => ?_) (fun hq => ?_) fun _ v hv => ?_
    · exact (SortedSet.score?_zadd ..).trans (if_neg hm)
    · rw [Job.renewed_status, ho.1] at hq
      cases hq
    · have hv' : some env.time = some v := ((SortedSet.score?_zadd ..).trans (if_pos rfl)).symm.trans hv
      cases hv'
      rw [h1]
      rfl
  | finish id worker success error =>
    obtain ⟨h1, h2⟩ : Together env := hsync
    simp only [apply] at hd ⊢
    unfold finish at hd ⊢
    split at hd
    · exact h
    rename_i j hj
    split at hd
    · rename_i ho
      rw [if_pos ho]
      exact h
    rename_i ho
    rw [not_not] at ho
    rw [if_neg (not_not.mpr ho)]
    simp only [h1, h2] at hd ⊢
    refine h.released hj ho.1 (Job.step_finished j success _ env.now ho.1) ?_ hd
    unfold Job.finishedStatus
    split
    · decide
    · split <;> decide
  | cancelMember campaign id =>
    simp only [apply] at hd ⊢
    unfold cancelMember at hd ⊢
    split at hd
    · exact h
    rename_i j hj
    split at hd
    · rename_i hc
      rw [if_pos hc]
      exact h
    rename_i hc
    rw [if_neg hc]
    push Not at hc
    exact h.dequeued hd hj (.cancel j _ env.now hc.1) (by simp) rfl rfl rfl rfl (.inr ⟨by simp, rfl⟩)
  | cancelOwned id worker reason =>
    simp only [apply] at hd ⊢
    unfold cancelOwned at hd ⊢
    split at hd
    · exact h
    rename_i j hj
    split at hd
    · rename_i ho
      rw [if_pos ho]
      exact h
    rename_i ho
    rw [not_not] at ho
    rw [if_neg (not_not.mpr ho)]
    refine h.rewrite hd hj (.stop j .cancelled _ env.now ho.1 rfl) rfl rfl (fun _ _ _ => rfl) (fun _ _ => rfl)
      (fun m hm => ?_) (fun hq => by cases hq) fun hr => by cases hr
    exact (SortedSet.score?_zrem ..).trans (if_neg hm)
  | _ => exact h

end RedisQueue

end XbowPerso
