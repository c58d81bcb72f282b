import XbowPerso.TextClock

/-!
# Texts of times are ordered as the times are

So each comparison of texts selects what the comparison of the times would have selected.
-/

namespace XbowPerso

namespace TextClock

open SqliteQueue (Expired claimable)
open ObserverLease (heartbeat isCurrent Answer)
open CircuitBreaker (ordered metadataText)

theorem utcnow_lt_iff (s t : Instant) : utcnow s < utcnow t ↔ s.1.microseconds < t.1.microseconds :=
  PyDateTime.isoformat_lt_iff s.2 t.2

theorem utcnow_eq_iff (s t : Instant) : utcnow s = utcnow t ↔ s.1.microseconds = t.1.microseconds := by
  refine ⟨fun h => ?_, fun h => ?_⟩
  · refine Nat.le_antisymm (Nat.le_of_not_lt fun hlt => ?_) (Nat.le_of_not_lt fun hlt => ?_)
    · exact absurd ((utcnow_lt_iff t s).mpr hlt) (by rw [h]; exact String.lt_irrefl _)
    · exact absurd ((utcnow_lt_iff s t).mpr hlt) (by rw [h]; exact String.lt_irrefl _)
  · cases s with | mk s hs =>
    cases t with | mk t ht =>
    cases s
    cases t
    cases h
    rfl

theorem utcnow_le_iff (s t : Instant) : utcnow s ≤ utcnow t ↔ s.1.microseconds ≤ t.1.microseconds := by
  rw [← not_lt, ← not_lt, utcnow_lt_iff]

/-! ## The queue -/

/-- The least of the images, for keys in the same order. -/
theorem argmin_map {α β γ δ : Type} [Preorder γ] [DecidableLT γ] [Preorder δ] [DecidableLT δ] (g : α → β) {f : β → γ} {k : α → δ}
    (h : ∀ x y, f (g x) < f (g y) ↔ k x < k y) (l : List α) : (l.map g).argmin f = (l.argmin k).map g := by
  induction l using List.reverseRecOn with
  | nil => rfl
  | append_singleton l x ih =>
    rw [List.map_append, List.map_singleton, List.argmin_concat, List.argmin_concat, ih]
    cases l.argmin k with
    | none => rfl
    | some y =>
      simp only [Option.map_some, h]
      split <;> rfl

/-- The rows of some jobs that a condition selects. -/
theorem filter_row {p : JobRow → Bool} {q : Job → Bool} (h : ∀ j : TimedJob, p j.row = q j.job) (jobs : List TimedJob) :
    (jobs.map TimedJob.row).filter p = (jobs.filter fun j => q j.job).map TimedJob.row := by
  rw [List.filter_map]
  exact congrArg _ (List.filter_congr fun j _ => h j)

theorem isClaimable_row (p : JobKind → Bool) (j : TimedJob) : isClaimable p j.row = claimable p j.job := rfl

theorem createdAt_lt_iff (i j : TimedJob) : i.row.createdAt < j.row.createdAt ↔ i.job.createdAt < j.job.createdAt := by
  rw [i.createdAt_eq, j.createdAt_eq, Nat.cast_lt (α := Int)]
  exact utcnow_lt_iff i.created j.created

theorem createdAt_eq_iff (i j : TimedJob) : i.row.createdAt = j.row.createdAt ↔ i.job.createdAt = j.job.createdAt := by
  rw [i.createdAt_eq, j.createdAt_eq, Nat.cast_inj (R := Int)]
  exact utcnow_eq_iff i.created j.created

/-- The jobs of the rows that are selected. -/
theorem argmin_row {γ δ : Type} [Preorder γ] [DecidableLT γ] [Preorder δ] [DecidableLT δ] {f : JobRow → γ} {f' : Job → δ}
    (h : ∀ i j : TimedJob, f i.row < f j.row ↔ f' i.job < f' j.job) (p : JobKind → Bool) (jobs : List TimedJob) :
    (((jobs.map TimedJob.row).filter (isClaimable p)).argmin f).map JobRow.id =
      (((jobs.map TimedJob.job).filter (claimable p)).argmin f').map Job.id := by
  rw [filter_row (isClaimable_row p), argmin_map TimedJob.row (k := fun j => f' j.job) h, List.filter_map,
    argmin_map TimedJob.job (k := fun j => f' j.job) fun _ _ => Iff.rfl, Option.map_map, Option.map_map]
  rfl

theorem selectOldest_row (p : JobKind → Bool) (jobs : List TimedJob) : (selectOldest p (jobs.map TimedJob.row)).map JobRow.id =
    (((jobs.map TimedJob.job).filter (claimable p)).argmin Job.createdAt).map Job.id :=
  argmin_row createdAt_lt_iff p jobs

theorem selectOldestById_row (p : JobKind → Bool) (jobs : List TimedJob) :
    (selectOldestById p (jobs.map TimedJob.row)).map JobRow.id =
      (((jobs.map TimedJob.job).filter (claimable p)).argmin fun j => toLex (j.createdAt, j.id)).map Job.id := by
  refine argmin_row (fun i j => ?_) p jobs
  rw [Prod.Lex.toLex_lt_toLex, Prod.Lex.toLex_lt_toLex, createdAt_lt_iff, createdAt_eq_iff]
  rfl

/-- A cutoff that can be written comes before a claim as a text does. -/
theorem isStale_row {cfg : QueueSettings} {now : Instant} {cutoff : PyDateTime}
    (hcutoff : now.1.addSeconds (-cfg.leaseSeconds) = some cutoff) (j : TimedJob) :
    isStale cutoff.isoformat j.row = decide (Expired cfg now.1.microseconds j.job) := by
  obtain ⟨hrange, hvalue⟩ := PyDateTime.addSeconds_some hcutoff
  have hclaimed : j.row.claimedAt = j.claimed.map utcnow := rfl
  rw [isStale, ← Bool.decide_eq_true (b := Option.any _ _), ← Bool.decide_and, decide_eq_decide, Expired, j.claimedAt_eq, hclaimed]
  refine and_congr Iff.rfl ?_
  cases j.claimed with
  | none => simp
  | some t =>
    have htext := utcnow_lt_iff t ⟨cutoff, hrange⟩
    rw [Option.map_some, Option.map_some, Option.any_some, decide_eq_true_eq]
    refine htext.trans ?_
    rw [QueueSettings.lease]
    simp only [Option.some.injEq, exists_eq_left']
    omega

theorem selectStale_row (cfg : QueueSettings) (now : Instant) (jobs : List TimedJob) :
    (selectStale cfg now (jobs.map TimedJob.row)).map (List.map JobRow.id) =
      match now.1.addSeconds (-cfg.leaseSeconds) with
      | none => .error (.overflowError "date value out of range")
      | some _ => .ok (((jobs.map TimedJob.job).filter fun j => decide (Expired cfg now.1.microseconds j)).map Job.id) := by
  unfold selectStale
  cases hcutoff : now.1.addSeconds (-cfg.leaseSeconds) with
  | none => rfl
  | some cutoff =>
    refine congrArg Except.ok ?_
    rw [filter_row (q := fun j => decide (Expired cfg now.1.microseconds j)) (isStale_row hcutoff), List.filter_map, List.map_map, List.map_map]
    rfl

/-! ## The lease of the observer -/

theorem heartbeat_eq (s : ObserverLease.State) (expires : Option Instant) (owner : String) (generation ttlSeconds : Int) (now : Instant)
    (hexpires : s.lease.expiresAt = expires.map Subtype.val) :
    (heartbeat s owner generation ttlSeconds now.1).2 =
      match now.1.addSeconds ttlSeconds with
      | none => .error (.overflowError "date value out of range")
      | some _ => .ok (.changed (isCurrent s.lease owner generation now.1)) := by
  have htext : (s.lease.expiresAt.any fun t => decide (now.1.isoformat < t.isoformat)) = s.lease.activeAt now.1 := by
    rw [ObserverLease.Lease.activeAt, hexpires]
    cases expires with
    | none => rfl
    | some t =>
      rw [Option.map_some, Option.any_some, decide_eq_decide]
      exact utcnow_lt_iff now t
  unfold heartbeat
  cases now.1.addSeconds ttlSeconds with
  | none => rfl
  | some _ =>
    dsimp only
    rw [htext, isCurrent]
    split
    · rename_i h
      rw [decide_eq_true h.1, decide_eq_true h.2.1, h.2.2]
      rfl
    · rename_i h
      refine congrArg (fun answer => Except.ok (Answer.changed answer)) (Eq.symm (Bool.eq_false_iff.mpr fun hcurrent => h ?_))
      simpa [and_assoc] using hcurrent

/-! ## The circuit breaker -/

theorem metadataText_at (env : BreakerEnv) (e : TimedEvent) : metadataText env e.observation "at" = utcnow e.time := by
  rw [metadataText, e.at_eq, env.str_str]
  by_cases hempty : utcnow e.time = ""
  · rw [hempty]
    split <;> rfl
  · rw [if_pos]
    simpa [AuditSeal.truthy] using hempty

theorem ordered_events (env : BreakerEnv) (events : List TimedEvent) :
    ordered env (events.map TimedEvent.observation) =
      (events.insertionSort fun a b => a.time.1.microseconds ≤ b.time.1.microseconds).map TimedEvent.observation := by
  refine (List.map_insertionSort _ _ _ _ fun a _ b _ => ?_).symm
  rw [metadataText_at, metadataText_at]
  exact (utcnow_le_iff a.time b.time).symm

/-! ## All of them -/

/-- Texts of times are ordered as the times are, so the stale leases, the oldest job, the lease that is held still and the latest event
are those by the clock. -/
theorem text_order :
    (∀ s t : Instant, (utcnow s < utcnow t ↔ s.1.microseconds < t.1.microseconds) ∧
      (utcnow s = utcnow t ↔ s.1.microseconds = t.1.microseconds)) ∧
    (∀ (cfg : QueueSettings) (now : Instant) (jobs : List TimedJob),
      (selectStale cfg now (jobs.map TimedJob.row)).map (List.map JobRow.id) =
        match now.1.addSeconds (-cfg.leaseSeconds) with
        | none => .error (.overflowError "date value out of range")
        | some _ => .ok (((jobs.map TimedJob.job).filter fun j => decide (Expired cfg now.1.microseconds j)).map Job.id)) ∧
    (∀ (p : JobKind → Bool) (jobs : List TimedJob),
      (selectOldest p (jobs.map TimedJob.row)).map JobRow.id =
          (((jobs.map TimedJob.job).filter (claimable p)).argmin Job.createdAt).map Job.id ∧
        (selectOldestById p (jobs.map TimedJob.row)).map JobRow.id =
          (((jobs.map TimedJob.job).filter (claimable p)).argmin fun j => toLex (j.createdAt, j.id)).map Job.id) ∧
    (∀ (document : String) (version : Int) (holder : Option String) (expires : Option Instant) (held : Int) (owner : String)
      (generation ttlSeconds : Int) (now : Instant),
      (heartbeat ⟨⟨holder, expires.map Subtype.val, held⟩, document, version⟩ owner generation ttlSeconds now.1).2 =
        match now.1.addSeconds ttlSeconds with
        | none => .error (.overflowError "date value out of range")
        | some _ => .ok (.changed (isCurrent ⟨holder, expires.map Subtype.val, held⟩ owner generation now.1))) ∧
    ∀ (env : BreakerEnv) (events : List TimedEvent), ordered env (events.map TimedEvent.observation) =
      (events.insertionSort fun a b => a.time.1.microseconds ≤ b.time.1.microseconds).map TimedEvent.observation :=
  ⟨fun s t => ⟨utcnow_lt_iff s t, utcnow_eq_iff s t⟩, selectStale_row,
    fun p jobs => ⟨selectOldest_row p jobs, selectOldestById_row p jobs⟩,
    fun _ _ _ expires _ owner generation ttlSeconds now => heartbeat_eq _ expires owner generation ttlSeconds now rfl, ordered_events⟩

end TextClock

end XbowPerso
