import XbowPerso.Lemmas.QueueRecovery
import XbowPerso.Lemmas.RedisAlone

/-!
# The assessment of the queue and its recovery

The assessment of a queue that its own calls have filled finds no critical issue. The expired leases that it reports are those that
the recovery of the SQLite queue ends, as far as its list of details reaches; the recovery of the Redis queue goes by the score of a
job, and ends a lease also at the very instant of its expiry.
-/

namespace XbowPerso

namespace QueueRecovery

open SqliteQueue (Expired Event run recoverExpired recoverRow find?_of_mem run_from_empty run_claimedUntil
  recoverExpired_find? call_effect)

variable (u : Unicode)

/-- The assessment finds no critical issue, and it reports an expired lease for exactly the jobs that the recovery takes out of
running. -/
def AgreesWith (recovered : Ident → Prop) (out : Except PyError Report) : Prop :=
  ∃ report, out = .ok report ∧ report.criticalIssues = 0 ∧ (∀ issue ∈ report.issues, issue.code.severity = .warning) ∧
    ∀ id : Ident, ⟨some id.text, .expiredRunningLease⟩ ∈ report.issues ↔ recovered id

/-- A job that runs before a call and not after it. -/
def LeavesRunning (before after : JobStore) (id : Ident) : Prop :=
  ∃ j j', before id = some j ∧ j.status = .running ∧ after id = some j' ∧ j'.status ≠ .running

/-! ## The rows of jobs -/

theorem text_take (id : Ident) : id.text.toList.take 200 = id.text.toList := by
  apply List.take_of_length_le
  rw [String.length_toList]
  exact id.bounded

@[simp] theorem jobId_ofJob (j : Job) : (SnapshotRow.ofJob j).jobId = j.id.text := by
  rw [SnapshotRow.jobId]
  show String.ofList (j.id.text.toList.take 200) = j.id.text
  rw [text_take, String.ofList_toList]

theorem isPlain_word (status : JobStatus) : ReviewEvidence.isPlain status.word = true := by
  cases status <;> decide +kernel

theorem word_mem_knownStatuses (status : JobStatus) : status.word ∈ knownStatuses := by
  cases status <;> decide

theorem word_ne_empty (status : JobStatus) : status.word ≠ "" := by
  cases status <;> decide

theorem word_eq_running {status : JobStatus} : status.word = "running" ↔ status = .running := by
  cases status <;> decide

theorem word_eq_queued {status : JobStatus} : status.word = "queued" ↔ status = .queued := by
  cases status <;> decide

@[simp] theorem statusText_ofJob (j : Job) : (SnapshotRow.ofJob j).statusText u = j.status.word := by
  show ReviewEvidence.folded u (if j.status.word = "" then "unknown" else j.status.word) = _
  rw [if_neg (word_ne_empty j.status)]
  exact ReviewEvidence.folded_of_isPlain (isPlain_word j.status)

@[simp] theorem hasOwner_ofJob (j : Job) : (SnapshotRow.ofJob j).hasOwner = j.claimedBy.isSome := by
  show decide (PyText.strip ((j.claimedBy.map Ident.text).getD "") ≠ "") = _
  cases j.claimedBy with
  | none => decide
  | some worker =>
    show decide (PyText.strip worker.text ≠ "") = true
    rw [worker.stripped]
    exact decide_eq_true worker.notBlank

variable {j : Job}

theorem claimedAt_ofJob_of_none (h : j.claimedAt = none) : (SnapshotRow.ofJob j).claimedAt = .blank := by
  simp only [SnapshotRow.ofJob, h]

theorem claimedAt_ofJob_of_some {t : Int} (h : j.claimedAt = some t) : (SnapshotRow.ofJob j).claimedAt = .time t := by
  simp only [SnapshotRow.ofJob, h]

/-- The attempts of a well-formed job raise no issue. -/
theorem retryIssues_ofJob (hw : j.WellFormed) (hmax : 1 ≤ j.maxAttempts) : retryIssues u (.ofJob j) = [] := by
  have hvalid : 1 ≤ j.maxAttempts ∧ 0 ≤ j.attempts ∧ j.attempts ≤ j.maxAttempts :=
    ⟨hmax, hw.attempts_nonneg, hw.attempts_le⟩
  have hbudget : ¬ (j.status.word = "queued" ∧ j.maxAttempts ≤ j.attempts) := by
    rintro ⟨hq, hle⟩
    have := hw.queued (word_eq_queued.mp hq)
    omega
  show (if 1 ≤ j.maxAttempts ∧ 0 ≤ j.attempts ∧ j.attempts ≤ j.maxAttempts then
    if (SnapshotRow.ofJob j).statusText u = "queued" ∧ j.maxAttempts ≤ j.attempts then [.queuedRetryBudgetExhausted] else []
    else [.invalidRetryState]) = ([] : List IssueCode)
  rw [if_pos hvalid, statusText_ofJob, if_neg hbudget]

variable {now : Int}

/-- What the loop says about the row of a job: its lease has expired, or nothing. -/
theorem rowIssues_ofJob (cfg : QueueSettings) {seen : List String} (hw : j.WellFormed)
    (hb : InBounds now j) (hseen : j.id.text ∉ seen) :
    rowIssues u now cfg.lease seen (.ofJob j) = if Expired cfg now j then [.expiredRunningLease] else [] := by
  have hdup : ¬ ((SnapshotRow.ofJob j).jobId ∈ seen ∧ (SnapshotRow.ofJob j).jobId ≠ "") := by
    rw [jobId_ofJob]
    exact fun h => hseen h.1
  have hknown : (SnapshotRow.ofJob j).statusText u ∈ knownStatuses := by
    rw [statusText_ofJob]
    exact word_mem_knownStatuses j.status
  rw [rowIssues, if_neg hdup, if_pos hknown, retryIssues_ofJob u hw hb.retries, List.append_nil, List.nil_append,
    List.nil_append, statusText_ofJob]
  by_cases hrun : j.status = .running
  · obtain ⟨howner, hclaim⟩ := hw.running hrun
    obtain ⟨t, ht⟩ := Option.isSome_iff_exists.mp hclaim
    have hfuture : ¬ now + futureTolerance < t := by
      have := hb.claimed t ht
      unfold futureTolerance
      omega
    rw [if_pos (word_eq_running.mpr hrun), runningIssues, hasOwner_ofJob, if_pos howner, claimedAt_ofJob_of_some ht,
      List.nil_append]
    simp only [if_neg hfuture]
    by_cases hlt : t < now - cfg.lease
    · rw [if_pos hlt, if_pos ⟨hrun, t, ht, hlt⟩]
    · rw [if_neg hlt, if_neg]
      rintro ⟨-, t', ht', hlt'⟩
      rw [ht] at ht'
      cases ht'
      exact hlt hlt'
  · obtain ⟨howner, hclaim⟩ := hw.idle hrun
    have hfields : ¬ ((SnapshotRow.ofJob j).hasOwner = true ∨ (SnapshotRow.ofJob j).claimedAt ≠ .blank) := by
      rw [hasOwner_ofJob, howner, claimedAt_ofJob_of_none hclaim]
      rintro (h | h)
      · cases h
      · exact h rfl
    rw [if_neg (fun h => hrun (word_eq_running.mp h)), if_neg hfields, if_neg fun h => hrun h.1]

/-- The entry of an expired lease. -/
def expiredIssue (j : Job) : Issue := ⟨some j.id.text, .expiredRunningLease⟩

variable {jobs : List Job}

/-- The rows of different jobs raise the issues of the expired leases, in their order. -/
theorem assess_ofJobs (cfg : QueueSettings) (hjobs : ∀ j ∈ jobs, j.WellFormed ∧ InBounds now j)
    (hnodup : (jobs.map Job.id).Nodup) (seen : List String) (hseen : ∀ j ∈ jobs, j.id.text ∉ seen) :
    assess u now cfg.lease seen (jobs.map .ofJob) =
      (jobs.filter fun j => decide (Expired cfg now j)).map expiredIssue := by
  induction jobs generalizing seen with
  | nil => rfl
  | cons j jobs ih =>
    obtain ⟨hw, hb⟩ := hjobs j List.mem_cons_self
    rw [List.map_cons, List.nodup_cons] at hnodup
    have hnew : j.id.text ∉ seen := hseen j List.mem_cons_self
    have hnext : ¬ (j.id.text ∈ seen ∨ j.id.text = "") := fun h => h.elim hnew j.id.notBlank
    have hrest : ∀ i ∈ jobs, i.id.text ∉ j.id.text :: seen := by
      intro i hi hmem
      rcases List.mem_cons.mp hmem with heq | hmem
      · exact hnodup.1 (Ident.text_injective heq ▸ List.mem_map_of_mem hi)
      · exact hseen i (List.mem_cons_of_mem j hi) hmem
    rw [List.map_cons, assess, rowIssues_ofJob u cfg hw hb hnew, jobId_ofJob, if_neg hnext,
      ih (fun i hi => hjobs i (List.mem_cons_of_mem j hi)) hnodup.2 _ hrest]
    by_cases hx : Expired cfg now j
    · rw [if_pos hx, List.filter_cons, if_pos (decide_eq_true hx)]
      rfl
    · rw [if_neg hx, List.filter_cons, if_neg fun h => hx (of_decide_eq_true h)]
      rfl

/-- The jobs that the list of details names. -/
def reported (cfg : QueueSettings) (now : Int) (jobs : List Job) : List Ident :=
  (((jobs.filter fun j => decide (SqliteQueue.Expired cfg now j)).take maxIssueDetails).map Job.id)

variable {cfg : QueueSettings}

theorem mem_expired {id : Ident}
    (h : id ∈ reported cfg now jobs) : ∃ j ∈ jobs, j.id = id ∧ Expired cfg now j := by
  obtain ⟨j, hj, hid⟩ := List.mem_map.mp h
  obtain ⟨hmem, hx⟩ := List.mem_filter.mp (List.mem_of_mem_take hj)
  exact ⟨j, hmem, hid, of_decide_eq_true hx⟩

/-- Details of at most two hundred leases name them all. -/
theorem mem_reported
    (hfew : jobs.countP (fun j => decide (Expired cfg now j)) ≤ maxIssueDetails) (hj : j ∈ jobs)
    (hx : Expired cfg now j) : j.id ∈ reported cfg now jobs := by
  rw [List.countP_eq_length_filter] at hfew
  rw [reported, List.take_of_length_le hfew]
  exact List.mem_map_of_mem (List.mem_filter.mpr ⟨hj, decide_eq_true hx⟩)

/-- A list without repetitions that is no longer than a part of itself covers it. -/
theorem length_le_of_subset_take {α : Type} {l : List α} {n : Nat} (hnodup : l.Nodup) (h : ∀ a ∈ l, a ∈ l.take n) :
    l.length ≤ n := by
  by_contra hlong
  have hdrop : l.drop n ≠ [] := by
    rw [Ne, List.drop_eq_nil_iff]
    exact hlong
  obtain ⟨a, ha⟩ := List.exists_mem_of_ne_nil _ hdrop
  have hparts := hnodup
  rw [← List.take_append_drop n l, List.nodup_append] at hparts
  exact hparts.2.2 a (h a (List.mem_of_mem_drop ha)) a ha rfl

/-- The issues that the expired leases raise. -/
def expiredIssues (cfg : QueueSettings) (now : Int) (jobs : List Job) : List Issue :=
  (jobs.filter fun j => decide (Expired cfg now j)).map expiredIssue

/-- What is reported about the rows of different jobs, all of them in the snapshot: the expired leases. -/
theorem analyze_rows (cfg : QueueSettings) (hjobs : ∀ j ∈ jobs, j.WellFormed ∧ InBounds now j)
    (hnodup : (jobs.map Job.id).Nodup) :
    ∃ report, analyzeQueueRecovery u (jobs.map .ofJob) cfg.leaseSeconds (some jobs.length) now = .ok report ∧
      report.issues = (expiredIssues cfg now jobs).take maxIssueDetails ∧
      report.criticalIssues = (expiredIssues cfg now jobs).countP (fun issue => decide (issue.code.severity = .critical)) ∧
      (report.safeToResume = true ↔ ∀ j ∈ jobs, ¬ Expired cfg now j) := by
  have hassess : assess u now (cfg.leaseSeconds * 1000000) [] (jobs.map .ofJob) = expiredIssues cfg now jobs :=
    assess_ofJobs u cfg hjobs hnodup [] fun _ _ => List.not_mem_nil
  have htotal : ¬ (((jobs.map SnapshotRow.ofJob).length : Int) < max 0 (jobs.length : Int)) := by
    rw [List.length_map, Int.max_eq_right (Int.natCast_nonneg _)]
    exact Int.lt_irrefl _
  have hsafe : (expiredIssues cfg now jobs).isEmpty = true ↔ ∀ j ∈ jobs, ¬ Expired cfg now j := by
    rw [List.isEmpty_iff, expiredIssues, List.map_eq_nil_iff, List.filter_eq_nil_iff]
    simp only [decide_eq_true_eq]
  rw [analyzeQueueRecovery, if_pos ⟨cfg.lease_ge, cfg.lease_le⟩]
  simp only [decide_eq_false htotal, Bool.false_eq_true, if_false, List.append_nil, hassess]
  exact ⟨_, rfl, rfl, rfl, hsafe⟩

/-- Such an assessment agrees with a recovery of the jobs that it names. -/
theorem analyze_ofJobs (cfg : QueueSettings) (hjobs : ∀ j ∈ jobs, j.WellFormed ∧ InBounds now j)
    (hnodup : (jobs.map Job.id).Nodup) (recovered : Ident → Prop) :
    AgreesWith recovered (analyzeQueueRecovery u (jobs.map .ofJob) cfg.leaseSeconds (some jobs.length) now) ↔
      ∀ id, id ∈ reported cfg now jobs ↔ recovered id := by
  obtain ⟨report, heq, hissues, hcritical, -⟩ := analyze_rows u cfg hjobs hnodup
  have hwarning : ∀ issue ∈ expiredIssues cfg now jobs, issue.code.severity = .warning := by
    intro issue hissue
    obtain ⟨j, -, rfl⟩ := List.mem_map.mp hissue
    rfl
  have hmem : ∀ id : Ident, ⟨some id.text, .expiredRunningLease⟩ ∈ report.issues ↔ id ∈ reported cfg now jobs := by
    intro id
    rw [hissues, expiredIssues, ← List.map_take, reported, List.mem_map, List.mem_map]
    constructor
    · rintro ⟨j, hj, heq⟩
      injection heq with hid
      exact ⟨j, hj, Ident.text_injective (Option.some.inj hid)⟩
    · rintro ⟨j, hj, rfl⟩
      exact ⟨j, hj, rfl⟩
  rw [heq]
  constructor
  · rintro ⟨report', heq', -, -, h⟩ id
    cases heq'
    rw [← hmem]
    exact h id
  · intro h
    refine ⟨report, rfl, ?_, ?_, fun id => ?_⟩
    · rw [hcritical, List.countP_eq_zero]
      intro issue hissue
      rw [hwarning issue hissue]
      decide
    · rw [hissues]
      exact fun issue hissue => hwarning issue (List.mem_of_mem_take hissue)
    · rw [hmem]
      exact h id

/-! ## The SQLite queue -/

/-- The recovery takes a job of the table out of running when its lease has expired. -/
theorem leavesRunning_sqlite (cfg : QueueSettings) (env : Reading) (q : SqliteQueue) (id : Ident) :
    LeavesRunning q.store (q.recoverExpiredLeases cfg env).2.store id ↔
      ∃ j ∈ q.rows, j.id = id ∧ Expired cfg env.now j := by
  constructor
  · rintro ⟨j, j', hj, hrun, hj', hout⟩
    obtain ⟨hmem, hid⟩ := (q.find?_eq_some id j).mp hj
    have hrow : some j' = (some j).map (recoverRow cfg env.now) :=
      hj'.symm.trans ((recoverExpired_find? cfg env.now q id).trans (congrArg _ hj))
    rw [Option.map_some, Option.some.injEq] at hrow
    refine ⟨j, hmem, hid, ?_⟩
    by_contra hx
    rw [recoverRow, if_neg hx] at hrow
    rw [hrow] at hout
    exact hout hrun
  · rintro ⟨j, hmem, rfl, hx⟩
    have hj := find?_of_mem hmem
    refine ⟨j, recoverRow cfg env.now j, hj, hx.1, ?_, ?_⟩
    · exact (recoverExpired_find? cfg env.now q j.id).trans (by rw [hj]; rfl)
    · rw [recoverRow, if_pos hx]
      exact RedisQueue.recoveredStatus_ne_running j

theorem sqliteAssessment_eq {q : SqliteQueue} (hfew : q.rows.length ≤ maxRecoveryJobs) :
    sqliteAssessment u cfg now q =
      analyzeQueueRecovery u ((sqliteRows q).map .ofJob) cfg.leaseSeconds (some (sqliteRows q).length) now := by
  have hlength : (sqliteRows q).length = q.rows.length := List.length_insertionSort ..
  have hlimit : 1 ≤ maxRecoveryJobs ∧ maxRecoveryJobs ≤ 5000 := by decide
  have hsnapshot : sqliteSnapshot maxRecoveryJobs q = .ok ((sqliteRows q).map .ofJob) := by
    rw [sqliteSnapshot, bounded, if_pos hlimit, List.take_of_length_le (hlength ▸ hfew)]
    rfl
  rw [sqliteAssessment, hsnapshot, hlength]

/-- The rows of a table that a run has filled. -/
theorem sqliteRows_run {events : List Event} (hnow : ∀ e ∈ events, e.env.now ≤ now) :
    (∀ j ∈ sqliteRows (run Table.empty events), j.WellFormed ∧ InBounds now j) ∧
      ((sqliteRows (run Table.empty events)).map Job.id).Nodup := by
  have hperm := List.perm_insertionSort (fun a b : Job => toLex (a.createdAt, a.id) ≤ toLex (b.createdAt, b.id))
    (run Table.empty events).rows
  refine ⟨fun j hj => ?_, (hperm.map Job.id).nodup_iff.mpr (run Table.empty events).primary⟩
  have hfind := find?_of_mem (hperm.mem_iff.mp hj)
  have hw := (run_from_empty events).wellFormed (fun _ _ h => (by cases h)) j.id j hfind
  exact ⟨hw, run_claimedUntil events hnow (fun _ _ h => (by cases h)) j.id j hfind⟩

/-- The assessment of a table that a run has filled agrees with its recovery, unless the details leave an expired lease out. -/
theorem sqlite_agrees {events : List Event} {env : Reading}
    (hnow : ∀ e ∈ events, e.env.now ≤ env.now)
    (hfew : (run Table.empty events).rows.length ≤ maxRecoveryJobs) :
    let q := run Table.empty events
    AgreesWith (LeavesRunning q.store (q.recoverExpiredLeases cfg env).2.store) (sqliteAssessment u cfg env.now q) ↔
      q.rows.countP (fun j => decide (Expired cfg env.now j)) ≤ maxIssueDetails := by
  intro q
  have hperm : (sqliteRows q).Perm q.rows := List.perm_insertionSort _ _
  have hmem : ∀ j, j ∈ sqliteRows q ↔ j ∈ q.rows := fun j => hperm.mem_iff
  have hcount := hperm.countP_eq fun j => decide (Expired cfg env.now j)
  obtain ⟨hjobs, hnodup⟩ := sqliteRows_run hnow
  rw [sqliteAssessment_eq u hfew, analyze_ofJobs u cfg hjobs hnodup, ← hcount]
  simp only [leavesRunning_sqlite]
  constructor
  · intro h
    rw [List.countP_eq_length_filter]
    refine length_le_of_subset_take (List.Nodup.of_map Job.id (hnodup.sublist (List.filter_sublist.map _))) fun j hj => ?_
    obtain ⟨hin, hx⟩ := List.mem_filter.mp hj
    obtain ⟨i, hi, hid⟩ := List.mem_map.mp ((h j.id).mpr ⟨j, (hmem j).mp hin, rfl, of_decide_eq_true hx⟩)
    have hsame : i = j := List.inj_on_of_nodup_map hnodup (List.mem_of_mem_filter (List.mem_of_mem_take hi)) hin hid
    exact hsame ▸ hi
  · intro h id
    constructor
    · intro hid
      obtain ⟨j, hj, hjid, hx⟩ := mem_expired hid
      exact ⟨j, (hmem j).mp hj, hjid, hx⟩
    · rintro ⟨j, hj, rfl, hx⟩
      exact mem_reported h ((hmem j).mpr hj) hx

theorem sqlite_safe {events : List Event} (hnow : ∀ e ∈ events, e.env.now ≤ now)
    (hfew : (run Table.empty events).rows.length ≤ maxRecoveryJobs) :
    ∃ report, sqliteAssessment u cfg now (run Table.empty events) = .ok report ∧
      (report.safeToResume = true ↔ ∀ j ∈ (run Table.empty events).rows, ¬ Expired cfg now j) := by
  obtain ⟨hjobs, hnodup⟩ := sqliteRows_run hnow
  obtain ⟨report, heq, -, -, hsafe⟩ := analyze_rows u cfg hjobs hnodup
  rw [sqliteAssessment_eq u hfew]
  simp only [sqliteRows, List.mem_insertionSort] at hsafe
  exact ⟨report, heq, hsafe⟩

theorem not_expired_recoverExpired {q : SqliteQueue} {j : Job} (hj : j ∈ (recoverExpired cfg now q).2.rows) :
    ¬ Expired cfg now j := by
  obtain ⟨i, -, rfl⟩ := List.mem_map.mp hj
  dsimp only [recoverRow]
  split
  · rintro ⟨-, t, ht, -⟩
    cases ht
  · assumption

/-- A recovery, and a call that hands a job out, leaves no expired lease. -/
theorem not_expired_call {env : Reading} {q : SqliteQueue} {c : QueueCall}
    (hcall : c = .recoverExpiredLeases ∨ (c.handed (q.call cfg env c).1).isSome = true) :
    ∀ j ∈ (q.call cfg env c).2.rows, ¬ Expired cfg env.now j := by
  intro j hj
  rcases hcall with rfl | hhanded
  · exact not_expired_recoverExpired hj
  · have heffect := call_effect cfg env q c
    generalize c.handed (q.call cfg env c).1 = handed, (q.call cfg env c).2 = q' at heffect hhanded hj
    cases heffect with
    | claimed heff =>
      cases heff with
      | idle hn => exact not_expired_recoverExpired hj
      | handed row _ hr hc hmin hq =>
        have hfind := find?_of_mem hj
        rw [hq] at hfind
        split at hfind
        · -- the job that is handed out was claimed now
          cases hfind
          rintro ⟨-, t, ht, hlt⟩
          cases ht
          have := cfg.lease_ge
          unfold QueueSettings.lease at hlt
          omega
        · exact not_expired_recoverExpired (((recoverExpired cfg env.now q).2.find?_eq_some _ _).mp hfind).1
    | _ => cases hhanded

/-! ## The Redis queue -/

section Redis

open RedisQueue Interleave

/-- A running job that the recovery takes: its score is at most the cutoff. -/
def Due (cutoff : Int) (s : RedisQueue) (id : Ident) : Prop :=
  ∃ j score, s.jobs id = some j ∧ j.status = .running ∧ s.running.score? id = some score ∧ score ≤ cutoff

/-- The transaction of the recovery on a job that is due. -/
theorem recover_of_due {cutoff : Int} {s : RedisQueue} {id : Ident} (env : RedisReading) (h : Due cutoff s id) :
    (∀ m, (s.recover id cutoff env).1.jobs m = if m = id then
      (s.jobs m).map (fun j => j.released j.recoveredStatus (some Job.expiredError) env.now) else s.jobs m) ∧
    (s.recover id cutoff env).1.running = s.running.zrem id := by
  obtain ⟨j, score, hj, hrun, hscore, hle⟩ := h
  have hc : ¬ (j.status ≠ .running ∨ cutoff < score) := by
    rintro (hc | hc)
    · exact hc hrun
    · exact absurd hle (not_le.mpr hc)
  have hjobs : ∀ m, Function.update s.jobs id (some (j.released j.recoveredStatus (some Job.expiredError) env.now)) m =
      if m = id then (s.jobs m).map (fun j => j.released j.recoveredStatus (some Job.expiredError) env.now) else s.jobs m := by
    intro m
    rw [Function.update_apply]
    split
    · rename_i hm
      rw [hm, hj]
      rfl
    · rfl
  simp only [recover, hj, hscore, if_neg hc]
  split
  · exact ⟨fun m => (congrFun (zaddQueues_jobs ..) m).trans (hjobs m), zaddQueues_running ..⟩
  · exact ⟨hjobs, rfl⟩

/-- The loop of the recovery over jobs that are due. -/
theorem recoverEach_alone (cutoff : Int) (env : RedisReading) {ids : List Ident} (hnodup : ids.Nodup) (n : Nat) {s : RedisQueue}
    (hdue : ∀ id ∈ ids, Due cutoff s id) :
    ∀ m, ((Prog.foldl (fun n id => (Prog.atomic (RedisStep.recover id cutoff) fun env s => s.recover id cutoff env).bind fun b =>
        .done (if b then n + 1 else n)) n ids).alone env s).2.jobs m =
      if m ∈ ids then (s.jobs m).map (fun j => j.released j.recoveredStatus (some Job.expiredError) env.now) else s.jobs m := by
  induction ids generalizing n s with
  | nil => exact fun m => (if_neg List.not_mem_nil).symm
  | cons id ids ih =>
    rw [List.nodup_cons] at hnodup
    obtain ⟨hjobs, hrunning⟩ := recover_of_due env (hdue id List.mem_cons_self)
    have hrest : ∀ i ∈ ids, Due cutoff (s.recover id cutoff env).1 i := by
      intro i hi
      have hne : i ≠ id := fun h => hnodup.1 (h ▸ hi)
      obtain ⟨j, score, hj, hrun, hscore, hle⟩ := hdue i (List.mem_cons_of_mem id hi)
      refine ⟨j, score, ?_, hrun, ?_, hle⟩
      · rw [hjobs, if_neg hne, hj]
      · rw [hrunning, SortedSet.score?_zrem, if_neg hne, hscore]
    simp only [Prog.foldl, Prog.alone_bind, Prog.alone_atomic, Prog.alone_done]
    intro m
    rw [ih hnodup.2 _ hrest m, hjobs]
    by_cases hm : m = id
    · subst hm
      rw [if_neg hnodup.1, if_pos rfl, if_pos List.mem_cons_self]
    · rw [if_neg hm]
      by_cases hin : m ∈ ids
      · rw [if_pos hin, if_pos (List.mem_cons_of_mem id hin)]
      · rw [if_neg hin, if_neg (List.not_mem_cons_of_ne_of_not_mem hm hin)]

/-- The recovery takes a job of the Redis queue out of running when it is due. -/
theorem leavesRunning_redis {s : RedisQueue} (h : Indexed s) (cfg : QueueSettings) (env : Reading) (id : Ident) :
    LeavesRunning s.jobs ((recoverExpiredLeases cfg).alone env.redis s).2.jobs id ↔ Due (env.now - cfg.lease) s id := by
  have hnodup : (s.running.rangeByScore (env.now - cfg.lease)).Nodup :=
    s.running.nodup_rangeByScore _
  have hdue : ∀ m ∈ s.running.rangeByScore (env.now - cfg.lease), Due (env.now - cfg.lease) s m := by
    intro m hm
    obtain ⟨score, hscore, hle⟩ := (SortedSet.mem_rangeByScore _ _ _).mp hm
    obtain ⟨j, hj, hrun⟩ := (h.running m).mp (by rw [hscore]; rfl)
    exact ⟨j, score, hj, hrun, hscore, hle⟩
  have hjobs := recoverEach_alone (env.now - cfg.lease) env.redis hnodup 0 hdue
  simp only [recoverExpiredLeases, Prog.alone_bind, Prog.alone_read]
  constructor
  · rintro ⟨j, j', hj, hrun, hj', hout⟩
    by_contra hnot
    have hin : id ∉ s.running.rangeByScore (env.now - cfg.lease) := fun hin => hnot (hdue id hin)
    have hsame := hjobs id
    rw [if_neg hin, hj] at hsame
    cases hsame.symm.trans hj'
    exact hout hrun
  · intro hd
    obtain ⟨j, score, hj, hrun, hscore, hle⟩ := hd
    have hin : id ∈ s.running.rangeByScore (env.now - cfg.lease) := (SortedSet.mem_rangeByScore _ _ _).mpr ⟨score, hscore, hle⟩
    refine ⟨j, j.released j.recoveredStatus (some Job.expiredError) env.now, hj, hrun, ?_, recoveredStatus_ne_running j⟩
    exact (hjobs id).trans (by rw [if_pos hin, hj]; rfl)

/-- The jobs of the set of all jobs, in the order of their identifiers. -/
def redisJobs (s : RedisQueue) : List Job := (redisIds s).filterMap s.jobs

variable {s : RedisQueue}

/-- Identifiers with a job each: their rows are those of the jobs, and the jobs have these identifiers. -/
theorem rows_of_ids (h : Indexed s) {ids : List Ident} (hids : ∀ id ∈ ids, (s.jobs id).isSome = true) :
    ids.map (redisRow s) = (ids.filterMap s.jobs).map .ofJob ∧ (ids.filterMap s.jobs).map Job.id = ids := by
  induction ids with
  | nil => exact ⟨rfl, rfl⟩
  | cons id ids ih =>
    obtain ⟨hrows, hnames⟩ := ih fun i hi => hids i (List.mem_cons_of_mem id hi)
    obtain ⟨j, hj⟩ := Option.isSome_iff_exists.mp (hids id List.mem_cons_self)
    have hid : j.id = id := h.ids id j hj
    have hrow : redisRow s id = SnapshotRow.ofJob j := by
      rw [redisRow, hj, ← hid]
      rfl
    rw [List.filterMap_cons_some hj, List.map_cons, List.map_cons, List.map_cons, hrow, hrows, hnames, hid]
    exact ⟨rfl, rfl⟩

theorem isSome_of_mem_redisIds (h : Listed s) {id : Ident} (hid : id ∈ redisIds s) : (s.jobs id).isSome = true :=
  (h.mem id).mp ((List.perm_insertionSort _ _).mem_iff.mp hid)

/-- A job of the queue is in the snapshot, and the snapshot holds no other. -/
theorem mem_redisJobs (h : Indexed s) (hl : Listed s) (j : Job) : j ∈ redisJobs s ↔ s.jobs j.id = some j := by
  rw [redisJobs, List.mem_filterMap]
  constructor
  · rintro ⟨id, -, hj⟩
    rw [h.ids id j hj]
    exact hj
  · intro hj
    have hall : j.id ∈ s.all := (hl.mem j.id).mpr (by rw [hj]; rfl)
    exact ⟨j.id, (List.perm_insertionSort _ _).mem_iff.mpr hall, hj⟩

theorem redisAssessment_eq {cfg : QueueSettings} {now : Int} (h : Indexed s) (hl : Listed s)
    (hfew : s.all.length ≤ maxRecoveryJobs) :
    redisAssessment u cfg now s =
      analyzeQueueRecovery u ((redisJobs s).map .ofJob) cfg.leaseSeconds (some (redisJobs s).length) now := by
  obtain ⟨hrows, hnames⟩ := rows_of_ids h fun id hid => isSome_of_mem_redisIds hl hid
  have hids : (redisIds s).length = s.all.length := List.length_insertionSort ..
  have hlength : (redisJobs s).length = s.all.length := by
    rw [← hids, ← hnames, List.length_map]
    rfl
  have hlimit : 1 ≤ maxRecoveryJobs ∧ maxRecoveryJobs ≤ 5000 := by decide
  have hsnapshot : redisSnapshot maxRecoveryJobs s = .ok ((redisJobs s).map .ofJob) := by
    rw [redisSnapshot, bounded, if_pos hlimit, List.take_of_length_le (hids ▸ hfew)]
    exact congrArg Except.ok hrows
  rw [redisAssessment, hsnapshot, hlength]

theorem redisJobs_rows {now : Int} (h : Assessable now s) :
    (∀ j ∈ redisJobs s, j.WellFormed ∧ InBounds now j) ∧ ((redisJobs s).map Job.id).Nodup := by
  obtain ⟨hindexed, hlisted, hclaimed⟩ := h
  have hnames := (rows_of_ids hindexed fun id hid => isSome_of_mem_redisIds hlisted hid).2
  constructor
  · intro j hj
    have hfind := (mem_redisJobs hindexed hlisted j).mp hj
    exact ⟨hindexed.wellFormed j.id j hfind, hclaimed j.id j hfind⟩
  · rw [redisJobs, hnames]
    exact (List.perm_insertionSort _ _).nodup_iff.mpr hlisted.nodup

/-- The assessment of a Redis queue agrees with its recovery when the details name exactly the jobs that are due. -/
theorem redis_agrees (cfg : QueueSettings) {env : Reading} (h : Assessable env.now s)
    (hfew : s.all.length ≤ maxRecoveryJobs) :
    AgreesWith (LeavesRunning s.jobs ((recoverExpiredLeases cfg).alone env.redis s).2.jobs)
        (redisAssessment u cfg env.now s) ↔
      ∀ id, id ∈ reported cfg env.now (redisJobs s) ↔ Due (env.now - cfg.lease) s id := by
  obtain ⟨hjobs, hnodup⟩ := redisJobs_rows h
  rw [redisAssessment_eq u h.indexed h.listed hfew, analyze_ofJobs u cfg hjobs hnodup]
  simp only [leavesRunning_redis h.indexed]

theorem redis_safe (cfg : QueueSettings) {now : Int} (h : Assessable now s) (hfew : s.all.length ≤ maxRecoveryJobs) :
    ∃ report, redisAssessment u cfg now s = .ok report ∧
      (report.safeToResume = true ↔ ∀ id j, s.jobs id = some j → ¬ Expired cfg now j) := by
  obtain ⟨hjobs, hnodup⟩ := redisJobs_rows h
  obtain ⟨report, heq, -, -, hsafe⟩ := analyze_rows u cfg hjobs hnodup
  rw [redisAssessment_eq u h.indexed h.listed hfew]
  refine ⟨report, heq, hsafe.trans ⟨fun hall id j hj => ?_, fun hall j hj => ?_⟩⟩
  · exact hall j ((mem_redisJobs h.indexed h.listed j).mpr (h.indexed.ids id j hj ▸ hj))
  · exact hall j.id j ((mem_redisJobs h.indexed h.listed j).mp hj)

/-- The cutoff is on the same side of the claim time and of the score of every running job. -/
def NoGap (cutoff : Int) (s : RedisQueue) : Prop :=
  ∀ id j t score, s.jobs id = some j → j.status = .running → j.claimedAt = some t → s.running.score? id = some score →
    (t < cutoff ↔ score ≤ cutoff)

/-- Where the details name every expired lease, they name the jobs that are due when no cutoff falls between claim and score. -/
theorem reported_iff_noGap {cfg : QueueSettings} {now : Int} (h : Indexed s) (hl : Listed s)
    (hfew : (redisJobs s).countP (fun j => decide (Expired cfg now j)) ≤ maxIssueDetails) :
    (∀ id, id ∈ reported cfg now (redisJobs s) ↔ Due (now - cfg.lease) s id) ↔ NoGap (now - cfg.lease) s := by
  constructor
  · intro hiff id j t score hj hrun ht hscore
    have hid := h.ids id j hj
    have hmem : j ∈ redisJobs s := (mem_redisJobs h hl j).mpr (hid.symm ▸ hj)
    constructor
    · intro hlt
      obtain ⟨j', score', hj', -, hscore', hle⟩ := (hiff id).mp (hid ▸ mem_reported hfew hmem ⟨hrun, t, ht, hlt⟩)
      rw [hscore] at hscore'
      cases hscore'
      exact hle
    · intro hle
      obtain ⟨i, hi, hiid, -, t', ht', hlt⟩ := mem_expired ((hiff id).mpr ⟨j, score, hj, hrun, hscore, hle⟩)
      have hfind := (mem_redisJobs h hl i).mp hi
      rw [hiid, hj] at hfind
      cases hfind
      rw [ht] at ht'
      cases ht'
      exact hlt
  · intro hgap id
    constructor
    · intro hid
      obtain ⟨j, hj, rfl, hrun, t, ht, hlt⟩ := mem_expired hid
      have hfind := (mem_redisJobs h hl j).mp hj
      obtain ⟨score, hscore⟩ := Option.isSome_iff_exists.mp ((h.running j.id).mpr ⟨j, hfind, hrun⟩)
      exact ⟨j, score, hfind, hrun, hscore, (hgap j.id j t score hfind hrun ht hscore).mp hlt⟩
    · rintro ⟨j, score, hj, hrun, hscore, hle⟩
      have hid := h.ids id j hj
      have hmem : j ∈ redisJobs s := (mem_redisJobs h hl j).mpr (hid.symm ▸ hj)
      obtain ⟨t, ht⟩ := Option.isSome_iff_exists.mp ((h.wellFormed id j hj).running hrun).2
      exact hid ▸ mem_reported hfew hmem ⟨hrun, t, ht, (hgap id j t score hj hrun ht hscore).mpr hle⟩

end Redis

open RedisQueue in
/-- In every state that a run reaches with at most five thousand jobs, at every instant not before its clock readings. The table:
the assessment agrees with the recovery exactly when at most two hundred leases have expired, which is what the list of details
holds. The Redis queue: it agrees exactly when the first two hundred expired leases are the jobs whose score is not after the
cutoff; with at most two hundred of them, exactly when no running job has the cutoff between its claim time and its score. -/
theorem assessment_agrees (cfg : QueueSettings) (env : Reading) :
    (∀ events, (∀ e ∈ events, e.env.now ≤ env.now) →
      let q := SqliteQueue.run Table.empty events
      q.rows.length ≤ maxRecoveryJobs →
      (AgreesWith (LeavesRunning q.store (q.recoverExpiredLeases cfg env).2.store) (sqliteAssessment u cfg env.now q) ↔
        q.rows.countP (fun j => decide (SqliteQueue.Expired cfg env.now j)) ≤ maxIssueDetails)) ∧
    (∀ clients ls, (start clients).MeetsAll (FreshUntil env.now) ls →
      let s := ((start clients).run ls).shared
      let agrees := AgreesWith (LeavesRunning s.jobs ((recoverExpiredLeases cfg).alone env.redis s).2.jobs)
        (redisAssessment u cfg env.now s)
      s.all.length ≤ maxRecoveryJobs →
      (agrees ↔ ∀ id, id ∈ reported cfg env.now (redisJobs s) ↔ Due (env.now - cfg.lease) s id) ∧
      ((redisJobs s).countP (fun j => decide (SqliteQueue.Expired cfg env.now j)) ≤ maxIssueDetails →
        (agrees ↔ NoGap (env.now - cfg.lease) s))) := by
  constructor
  · intro events hnow q hfew
    exact sqlite_agrees u hnow hfew
  · intro clients ls hfresh s agrees hfew
    have hs := run_assessable hfresh
    have hiff := redis_agrees u cfg hs hfew
    exact ⟨hiff, fun hissues => hiff.trans (reported_iff_noGap hs.indexed hs.listed hissues)⟩

/-- The table of a queued and claimed job. -/
def sampleTable : SqliteQueue := SqliteQueue.run Table.empty SqliteQueue.sampleEvents

/-- The Redis queue after a job was stored and claimed. -/
def sampleState : RedisQueue := ((RedisQueue.start RedisQueue.sampleClients).run RedisQueue.sampleSchedule).shared

/-- The instant a whole lease after the claim, and the microsecond before it. -/
def sampleExpiry : Reading := ⟨21600 * 1000000 + 1000, RedisQueue.sampleUuid⟩
def sampleBefore : Reading := ⟨21600 * 1000000 + 999, RedisQueue.sampleUuid⟩

open RedisQueue in
/-- Both queues agree when no lease has expired yet. -/
theorem assessment_agrees_unexpired :
    AgreesWith (LeavesRunning sampleTable.store (sampleTable.recoverExpiredLeases .default sampleBefore).2.store)
      (sqliteAssessment ExecutionContract.sampleUnicode .default sampleBefore.now sampleTable) ∧
    AgreesWith (LeavesRunning sampleState.jobs ((recoverExpiredLeases .default).alone sampleBefore.redis sampleState).2.jobs)
      (redisAssessment ExecutionContract.sampleUnicode .default sampleBefore.now sampleState) := by
  obtain ⟨hsqlite, hredis⟩ := assessment_agrees ExecutionContract.sampleUnicode .default sampleBefore
  constructor
  · exact (hsqlite SqliteQueue.sampleEvents (by decide +kernel) (by decide +kernel)).mpr (by decide +kernel)
  · refine (hredis sampleClients sampleSchedule (by decide +kernel) (by decide +kernel)).1.mpr fun id => ?_
    have hnone : reported .default sampleBefore.now (redisJobs ((start sampleClients).run sampleSchedule).shared) = [] := by decide +kernel
    have hearly : ((start sampleClients).run sampleSchedule).shared.running.rangeByScore
        (sampleBefore.now - QueueSettings.default.lease) = [] := by decide +kernel
    constructor
    · intro hid
      rw [hnone] at hid
      cases hid
    · rintro ⟨j, score, -, -, hscore, hle⟩
      have hid := (SortedSet.mem_rangeByScore _ _ _).mpr ⟨score, hscore, hle⟩
      rw [hearly] at hid
      cases hid

open RedisQueue in
/-- A lease that expires at this very instant: the recovery of the Redis queue requeues the job, and no issue names it. -/
theorem assessment_misses_expiry :
    ¬ ∀ (u : Unicode) (cfg : QueueSettings) (env : Reading) (clients : Clients) (ls : List (Nat × RedisReading)),
      (start clients).MeetsAll (FreshUntil env.now) ls →
      ((start clients).run ls).shared.all.length ≤ maxRecoveryJobs →
      AgreesWith (LeavesRunning ((start clients).run ls).shared.jobs
          ((recoverExpiredLeases cfg).alone env.redis ((start clients).run ls).shared).2.jobs)
        (redisAssessment u cfg env.now ((start clients).run ls).shared) := by
  intro h
  have hfresh : (start sampleClients).MeetsAll (FreshUntil sampleExpiry.now) sampleSchedule := by decide +kernel
  have hfew : sampleState.all.length ≤ maxRecoveryJobs := by decide +kernel
  have hagrees := h ExecutionContract.sampleUnicode .default sampleExpiry sampleClients sampleSchedule hfresh hfew
  have hnames := (redis_agrees ExecutionContract.sampleUnicode .default (run_assessable hfresh) hfew).mp hagrees
  have hdue : Due (sampleExpiry.now - QueueSettings.default.lease) sampleState sampleUuid :=
    ⟨(EnqueueRequest.newJob ⟨⟨"campaign-1", by decide, by decide, by decide, by decide⟩, .report, .empty, 2, none,
      by decide, by decide⟩ sampleUuid 1000).claimed sampleOwner 1000, 1000, by decide +kernel, rfl, by decide +kernel, by decide⟩
  have hmem := (hnames sampleUuid).mpr hdue
  have hnone : reported .default sampleExpiry.now (redisJobs ((start sampleClients).run sampleSchedule).shared) = [] := by decide +kernel
  rw [hnone] at hmem
  cases hmem

/-! ## When it is safe to resume -/

open RedisQueue (start FreshUntil run_assessable sampleClients sampleSchedule)

/-- In every state that a run reaches with at most five thousand jobs, at every instant not before its clock readings, it is safe to
resume exactly when no lease has expired; and for the table it is safe after a recovery and after a call that hands a job out. -/
theorem safe_to_resume (cfg : QueueSettings) (env : Reading) :
    (∀ events, (∀ e ∈ events, e.env.now ≤ env.now) →
      let q := run Table.empty events
      (q.rows.length ≤ maxRecoveryJobs → ∃ report, sqliteAssessment u cfg env.now q = .ok report ∧
        (report.safeToResume = true ↔ ∀ j ∈ q.rows, ¬ Expired cfg env.now j)) ∧
      ∀ c, c = .recoverExpiredLeases ∨ (c.handed (q.call cfg env c).1).isSome = true →
        (q.call cfg env c).2.rows.length ≤ maxRecoveryJobs →
        ∃ report, sqliteAssessment u cfg env.now (q.call cfg env c).2 = .ok report ∧ report.safeToResume = true) ∧
    (∀ clients ls, (start clients).MeetsAll (FreshUntil env.now) ls →
      let s := ((start clients).run ls).shared
      s.all.length ≤ maxRecoveryJobs → ∃ report, redisAssessment u cfg env.now s = .ok report ∧
        (report.safeToResume = true ↔ ∀ id j, s.jobs id = some j → ¬ Expired cfg env.now j)) := by
  refine ⟨fun events hnow => ⟨sqlite_safe u hnow, fun c hcall hfew => ?_⟩, fun clients ls hfresh => ?_⟩
  · have hquiet := not_expired_call hcall
    have hlast : ((run Table.empty events).call cfg env c).2 = run Table.empty (events ++ [⟨cfg, env, c⟩]) := by
      rw [run, run, List.foldl_append]
      rfl
    rw [hlast] at hquiet hfew ⊢
    have hnow' : ∀ e ∈ events ++ [⟨cfg, env, c⟩], e.env.now ≤ env.now := by
      intro e he
      rcases List.mem_append.mp he with he | he
      · exact hnow e he
      · rw [List.mem_singleton.mp he]
    obtain ⟨report, heq, hsafe⟩ := sqlite_safe u hnow' hfew
    exact ⟨report, heq, hsafe.mpr hquiet⟩
  · exact redis_safe u cfg (run_assessable hfresh)

/-- The recovery after the lease of the job has ended. -/
theorem safe_to_resume_sample :
    (∃ report, sqliteAssessment ExecutionContract.sampleUnicode .default sampleExpiry.now
      (sampleTable.call .default sampleExpiry .recoverExpiredLeases).2 = .ok report ∧ report.safeToResume = true) ∧
    ∃ report, redisAssessment ExecutionContract.sampleUnicode .default sampleExpiry.now sampleState = .ok report ∧
      (report.safeToResume = true ↔ ∀ id j, sampleState.jobs id = some j → ¬ Expired .default sampleExpiry.now j) := by
  obtain ⟨hsqlite, hredis⟩ := safe_to_resume ExecutionContract.sampleUnicode .default sampleExpiry
  exact ⟨(hsqlite SqliteQueue.sampleEvents (by decide +kernel)).2 _ (.inl rfl) (by decide +kernel),
    hredis sampleClients sampleSchedule (by decide +kernel) (by decide +kernel)⟩

end QueueRecovery

end XbowPerso
