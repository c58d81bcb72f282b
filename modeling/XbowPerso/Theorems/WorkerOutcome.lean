import XbowPerso.Lemmas.QueueLifecycle
import XbowPerso.WorkerService
import XbowPerso.Theorems.CampaignChain

/-!
# Jobs whose results were saved

When the handler has returned, the job ends completed, is not handed out again and is recorded as a success exactly when the step of the
planner raises nothing and the lease of that attempt is held until the job is finished. The planner runs before: what it raises requeues
a job whose work was done.
-/

namespace XbowPerso

namespace JobStore

/-- A terminal job is never handed out. -/
theorem Run.handouts_terminal {s s' : JobStore} {hs : List (Option Ident)} (h : Run s hs s') {id : Ident} {j : Job} (hj : s id = some j)
    (ht : j.status.terminal = true) : handouts id hs = 0 := by
  induction h with
  | nil => rfl
  | @snoc s₁ s₂ hs handed hr htr ih =>
    have hsame := hr.terminal hj ht
    obtain ⟨j', hj', -, hattempts⟩ := htr.kept id j hsame
    rw [htr.terminal hsame ht] at hj'
    cases hj'
    have hcost : cost handed id = 0 := by omega
    have hsnoc := handouts_snoc id hs handed
    rw [ih, hcost] at hsnoc
    exact_mod_cast hsnoc

end JobStore

namespace WorkerService

open AuditSeal SqliteQueue

/-! ## Handouts -/

theorem handedIds_append (q : SqliteQueue) (events later : List Event) :
    handedIds q (events ++ later) = handedIds q events ++ handedIds (run q events) later := by
  induction events generalizing q with
  | nil => rfl
  | cons e events ih => exact congrArg _ (ih _)

/-- Between two states of a run a job was handed out as often as its attempts grew. -/
theorem handouts_between {before during : List Event} {j j' : Job} {id : Ident} (hj : (run Table.empty before).find? id = some j)
    (hj' : (run Table.empty (before ++ during)).find? id = some j') :
    (JobStore.handouts id (handedIds (run Table.empty before) during) : Int) = j'.attempts - j.attempts := by
  have hbefore := ((run_from_empty before).handouts_eq id).1 j hj
  have hafter := ((run_from_empty (before ++ during)).handouts_eq id).1 j' hj'
  rw [handedIds_append] at hafter
  unfold JobStore.handouts at hbefore hafter ⊢
  rw [List.countP_append] at hafter
  omega

/-! ## The end of an attempt -/

variable {a : Attempt} {env : Reading} {q q' : SqliteQueue}

theorem outcome_of_handled (hverified : a.verified = .ok ()) (hkind : a.job.kind ∈ handledKinds) (hhandler : a.handler = .ok ()) :
    a.outcome = .ok () ↔ a.planner.run = .ok () ∧ a.leaseLost = false := by
  unfold Attempt.outcome
  rw [hverified, if_pos hkind, hhandler]
  cases hplanner : a.planner.run with
  | error e => exact ⟨nofun, fun h => by cases h.1⟩
  | ok u =>
    cases a.leaseLost with
    | false => exact ⟨fun _ => ⟨rfl, rfl⟩, fun _ => rfl⟩
    | true => exact ⟨nofun, fun h => by cases h.2⟩

/-- What is raised is not recorded as a success. -/
theorem success_of_conclude {c : Conclusion} (h : a.conclude env q = .ok (some c, q')) (hsuccess : c.success = true) :
    a.outcome = .ok () := by
  unfold Attempt.conclude at h
  have hfalse : ∀ {x : Except PyError (Option Job × SqliteQueue)} {status : Job → String},
      x.map (fun r => (r.1.map fun j => Conclusion.mk j false (status j), r.2)) ≠ .ok (some c, q') := by
    intro x status heq
    cases x with
    | error e => cases heq
    | ok r =>
      obtain ⟨finished, q⟩ := r
      cases finished with
      | none => cases heq
      | some j =>
        cases heq
        cases hsuccess
  split at h
  · rename_i houtcome
    exact houtcome
  · exact absurd h hfalse
  · exact absurd h hfalse
  · exact absurd h hfalse
  · exact absurd h hfalse
  · exact absurd h hfalse

/-- The end of an attempt that raised nothing: the job is completed if the worker owns it, and nothing happens if not. -/
theorem conclude_ok (houtcome : a.outcome = .ok ()) :
    ∃ res q', OwnEffect a.job.id a.workerId
        (fun j => j.released .completed (Job.errorText "") env.now) q res q' ∧
      a.conclude env q = .ok (res.map fun j => ⟨j, true, statusWord j.status⟩, q') := by
  unfold Attempt.conclude
  rw [houtcome]
  dsimp only
  cases hfinish : q.finish env a.job.id.text a.workerId.text true none with
  | error e =>
    unfold finish at hfinish
    rw [boundedIdentifier_text, boundedIdentifier_text] at hfinish
    dsimp only at hfinish
    split at hfinish
    · simp only [reduceCtorEq] at hfinish
    · simp only [reduceCtorEq] at hfinish
  | ok r =>
    obtain ⟨res, q'⟩ := r
    obtain ⟨id, worker, hid, hworker, heffect⟩ := finish_effect hfinish
    rw [boundedIdentifier_text] at hid hworker
    cases hid
    cases hworker
    exact ⟨res, q', heffect, rfl⟩

/-! ## What is recorded -/

variable {audit : AuditEnv} {event : AuditEntry}

/-- The seal of an outcome keeps what the event says. -/
theorem get_sealWorkerOutcomeEvent {secret : ResolvedSecret} {sealedEvent : AuditEntry} {events : List AuditEntry}
    (h : sealWorkerOutcomeEvent audit secret event events = .ok sealedEvent) {key : String}
    (hkey : key ∉ ["audit_seq", "previous_worker_hash", "worker_hash", "worker_signature_alg", "worker_signature"]) :
    sealedEvent.get key = event.get key := by
  simp only [List.mem_cons, List.not_mem_nil, or_false, not_or] at hkey
  obtain ⟨hseq, hprevious, hhash, halg, hsignature⟩ := hkey
  unfold sealWorkerOutcomeEvent at h
  dsimp only at h
  split at h
  · cases h
  rw [← Except.ok.inj h]
  rw [AuditEntry.get_set, if_neg hsignature, AuditEntry.get_set, if_neg halg, AuditEntry.get_set, if_neg hhash, AuditEntry.get_set,
    if_neg hprevious, AuditEntry.get_set, if_neg hseq]

/-- The events that are saved are those that were read and one that says what the given event says. -/
theorem saved_of_recordTries {secret : ResolvedSecret} :
    ∀ {tries : List Try} {b : Bool} {events : List AuditEntry}, recordTries audit secret event tries = .ok (b, some events) →
      ∃ t ∈ tries, ∃ read outcome, t.events = some read ∧ t.saved = true ∧ events = read ++ [outcome] ∧
        ∀ key ∈ ["type", "job_id", "success", "status"], outcome.get key = event.get key
  | [], b, events, h => by cases h
  | t :: tries, b, events, h => by
    unfold recordTries at h
    split at h
    · cases h
    rename_i read hread
    split at h
    · cases h
    split at h
    · cases h
    rename_i worker hworker
    split at h
    · cases h
    rename_i outcome houtcome
    split at h
    · rename_i hsaved
      cases h
      refine ⟨t, List.mem_cons_self, read, outcome, hread, hsaved, rfl, fun key hkey => ?_⟩
      simp only [List.mem_cons, List.not_mem_nil, or_false] at hkey
      rw [CampaignAudit.sameFields_seal houtcome key (by rcases hkey with rfl | rfl | rfl | rfl <;> decide),
        get_sealWorkerOutcomeEvent hworker (by rcases hkey with rfl | rfl | rfl | rfl <;> decide), AuditEntry.get_set,
        if_neg (by rcases hkey with rfl | rfl | rfl | rfl <;> decide)]
    · obtain ⟨t', ht', hrest⟩ := saved_of_recordTries h
      exact ⟨t', List.mem_cons_of_mem t ht', hrest⟩

/-- Where the three tries to record read a campaign without the outcome, and one of their saves goes through, it is recorded. -/
theorem recordTries_saved {secret : Option String} :
    ∀ {tries : List Try}, (∀ t ∈ tries, ∃ read, t.events = some read ∧ isRecorded event read = false) →
      (∃ t ∈ tries, t.saved = true) → ∃ events, recordTries audit (.ok secret) event tries = .ok (true, some events)
  | [], _, hsaved => by
    obtain ⟨t, ht, -⟩ := hsaved
    cases ht
  | t :: tries, hread, hsaved => by
    obtain ⟨read, hevents, hnew⟩ := hread t List.mem_cons_self
    unfold recordTries sealWorkerOutcomeEvent CampaignAudit.sealCampaignEvent
    rw [hevents]
    dsimp only
    rw [if_neg (by rw [hnew]; decide)]
    split
    · exact ⟨_, rfl⟩
    · rename_i hnot
      refine recordTries_saved (fun t' ht' => hread t' (List.mem_cons_of_mem t ht')) ?_
      obtain ⟨t', ht', hsaved'⟩ := hsaved
      rcases List.mem_cons.mp ht' with rfl | ht'
      · exact absurd hsaved' hnot
      · exact ⟨t', ht', hsaved'⟩

/-- What is recorded of a conclusion says that the job was a success; and it is recorded where the tries read campaigns that do not have
it yet and one of their saves goes through. -/
structure RecordedSuccess (c : Conclusion) : Prop where
  success : ∀ audit secret canonical first second third b events,
    recordWorkerOutcome audit secret canonical c first second third = .ok (b, some events) →
    ∃ read outcome, events = read ++ [outcome] ∧ outcome.get "type" = .str "worker_outcome" ∧
      outcome.get "success" = .bool true ∧ outcome.get "status" = .str "completed" ∧
        canonical c.finished.id.text = text? (outcome.get "job_id")
  recorded : ∀ audit secret canonical first second third event, workerOutcomeEvent canonical c = .ok event →
    (∀ t ∈ [first, second, third], ∃ read, t.events = some read ∧ isRecorded event read = false) →
      (∃ t ∈ [first, second, third], t.saved = true) →
        ∃ events, recordWorkerOutcome audit (.ok secret) canonical c first second third = .ok (true, some events)

theorem recordedSuccess {j : Job} : RecordedSuccess ⟨j, true, "completed"⟩ := by
  constructor
  · intro audit secret canonical first second third b events h
    unfold recordWorkerOutcome workerOutcomeEvent at h
    split at h
    · cases h
    rename_i event hevent
    split at hevent
    · cases hevent
    split at hevent
    · cases hevent
    split at hevent
    · cases hevent
    split at hevent
    · cases hevent
    rename_i jobId hjobId
    cases hevent
    obtain ⟨-, -, read, outcome, -, -, rfl, hget⟩ := saved_of_recordTries h
    refine ⟨read, outcome, rfl, ?_, ?_, ?_, ?_⟩
    · rw [hget "type" (by simp)]
      simp [baseOutcome, AuditEntry.get_set]
    · rw [hget "success" (by simp)]
      simp [baseOutcome, AuditEntry.get_set]
    · rw [hget "status" (by simp)]
      simp [baseOutcome, AuditEntry.get_set]
    · rw [hget "job_id" (by simp), hjobId]
      simp [baseOutcome, AuditEntry.get_set, text?]
  · intro audit secret canonical first second third event hevent hread hsaved
    unfold recordWorkerOutcome
    rw [hevent]
    exact recordTries_saved hread hsaved

/-! ## The result -/

/-- The job of an attempt ends completed, was not handed out since its handler returned, is never handed out again, and what is
recorded of it is a success. -/
def EndsDone (before during : List Event) (env : Reading) (a : Attempt) : Prop :=
  ∃ c q', a.conclude env (run Table.empty (before ++ during)) = .ok (some c, q') ∧ c.finished.id = a.job.id ∧
    c.finished.status = .completed ∧ (∀ later, (run q' later).find? a.job.id = some c.finished) ∧
      JobStore.handouts a.job.id (handedIds (run Table.empty before) during) = 0 ∧
        (∀ later, JobStore.handouts a.job.id (handedIds q' later) = 0) ∧ c.success = true ∧ RecordedSuccess c

/-- The lease under which the handler returned is still held: the worker owns the job, in the same attempt. -/
def HoldsLease (before during : List Event) (a : Attempt) (held : Job) : Prop :=
  ∃ j, (run Table.empty (before ++ during)).find? a.job.id = some j ∧ j.OwnedBy a.workerId ∧ j.attempts = held.attempts

/-- Once the handler has returned, the job ends done exactly when the planner raises nothing and the lease is held. -/
theorem worker_outcome (before during : List Event) (env : Reading) (a : Attempt) (held : Job)
    (hheld : (run Table.empty before).find? a.job.id = some held) (hverified : a.verified = .ok ())
    (hkind : a.job.kind ∈ handledKinds) (hhandler : a.handler = .ok ()) :
    EndsDone before during env a ↔ a.planner.run = .ok () ∧ a.leaseLost = false ∧ HoldsLease before during a held := by
  rw [← and_assoc, ← outcome_of_handled hverified hkind hhandler]
  constructor
  · rintro ⟨c, q', hconclude, -, -, -, hduring, -, hsuccess, -⟩
    have houtcome := success_of_conclude hconclude hsuccess
    obtain ⟨res, q'', heffect, heq⟩ := @conclude_ok a env (run Table.empty (before ++ during)) houtcome
    rw [hconclude] at heq
    refine ⟨houtcome, ?_⟩
    cases heffect with
    | refused => cases heq
    | done j _ hj howned _ =>
      have hhandouts := handouts_between hheld hj
      rw [hduring] at hhandouts
      exact ⟨j, hj, howned, by omega⟩
  · rintro ⟨houtcome, j, hj, howned, hattempts⟩
    obtain ⟨res, q', heffect, heq⟩ := @conclude_ok a env (run Table.empty (before ++ during)) houtcome
    have hhandouts := handouts_between hheld hj
    rw [hattempts, sub_self] at hhandouts
    cases heffect with
    | refused hnot => exact absurd howned (hnot j hj)
    | done j' _ hj' _ hrows =>
      rw [hj] at hj'
      cases hj'
      have hfind := hrows a.job.id
      rw [if_pos rfl] at hfind
      have hid : j.id = a.job.id := id_of_find? hj
      exact ⟨_, q', heq, hid, rfl, fun later => (run_isRun _ [] q' (.nil _) later).terminal hfind rfl, by exact_mod_cast hhandouts,
        fun later => JobStore.Run.handouts_terminal (run_isRun _ [] q' (.nil _) later) hfind rfl, rfl, recordedSuccess⟩

/-- The planner raises after the report was stored. -/
def sampleAttempt (advance : Except Raised Unit) : Attempt where
  job := sampleJob
  workerId := sampleWorker
  verified := .ok ()
  handler := .ok ()
  planner := ⟨.ok true, advance⟩
  leaseLost := false

theorem worker_outcome_sample : EndsDone sampleEvents [] ⟨3000, sampleId⟩ (sampleAttempt (.ok ())) := by
  have hfind : (run Table.empty sampleEvents).find? sampleJob.id = some sampleJob := by decide +kernel
  refine (worker_outcome sampleEvents [] ⟨3000, sampleId⟩ (sampleAttempt (.ok ())) sampleJob hfind rfl (by decide) rfl).mpr
    ⟨rfl, rfl, sampleJob, ?_, by decide, rfl⟩
  rw [List.append_nil]
  exact hfind

/-- A conflict of the planner requeues the job, and it is handed out again. -/
theorem job_run_again : ¬ ∀ before during env (a : Attempt) held, (run Table.empty before).find? a.job.id = some held →
    held.OwnedBy a.workerId → a.verified = .ok () → a.job.kind ∈ handledKinds → a.handler = .ok () → EndsDone before during env a := by
  intro h
  have hdone := h sampleEvents [] ⟨3000, sampleId⟩ (sampleAttempt (.error (.campaignConflict "campaign version changed"))) sampleJob
    (by decide +kernel) (by decide) rfl (by decide) rfl
  obtain ⟨c, q', hconclude, -, -, -, -, hlater, -⟩ := hdone
  have hagain : ((sampleAttempt (.error (.campaignConflict "campaign version changed"))).conclude ⟨3000, sampleId⟩
      (run Table.empty (sampleEvents ++ []))).toOption.map
        (fun r => JobStore.handouts sampleJob.id (handedIds r.2 [⟨.default, ⟨4000, sampleId⟩, .claim "worker-1"⟩])) = some 1 := by
    decide +kernel
  rw [hconclude] at hagain
  have hone := Option.some.inj hagain
  have hzero := hlater [⟨.default, ⟨4000, sampleId⟩, .claim "worker-1"⟩]
  exact absurd (hone.symm.trans hzero) (by decide)

end WorkerService

end XbowPerso
