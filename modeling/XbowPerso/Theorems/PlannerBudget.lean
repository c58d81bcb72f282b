import XbowPerso.Orchestrator

/-!
# The budget of the planner

A run of `advance_campaign` adds no scan, validation or report beyond its limit, and through these no job beyond the limit of jobs in
flight; with an open breaker or an exhausted runtime it adds no job.
-/

namespace XbowPerso

namespace Orchestrator

open AdaptivePlanner (ActionKind PlannedAction)

variable {cfg : QueueSettings} {limits : PlannerBudget} {campaign : Ident}

/-! ## What an enqueue adds -/

variable {campaignId : String}

/-- An enqueue adds a queued job of its kind, or none. -/
theorem rows_enqueue {env : Reading} {q q' : SqliteQueue} {kind : JobKind} {payload : Payload} {attempts : Int}
    {dedupeKey : Option String} {job : Job} (h : q.enqueue cfg env campaignId kind.word payload attempts dedupeKey = .ok (job, q')) :
    q' = q ∨ ∃ j : Job, q'.rows = q.rows ++ [j] ∧ j.kind = kind := by
  unfold SqliteQueue.enqueue at h
  split at h
  · cases h
  rename_i r hr
  have hkind : r.kind = kind := by
    unfold EnqueueRequest.validate at hr
    rw [JobKind.ofWord?_word] at hr
    split at hr
    · cases hr
    dsimp only at hr
    split at hr
    · split at hr
      · cases hr
      split at hr
      · cases hr
      · rw [← Except.ok.inj hr]
    · cases hr
  split at h
  · split at h
    · cases h
    · exact .inl (Prod.mk.inj (Except.ok.inj h)).2.symm
  · unfold SqliteQueue.insertJob at h
    split at h
    · rename_i hinsert
      split at h
      · cases h
      have heq := (Prod.mk.inj (Except.ok.inj h)).2
      subst heq
      exact .inr ⟨_, (q.insert_eq_some hinsert).1, hkind⟩
    · split at h
      · cases h
      exact .inl (Prod.mk.inj (Except.ok.inj h)).2.symm

theorem countJobs_append {q q' : SqliteQueue} {j : Job} (h : q'.rows = q.rows ++ [j]) (p : Job → Bool) :
    countJobs q' campaign p ≤ countJobs q campaign p + if p j then 1 else 0 := by
  unfold countJobs
  rw [h, List.countP_append, List.countP_singleton]
  cases p j with
  | true =>
    split
    · exact Nat.le_refl _
    · exact Nat.le_succ _
  | false =>
    rw [Bool.and_false]

/-- A list of enqueues adds at most the jobs that are asked for, of each sort. -/
theorem countJobs_enqueueAll {reading : Nat → Reading} {campaignId : String} (p : Job → Bool) (asks : JobSpec → Bool)
    (specs : List JobSpec) (q : SqliteQueue) (h : ∀ spec ∈ specs, ∀ j : Job, j.kind = spec.kind → p j = true → asks spec = true) :
    countJobs (enqueueAll cfg reading campaignId specs q).2 campaign p ≤ countJobs q campaign p + specs.countP asks := by
  induction specs generalizing q with
  | nil => exact Nat.le_refl _
  | cons spec specs ih =>
    have hrest : ∀ spec ∈ specs, ∀ j : Job, j.kind = spec.kind → p j = true → asks spec = true := fun spec' hmem =>
      h spec' (List.mem_cons_of_mem _ hmem)
    unfold enqueueAll
    split
    · exact Nat.le_add_right _ _
    · rename_i job q' henqueue
      have hone : countJobs q' campaign p ≤ countJobs q campaign p + if asks spec then 1 else 0 := by
        rcases rows_enqueue henqueue with rfl | ⟨j, hrows, hkind⟩
        · exact Nat.le_add_right _ _
        · refine (countJobs_append hrows p).trans (Nat.add_le_add_left ?_ _)
          by_cases hp : p j = true
          · rw [if_pos hp, if_pos (h spec (List.mem_cons_self ..) j hkind hp)]
          · rw [if_neg hp]
            exact Nat.zero_le _
      have hall := ih q' hrest
      rw [List.countP_cons]
      split
      · rename_i heq
        rw [heq] at hall
        dsimp only at hall ⊢
        omega
      · rename_i heq
        rw [heq] at hall
        dsimp only at hall ⊢
        omega

/-! ## What the actions ask for -/

def JobSpec.isScan (spec : JobSpec) : Bool := decide (spec.kind = .strixScan) || decide (spec.kind = .nucleiScan)

def JobSpec.isValidation (spec : JobSpec) : Bool := decide (spec.kind = .independentValidation)

def JobSpec.isReport (spec : JobSpec) : Bool := decide (spec.kind = .report)

/-- The enqueues of each sort. -/
theorem countJobs_kind {reading : Nat → Reading} {p : Job → Bool} (sort : JobKind → Bool) (hp : ∀ j, p j = sort j.kind) (specs : List JobSpec)
    (q : SqliteQueue) : countJobs (enqueueAll cfg reading campaignId specs q).2 campaign p ≤
      countJobs q campaign p + specs.countP fun spec => sort spec.kind :=
  countJobs_enqueueAll _ _ specs q fun spec _ j hkind h => by rw [← hkind, ← hp, h]

theorem countJobs_inflight {reading : Nat → Reading} (specs : List JobSpec) (q : SqliteQueue) :
    countJobs (enqueueAll cfg reading campaignId specs q).2 campaign isInflight ≤ countJobs q campaign isInflight + specs.length := by
  have h := @countJobs_enqueueAll cfg campaign reading campaignId isInflight (fun _ => true) specs q fun _ _ _ _ _ => rfl
  rwa [List.countP_true] at h

/-- What a list of enqueues may ask for: no more of each sort than the limits leave. -/
structure Asks (u : Usage) (limits : PlannerBudget) (specs : List JobSpec) : Prop where
  scans : u.scans + specs.countP JobSpec.isScan ≤ max u.scans limits.maxScans
  validations : u.validations + specs.countP JobSpec.isValidation ≤ max u.validations limits.maxValidations
  reports : u.reports + specs.countP JobSpec.isReport ≤ max u.reports limits.maxReports

variable {specs : List JobSpec}

theorem countP_eq_zero_of_kind {asks : JobSpec → Bool} (h : ∀ spec ∈ specs, asks spec = false) :
    specs.countP asks = 0 := by
  refine List.countP_eq_zero.mpr fun spec hspec => ?_
  rw [h spec hspec]
  decide

variable {u : Usage}

theorem asks_of_none
    (h : ∀ spec ∈ specs, spec.isScan = false ∧ spec.isValidation = false ∧ spec.isReport = false) : Asks u limits specs := by
  refine ⟨?_, ?_, ?_⟩
  · rw [countP_eq_zero_of_kind fun spec hspec => (h spec hspec).1]
    exact Nat.le_max_left _ _
  · rw [countP_eq_zero_of_kind fun spec hspec => (h spec hspec).2.1]
    exact Nat.le_max_left _ _
  · rw [countP_eq_zero_of_kind fun spec hspec => (h spec hspec).2.2]
    exact Nat.le_max_left _ _

theorem asks_recon (p : Pass) : Asks u limits p.reconSpecs := by
  refine asks_of_none fun spec hspec => ?_
  unfold Pass.reconSpecs at hspec
  obtain ⟨task, -, hspec⟩ := List.mem_filterMap.mp hspec
  split at hspec
  · split at hspec
    · cases hspec
      exact ⟨rfl, rfl, rfl⟩
    · cases hspec
  · cases hspec
    exact ⟨rfl, rfl, rfl⟩

theorem allocated_scan_le (u : Usage) (requested : Nat) :
    allocated u limits requested .scan ≤ limits.maxScans - u.scans ∧
      allocated u limits requested .scan ≤ limits.maxInflightJobs - u.inflightJobs := by
  simp only [allocated, remaining]
  omega

theorem allocated_validate_le (u : Usage) (requested : Nat) :
    allocated u limits requested .validate ≤ limits.maxValidations - u.validations ∧
      allocated u limits requested .validate ≤ limits.maxInflightJobs - u.inflightJobs := by
  simp only [allocated, remaining]
  omega

/-- The enqueues of an action that is not blocked. -/
theorem asks_action (p : Pass) (findings : List String) {kind : ActionKind} (h : blockedAction u limits kind = none) :
    Asks u limits (p.actionSpecs findings u limits kind) ∧
      u.inflightJobs + (p.actionSpecs findings u limits kind).length ≤ max u.inflightJobs limits.maxInflightJobs := by
  cases kind with
  | scan =>
    simp only [Pass.actionSpecs]
    split
    · generalize hn : allocated u limits p.intelligence.selectedEngines.length .scan = n
      have hle := @allocated_scan_le limits u p.intelligence.selectedEngines.length
      rw [hn] at hle
      have hlength : ((p.intelligence.selectedEngines.take n).map p.scanSpec).length ≤ n := by
        rw [List.length_map, List.length_take]
        exact Nat.min_le_left _ _
      have hscan : ((p.intelligence.selectedEngines.take n).map p.scanSpec).countP JobSpec.isScan ≤ n :=
        List.countP_le_length.trans hlength
      have hkind : ∀ spec ∈ (p.intelligence.selectedEngines.take n).map p.scanSpec,
          spec.isValidation = false ∧ spec.isReport = false := by
        intro spec hspec
        obtain ⟨engine, -, rfl⟩ := List.mem_map.mp hspec
        cases engine with
        | strix => exact ⟨rfl, rfl⟩
        | nuclei => exact ⟨rfl, rfl⟩
      refine ⟨⟨by omega, ?_, ?_⟩, by omega⟩
      · rw [countP_eq_zero_of_kind fun spec hspec => (hkind spec hspec).1]
        exact Nat.le_max_left _ _
      · rw [countP_eq_zero_of_kind fun spec hspec => (hkind spec hspec).2]
        exact Nat.le_max_left _ _
    · exact ⟨asks_of_none fun _ hspec => (by cases hspec), Nat.le_max_left _ _⟩
  | validate =>
    unfold Pass.actionSpecs
    dsimp only
    generalize hrequested : (if p.repeatOrdinals ≠ [] then p.repeatOrdinals.length else p.intelligence.pending.length) = requested
    generalize hn : allocated u limits requested .validate = n
    have hle := @allocated_validate_le limits u requested
    rw [hn] at hle
    have hlength : (((p.toValidate findings).take n).map p.validationSpec).length ≤ n := by
      rw [List.length_map, List.length_take]
      exact Nat.min_le_left _ _
    have hvalidation : (((p.toValidate findings).take n).map p.validationSpec).countP JobSpec.isValidation ≤ n :=
      List.countP_le_length.trans hlength
    have hkind : ∀ spec ∈ ((p.toValidate findings).take n).map p.validationSpec, spec.isScan = false ∧ spec.isReport = false := by
      intro spec hspec
      obtain ⟨finding, -, rfl⟩ := List.mem_map.mp hspec
      unfold Pass.validationSpec
      split
      · exact ⟨rfl, rfl⟩
      · exact ⟨rfl, rfl⟩
    refine ⟨⟨?_, by omega, ?_⟩, by omega⟩
    · rw [countP_eq_zero_of_kind fun spec hspec => (hkind spec hspec).1]
      exact Nat.le_max_left _ _
    · rw [countP_eq_zero_of_kind fun spec hspec => (hkind spec hspec).2]
      exact Nat.le_max_left _ _
  | report =>
    -- its allocation is not used: the budget itself leaves room for the one report
    have hroom : u.reports < limits.maxReports ∧ u.inflightJobs < limits.maxInflightJobs := by
      unfold blockedAction blockedJobs at h
      dsimp only at h
      rw [if_neg (by decide)] at h
      split at h
      · cases h
      split at h
      · cases h
      split at h
      · cases h
      · omega
    refine ⟨⟨Nat.le_max_left _ _, Nat.le_max_left _ _, ?_⟩, ?_⟩
    · show u.reports + 1 ≤ _
      omega
    · show u.inflightJobs + 1 ≤ _
      omega
  | inventory => exact ⟨asks_of_none fun _ hspec => (by cases hspec), Nat.le_max_left _ _⟩
  | crawl => exact ⟨asks_of_none fun _ hspec => (by cases hspec), Nat.le_max_left _ _⟩
  | stop => exact ⟨asks_of_none fun _ hspec => (by cases hspec), Nat.le_max_left _ _⟩

/-! ## What a run adds -/

/-- The bounds on the jobs after a run. -/
structure Within (r : Run) (limits : PlannerBudget) (q : SqliteQueue) (out : Outcome) : Prop where
  scans : countJobs out.queue r.campaign isScan ≤ max (countJobs q r.campaign isScan) limits.maxScans
  validations : countJobs out.queue r.campaign isValidation ≤ max (countJobs q r.campaign isValidation) limits.maxValidations
  reports : countJobs out.queue r.campaign isReport ≤ max (countJobs q r.campaign isReport) limits.maxReports
  inflight : .recon ∉ out.effects →
    countJobs out.queue r.campaign isInflight ≤ max (countJobs q r.campaign isInflight) limits.maxInflightJobs

theorem within_stopped (r : Run) (q : SqliteQueue) (effects : List Effect) (action : PlannedAction) :
    Within r limits q (stopped effects action q) :=
  ⟨Nat.le_max_left _ _, Nat.le_max_left _ _, Nat.le_max_left _ _, fun _ => Nat.le_max_left _ _⟩

theorem within_enqueued (r : Run) (q : SqliteQueue) {effects : List Effect} {reading : Nat → Reading}
    (answer : Except PyError (PlannedAction × List Job)) (hasks : Asks (r.usage q) limits specs)
    (hinflight : .recon ∉ effects →
      (r.usage q).inflightJobs + specs.length ≤ max (r.usage q).inflightJobs limits.maxInflightJobs) :
    Within r limits q ⟨effects, answer, (enqueueAll cfg reading r.campaign.text specs q).2⟩ :=
  ⟨(countJobs_kind (fun k => decide (k = .strixScan) || decide (k = .nucleiScan)) (fun _ => rfl) specs q).trans hasks.scans,
    (countJobs_kind (fun k => decide (k = .independentValidation)) (fun _ => rfl) specs q).trans hasks.validations,
    (countJobs_kind (fun k => decide (k = .report)) (fun _ => rfl) specs q).trans hasks.reports,
    fun h => (countJobs_inflight specs q).trans (hinflight h)⟩

theorem within_progress (p : Pass) (r : Run) (q : SqliteQueue) {effects : List Effect} {action : PlannedAction}
    (h : blockedAction (r.usage q) limits action.kind = none) : Within r limits q (p.progress cfg limits r q effects action) := by
  have hrecon : ∀ answer, Within r limits q
      ⟨effects ++ [.recon], answer, (enqueueAll cfg p.reading r.campaign.text p.reconSpecs q).2⟩ := fun answer =>
    within_enqueued r q answer (asks_recon p) fun hnot => absurd (List.mem_append_right _ (List.mem_singleton.mpr rfl)) hnot
  have haction : ∀ answer, Within r limits q ⟨effects, answer,
      (enqueueAll cfg p.reading r.campaign.text (p.actionSpecs r.findings (r.usage q) limits action.kind) q).2⟩ := fun answer =>
    within_enqueued r q answer (asks_action p r.findings h).1 fun _ => (asks_action p r.findings h).2
  unfold Pass.progress
  split
  · exact hrecon _
  split
  · exact hrecon _
  dsimp only
  split
  · rename_i q' heq
    rw [heq] at haction
    split
    · exact haction _
    · exact haction _
  · exact haction _

/-- What the budget lets through is not blocked. -/
theorem blockedAction_applyBudget (u : Usage) (action : PlannedAction) :
    blockedAction u limits (applyBudget u limits action).1.kind = none := by
  unfold applyBudget
  split
  · rename_i h
    exact h
  exact if_pos rfl

theorem within_passes (r : Run) (q : SqliteQueue) (left index : Nat) (effects : List Effect) :
    Within r limits q (passes cfg limits r q left index effects) := by
  induction left generalizing index effects with
  | zero => exact within_stopped r q _ _
  | succ left ih =>
    unfold passes
    dsimp only
    split
    · exact within_stopped r q _ _
    split
    · exact ih _ _
    · exact within_progress _ r q (blockedAction_applyBudget _ _)

/-- A pass that finds the runtime exhausted does not progress. -/
theorem queue_passes (r : Run) (q : SqliteQueue) (h : ∀ i, (r.pass i).runtimeExhausted = true) (left index : Nat)
    (effects : List Effect) : (passes cfg limits r q left index effects).queue = q := by
  cases left with
  | zero => rfl
  | succ left =>
    unfold passes
    dsimp only
    rw [if_pos]
    · rfl
    · refine .inr ?_
      unfold buildAdaptiveCycle
      rw [if_pos]
      unfold buildAutonomyGate
      rw [h index]
      simp

theorem planner_within_budget (cfg : QueueSettings) (limits : PlannerBudget) (r : Run) (q : SqliteQueue) :
    Within r limits q (advanceCampaign cfg limits r q) ∧
      ((r.breaker ≠ none ∨ r.runtimeExhausted = true ∨ ∀ i, (r.pass i).runtimeExhausted = true) →
        (advanceCampaign cfg limits r q).queue = q) := by
  unfold advanceCampaign
  split
  · exact ⟨within_stopped r q _ _, fun _ => rfl⟩
  rename_i hbreaker
  split
  · exact ⟨within_stopped r q _ _, fun _ => rfl⟩
  split
  · exact ⟨within_stopped r q _ _, fun _ => rfl⟩
  · rename_i hruntime
    refine ⟨within_passes r q _ _ _, fun h => ?_⟩
    rcases h with h | h | h
    · exact absurd hbreaker h
    · exact absurd h hruntime
    · exact queue_passes r q h _ _ _

end Orchestrator

end XbowPerso
