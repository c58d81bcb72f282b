import XbowPerso.Theorems.PlannerBudget

/-!
# Which limits reach other actions

The limits block actions one kind at a time, but the gate only sees whether any is blocked: a limit that is reached stops every action and
opens the breaker. When a limit leaves the other actions alone is settled exactly.
-/

namespace XbowPerso

namespace Orchestrator

open AdaptivePlanner (ActionKind PlannedAction)

variable {cfg : QueueSettings} {limits free : PlannerBudget} {r : Run} {q : SqliteQueue}

/-! ## The statement -/

/-- The kinds of action that have a limit of their own. -/
def limitedKinds : List ActionKind := [.scan, .validate, .report]

/-- The limit of a kind of action is reached. -/
def Reached (u : Usage) (limits : PlannerBudget) : ActionKind → Prop
  | .scan => limits.maxScans ≤ u.scans
  | .validate => limits.maxValidations ≤ u.validations
  | .report => limits.maxReports ≤ u.reports
  | _ => False

/-- Two budgets that differ in the limit of one kind of action only. -/
structure AgreeBut (kind : ActionKind) (limits free : PlannerBudget) : Prop where
  actions : free.maxActions = limits.maxActions
  scans : kind ≠ .scan → free.maxScans = limits.maxScans
  validations : kind ≠ .validate → free.maxValidations = limits.maxValidations
  batch : free.maxValidationBatch = limits.maxValidationBatch
  reports : kind ≠ .report → free.maxReports = limits.maxReports
  inflight : free.maxInflightJobs = limits.maxInflightJobs
  failed : free.maxFailedJobs = limits.maxFailedJobs

/-- Two budgets that differ in the limit of jobs in flight only. -/
structure AgreeButInflight (limits free : PlannerBudget) : Prop where
  actions : free.maxActions = limits.maxActions
  scans : free.maxScans = limits.maxScans
  validations : free.maxValidations = limits.maxValidations
  batch : free.maxValidationBatch = limits.maxValidationBatch
  reports : free.maxReports = limits.maxReports
  failed : free.maxFailedJobs = limits.maxFailedJobs

/-- No pass plans an action of the kind. -/
def NeverPlans (r : Run) (kind : ActionKind) : Prop :=
  ∀ i, (r.pass i).planned.kind ≠ kind ∧ ((r.pass i).action r.primaryUrl).kind ≠ kind

/-- The limit of a kind of action changes a run only if an action of the kind is planned, and the limit of jobs in flight opens no breaker
that would stay closed without it. -/
def Isolated (cfg : QueueSettings) (limits : PlannerBudget) (r : Run) (q : SqliteQueue) : Prop :=
  (∀ kind ∈ limitedKinds, ∀ free, AgreeBut kind limits free → ¬ Reached (r.usage q) free kind → NeverPlans r kind →
    advanceCampaign cfg limits r q = advanceCampaign cfg free r q) ∧
  ∀ free, AgreeButInflight limits free → (r.usage q).inflightJobs < free.maxInflightJobs →
    ∀ before reason after, (advanceCampaign cfg limits r q).effects = before ++ .openBreaker reason :: after →
      ∃ reason' after', (advanceCampaign cfg free r q).effects = before ++ .openBreaker reason' :: after'

/-- The run ends before its first pass. -/
def EndsEarly (r : Run) : Prop := r.breaker ≠ none ∨ stabilityBreakerReason r.decisions ≠ none ∨ r.runtimeExhausted = true

/-- The first pass opens the breaker for another cause than the limits. -/
def OpensAnyway (r : Run) (q : SqliteQueue) : Prop :=
  (r.pass 0).runtimeExhausted = true ∨ (r.usage q).failedJobs ≠ 0 ∨ (r.pass 0).intelligence.riskBlocked = true

/-- Something is blocked beside what the limit of the kind blocks. -/
def BlockedBeside (u : Usage) (limits : PlannerBudget) (kind : ActionKind) : Prop :=
  limits.maxActions ≤ u.actions ∨ limits.maxInflightJobs ≤ u.inflightJobs ∨ limits.maxFailedJobs ≤ u.failedJobs ∨
    ∃ other ∈ limitedKinds, other ≠ kind ∧ Reached u limits other

/-- Something is blocked beside what the limit of jobs in flight blocks. -/
def BlockedBesideInflight (u : Usage) (limits : PlannerBudget) : Prop :=
  limits.maxActions ≤ u.actions ∨ limits.maxFailedJobs ≤ u.failedJobs ∨ ∃ other ∈ limitedKinds, Reached u limits other

/-! ## Blocked actions -/

variable {u : Usage}

theorem anyBlocked_iff : anyBlocked u limits = true ↔
    limits.maxActions ≤ u.actions ∨ limits.maxInflightJobs ≤ u.inflightJobs ∨ limits.maxFailedJobs ≤ u.failedJobs ∨
      ∃ kind ∈ limitedKinds, Reached u limits kind := by
  have hkinds : (∃ kind ∈ limitedKinds, Reached u limits kind) ↔
      limits.maxScans ≤ u.scans ∨ limits.maxValidations ≤ u.validations ∨ limits.maxReports ≤ u.reports := by
    simp [limitedKinds, Reached]
  rw [hkinds]
  unfold anyBlocked blockedAction blockedJobs
  simp only [List.any_cons, List.any_nil, Bool.or_false, Bool.or_eq_true, reduceCtorEq, if_false]
  constructor
  · intro h
    by_contra hnot
    obtain ⟨hactions, hnot⟩ := not_or.mp hnot
    obtain ⟨hinflight, hnot⟩ := not_or.mp hnot
    obtain ⟨hfailed, hnot⟩ := not_or.mp hnot
    obtain ⟨hscans, hnot⟩ := not_or.mp hnot
    obtain ⟨hvalidations, hreports⟩ := not_or.mp hnot
    simp [hactions, hinflight, hfailed, hscans, hvalidations, hreports] at h
  · rintro (h | h | h | h | h | h)
    · simp [h]
    · by_cases hactions : limits.maxActions ≤ u.actions
      · simp [hactions]
      · by_cases hscans : limits.maxScans ≤ u.scans
        · simp [hactions, hscans]
        · simp [hactions, hscans, h]
    · by_cases hactions : limits.maxActions ≤ u.actions
      · simp [hactions]
      · by_cases hscans : limits.maxScans ≤ u.scans
        · simp [hactions, hscans]
        · by_cases hinflight : limits.maxInflightJobs ≤ u.inflightJobs
          · simp [hactions, hscans, hinflight]
          · simp [hactions, hscans, hinflight, h]
    · by_cases hactions : limits.maxActions ≤ u.actions
      · simp [hactions]
      · simp [hactions, h]
    · by_cases hactions : limits.maxActions ≤ u.actions
      · simp [hactions]
      · simp [hactions, h]
    · by_cases hactions : limits.maxActions ≤ u.actions
      · simp [hactions]
      · simp [hactions, h]

theorem any_ite_right {c : Prop} [Decidable c] {p : Blocker → Bool} (b : Blocker) :
    (if c then [b] else []).any p = (decide c && p b) := by
  split
  · rename_i h
    simp [h]
  · rename_i h
    simp [h]

theorem any_ite_left {c : Prop} [Decidable c] {p : Blocker → Bool} (b : Blocker) :
    (if c then [] else [b]).any p = (!decide c && p b) := by
  split
  · rename_i h
    simp [h]
  · rename_i h
    simp [h]

/-- What opens the breaker at the gate. -/
theorem breakerBlocker_iff {rules : Rules} {runtimeExhausted budgetBlocked : Bool} {failedJobs : Nat} {i : Intelligence} :
    ((buildAutonomyGate rules runtimeExhausted budgetBlocked failedJobs i).blockers.any fun b => decide (b ∈ breakerBlockers)) = true ↔
      budgetBlocked = true ∨ runtimeExhausted = true ∨ failedJobs ≠ 0 ∨ i.riskBlocked = true := by
  unfold buildAutonomyGate
  dsimp only
  simp only [List.any_append, any_ite_right, any_ite_left, breakerBlockers]
  simp
  tauto

/-! ## The first pass -/

/-- The gate of a pass. -/
def gateOf (limits : PlannerBudget) (r : Run) (q : SqliteQueue) (index : Nat) : AutonomyGate :=
  buildAutonomyGate r.rules (r.pass index).runtimeExhausted (anyBlocked (r.usage q) limits) (r.usage q).failedJobs
    (r.pass index).intelligence

/-- A pass whose gate has a blocker stops. -/
theorem passes_of_blockers {left index : Nat} {effects : List Effect} (h : (gateOf limits r q index).blockers ≠ []) :
    passes cfg limits r q (left + 1) index effects =
      stopped
        (let budgeted := applyBudget (r.usage q) limits ((r.pass index).action r.primaryUrl)
         let effects := if budgeted.2 ∧ budgeted.1.kind = .stop then openBreaker effects budgeted.1.reason else effects
         if (gateOf limits r q index).blockers.any fun b => decide (b ∈ breakerBlockers) then
           openBreaker effects "autonomy gate is blocked" else effects)
        (stopAction r.primaryUrl (if (gateOf limits r q index).humanReviewRequired then
          "human review required: " ++ "autonomy gate is blocked" else "autonomy gate is blocked")) q := by
  rw [passes]
  dsimp only
  have hcycle : ∀ action, buildAdaptiveCycle (gateOf limits r q index) action (r.pass index).intelligence.unstableJobKinds =
      ⟨"stop", "autonomy gate is blocked", false, (gateOf limits r q index).humanReviewRequired⟩ := fun action => if_pos h
  unfold gateOf at hcycle ⊢
  rw [hcycle, if_pos (.inl rfl)]

theorem openBreaker_twice (reason reason' : String) : openBreaker (openBreaker [] reason) reason' = [.openBreaker reason] := rfl

/-- The first pass opens the breaker. -/
theorem effects_of_breakerBlocker (h : anyBlocked (r.usage q) limits = true ∨ OpensAnyway r q) {left : Nat} :
    ∃ reason, (passes cfg limits r q (left + 1) 0 []).effects = [.openBreaker reason] := by
  have hany : ((gateOf limits r q 0).blockers.any fun b => decide (b ∈ breakerBlockers)) = true := breakerBlocker_iff.mpr h
  have hne : (gateOf limits r q 0).blockers ≠ [] := by
    intro hnil
    rw [hnil] at hany
    cases hany
  rw [passes_of_blockers hne]
  unfold stopped
  dsimp only
  rw [if_pos hany]
  split
  · exact ⟨_, openBreaker_twice _ _⟩
  · exact ⟨_, rfl⟩

theorem effects_progress (p : Pass) (effects : List Effect) (action : PlannedAction) :
    (p.progress cfg limits r q effects action).effects = effects ∨
      (p.progress cfg limits r q effects action).effects = effects ++ [.recon] := by
  unfold Pass.progress
  split
  · exact .inr rfl
  split
  · exact .inr rfl
  dsimp only
  split
  · split
    · exact .inl rfl
    · exact .inl rfl
  · exact .inl rfl

/-- What a run has done stays done. -/
theorem prefix_passes (left index : Nat) (effects : List Effect) : effects <+: (passes cfg limits r q left index effects).effects := by
  have hopen : ∀ (l : List Effect) reason, l <+: openBreaker l reason := by
    intro l reason
    unfold openBreaker
    split
    · exact List.prefix_refl l
    · exact List.prefix_append l _
  induction left generalizing index effects with
  | zero => exact List.prefix_refl effects
  | succ left ih =>
    rw [passes]
    dsimp only
    generalize hbudgeted : (if (applyBudget (r.usage q) limits ((r.pass index).action r.primaryUrl)).2 = true ∧
      (applyBudget (r.usage q) limits ((r.pass index).action r.primaryUrl)).1.kind = .stop then
        openBreaker effects (applyBudget (r.usage q) limits ((r.pass index).action r.primaryUrl)).1.reason else effects) = effects'
    have hstart : effects <+: effects' := by
      rw [← hbudgeted]
      split
      · exact hopen _ _
      · exact List.prefix_refl _
    split
    · unfold stopped
      dsimp only
      split
      · exact hstart.trans (hopen _ _)
      · exact hstart
    split
    · exact (hstart.trans (List.prefix_append _ _)).trans (ih _ _)
    · rcases @effects_progress cfg limits r q (r.pass index) effects' _ with heq | heq
      · rw [heq]
        exact hstart
      · rw [heq]
        exact hstart.trans (List.prefix_append _ _)

/-- Without a limit that is reached, the budget lets every action through. -/
theorem applyBudget_calm (hblocked : anyBlocked (r.usage q) limits = false) (action : PlannedAction) :
    ¬ ((applyBudget (r.usage q) limits action).2 = true ∧ (applyBudget (r.usage q) limits action).1.kind = .stop) := by
  have hnone : ¬ (limits.maxActions ≤ (r.usage q).actions) := by
    intro h
    rw [anyBlocked_iff.mpr (.inl h)] at hblocked
    cases hblocked
  intro h
  unfold applyBudget at h
  split at h
  · exact hnone (of_decide_eq_true h.1)
  · rename_i reason hreason
    have hany : anyBlocked (r.usage q) limits = true := by
      unfold anyBlocked
      refine List.any_eq_true.mpr ⟨action.kind, ?_, by rw [hreason]; rfl⟩
      cases hkind : action.kind with
      | stop =>
        rw [hkind] at hreason
        cases hreason
      | _ => decide
    rw [hany] at hblocked
    cases hblocked

/-- Without a limit or another cause, the run does not begin by opening the breaker. -/
theorem effects_of_open (hblocked : anyBlocked (r.usage q) limits = false) (hother : ¬ OpensAnyway r q) {left : Nat} {reason : String}
    {after : List Effect} : (passes cfg limits r q (left + 1) 0 []).effects ≠ .openBreaker reason :: after := by
  have hgate : ((buildAutonomyGate r.rules (r.pass 0).runtimeExhausted (anyBlocked (r.usage q) limits) (r.usage q).failedJobs
      (r.pass 0).intelligence).blockers.any fun b => decide (b ∈ breakerBlockers)) = false := by
    refine Bool.eq_false_iff.mpr fun h => ?_
    rcases breakerBlocker_iff.mp h with h | h
    · rw [h] at hblocked
      cases hblocked
    · exact hother h
  intro heq
  rw [passes] at heq
  dsimp only at heq
  rw [if_neg (applyBudget_calm hblocked _)] at heq
  split at heq
  · unfold stopped at heq
    dsimp only at heq
    rw [if_neg (by rw [hgate]; decide)] at heq
    cases heq
  split at heq
  · have hprefix := @prefix_passes cfg limits r q left 1 ([] ++ [.seed])
    rw [heq] at hprefix
    obtain ⟨rest, hrest⟩ := hprefix
    cases hrest
  · rcases @effects_progress cfg limits r q (r.pass 0) [] _ with h | h
    · rw [h] at heq
      cases heq
    · rw [h] at heq
      cases heq

/-! ## Two budgets -/

variable {kind : ActionKind}

variable {other : ActionKind}

theorem blockedAction_eq (hagree : AgreeBut kind limits free) (hne : other ≠ kind) :
    blockedAction u free other = blockedAction u limits other := by
  have hjobs : blockedJobs u free = blockedJobs u limits := by
    unfold blockedJobs
    rw [hagree.inflight, hagree.failed]
  unfold blockedAction
  rw [hagree.actions, hjobs]
  cases other with
  | scan => rw [hagree.scans hne.symm]
  | validate => rw [hagree.validations hne.symm]
  | report => rw [hagree.reports hne.symm]
  | _ => rfl

variable {action : PlannedAction}

theorem applyBudget_eq (hagree : AgreeBut kind limits free)
    (hne : action.kind ≠ kind) : applyBudget u free action = applyBudget u limits action := by
  unfold applyBudget
  rw [blockedAction_eq hagree hne, hagree.actions]

/-- The budget lets an action through or makes it a stop. -/
theorem kind_applyBudget_ne (hkind : kind ∈ limitedKinds)
    (hne : action.kind ≠ kind) : (applyBudget u limits action).1.kind ≠ kind := by
  unfold applyBudget
  split
  · exact hne
  · have hstop : ActionKind.stop ∉ limitedKinds := by decide
    intro heq
    rw [← heq] at hkind
    exact hstop hkind

theorem actionSpecs_eq (hagree : AgreeBut kind limits free) (p : Pass) (findings : List String)
    (hne : other ≠ kind) : p.actionSpecs findings u free other = p.actionSpecs findings u limits other := by
  cases other with
  | scan => simp only [Pass.actionSpecs, allocated, hagree.scans hne.symm, hagree.inflight]
  | validate => simp only [Pass.actionSpecs, allocated, hagree.validations hne.symm, hagree.inflight, hagree.batch]
  | _ => rfl

theorem progress_eq (hagree : AgreeBut kind limits free) (p : Pass) (effects : List Effect)
    (hne : action.kind ≠ kind) : p.progress cfg free r q effects action = p.progress cfg limits r q effects action := by
  unfold Pass.progress
  rw [actionSpecs_eq hagree p r.findings hne]

/-- A limit whose kind of action is not planned changes a run only through the gate. -/
theorem passes_eq (hkind : kind ∈ limitedKinds) (hagree : AgreeBut kind limits free) (hnever : NeverPlans r kind)
    (hblocked : anyBlocked (r.usage q) free = anyBlocked (r.usage q) limits) (left index : Nat) (effects : List Effect) :
    passes cfg free r q left index effects = passes cfg limits r q left index effects := by
  induction left generalizing index effects with
  | zero =>
    rw [passes, passes, applyBudget_eq hagree (hnever index).1]
  | succ left ih =>
    rw [passes, passes]
    dsimp only
    rw [applyBudget_eq hagree (hnever index).2, hblocked]
    split
    · rfl
    split
    · exact ih _ _
    · exact progress_eq hagree _ _ (kind_applyBudget_ne hkind (hnever index).2)

/-- Where the first pass opens the breaker anyway, the limit changes nothing. -/
theorem passes_eq_of_opensAnyway (hagree : AgreeBut kind limits free) (hnever : NeverPlans r kind)
    (hopens : OpensAnyway r q) (left : Nat) : passes cfg free r q (left + 1) 0 [] = passes cfg limits r q (left + 1) 0 [] := by
  have hany : ∀ limits, ((gateOf limits r q 0).blockers.any fun b => decide (b ∈ breakerBlockers)) = true := fun _ =>
    breakerBlocker_iff.mpr (.inr hopens)
  have hne : ∀ limits, (gateOf limits r q 0).blockers ≠ [] := by
    intro limits hnil
    have h := hany limits
    rw [hnil] at h
    cases h
  rw [passes_of_blockers (hne free), passes_of_blockers (hne limits), applyBudget_eq hagree (hnever 0).2, hany, hany]
  rfl

/-- While the limit of jobs in flight is not reached, it blocks nothing. -/
theorem blockedAction_eq_of_inflight (hagree : AgreeButInflight limits free) (hfree : u.inflightJobs < free.maxInflightJobs)
    (hlimits : u.inflightJobs < limits.maxInflightJobs) (kind : ActionKind) : blockedAction u free kind = blockedAction u limits kind := by
  have hjobs : blockedJobs u free = blockedJobs u limits := by
    unfold blockedJobs
    rw [hagree.failed, if_neg (Nat.not_le.mpr hfree), if_neg (Nat.not_le.mpr hlimits)]
  unfold blockedAction
  rw [hagree.actions, hagree.scans, hagree.validations, hagree.reports, hjobs]

theorem effects_progress_eq (p : Pass) (effects : List Effect) (action : PlannedAction) :
    (p.progress cfg free r q effects action).effects = (p.progress cfg limits r q effects action).effects := by
  have heffects : ∀ limits, (p.progress cfg limits r q effects action).effects =
      if action.kind = .crawl ∨ (action.kind = .scan ∧ p.intelligence.surfaceReady = false) then effects ++ [.recon] else effects := by
    intro limits
    unfold Pass.progress
    split
    · rename_i hcrawl
      exact (if_pos (.inl hcrawl)).symm
    rename_i hcrawl
    split
    · rename_i hscan
      exact (if_pos (.inr hscan)).symm
    rename_i hscan
    rw [if_neg (not_or.mpr ⟨hcrawl, hscan⟩)]
    dsimp only
    split
    · split
      · rfl
      · rfl
    · rfl
  rw [heffects, heffects]

theorem effects_passes_eq (hblocked : ∀ kind, blockedAction (r.usage q) free kind = blockedAction (r.usage q) limits kind)
    (hactions : free.maxActions = limits.maxActions) (left index : Nat) (effects : List Effect) :
    (passes cfg free r q left index effects).effects = (passes cfg limits r q left index effects).effects := by
  have hbudget : ∀ action, applyBudget (r.usage q) free action = applyBudget (r.usage q) limits action := by
    intro action
    unfold applyBudget
    rw [hblocked, hactions]
  have hany : anyBlocked (r.usage q) free = anyBlocked (r.usage q) limits := by
    unfold anyBlocked
    simp only [hblocked]
  induction left generalizing index effects with
  | zero => rfl
  | succ left ih =>
    rw [passes, passes]
    dsimp only
    rw [hbudget, hany]
    split
    · rfl
    split
    · exact ih _ _
    · exact effects_progress_eq _ _ _

/-! ## The exact condition -/

/-- The condition under which a run is isolated. -/
def Harmless (r : Run) (q : SqliteQueue) (limits : PlannerBudget) : Prop :=
  EndsEarly r ∨ OpensAnyway r q ∨
    ((∀ kind ∈ limitedKinds, NeverPlans r kind → Reached (r.usage q) limits kind → BlockedBeside (r.usage q) limits kind) ∧
      (limits.maxInflightJobs ≤ (r.usage q).inflightJobs → BlockedBesideInflight (r.usage q) limits))

/-- A run that ends before its first pass does not look at the limits. -/
theorem advance_of_endsEarly (h : EndsEarly r) (free : PlannerBudget) :
    advanceCampaign cfg free r q = advanceCampaign cfg limits r q := by
  unfold advanceCampaign
  split
  · rfl
  rename_i hbreaker
  split
  · rfl
  rename_i hstability
  split
  · rfl
  rename_i hruntime
  rcases h with h | h | h
  · exact absurd hbreaker h
  · exact absurd hstability h
  · exact absurd h hruntime

theorem advance_of_not_endsEarly (h : ¬ EndsEarly r) : advanceCampaign cfg limits r q = passes cfg limits r q 3 0 [] := by
  obtain ⟨hbreaker, h⟩ := not_or.mp h
  obtain ⟨hstability, hruntime⟩ := not_or.mp h
  unfold advanceCampaign
  rw [not_not.mp hbreaker]
  dsimp only
  rw [not_not.mp hstability]
  dsimp only
  rw [if_neg hruntime]

theorem reached_eq (hagree : AgreeBut kind limits free) (hne : other ≠ kind) :
    Reached u free other ↔ Reached u limits other := by
  cases other with
  | scan => exact iff_of_eq (congrArg (· ≤ u.scans) (hagree.scans hne.symm))
  | validate => exact iff_of_eq (congrArg (· ≤ u.validations) (hagree.validations hne.symm))
  | report => exact iff_of_eq (congrArg (· ≤ u.reports) (hagree.reports hne.symm))
  | _ => exact Iff.rfl

/-- Without the limit of the kind, what is blocked is what else is. -/
theorem anyBlocked_free_iff (hagree : AgreeBut kind limits free) (hfree : ¬ Reached u free kind) :
    anyBlocked u free = true ↔ BlockedBeside u limits kind := by
  rw [anyBlocked_iff, hagree.actions, hagree.inflight, hagree.failed]
  unfold BlockedBeside
  refine or_congr_right (or_congr_right (or_congr_right ⟨?_, ?_⟩))
  · rintro ⟨other, hother, hreached⟩
    have hne : other ≠ kind := fun heq => hfree (heq ▸ hreached)
    exact ⟨other, hother, hne, (reached_eq hagree hne).mp hreached⟩
  · rintro ⟨other, hother, hne, hreached⟩
    exact ⟨other, hother, (reached_eq hagree hne).mpr hreached⟩

theorem anyBlocked_of_beside (h : BlockedBeside u limits kind) : anyBlocked u limits = true := by
  refine anyBlocked_iff.mpr ?_
  rcases h with h | h | h | ⟨other, hother, -, hreached⟩
  · exact .inl h
  · exact .inr (.inl h)
  · exact .inr (.inr (.inl h))
  · exact .inr (.inr (.inr ⟨other, hother, hreached⟩))

theorem isolated_of_harmless (h : Harmless r q limits) : Isolated cfg limits r q := by
  by_cases hearly : EndsEarly r
  · refine ⟨fun kind _ free _ _ _ => (advance_of_endsEarly hearly free).symm, fun free _ _ before reason after heffects => ?_⟩
    rw [@advance_of_endsEarly cfg limits r q hearly free]
    exact ⟨reason, after, heffects⟩
  -- two runs that both begin by opening the breaker do nothing else
  have hboth : ∀ free, (anyBlocked (r.usage q) limits = true ∨ OpensAnyway r q) →
      (anyBlocked (r.usage q) free = true ∨ OpensAnyway r q) →
      ∀ before reason after, (advanceCampaign cfg limits r q).effects = before ++ .openBreaker reason :: after →
        ∃ reason' after', (advanceCampaign cfg free r q).effects = before ++ .openBreaker reason' :: after' := by
    intro free hlimits hfree before reason after heffects
    rw [advance_of_not_endsEarly hearly] at heffects ⊢
    obtain ⟨x, hx⟩ := @effects_of_breakerBlocker cfg limits r q hlimits 2
    obtain ⟨y, hy⟩ := @effects_of_breakerBlocker cfg free r q hfree 2
    rw [hx] at heffects
    cases before with
    | nil => exact ⟨y, [], hy⟩
    | cons e before =>
      have hlength := congrArg List.length heffects
      rw [List.length_singleton, List.length_append, List.length_cons, List.length_cons] at hlength
      omega
  rcases h with h | h | ⟨hkinds, hinflight⟩
  · exact absurd h hearly
  · refine ⟨fun kind _ free hagree _ hnever => ?_, fun free _ _ => hboth free (.inr h) (.inr h)⟩
    rw [advance_of_not_endsEarly hearly, advance_of_not_endsEarly hearly]
    exact (passes_eq_of_opensAnyway hagree hnever h 2).symm
  · refine ⟨fun kind hkind free hagree hfree hnever => ?_, fun free hagree hfree => ?_⟩
    · rw [advance_of_not_endsEarly hearly, advance_of_not_endsEarly hearly]
      refine (passes_eq hkind hagree hnever ?_ 3 0 []).symm
      by_cases hreached : Reached (r.usage q) limits kind
      · have hbeside := hkinds kind hkind hnever hreached
        rw [(anyBlocked_free_iff hagree hfree).mpr hbeside, anyBlocked_of_beside hbeside]
      · have hself : AgreeBut kind limits limits := ⟨rfl, fun _ => rfl, fun _ => rfl, rfl, fun _ => rfl, rfl, rfl⟩
        exact Bool.eq_iff_iff.mpr ((anyBlocked_free_iff hagree hfree).trans (anyBlocked_free_iff hself hreached).symm)
    · by_cases hreached : limits.maxInflightJobs ≤ (r.usage q).inflightJobs
      · have hblocked : ∀ free : PlannerBudget, AgreeButInflight limits free → anyBlocked (r.usage q) free = true := by
          intro free hagree
          refine anyBlocked_iff.mpr ?_
          rcases hinflight hreached with h | h | ⟨other, hother, h⟩
          · exact .inl (hagree.actions ▸ h)
          · exact .inr (.inr (.inl (hagree.failed ▸ h)))
          · refine .inr (.inr (.inr ⟨other, hother, ?_⟩))
            cases other with
            | scan => exact hagree.scans.le.trans h
            | validate => exact hagree.validations.le.trans h
            | report => exact hagree.reports.le.trans h
            | _ => exact h
        have hself : AgreeButInflight limits limits := ⟨rfl, rfl, rfl, rfl, rfl, rfl⟩
        exact hboth free (.inl (hblocked limits hself)) (.inl (hblocked free hagree))
      · intro before reason after heffects
        refine ⟨reason, after, ?_⟩
        rw [← heffects, advance_of_not_endsEarly hearly, advance_of_not_endsEarly hearly]
        exact effects_passes_eq (blockedAction_eq_of_inflight hagree hfree (Nat.lt_of_not_le hreached)) hagree.actions 3 0 []

/-- A budget without the limit of a kind of action, as far as the counts go. -/
theorem exists_free (u : Usage) (limits : PlannerBudget) (hkind : kind ∈ limitedKinds) (h : Reached u limits kind) :
    ∃ free, AgreeBut kind limits free ∧ ¬ Reached u free kind := by
  obtain ⟨h₁, h₂, h₃, h₄, h₅, h₆, h₇⟩ := limits.positive
  have hbatch := limits.batch_le
  cases kind with
  | scan =>
    refine ⟨{ limits with maxScans := u.scans + 1, positive := ⟨h₁, Nat.le_add_left 1 _, h₃, h₄, h₅, h₆, h₇⟩ },
      ⟨rfl, fun hne => absurd rfl hne, fun _ => rfl, rfl, fun _ => rfl, rfl, rfl⟩, Nat.not_succ_le_self _⟩
  | validate =>
    have hle : limits.maxValidations ≤ u.validations := h
    refine ⟨{ limits with
      maxValidations := u.validations + 1
      positive := ⟨h₁, h₂, Nat.le_add_left 1 _, h₄, h₅, h₆, h₇⟩
      batch_le := (hbatch.trans hle).trans (Nat.le_succ _) },
      ⟨rfl, fun _ => rfl, fun hne => absurd rfl hne, rfl, fun _ => rfl, rfl, rfl⟩, Nat.not_succ_le_self _⟩
  | report =>
    refine ⟨{ limits with maxReports := u.reports + 1, positive := ⟨h₁, h₂, h₃, h₄, Nat.le_add_left 1 _, h₆, h₇⟩ },
      ⟨rfl, fun _ => rfl, fun _ => rfl, rfl, fun hne => absurd rfl hne, rfl, rfl⟩, Nat.not_succ_le_self _⟩
  | _ => exact absurd h id

theorem harmless_of_isolated (h : Isolated cfg limits r q) : Harmless r q limits := by
  by_contra hnot
  obtain ⟨hearly, hnot⟩ := not_or.mp hnot
  obtain ⟨hopens, hnot⟩ := not_or.mp hnot
  refine hnot ⟨fun kind hkind hnever hreached => ?_, fun hreached => ?_⟩
  · by_contra hbeside
    obtain ⟨free, hagree, hfree⟩ := exists_free (r.usage q) limits hkind hreached
    have hopen : anyBlocked (r.usage q) free = false :=
      Bool.eq_false_iff.mpr fun hany => hbeside ((anyBlocked_free_iff hagree hfree).mp hany)
    have hblocked : anyBlocked (r.usage q) limits = true := anyBlocked_iff.mpr (.inr (.inr (.inr ⟨kind, hkind, hreached⟩)))
    have heq := h.1 kind hkind free hagree hfree hnever
    rw [advance_of_not_endsEarly hearly, advance_of_not_endsEarly hearly] at heq
    obtain ⟨reason, heffects⟩ := @effects_of_breakerBlocker cfg limits r q (.inl hblocked) 2
    rw [heq] at heffects
    exact effects_of_open hopen hopens heffects
  · by_contra hbeside
    obtain ⟨hactions, hbeside⟩ := not_or.mp hbeside
    obtain ⟨hfailed, hkinds⟩ := not_or.mp hbeside
    obtain ⟨h₁, h₂, h₃, h₄, h₅, h₆, h₇⟩ := limits.positive
    let free : PlannerBudget := { limits with
      maxInflightJobs := (r.usage q).inflightJobs + 1, positive := ⟨h₁, h₂, h₃, h₄, h₅, Nat.le_add_left 1 _, h₇⟩ }
    have hopen : anyBlocked (r.usage q) free = false := by
      refine Bool.eq_false_iff.mpr fun hany => ?_
      rcases anyBlocked_iff.mp hany with hany | hany | hany | hany
      · exact hactions hany
      · exact Nat.not_succ_le_self _ hany
      · exact hfailed hany
      · exact hkinds hany
    have hblocked : anyBlocked (r.usage q) limits = true := anyBlocked_iff.mpr (.inr (.inl hreached))
    obtain ⟨reason, heffects⟩ := @effects_of_breakerBlocker cfg limits r q (.inl hblocked) 2
    rw [← advance_of_not_endsEarly hearly] at heffects
    obtain ⟨reason', after', heffects'⟩ := h.2 free ⟨rfl, rfl, rfl, rfl, rfl, rfl⟩ (Nat.lt_succ_self _) [] reason [] heffects
    rw [advance_of_not_endsEarly hearly] at heffects'
    exact effects_of_open hopen hopens heffects'

theorem isolated_iff (cfg : QueueSettings) (limits : PlannerBudget) (r : Run) (q : SqliteQueue) :
    Isolated cfg limits r q ↔ Harmless r q limits :=
  ⟨harmless_of_isolated, isolated_of_harmless⟩

def sampleCampaign : Ident := ⟨"campaign", by decide, by decide, by decide, by decide⟩

/-- A completed scan of the campaign. -/
def sampleScan : Job where
  id := sampleCampaign
  campaignId := sampleCampaign
  kind := .strixScan
  payload := "{}"
  status := .completed
  attempts := 1
  maxAttempts := 2
  createdAt := 0
  updatedAt := 0
  claimedBy := none
  claimedAt := none
  lastError := none
  dedupeKey := none

def sampleQueue : SqliteQueue := ⟨[sampleScan], List.nodup_singleton _, List.nodup_nil⟩

theorem sampleBudget_ok : 1 ≤ 50 ∧ 1 ≤ 1 ∧ 1 ≤ 25 ∧ 1 ≤ 10 ∧ 1 ≤ 5 ∧ 1 ≤ 12 ∧ 1 ≤ 5 := by decide

theorem sampleBatch_le : 10 ≤ 25 := by decide

/-- A budget for one scan. -/
def sampleBudget : PlannerBudget := ⟨50, 1, 25, 10, 5, 12, 5, sampleBudget_ok, sampleBatch_le⟩

/-- A finding is to be validated, and nothing else keeps it from that. -/
def samplePass : Pass where
  planned := ⟨.validate, some "example.test", "findings still require independent validation", 100⟩
  repeatCandidates := some []
  runtimeExhausted := false
  intelligence := {
    riskBlocked := false
    riskLevel := "low"
    consensusBlocked := false
    nextFocus := "collect_validation"
    unstableJobKinds := []
    prioritized := fun reason priority => (reason, priority)
    recon := []
    surfaceReady := true
    surfaceReason := ""
    selectedEngines := [.strix]
    pending := ["f"] }
  fingerprint := "0"
  scanAllowed := true
  browserReady := false
  payload := fun _ _ => .empty
  reading := fun _ => ⟨0, sampleCampaign⟩

def sampleRun : Run where
  campaign := sampleCampaign
  primaryUrl := "https://example.test"
  findings := ["f"]
  rules := ⟨true, false, false, false, false⟩
  decisions := [.scan]
  breaker := none
  runtimeExhausted := false
  pass := fun _ => samplePass

theorem wideBudget_ok : 1 ≤ 50 ∧ 1 ≤ 2 ∧ 1 ≤ 25 ∧ 1 ≤ 10 ∧ 1 ≤ 5 ∧ 1 ≤ 12 ∧ 1 ≤ 5 := by decide

/-- A budget for two scans. -/
def wideBudget : PlannerBudget := ⟨50, 2, 25, 10, 5, 12, 5, wideBudget_ok, sampleBatch_le⟩

/-- The limit of scans is reached, and the planned validation is not blocked; yet the run stops and the breaker opens, where a budget for
two scans lets it go on. -/
theorem scan_limit_stops_validation :
    blockedAction (sampleRun.usage sampleQueue) sampleBudget .validate = none ∧
      (advanceCampaign QueueSettings.default sampleBudget sampleRun sampleQueue).effects = [.openBreaker "autonomy gate is blocked"] ∧
      (advanceCampaign QueueSettings.default wideBudget sampleRun sampleQueue).effects = [] ∧
      ¬ Isolated QueueSettings.default sampleBudget sampleRun sampleQueue := by
  have hopens : (advanceCampaign QueueSettings.default sampleBudget sampleRun sampleQueue).effects =
      [.openBreaker "autonomy gate is blocked"] := by decide
  have hgoes : (advanceCampaign QueueSettings.default wideBudget sampleRun sampleQueue).effects = [] := by decide
  refine ⟨by decide, hopens, hgoes, fun h => ?_⟩
  have hagree : AgreeBut .scan sampleBudget wideBudget :=
    ⟨rfl, fun hne => absurd rfl hne, fun _ => rfl, rfl, fun _ => rfl, rfl, rfl⟩
  have hfree : ¬ Reached (sampleRun.usage sampleQueue) wideBudget .scan := by
    unfold Reached
    decide
  have hkinds : samplePass.planned.kind ≠ .scan ∧ (samplePass.action sampleRun.primaryUrl).kind ≠ .scan := by decide
  have heq := h.1 .scan (by decide) wideBudget hagree hfree fun _ => hkinds
  rw [heq, hgoes] at hopens
  cases hopens

end Orchestrator

end XbowPerso
