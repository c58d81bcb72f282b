import XbowPerso.Theorems.BudgetIsolation

/-!
# The breaker and the planner's own decisions

The stability check takes an action after a recorded stop for a violation, and it reads the whole history. The planner records a stop also
while it waits: the action that follows opens the breaker, and a reset of the breaker lasts only while what opened it is gone.
-/

namespace XbowPerso

namespace Orchestrator

open AdaptivePlanner (ActionKind PlannedAction)

variable {cfg : QueueSettings} {limits : PlannerBudget} {r : Run} {q : SqliteQueue}

/-! ## The stability check -/

theorem stopReopens_append (decisions : List ActionKind) (kind : ActionKind) :
    stopReopens (decisions ++ [kind]) =
      stopReopens decisions + if decisions.getLast? = some .stop ∧ kind ≠ .stop then 1 else 0 := by
  induction decisions with
  | nil => rfl
  | cons a decisions ih =>
    cases decisions with
    | nil =>
      show (if a = .stop ∧ kind ≠ .stop then 1 else 0) + 0 = 0 + _
      rw [List.getLast?_singleton, Nat.add_zero, Nat.zero_add]
      simp only [Option.some.injEq]
    | cons b decisions =>
      show (if a = .stop ∧ b ≠ .stop then 1 else 0) + stopReopens ((b :: decisions) ++ [kind]) = _
      rw [ih, List.getLast?_cons_cons]
      show _ = ((if a = .stop ∧ b ≠ .stop then 1 else 0) + stopReopens (b :: decisions)) + _
      omega

/-- The check finds nothing exactly when no action follows a stop and there are less than three oscillations. -/
theorem stabilityBreakerReason_eq_none_iff (decisions : List ActionKind) :
    stabilityBreakerReason decisions = none ↔ stopReopens decisions = 0 ∧ oscillations decisions < 3 := by
  unfold stabilityBreakerReason
  constructor
  · intro h
    split at h
    · cases h
    rename_i hreopens
    split at h
    · cases h
    rename_i hunstable
    refine ⟨by omega, Nat.lt_of_not_le fun hthree => hunstable ⟨?_, hthree⟩⟩
    unfold stabilityScore
    omega
  · rintro ⟨hreopens, hthree⟩
    rw [if_neg (by omega), if_neg fun h => by omega]

/-! ## What a run decides -/

/-- The gate and the cycle hold the action of a pass back. -/
def HeldBack (limits : PlannerBudget) (r : Run) (q : SqliteQueue) (index : Nat) : Prop :=
  (gateOf limits r q index).blockers ≠ [] ∨ (r.pass index).intelligence.unstableJobKinds ≠ [] ∨
    (gateOf limits r q index).humanReviewRequired = true ∨
    (applyBudget (r.usage q) limits ((r.pass index).action r.primaryUrl)).1.kind = .stop ∨
    (applyBudget (r.usage q) limits ((r.pass index).action r.primaryUrl)).1.kind = .report

instance (index : Nat) : Decidable (HeldBack limits r q index) := inferInstanceAs (Decidable (_ ∨ _ ∨ _ ∨ _ ∨ _))

/-- What the passes decide on, from what they read. -/
def decidedFrom (limits : PlannerBudget) (r : Run) (q : SqliteQueue) : Nat → Nat → ActionKind
  | 0, index => (applyBudget (r.usage q) limits (r.pass index).planned).1.kind
  | left + 1, index =>
    let kind := (applyBudget (r.usage q) limits ((r.pass index).action r.primaryUrl)).1.kind
    if HeldBack limits r q index then .stop
    else if kind = .inventory then decidedFrom limits r q left (index + 1)
    else if kind = .scan ∧ (r.pass index).intelligence.surfaceReady = false then .crawl
    else if kind = .validate ∧ ((r.pass index).actionSpecs r.findings (r.usage q) limits .validate).isEmpty then .stop
    else kind

/-- What a run decides on. -/
def decided (limits : PlannerBudget) (r : Run) (q : SqliteQueue) : ActionKind :=
  if r.breaker.isSome || (stabilityBreakerReason r.decisions).isSome || r.runtimeExhausted then .stop else decidedFrom limits r q 3 0

variable {jobs : List Job}

theorem length_enqueueAll {reading : Nat → Reading} {campaignId : String} {specs : List JobSpec} {q q' : SqliteQueue}
    (h : enqueueAll cfg reading campaignId specs q = (.ok jobs, q')) : jobs.length = specs.length := by
  induction specs generalizing q q' jobs with
  | nil =>
    cases h
    rfl
  | cons spec specs ih =>
    unfold enqueueAll at h
    split at h
    · cases h
    split at h
    · cases h
    rename_i heq
    have hjobs := Except.ok.inj (Prod.mk.inj h).1
    rw [← hjobs, List.length_cons, List.length_cons, ih heq]

/-- The cycle lets an action progress exactly when it is not held back. -/
theorem heldBack_iff (index : Nat) :
    let action := (applyBudget (r.usage q) limits ((r.pass index).action r.primaryUrl)).1
    let cycle := buildAdaptiveCycle (gateOf limits r q index) action (r.pass index).intelligence.unstableJobKinds
    (cycle.nextAction = "stop" ∨ cycle.safeToProgress = false) ↔ HeldBack limits r q index := by
  dsimp only
  unfold HeldBack buildAdaptiveCycle
  by_cases hblockers : (gateOf limits r q index).blockers ≠ []
  · rw [if_pos hblockers]
    exact ⟨fun _ => .inl hblockers, fun _ => .inl rfl⟩
  rw [if_neg hblockers]
  by_cases hunstable : (r.pass index).intelligence.unstableJobKinds ≠ []
  · rw [if_pos hunstable]
    exact ⟨fun _ => .inr (.inl hunstable), fun _ => .inl rfl⟩
  rw [if_neg hunstable]
  by_cases hhuman : (gateOf limits r q index).humanReviewRequired = true
  · rw [if_pos hhuman]
    exact ⟨fun _ => .inr (.inr (.inl hhuman)), fun _ => .inr rfl⟩
  rw [if_neg hhuman]
  generalize (applyBudget (r.usage q) limits ((r.pass index).action r.primaryUrl)).1 = action
  simp only [hblockers, hunstable, hhuman, false_or]
  cases hkind : action.kind with
  | stop => simp
  | report => simp
  | _ => simp [actionWord]

variable {answer : PlannedAction}

theorem kind_progress {p : Pass} {effects : List Effect} {action : PlannedAction}
    (h : (p.progress cfg limits r q effects action).answer = .ok (answer, jobs)) :
    answer.kind =
      if action.kind = .scan ∧ p.intelligence.surfaceReady = false then .crawl
      else if action.kind = .validate ∧ (p.actionSpecs r.findings (r.usage q) limits .validate).isEmpty then .stop
      else action.kind := by
  have henqueued : ∀ {effects action jobs'}, (enqueued effects action jobs').answer = .ok (answer, jobs) → answer = action := by
    intro effects action jobs' h
    unfold enqueued at h
    dsimp only at h
    cases hjobs : jobs'.1 with
    | error e =>
      rw [hjobs] at h
      cases h
    | ok l =>
      rw [hjobs] at h
      exact (Prod.mk.inj (Except.ok.inj h)).1.symm
  unfold Pass.progress at h
  split at h
  · rename_i hcrawl
    rw [henqueued h, hcrawl]
    rfl
  split at h
  · rename_i hscan
    rw [henqueued h, if_pos hscan]
  rename_i hscan
  rw [if_neg hscan]
  dsimp only at h
  split at h
  · rename_i q' heq
    have hnil := length_enqueueAll heq
    rw [List.length_nil] at hnil
    split at h
    · rename_i hvalidate
      rw [hvalidate] at hnil
      rw [if_pos ⟨hvalidate, List.isEmpty_iff_length_eq_zero.mpr hnil.symm⟩, ← (Prod.mk.inj (Except.ok.inj h)).1]
      rfl
    · rename_i hvalidate
      rw [if_neg fun hboth => hvalidate hboth.1, ← (Prod.mk.inj (Except.ok.inj h)).1]
  · rename_i hsome
    rw [henqueued h, if_neg]
    rintro ⟨hvalidate, hempty⟩
    rw [hvalidate, List.isEmpty_iff.mp hempty] at hsome
    exact hsome _ rfl

theorem kind_passes (left index : Nat) (effects : List Effect)
    (h : (passes cfg limits r q left index effects).answer = .ok (answer, jobs)) : answer.kind = decidedFrom limits r q left index := by
  induction left generalizing index effects with
  | zero =>
    rw [passes] at h
    rw [← (Prod.mk.inj (Except.ok.inj h)).1]
    rfl
  | succ left ih =>
    rw [passes] at h
    dsimp only at h
    have hheld := @heldBack_iff limits r q index
    dsimp only at hheld
    rw [show buildAutonomyGate r.rules (r.pass index).runtimeExhausted (anyBlocked (r.usage q) limits) (r.usage q).failedJobs
      (r.pass index).intelligence = gateOf limits r q index from rfl] at h
    unfold decidedFrom
    dsimp only
    split at h
    · rename_i hstop
      rw [if_pos (hheld.mp hstop), ← (Prod.mk.inj (Except.ok.inj h)).1]
      rfl
    rename_i hgo
    rw [if_neg fun hback => hgo (hheld.mpr hback)]
    split at h
    · rename_i hinventory
      rw [if_pos hinventory]
      exact ih _ _ h
    · rename_i hinventory
      rw [if_neg hinventory, kind_progress h]

/-- The action of a run is the one that it decides on. -/
theorem kind_advance
    (h : (advanceCampaign cfg limits r q).answer = .ok (answer, jobs)) : answer.kind = decided limits r q := by
  unfold advanceCampaign at h
  unfold decided
  split at h
  · rename_i hbreaker
    rw [hbreaker, ← (Prod.mk.inj (Except.ok.inj h)).1]
    rfl
  rename_i hbreaker
  rw [hbreaker]
  split at h
  · rename_i hstability
    rw [hstability, ← (Prod.mk.inj (Except.ok.inj h)).1]
    rfl
  rename_i hstability
  rw [hstability]
  split at h
  · rename_i hruntime
    rw [hruntime, ← (Prod.mk.inj (Except.ok.inj h)).1]
    rfl
  · rename_i hruntime
    rw [Bool.not_eq_true _ |>.mp hruntime]
    exact kind_passes _ _ _ h

/-! ## Runs that keep the planner steady -/

/-- A run does not act after a stop, and makes no third oscillation. -/
def SteadyTurn (h : History) (t : Turn) : Prop :=
  (h.actions.getLast? = some .stop → decided t.limits (t.given h) t.queue = .stop) ∧
    oscillations (h.actions ++ [decided t.limits (t.given h) t.queue]) < 3

/-- A sequence of such runs. -/
def SteadyRun : History → List Turn → Prop
  | _, [] => True
  | h, t :: l => SteadyTurn h t ∧ SteadyRun (h.advance t) l

/-- A run records the kind that it decides on, or nothing. -/
theorem actions_advance (h : History) (t : Turn) :
    (h.advance t).actions = h.actions ∨ (h.advance t).actions = h.actions ++ [decided t.limits (t.given h) t.queue] := by
  unfold History.advance
  dsimp only
  split
  · exact .inl rfl
  · rename_i answer hanswer
    have hkind : answer.1.kind = decided t.limits (t.given h) t.queue := kind_advance hanswer
    unfold History.record
    split
    · exact .inl rfl
    · refine .inr ?_
      unfold History.actions
      rw [List.map_append, List.map_singleton, hkind]

theorem defaultBudget_ok : 1 ≤ 50 ∧ 1 ≤ 3 ∧ 1 ≤ 25 ∧ 1 ≤ 10 ∧ 1 ≤ 5 ∧ 1 ≤ 12 ∧ 1 ≤ 5 := by decide

def defaultBudget : PlannerBudget := ⟨50, 3, 25, 10, 5, 12, 5, defaultBudget_ok, sampleBatch_le⟩

/-- One engine has scanned the endpoint, and found nothing. -/
def oneScanned : ObservationGraph :=
  ((ObservationGraph.empty.put ⟨"asset:a", "asset", "example.test", "recon", [], []⟩).put
    ⟨"endpoint:e", "endpoint", "https://example.test/", "recon", ["asset:a"], []⟩).put
    ⟨"evidence:s", "evidence", "scan", "strix", ["endpoint:e"], [("phase", .str "scan"), ("status", .str "completed")]⟩

/-- Then the other one has a finding. -/
def otherScanned : ObservationGraph := oneScanned.put ⟨"finding:f", "finding", "sqli", "nuclei", ["endpoint:e"], []⟩

def sampleValidation : Ident := ⟨"validation", by decide, by decide, by decide, by decide⟩

/-- The job of the other engine. -/
def sampleNuclei (status : JobStatus) : Job :=
  { sampleScan with
    id := ⟨"nuclei", by decide, by decide, by decide, by decide⟩
    kind := .nucleiScan
    status := status }

theorem twoScans_ids (status : JobStatus) : ([sampleScan, sampleNuclei status].map Job.id).Nodup := by
  have htexts : (([sampleScan, sampleNuclei status].map Job.id).map Ident.text).Nodup := by
    show (["campaign", "nuclei"] : List String).Nodup
    decide
  exact htexts.of_map

theorem twoScans_dedupes (status : JobStatus) : ([sampleScan, sampleNuclei status].filterMap Job.dedupe).Nodup := List.nodup_nil

/-- Both scans of the campaign. -/
def twoScans (status : JobStatus) : SqliteQueue := ⟨[sampleScan, sampleNuclei status], twoScans_ids status, twoScans_dedupes status⟩

/-- The run between the two. -/
def waitingTurn : Turn where
  cfg := QueueSettings.default
  limits := defaultBudget
  run := { sampleRun with
    findings := []
    pass := fun _ => { samplePass with planned := ⟨.stop, some "example.test", "scan completed without recorded findings", 100⟩ } }
  queue := twoScans .running
  fingerprint := "0"

/-- The run after both. -/
def validatingTurn : Turn where
  cfg := QueueSettings.default
  limits := defaultBudget
  run := { sampleRun with
    pass := fun _ => { samplePass with
      reading := fun _ => ⟨0, sampleValidation⟩ } }
  queue := twoScans .completed
  fingerprint := "1"

def emptyHistory : History := ⟨[], none⟩

theorem plan_oneScanned : AdaptivePlanner.planObserved "example.test" ⟨"https://example.test", true, []⟩ oneScanned =
    [(waitingTurn.run.pass 0).planned] := by decide +kernel

theorem plan_otherScanned : AdaptivePlanner.planObserved "example.test" ⟨"https://example.test", true, [⟨"f", .candidate⟩]⟩ otherScanned =
    [(validatingTurn.run.pass 0).planned] := by decide +kernel

theorem actions_turns : (emptyHistory.advances [waitingTurn, validatingTurn]).actions = [.stop, .validate] := by decide

/-- A run in which no limit is near: no job has failed, nothing is blocked, and there is time. -/
def Turn.Calm (h : History) (t : Turn) : Prop :=
  ((t.given h).usage t.queue).failedJobs = 0 ∧ anyBlocked ((t.given h).usage t.queue) t.limits = false ∧
    t.run.runtimeExhausted = false ∧ ∀ index, (t.run.pass index).runtimeExhausted = false

end Orchestrator

end XbowPerso

/-!
## What a reset of the breaker is good for

A run looks for the causes of the breaker in the whole history, in the failed jobs and in the counters, and nothing that it reads knows of
the reset. A reset lasts exactly as long as the runs after it find none of the causes, old ones included.
-/

namespace XbowPerso

namespace Orchestrator

open AdaptivePlanner (ActionKind PlannedAction)

variable {cfg : QueueSettings} {limits : PlannerBudget} {r : Run} {q : SqliteQueue}

/-! ## The statement -/

/-- What there was when the operator reset the breaker. -/
structure AtReset where
  history : History
  queue : SqliteQueue

/-- The usage that a run reads. -/
def Turn.usage (t : Turn) (h : History) : Usage := (t.given h).usage t.queue

/-- What is left to complain about when everything from before the reset is forgiven: the new decisions are unstable, a further job has
failed, a limit is newly reached, the time is up, or the campaign has become a risk. -/
def NewCause (base : AtReset) (h : History) (t : Turn) : Prop :=
  stabilityBreakerReason (h.actions.drop base.history.actions.length) ≠ none ∨
  (∃ j ∈ t.queue.rows, j.campaignId = t.run.campaign ∧ j.status = .failed ∧
    ∀ j₀ ∈ base.queue.rows, j₀.id = j.id → j₀.status ≠ .failed) ∨
  (∃ kind, blockedAction (t.usage h) t.limits kind ≠ none ∧
    blockedAction (budgetUsage base.history.actions base.queue t.run.campaign) t.limits kind = none) ∨
  t.run.runtimeExhausted = true ∨
  ∃ index, (t.run.pass index).runtimeExhausted = true ∨ (t.run.pass index).intelligence.riskBlocked = true

/-- No run opens the breaker again but for a new cause. -/
def EffectiveRun (base : AtReset) : History → List Turn → Prop
  | _, [] => True
  | h, t :: l => (openedReason (t.outcome h).effects ≠ none → NewCause base h t) ∧ EffectiveRun base (h.advance t) l

/-- The history, the jobs and the counters give a run no cause. -/
def Settled (h : History) (t : Turn) : Prop :=
  stabilityBreakerReason h.actions = none ∧ (t.usage h).failedJobs = 0 ∧ anyBlocked (t.usage h) t.limits = false

/-- Every run without a new cause that finds the breaker closed finds no old one either. -/
def SettledRun (base : AtReset) : History → List Turn → Prop
  | _, [] => True
  | h, t :: l => (h.breaker = none → ¬ NewCause base h t → Settled h t) ∧ SettledRun base (h.advance t) l

/-! ## When a run opens the breaker -/

theorem openedReason_eq_none_iff {effects : List Effect} : openedReason effects = none ↔ ∀ e ∈ effects, e.opens = false := by
  unfold openedReason
  rw [List.findSome?_eq_none_iff]
  refine forall₂_congr fun e _ => ?_
  cases e with
  | openBreaker reason => exact ⟨fun h => (by cases h), fun h => (by cases h)⟩
  | seed => exact ⟨fun _ => rfl, fun _ => rfl⟩
  | recon => exact ⟨fun _ => rfl, fun _ => rfl⟩

/-- Without a cause no pass opens the breaker. -/
theorem openedReason_passes (hblocked : anyBlocked (r.usage q) limits = false) (hfailed : (r.usage q).failedJobs = 0)
    (hcalm : ∀ index, (r.pass index).runtimeExhausted = false ∧ (r.pass index).intelligence.riskBlocked = false)
    (left index : Nat) (effects : List Effect) (h : openedReason effects = none) :
    openedReason (passes cfg limits r q left index effects).effects = none := by
  have happend : ∀ {effects : List Effect} (e : Effect), openedReason effects = none → e.opens = false →
      openedReason (effects ++ [e]) = none := by
    intro effects e hnone he
    refine openedReason_eq_none_iff.mpr fun e' he' => ?_
    rcases List.mem_append.mp he' with hmem | hmem
    · exact openedReason_eq_none_iff.mp hnone e' hmem
    · rw [List.mem_singleton.mp hmem]
      exact he
  induction left generalizing index effects with
  | zero => exact h
  | succ left ih =>
    have hgate : ((buildAutonomyGate r.rules (r.pass index).runtimeExhausted (anyBlocked (r.usage q) limits) (r.usage q).failedJobs
        (r.pass index).intelligence).blockers.any fun b => decide (b ∈ breakerBlockers)) = false := by
      refine Bool.eq_false_iff.mpr fun hany => ?_
      rcases breakerBlocker_iff.mp hany with hcause | hcause | hcause | hcause
      · rw [hblocked] at hcause
        cases hcause
      · rw [(hcalm index).1] at hcause
        cases hcause
      · exact hcause hfailed
      · rw [(hcalm index).2] at hcause
        cases hcause
    rw [passes]
    dsimp only
    rw [if_neg (applyBudget_calm hblocked _)]
    split
    · unfold stopped
      dsimp only
      rw [if_neg (by rw [hgate]; decide)]
      exact h
    split
    · exact ih _ _ (happend .seed h rfl)
    · rcases @effects_progress cfg limits r q (r.pass index) effects _ with heq | heq
      · rw [heq]
        exact h
      · rw [heq]
        exact happend .recon h rfl

/-- Where there is nothing new, a run opens the breaker exactly for the history, the jobs and the counters. -/
theorem openedReason_outcome_iff {base : AtReset} {h : History} {t : Turn} (hclosed : h.breaker = none) (hnew : ¬ NewCause base h t) :
    openedReason (t.outcome h).effects = none ↔ Settled h t := by
  have htime : t.run.runtimeExhausted = false :=
    Bool.eq_false_iff.mpr fun h => hnew (.inr (.inr (.inr (.inl h))))
  have hcalm : ∀ index, (t.run.pass index).runtimeExhausted = false ∧ (t.run.pass index).intelligence.riskBlocked = false :=
    fun index => ⟨Bool.eq_false_iff.mpr fun h => hnew (.inr (.inr (.inr (.inr ⟨index, .inl h⟩)))),
      Bool.eq_false_iff.mpr fun h => hnew (.inr (.inr (.inr (.inr ⟨index, .inr h⟩))))⟩
  unfold Turn.outcome advanceCampaign Settled
  rw [show (t.given h).breaker = none from hclosed, show (t.given h).runtimeExhausted = false from htime,
    show (t.given h).decisions = h.actions from rfl]
  dsimp only
  cases hreason : stabilityBreakerReason h.actions with
  | some reason =>
    refine ⟨fun hopened => ?_, fun hsettled => ?_⟩
    · cases hopened
    · cases hsettled.1
  | none =>
    refine ⟨fun hopened => ?_, fun hsettled => openedReason_passes hsettled.2.2 hsettled.2.1 hcalm _ _ _ rfl⟩
    by_contra hnot
    have hcause : anyBlocked ((t.given h).usage t.queue) t.limits = true ∨ OpensAnyway (t.given h) t.queue := by
      by_contra hnone
      obtain ⟨hfree, hother⟩ := not_or.mp hnone
      refine hnot ⟨rfl, ?_, Bool.eq_false_iff.mpr hfree⟩
      by_contra hfailed
      exact hother (.inr (.inl hfailed))
    obtain ⟨reason, heffects⟩ := @effects_of_breakerBlocker t.cfg t.limits (t.given h) t.queue hcause 2
    rw [if_neg Bool.false_ne_true, heffects] at hopened
    cases hopened

/-- A run that finds the breaker open leaves it. -/
theorem openedReason_outcome_open {h : History} {t : Turn} {reason : String} (hopen : h.breaker = some reason) :
    openedReason (t.outcome h).effects = none := by
  unfold Turn.outcome advanceCampaign
  rw [show (t.given h).breaker = some reason from hopen]
  rfl

theorem effectiveRun_iff (base : AtReset) (h : History) (l : List Turn) : EffectiveRun base h l ↔ SettledRun base h l := by
  induction l generalizing h with
  | nil => exact Iff.rfl
  | cons t l ih =>
    refine and_congr ?_ (ih (h.advance t))
    constructor
    · intro heffective hclosed hnew
      refine (openedReason_outcome_iff hclosed hnew).mp ?_
      by_contra hopened
      exact hnew (heffective hopened)
    · intro hsettled hopened
      by_contra hnew
      cases hbreaker : h.breaker with
      | some reason => exact hopened (openedReason_outcome_open hbreaker)
      | none => exact hopened ((openedReason_outcome_iff hbreaker hnew).mpr (hsettled hbreaker hnew))

/-- A reset is effective exactly as long as no run after it finds one of the old causes. -/
theorem reset_effective_iff (h : History) (q : SqliteQueue) (l : List Turn) :
    EffectiveRun ⟨h, q⟩ h.reset l ↔ SettledRun ⟨h, q⟩ h.reset l := effectiveRun_iff ⟨h, q⟩ h.reset l

/-! ## A reset that lasts for one run -/

/-- A validation was decided on after a stop, and the breaker opened for it. -/
def trippedHistory : History where
  decisions := [⟨.scan, "endpoint inventory exists but no findings recorded", "0"⟩,
    ⟨.stop, "scan completed without recorded findings", "0"⟩, ⟨.validate, "findings still require independent validation", "1"⟩]
  breaker := some "planner stability violation: action recorded after stop"

theorem no_newCause : ¬ NewCause ⟨trippedHistory, twoScans .completed⟩ trippedHistory.reset validatingTurn := by
  rintro (h | ⟨j, hj, -, hfailed, -⟩ | ⟨kind, hblocked, -⟩ | h | ⟨index, h | h⟩)
  · exact h rfl
  · rcases List.mem_cons.mp hj with rfl | hj
    · cases hfailed
    · rw [List.mem_singleton.mp hj] at hfailed
      cases hfailed
  · refine hblocked ?_
    cases kind <;> rfl
  · cases h
  · cases h
  · cases h

/-- The breaker is reset, nothing happens, and the next run opens it again for the decisions that it had opened for. -/
theorem reset_undone :
    openedReason (validatingTurn.outcome trippedHistory.reset).effects = trippedHistory.breaker ∧
      ¬ EffectiveRun ⟨trippedHistory, twoScans .completed⟩ trippedHistory.reset [validatingTurn] := by
  have hopened : openedReason (validatingTurn.outcome trippedHistory.reset).effects = trippedHistory.breaker := by decide
  refine ⟨hopened, fun h => no_newCause (h.1 ?_)⟩
  rw [hopened]
  exact Option.some_ne_none _

end Orchestrator

end XbowPerso
