import XbowPerso.CampaignStates
import XbowPerso.Theorems.FindingResolution

/-!
# Closed campaigns stay closed

A save under the version that was read follows from the stored campaign, so a property of what is stored one after the other is a property
of each request alone. A cancelled campaign stays cancelled unless the completion of a validation reads it, and a completed one stays
completed unless a scan reports to it.
-/

namespace XbowPerso

namespace FindingResolution

open AuditSeal

open Outbox (CampaignState)

open ReportApproval (textEntry hasText)

variable {env : AuditEnv} {secret : ResolvedSecret}

/-! ## What is stored one after the other -/

variable {R : Campaign → Campaign → Prop} {Completes : Campaign → Prop} {s : System}

/-- In a run whose writes follow from what they have read, every stored campaign follows from those before. -/
theorem pairwise_of_run (hrefl : ∀ c, R c c) (htrans : ∀ {a b c}, R a b → R b c → R a c) {l : List Action}
    (hinitial : Initial s) (hwrites : EachStep env secret (WritesFollow R Completes env secret) s l) :
    (steps env secret s l).stored.Pairwise fun earlier later => R earlier.2 later.2 := by
  have hchain : ∀ {s : System} {l : List Action}, Chain R Completes s → EachStep env secret (WritesFollow R Completes env secret) s l →
      Chain R Completes (steps env secret s l) := by
    intro s l h hwrites
    induction l generalizing s with
    | nil => exact h
    | cons a l ih => exact ih (h.step hrefl htrans hwrites.1) hwrites.2
  refine (hchain ⟨fun i => ?_, fun entry hentry => ?_, ?_⟩ hwrites).pairwise
  · rw [hinitial.idle i]
    trivial
  · obtain ⟨i, hstored⟩ := hinitial.stored
    rw [hstored] at hentry
    rw [List.mem_singleton.mp hentry]
    exact hrefl _
  · obtain ⟨i, hstored⟩ := hinitial.stored
    rw [hstored]
    exact List.pairwise_singleton _ _

theorem EachStep.imp {P Q : System → Action → Prop} {l : List Action} (himp : ∀ s a, P s a → Q s a)
    (h : EachStep env secret P s l) : EachStep env secret Q s l := by
  induction l generalizing s with
  | nil => trivial
  | cons a l ih => exact ⟨himp s a h.1, ih h.2⟩

/-! ## What the requests do with a closed campaign -/

variable {c c' : Campaign}

/-- A request that first refuses a cancelled campaign has read another. -/
theorem ne_cancelled_of_bind {α : Type} {f : Unit → Except ApiError α} {a : α}
    (h : rejectCancelledCampaign c >>= f = .ok a) : c.state ≠ .cancelled := by
  intro hc
  obtain ⟨_, hreject, -⟩ := bind_ok h
  unfold rejectCancelledCampaign at hreject
  rw [if_pos hc] at hreject
  cases hreject

/-- A request that first refuses a closed campaign has read an open one. -/
theorem open_of_bind {α : Type} {f : Unit → Except ApiError α} {a : α}
    (h : rejectNewFindingsForClosedCampaign c >>= f = .ok a) : c.state ≠ .cancelled ∧ c.state ≠ .completed := by
  obtain ⟨_, hreject, -⟩ := bind_ok h
  unfold rejectNewFindingsForClosedCampaign at hreject
  split at hreject
  · cases hreject
  rename_i hcancelled
  split at hreject
  · cases hreject
  rename_i hcompleted
  exact ⟨hcancelled, hcompleted⟩

/-- No finding of the second is new. -/
def NoneAdded (c c' : Campaign) : Prop := ∀ id, c'.findings.get? id ≠ none → c.findings.get? id ≠ none

theorem noneAdded_of_eq (h : c'.findings = c.findings) : NoneAdded c c' := by
  intro id hid
  rw [h] at hid
  exact hid

theorem noneAdded_set {key : String} {f f' : Finding} (h : c.findings.get? key = some f) :
    NoneAdded c (c.setFinding key f') := by
  intro id hid
  unfold Campaign.setFinding at hid
  dsimp only at hid
  rw [Dict.get?_set] at hid
  by_cases heq : id = key
  · rw [heq, h]
    exact Option.some_ne_none f
  · rw [if_neg heq] at hid
    exact hid

theorem NoneAdded.trans {c₁ c₂ c₃ : Campaign} (h : NoneAdded c₁ c₂) (h' : NoneAdded c₂ c₃) : NoneAdded c₁ c₃ :=
  fun id hid => h id (h' id hid)

/-- A cancelled campaign is not resolved, edited or completed. -/
theorem cancelled_of_edit {e : Edit} (hreal : e.Real c) (h : e.apply env secret c = .ok (some c'))
    (hc : c.state = .cancelled) : c'.state = .cancelled := by
  cases e with
  | addFinding finding inScope time => exact absurd hc (open_of_bind h).1
  | reconcileValidationQueued findingId jobId time => exact absurd hc (open_of_bind h).1
  | updateFindingReviewMetadata findingId reviewer time review => exact absurd hc (ne_cancelled_of_bind h)
  | processValidation findingId observed failed =>
    unfold Edit.apply processValidation at h
    dsimp only at h
    rw [if_pos hc] at h
    cases h
  | processScan findings state event =>
    unfold Edit.apply processScan at h
    dsimp only at h
    rw [if_pos hc] at h
    cases h
  | other state events =>
    obtain ⟨handler, hstate⟩ := hreal
    cases h
    show state = _
    cases handler with
    | appendEvents => exact (Option.some.inj hstate).symm.trans hc
    | cancelCampaign => exact absurd hstate (by simp [Handler.state, hc])
    | reconcileCampaignStarted jobIds => exact absurd hstate (by simp [Handler.state, hc])
    | applyLocalOutboxRepairs starts => exact absurd hstate (by simp [Handler.state, hc])
    | reconcilePentagiQueuedEvent => exact absurd hstate (by simp [Handler.state, hc])

/-- The scan was a real one, it has found nothing new, and every finding is resolved. -/
def NoNews (c : Campaign) (findings : List Finding) (state : CampaignState) : Prop :=
  state ≠ .ready ∧ (∀ f ∈ findings, (c.findings.get? f.id).isSome) ∧ c.findings.values.all fun f => f.status.resolved

theorem ingest_of_known {findings : List Finding} (h : ∀ f ∈ findings, (c.findings.get? f.id).isSome) :
    ingest c findings = c := by
  unfold ingest
  induction findings with
  | nil => rfl
  | cons f findings ih =>
    rw [List.foldl_cons, if_pos (h f (List.mem_cons_self ..))]
    exact ih fun g hg => h g (List.mem_cons_of_mem _ hg)

/-- A completed campaign is neither opened again nor given new findings, unless a scan has news. -/
theorem completed_of_edit {e : Edit} (hreal : e.Real c) (h : e.apply env secret c = .ok (some c'))
    (hscan : ∀ findings state event, e = .processScan findings state event → NoNews c findings state) (hc : c.state = .completed) :
    c'.state = .completed ∧ NoneAdded c c' := by
  cases e with
  | addFinding finding inScope time => exact absurd hc (open_of_bind h).2
  | reconcileValidationQueued findingId jobId time => exact absurd hc (open_of_bind h).2
  | updateFindingReviewMetadata findingId reviewer time review =>
    unfold Edit.apply updateFindingReviewMetadata at h
    dsimp only at h
    obtain ⟨-, -, h⟩ := bind_ok h
    split at h
    · cases h
    rename_i finding hfinding
    split at h
    · cases h
    split at h
    · cases h
    split at h
    · cases h
    have happend := appends_append (map_some_ok h)
    exact ⟨happend.state.trans hc, (noneAdded_set hfinding).trans (noneAdded_of_eq happend.findings)⟩
  | processValidation findingId observed failed =>
    unfold Edit.apply processValidation at h
    dsimp only at h
    split at h
    · cases h
    split at h
    · cases h
    · cases h
  | processScan findings state event =>
    obtain ⟨hready, hknown, hresolved⟩ := hscan findings state event rfl
    unfold Edit.apply processScan at h
    dsimp only at h
    split at h
    · cases h
    have happend := appends_appendOnce (map_some_ok h)
    rw [ingest_of_known hknown] at happend
    refine ⟨happend.state.trans ?_, noneAdded_of_eq happend.findings⟩
    rcases hreal with ⟨-, hdry⟩ | hstate
    · exact absurd hdry hready
    · show state = _
      rw [hstate, ingest_of_known hknown]
      unfold stateAfterScan
      refine if_neg fun hany => ?_
      obtain ⟨f, hf, hopen⟩ := List.any_eq_true.mp hany
      rw [List.all_eq_true.mp hresolved f hf] at hopen
      cases hopen
  | other state events =>
    obtain ⟨handler, hstate⟩ := hreal
    cases h
    refine ⟨?_, noneAdded_of_eq rfl⟩
    show state = _
    cases handler with
    | appendEvents => exact (Option.some.inj hstate).symm.trans hc
    | cancelCampaign => exact absurd hstate (by simp [Handler.state, hc])
    | reconcileCampaignStarted jobIds => exact absurd hstate (by simp [Handler.state, hc])
    | applyLocalOutboxRepairs starts =>
      simp only [Handler.state, hc] at hstate
      simp at hstate
      exact hstate.symm
    | reconcilePentagiQueuedEvent =>
      simp only [Handler.state, hc] at hstate
      simp at hstate
      exact hstate.symm

/-- A resolution leaves a completed campaign completed. -/
theorem completed_of_validateFinding {v : Validation} {complete : Bool}
    (h : validateFinding env secret c v = .ok (.resolved c' complete)) (hc : c.state = .completed) :
    c'.state = .completed ∧ NoneAdded c c' := by
  obtain ⟨finding, hfinding, -, -, -, -, hfindings, -, hstate⟩ := validateFinding_resolved h
  exact ⟨hstate.elim (fun heq => heq.trans hc) id, (noneAdded_set hfinding).trans (noneAdded_of_eq hfindings)⟩

/-! ## Cancelled campaigns -/

/-- The completion of a validation does not read a cancelled campaign. -/
def CompletesOpen (s : System) : Action → Prop
  | .resume h => s.phase h = .resuming → s.campaign.state ≠ .cancelled
  | _ => True

theorem writesFollow_cancelled {a : Action} (hreal : a.Real s) (hopen : CompletesOpen s a) :
    WritesFollow (fun c c' => c.state = .cancelled → c'.state = .cancelled) (fun c => c.state ≠ .cancelled) env secret s a := by
  cases a with
  | validate i v => exact ⟨fun h => ne_cancelled_of_bind h, fun _ _ h hc => absurd hc (ne_cancelled_of_bind h)⟩
  | edit i e => exact fun _ h hc => cancelled_of_edit hreal h hc
  | resume i => exact hopen
  | complete i time => exact fun _ _ hread _ hc => absurd hc hread
  | reconcile i jobId time => exact fun _ h hc => absurd hc (ne_cancelled_of_bind h)
  | _ => trivial

/-- Once a campaign is stored as cancelled, it is stored as cancelled only, in every run in which no completion reads it so. -/
theorem cancelled_is_final {s : System} {l : List Action} (hinitial : Initial s)
    (hrun : EachStep env secret (fun s a => a.Real s ∧ CompletesOpen s a) s l) :
    (steps env secret s l).stored.Pairwise fun earlier later => earlier.2.state = .cancelled → later.2.state = .cancelled :=
  pairwise_of_run (fun _ h => h) (fun h h' hc => h' (h hc)) hinitial (hrun.imp fun _ _ h => writesFollow_cancelled h.1 h.2)

def cancelledEvent : AuditEntry := textEntry [("type", "campaign_cancelled"), ("at", "11:00")]

/-- A campaign is cancelled, and its finding is validated afterwards. -/
def sampleCancellation : List Action :=
  [.edit 0 (.other .cancelled [cancelledEvent]), .save 0, .validate 1 ⟨"finding", true, "alice", true, "12:00"⟩, .save 1]

theorem cancelled_is_final_sample :
    (steps CampaignAudit.sampleEnv (.ok none) sampleSystem sampleCancellation).stored.Pairwise fun earlier later =>
      earlier.2.state = .cancelled → later.2.state = .cancelled :=
  cancelled_is_final initial_sampleSystem
    ⟨⟨⟨.cancelCampaign, rfl⟩, trivial⟩, ⟨trivial, trivial⟩, ⟨trivial, trivial⟩, ⟨trivial, trivial⟩, trivial⟩

/-- A finding of the other scanner. -/
def otherFinding : Finding := { sampleFinding with id := "other" }

def scanEvent : AuditEntry := textEntry [("type", "scanner_results_ingested"), ("job_id", "scan")]

/-- A scan reports the finding. -/
def sampleScan (h : Nat) : List Action := [.edit h (.processScan [otherFinding] .validating scanEvent), .save h]

/-- The finding is confirmed, a scan opens the campaign again, it is cancelled, and then the confirmation goes on to the completion. -/
def lateCompletion : List Action :=
  sampleConfirmation 0 "alice" ++ sampleScan 1 ++ [.edit 2 (.other .cancelled [cancelledEvent]), .save 2] ++
    [.resume 0, .complete 0 "12:00", .save 0]

theorem states_lateCompletion :
    (steps CampaignAudit.sampleEnv (.ok none) sampleSystem lateCompletion).stored.map (fun entry => entry.2.state) =
      [.validating, .completed, .validating, .cancelled, .completed] := by decide +kernel

/-- The cancelled campaign is stored as completed. -/
theorem late_completion_of_cancelled :
    EachStep CampaignAudit.sampleEnv (.ok none) (fun s a => a.Real s) sampleSystem lateCompletion ∧
      ¬ (steps CampaignAudit.sampleEnv (.ok none) sampleSystem lateCompletion).stored.Pairwise fun earlier later =>
        earlier.2.state = .cancelled → later.2.state = .cancelled := by
  refine ⟨⟨trivial, trivial, .inr (by decide +kernel), trivial, ⟨.cancelCampaign, by decide +kernel⟩, trivial, trivial, trivial, trivial,
    trivial⟩, fun h => ?_⟩
  have hstates : ((steps CampaignAudit.sampleEnv (.ok none) sampleSystem lateCompletion).stored.map fun entry => entry.2.state).Pairwise
      fun earlier later => earlier = .cancelled → later = .cancelled := List.pairwise_map.mpr h
  rw [states_lateCompletion] at hstates
  exact absurd hstates (by decide)

/-! ## Completed campaigns -/

/-- No scan has news for a completed campaign. -/
def ScansQuiet (s : System) : Action → Prop
  | .edit _ (.processScan findings state _) => s.campaign.state = .completed → NoNews s.campaign findings state
  | _ => True

theorem writesFollow_completed {a : Action} (hreal : a.Real s) (hquiet : ScansQuiet s a) :
    WritesFollow (fun c c' => c.state = .completed → c'.state = .completed ∧ NoneAdded c c') (fun _ => True) env secret s a := by
  cases a with
  | validate i v => exact ⟨fun _ => trivial, fun _ _ h hc => completed_of_validateFinding h hc⟩
  | edit i e =>
    refine fun _ h hc => completed_of_edit hreal h (fun findings state event he => ?_) hc
    subst he
    exact hquiet hc
  | resume i => exact fun _ => trivial
  | complete i time =>
    intro read campaign _ h _
    have hcompleted := completes_of_ensureCompletionReport h
    exact ⟨hcompleted.state, noneAdded_of_eq hcompleted.findings⟩
  | reconcile i jobId time =>
    intro campaign h _
    have hcompleted := completes_of_reconcileReportJob h
    exact ⟨hcompleted.state, noneAdded_of_eq hcompleted.findings⟩
  | _ => trivial

/-- Once a campaign is stored as completed, it is stored as completed only and without new findings, in every run in which no scan has news
for it. -/
theorem completed_is_final {s : System} {l : List Action} (hinitial : Initial s)
    (hrun : EachStep env secret (fun s a => a.Real s ∧ ScansQuiet s a) s l) :
    (steps env secret s l).stored.Pairwise fun earlier later =>
      earlier.2.state = .completed → later.2.state = .completed ∧ NoneAdded earlier.2 later.2 := by
  refine pairwise_of_run (fun c hc => ⟨hc, noneAdded_of_eq rfl⟩) (fun h h' hc => ?_) hinitial
    (hrun.imp fun _ _ h => writesFollow_completed h.1 h.2)
  obtain ⟨hc', hadded⟩ := h hc
  obtain ⟨hc'', hadded'⟩ := h' hc'
  exact ⟨hc'', hadded.trans hadded'⟩

/-- A campaign is completed, and the same scan reports once more what is known. -/
def sampleCompletion : List Action :=
  sampleConfirmation 0 "alice" ++ [.edit 1 (.processScan [sampleFinding] .completed scanEvent), .save 1]

theorem noNews_sample : NoNews (steps CampaignAudit.sampleEnv (.ok none) sampleSystem (sampleConfirmation 0 "alice")).campaign
    [sampleFinding] .completed := by
  refine ⟨by decide, fun f hf => ?_, by decide +kernel⟩
  rw [List.mem_singleton.mp hf]
  decide +kernel

theorem completed_is_final_sample :
    (steps CampaignAudit.sampleEnv (.ok none) sampleSystem sampleCompletion).stored.Pairwise fun earlier later =>
      earlier.2.state = .completed → later.2.state = .completed ∧ NoneAdded earlier.2 later.2 :=
  completed_is_final initial_sampleSystem
    ⟨⟨trivial, trivial⟩, ⟨trivial, trivial⟩, ⟨.inr (by decide +kernel), fun _ => noNews_sample⟩, ⟨trivial, trivial⟩, trivial⟩

theorem states_lateScan :
    (steps CampaignAudit.sampleEnv (.ok none) sampleSystem (sampleConfirmation 0 "alice" ++ sampleScan 1)).stored.map
      (fun entry => entry.2.state) = [.validating, .completed, .validating] := by decide +kernel

/-- A scan that ends after the completion adds its finding and opens the campaign again. -/
theorem late_scan_reopens :
    EachStep CampaignAudit.sampleEnv (.ok none) (fun s a => a.Real s) sampleSystem (sampleConfirmation 0 "alice" ++ sampleScan 1) ∧
      ¬ (steps CampaignAudit.sampleEnv (.ok none) sampleSystem (sampleConfirmation 0 "alice" ++ sampleScan 1)).stored.Pairwise
        fun earlier later => earlier.2.state = .completed → later.2.state = .completed ∧ NoneAdded earlier.2 later.2 := by
  refine ⟨⟨trivial, trivial, .inr (by decide +kernel), trivial, trivial⟩, fun h => ?_⟩
  have hstates : ((steps CampaignAudit.sampleEnv (.ok none) sampleSystem (sampleConfirmation 0 "alice" ++ sampleScan 1)).stored.map
      fun entry => entry.2.state).Pairwise fun earlier later => earlier = .completed → later = .completed :=
    List.pairwise_map.mpr (h.imp fun hpair hc => (hpair hc).1)
  rw [states_lateScan] at hstates
  exact absurd hstates (by decide)

/-! ## No event is lost -/

theorem writesFollow_events (s : System) (a : Action) :
    WritesFollow (fun c c' => c.events <+: c'.events) (fun _ => True) env secret s a := by
  cases a with
  | validate i v =>
    refine ⟨fun _ => trivial, fun _ _ h => ?_⟩
    obtain ⟨_, -, -, -, -, -, -, hevents, -⟩ := validateFinding_resolved h
    exact hevents
  | edit i e => exact fun _ h => (edit_effect h).2
  | resume i => exact fun _ => trivial
  | complete i time => exact fun _ _ _ h => (completes_of_ensureCompletionReport h).events
  | reconcile i jobId time => exact fun _ h => (completes_of_reconcileReportJob h).events
  | _ => trivial

theorem eachStep_of_forall {P : System → Action → Prop} (h : ∀ s a, P s a) (s : System) (l : List Action) :
    EachStep env secret P s l := by
  induction l generalizing s with
  | nil => trivial
  | cons a l ih => exact ⟨h s a, ih _⟩

/-- In every interleaving of requests and jobs, with crashes anywhere, what is stored has the events of everything that was stored before,
in their order. -/
theorem no_event_lost {s : System} (hinitial : Initial s) (l : List Action) :
    (steps env secret s l).stored.Pairwise fun earlier later => earlier.2.events <+: later.2.events :=
  pairwise_of_run (R := fun c c' => c.events <+: c'.events) (fun _ => List.prefix_rfl) (fun h h' => h.trans h') hinitial
    (eachStep_of_forall writesFollow_events s l)

/-- Two reviewers read the campaign under one version; the second one loses. -/
theorem no_event_lost_sample :
    (steps CampaignAudit.sampleEnv (.ok none) sampleSystem [.validate 0 ⟨"finding", true, "alice", true, "10:00"⟩,
      .validate 1 ⟨"finding", false, "bob", true, "10:01"⟩, .save 0, .save 1]).stored.Pairwise fun earlier later =>
        earlier.2.events <+: later.2.events :=
  no_event_lost initial_sampleSystem _

end FindingResolution

end XbowPerso
