import XbowPerso.FindingResolution
import XbowPerso.Theorems.CampaignChain

/-!
# The resolution of a finding is final

In every interleaving of requests and jobs, a stored resolution keeps its result and its validator, as long as no second validator sends
the same result: that request is not refused and overwrites the validator. A repeated request changes no finding, and stores nothing once
the completion is recorded.
-/

namespace XbowPerso

namespace FindingResolution

open AuditSeal

open ReportApproval (textEntry hasText)

variable {env : AuditEnv} {secret : ResolvedSecret}

/-! ## What the requests keep -/

/-- The resolved findings of a campaign have the same result and the same validator in another. -/
def Kept (c c' : Campaign) : Prop :=
  ∀ id f, c.findings.get? id = some f → f.status.resolved = true →
    ∃ f', c'.findings.get? id = some f' ∧ f'.status = f.status ∧ f'.validatedBy = f.validatedBy

variable {c c' : Campaign}

theorem kept_of_findings_eq (h : c'.findings = c.findings) : Kept c c' := by
  intro id f hf _
  exact ⟨f, by rw [h, hf], rfl, rfl⟩

theorem Kept.trans {c₁ c₂ c₃ : Campaign} (h : Kept c₁ c₂) (h' : Kept c₂ c₃) : Kept c₁ c₃ := by
  intro id f hf hresolved
  obtain ⟨f', hf', hstatus, hvalidator⟩ := h id f hf hresolved
  obtain ⟨f'', hf'', hstatus', hvalidator'⟩ := h' id f' hf' (by rw [hstatus]; exact hresolved)
  exact ⟨f'', hf'', hstatus'.trans hstatus, hvalidator'.trans hvalidator⟩

/-- A finding that takes the place of another, which was not resolved or has the same result and validator. -/
theorem kept_set {key : String} {f' : Finding}
    (h : ∀ f, c.findings.get? key = some f → f.status.resolved = true → f'.status = f.status ∧ f'.validatedBy = f.validatedBy) :
    Kept c (c.setFinding key f') := by
  intro id f hf hresolved
  unfold Campaign.setFinding
  dsimp only
  rw [Dict.get?_set]
  by_cases hid : id = key
  · subst hid
    rw [if_pos rfl]
    exact ⟨f', rfl, h f hf hresolved⟩
  · rw [if_neg hid]
    exact ⟨f, hf, rfl, rfl⟩

/-- The second campaign has more events, in the end, and is otherwise the first one. -/
structure Appends (c c' : Campaign) : Prop where
  state : c'.state = c.state
  findings : c'.findings = c.findings
  events : c.events <+: c'.events

theorem appends_append {event : AuditEntry} (h : c.append env secret event = .ok c') : Appends c c' := by
  unfold Campaign.append at h
  split at h
  · cases h
  cases h
  exact ⟨rfl, rfl, List.prefix_append _ _⟩

theorem appends_appendOnce {event : AuditEntry} (h : c.appendOnce env secret event = .ok c') : Appends c c' := by
  unfold Campaign.appendOnce at h
  split at h
  · cases h
    exact ⟨rfl, rfl, List.prefix_rfl⟩
  · exact appends_append h

/-- A computation that returns has a first part that returns. -/
theorem bind_ok {α β : Type} {x : Except ApiError α} {f : α → Except ApiError β} {b : β} (h : x >>= f = .ok b) :
    ∃ a, x = .ok a ∧ f a = .ok b := by
  cases x with
  | error e => cases h
  | ok a => exact ⟨a, rfl, h⟩

theorem map_some_ok {x : Except ApiError Campaign} (h : x.map some = .ok (some c)) : x = .ok c := by
  cases x with
  | error e => cases h
  | ok a =>
    cases h
    rfl

/-- The finding of the request has its result already, from another validator. -/
def Overwrites (c : Campaign) (v : Validation) : Prop :=
  ∃ f, c.findings.get? v.findingId = some f ∧ f.status = v.desiredStatus ∧ f.validatedBy ≠ some v.validator

/-- The finding of the request has its result already, from the same validator. -/
def IsRepeat (c : Campaign) (v : Validation) : Prop :=
  ∃ f, c.findings.get? v.findingId = some f ∧ f.status = v.desiredStatus ∧ f.validatedBy = some v.validator

/-- A resolution sets the finding of its request, which another one has discovered, which is backed and has no other result yet. -/
theorem validateFinding_resolved {v : Validation} {complete : Bool}
    (h : validateFinding env secret c v = .ok (.resolved c' complete)) :
    ∃ finding, c.findings.get? v.findingId = some finding ∧ v.validator ≠ finding.discoveredBy ∧ v.backed = true ∧
      ¬ (finding.status = v.desiredStatus ∧ finding.validatedBy = some v.validator) ∧
      ¬ (finding.status.resolved = true ∧ finding.status ≠ v.desiredStatus) ∧
      c'.findings = c.findings.set v.findingId { finding with status := v.desiredStatus, validatedBy := some v.validator } ∧
      c.events <+: c'.events ∧ (c'.state = c.state ∨ c'.state = .completed) := by
  unfold validateFinding at h
  obtain ⟨-, -, h⟩ := bind_ok h
  split at h
  · cases h
  rename_i finding hfinding
  split at h
  · cases h
  rename_i hdiscoverer
  split at h
  · cases h
  rename_i hbacked
  split at h
  · split at h
    · cases h
    · cases h
  rename_i hrepeat
  split at h
  · cases h
  rename_i hconflict
  obtain ⟨resolved, hresolved, h⟩ := bind_ok h
  have hfirst := appends_append hresolved
  refine ⟨finding, hfinding, hdiscoverer, (Bool.not_eq_false _).mp hbacked, hrepeat, hconflict, ?_⟩
  split at h
  · obtain ⟨requested, hrequested, h⟩ := bind_ok h
    cases h
    have hsecond := appends_append hrequested
    exact ⟨hsecond.findings.trans hfirst.findings, hfirst.events.trans hsecond.events, .inr rfl⟩
  · cases h
    exact ⟨hfirst.findings, hfirst.events, .inl hfirst.state⟩

theorem kept_of_validateFinding {v : Validation} {complete : Bool}
    (h : validateFinding env secret c v = .ok (.resolved c' complete)) (hcond : ¬ Overwrites c v) : Kept c c' := by
  obtain ⟨finding, hfinding, -, -, hrepeat, hconflict, hfindings, -⟩ := validateFinding_resolved h
  refine Kept.trans (kept_set fun f hf hres => ?_) (kept_of_findings_eq hfindings)
  rw [hfinding] at hf
  cases hf
  have hstatus : finding.status = v.desiredStatus := by
    by_contra hne
    exact hconflict ⟨hres, hne⟩
  exact absurd ⟨finding, hfinding, hstatus, fun hvalidator => hrepeat ⟨hstatus, hvalidator⟩⟩ hcond

variable {time : String}

theorem completes_of_ensureCompletionReport (h : ensureCompletionReport env secret c time = .ok (.save c')) :
    Appends { c with state := .completed } c' := by
  unfold ensureCompletionReport at h
  split at h
  · cases h
  split at h
  · split at h
    · cases h
    rename_i requested hrequested
    cases h
    have happend := appends_append hrequested
    exact ⟨rfl, happend.findings, happend.events⟩
  split at h
  · cases h
    exact ⟨rfl, rfl, List.prefix_rfl⟩
  · cases h

theorem completes_of_reconcileReportJob {jobId : String}
    (h : reconcileReportJob env secret c jobId time = .ok (.save c')) : Appends { c with state := .completed } c' := by
  unfold reconcileReportJob at h
  obtain ⟨-, -, h⟩ := bind_ok h
  dsimp only at h
  split at h
  · cases h
  obtain ⟨completed, hcompleted, h⟩ := bind_ok h
  cases h
  have happend := appends_append hcompleted
  exact ⟨rfl, happend.findings, happend.events⟩

theorem kept_ingest (findings : List Finding) (c : Campaign) : Kept c (ingest c findings) := by
  unfold ingest
  induction findings generalizing c with
  | nil => exact kept_of_findings_eq rfl
  | cons finding findings ih =>
    rw [List.foldl_cons]
    split
    · exact ih c
    · rename_i hnew
      refine Kept.trans (kept_set fun f hf _ => ?_) (ih _)
      rw [hf] at hnew
      exact absurd rfl hnew

/-- What a request other than a validation does to the findings. -/
inductive EditEffect (e : Edit) (c c' : Campaign) : Prop
  | same (h : c'.findings = c.findings)
  | added {finding : Finding} (hnew : c.findings.get? finding.id = none) (hstatus : finding.status = .validationRequired)
      (h : c'.findings = (c.setFinding finding.id finding).findings)
  | replaced {id : String} {f f' : Finding} (hf : c.findings.get? id = some f) (h : c'.findings = (c.setFinding id f').findings)
      (hkeeps : f'.status = f.status ∧ f'.validatedBy = f.validatedBy ∧ f'.discoveredBy = f.discoveredBy)
  | ingested {findings : List Finding} (he : ∃ state event, e = .processScan findings state event)
      (h : c'.findings = (ingest c findings).findings)

theorem addFinding_effect {finding : Finding} {inScope : Bool} (h : addFinding env secret c finding inScope time = .ok (some c')) :
    EditEffect (.addFinding finding inScope time) c c' ∧ c.events <+: c'.events := by
  unfold addFinding at h
  obtain ⟨-, -, h⟩ := bind_ok h
  split at h
  · cases h
  dsimp only at h
  split at h
  · split at h
    · cases h
    split at h
    · cases h
    split at h
    · cases h
    have happend := appends_append (map_some_ok h)
    exact ⟨.same happend.findings, happend.events⟩
  · rename_i hnew
    obtain ⟨received, hreceived, h⟩ := bind_ok h
    have hfirst := appends_append hreceived
    have hsecond := appends_append (map_some_ok h)
    exact ⟨@EditEffect.added _ _ _ { finding with status := .validationRequired } hnew rfl (hsecond.findings.trans hfirst.findings),
      hfirst.events.trans hsecond.events⟩

theorem reconcileValidationQueued_effect {findingId jobId : String}
    (h : reconcileValidationQueued env secret c findingId jobId time = .ok (some c')) :
    EditEffect (.reconcileValidationQueued findingId jobId time) c c' ∧ c.events <+: c'.events := by
  unfold reconcileValidationQueued at h
  obtain ⟨-, -, h⟩ := bind_ok h
  split at h
  · cases h
  split at h
  · cases h
  dsimp only at h
  split at h
  · cases h
  have happend := appends_append (map_some_ok h)
  exact ⟨.same happend.findings, happend.events⟩

theorem updateFindingReviewMetadata_effect {findingId reviewer : String} {review : ReviewMetadata}
    (h : updateFindingReviewMetadata env secret c findingId reviewer time review = .ok (some c')) :
    EditEffect (.updateFindingReviewMetadata findingId reviewer time review) c c' ∧ c.events <+: c'.events := by
  unfold updateFindingReviewMetadata at h
  obtain ⟨-, -, h⟩ := bind_ok h
  split at h
  · cases h
  rename_i finding hfinding
  split at h
  · cases h
  split at h
  · cases h
  split at h
  · cases h
  have happend := appends_append (map_some_ok h)
  exact ⟨.replaced hfinding happend.findings ⟨rfl, rfl, rfl⟩, happend.events⟩

theorem processValidation_effect {findingId : String} {observed : AuditEntry} {failed : Option AuditEntry}
    (h : processValidation env secret c findingId observed failed = .ok (some c')) :
    EditEffect (.processValidation findingId observed failed) c c' ∧ c.events <+: c'.events := by
  unfold processValidation at h
  split at h
  · cases h
  split at h
  · cases h
  rename_i finding hfinding
  split at h
  · cases h
  split at h
  · cases h
  rename_i hstatus
  split at h
  · cases h
  split at h
  · cases h
  rename_i saved hsaved
  have hset : (saved.setFinding findingId { finding with status := .validationRequired }).findings =
      (c.setFinding findingId { finding with status := .validationRequired }).findings :=
    congrArg (Dict.set · findingId _) (appends_appendOnce hsaved).findings
  have hkeeps : FindingStatus.validationRequired = finding.status := (not_not.mp hstatus).symm
  dsimp only at h
  split at h
  · cases h
    exact ⟨.replaced hfinding hset ⟨hkeeps, rfl, rfl⟩, (appends_appendOnce hsaved).events⟩
  · have happend := appends_appendOnce (map_some_ok h)
    exact ⟨.replaced hfinding (happend.findings.trans hset) ⟨hkeeps, rfl, rfl⟩, (appends_appendOnce hsaved).events.trans happend.events⟩

theorem events_ingest (findings : List Finding) (c : Campaign) : (ingest c findings).events = c.events := by
  unfold ingest
  induction findings generalizing c with
  | nil => rfl
  | cons finding findings ih =>
    rw [List.foldl_cons, ih]
    split <;> rfl

theorem edit_effect {e : Edit} (h : e.apply env secret c = .ok (some c')) : EditEffect e c c' ∧ c.events <+: c'.events := by
  cases e with
  | addFinding finding inScope time => exact addFinding_effect h
  | reconcileValidationQueued findingId jobId time => exact reconcileValidationQueued_effect h
  | updateFindingReviewMetadata findingId reviewer time review => exact updateFindingReviewMetadata_effect h
  | processValidation findingId observed failed => exact processValidation_effect h
  | processScan findings state event =>
    unfold Edit.apply processScan at h
    dsimp only at h
    split at h
    · cases h
    have happend := appends_appendOnce (map_some_ok h)
    exact ⟨.ingested ⟨state, event, rfl⟩ happend.findings, events_ingest findings c ▸ happend.events⟩
  | other state events =>
    cases h
    exact ⟨.same rfl, List.prefix_append _ _⟩

/-- Every other request keeps the resolutions. -/
theorem kept_of_edit {e : Edit} (h : e.apply env secret c = .ok (some c')) : Kept c c' := by
  cases (edit_effect h).1 with
  | same h => exact kept_of_findings_eq h
  | added hnew _ h =>
    refine (kept_set fun f hf _ => ?_).trans (kept_of_findings_eq h)
    rw [hnew] at hf
    cases hf
  | replaced hf h hkeeps =>
    refine (kept_set fun f hf' _ => ?_).trans (kept_of_findings_eq h)
    rw [hf] at hf'
    cases hf'
    exact ⟨hkeeps.1, hkeeps.2.1⟩
  | ingested _ h => exact (kept_ingest _ c).trans (kept_of_findings_eq h)

/-! ## What is stored one after the other -/

section Chain

variable (R : Campaign → Campaign → Prop) (Completes : Campaign → Prop)

/-- What a save would store follows from the campaign that it may replace. -/
def Follows (s : System) : Phase → Prop
  | .saving version campaign _ => version ≤ s.version ∧ (version = s.version → R s.campaign campaign)
  | .recording version campaign _ => version ≤ s.version ∧ (version = s.version → R s.campaign campaign)
  | .completing version campaign => version ≤ s.version ∧ (version = s.version → campaign = s.campaign) ∧ Completes campaign
  | _ => True

structure Chain (s : System) : Prop where
  phases : ∀ h, Follows R Completes s (s.phase h)
  last : ∀ entry ∈ s.stored, R entry.2 s.campaign
  pairwise : s.stored.Pairwise fun earlier later => R earlier.2 later.2

/-- What the step makes of the campaign that it reads follows from it. -/
def WritesFollow (env : AuditEnv) (secret : ResolvedSecret) (s : System) : Action → Prop
  | .validate _ v => (validateFinding env secret s.campaign v = .ok .completion → Completes s.campaign) ∧
      ∀ campaign complete, validateFinding env secret s.campaign v = .ok (.resolved campaign complete) → R s.campaign campaign
  | .edit _ e => ∀ campaign, e.apply env secret s.campaign = .ok (some campaign) → R s.campaign campaign
  | .resume h => s.phase h = .resuming → Completes s.campaign
  | .complete _ time => ∀ read campaign, Completes read → ensureCompletionReport env secret read time = .ok (.save campaign) →
      R read campaign
  | .reconcile _ jobId time => ∀ campaign, reconcileReportJob env secret s.campaign jobId time = .ok (.save campaign) →
      R s.campaign campaign
  | _ => True

end Chain

variable {R : Campaign → Campaign → Prop} {Completes : Campaign → Prop}

theorem Follows.saved {s s' : System} {p : Phase} (h : Follows R Completes s p) (hversion : s'.version = s.version + 1) :
    Follows R Completes s' p := by
  cases p with
  | saving version campaign next =>
    obtain ⟨hle, -⟩ := h
    exact ⟨by omega, fun heq => by omega⟩
  | recording version campaign tries =>
    obtain ⟨hle, -⟩ := h
    exact ⟨by omega, fun heq => by omega⟩
  | completing version campaign =>
    obtain ⟨hle, -, hcompletes⟩ := h
    exact ⟨by omega, fun heq => by omega, hcompletes⟩
  | _ => trivial

theorem forall_setPhase {P : Phase → Prop} {s : System} {h : Nat} {p : Phase} (hp : P p) (hother : ∀ i, P (s.phase i)) :
    ∀ i, P ((s.setPhase h p).phase i) := by
  intro i
  unfold System.setPhase
  dsimp only
  by_cases hi : i = h
  · rw [hi, Function.update_self]
    exact hp
  · rw [Function.update_of_ne hi]
    exact hother i

variable {s : System}

/-- What a step stores follows from the campaign that it replaces, and so does what its handler would store next. -/
inductive Followed (R : Campaign → Campaign → Prop) (Completes : Campaign → Prop) (s : System) (h : Nat) : System → Prop
  | stays : Followed R Completes s h s
  | moves {p : Phase} (hp : Follows R Completes s p) : Followed R Completes s h (s.setPhase h p)
  | stores {campaign : Campaign} {p : Phase} (hp : ∀ s', Follows R Completes s' p) (hfollows : R s.campaign campaign) :
    Followed R Completes s h { s.setPhase h p with
      version := s.version + 1, campaign := campaign, stored := s.stored ++ [(h, campaign)] }

theorem Followed.save {h version : Nat} {campaign : Campaign} {saved conflict : Phase}
    (hfollows : version = s.version → R s.campaign campaign) (hsaved : ∀ s', Follows R Completes s' saved)
    (hconflict : Follows R Completes s conflict) : Followed R Completes s h (s.save h version campaign saved conflict) := by
  unfold System.save
  split
  · rename_i hversion
    exact .stores hsaved (hfollows hversion)
  · exact .moves hconflict

/-- The request, or the job, that a step belongs to. -/
def Action.handler : Action → Nat
  | validate h _ => h
  | edit h _ => h
  | save h => h
  | resume h => h
  | complete h _ => h
  | queue h => h
  | reconcile h _ _ => h
  | record h => h
  | crash h => h

theorem followed_step {a : Action} (hok : Follows R Completes s (s.phase a.handler))
    (hwrites : WritesFollow R Completes env secret s a) : Followed R Completes s a.handler (step env secret s a) := by
  unfold FindingResolution.step
  cases a with
  | validate i v =>
    dsimp only
    split
    · split
      · exact .stays
      · exact .stays
      · rename_i hvalidate
        exact .moves ⟨Nat.le_refl _, fun _ => rfl, hwrites.1 hvalidate⟩
      · rename_i hvalidate
        exact .moves ⟨Nat.le_refl _, fun _ => hwrites.2 _ _ hvalidate⟩
    · exact .stays
  | edit i e =>
    dsimp only
    split
    · split
      · exact .stays
      · exact .stays
      · rename_i hedit
        exact .moves ⟨Nat.le_refl _, fun _ => hwrites _ hedit⟩
    · exact .stays
  | save i =>
    dsimp only [Action.handler] at hok ⊢
    split
    · rename_i hphase
      rw [hphase] at hok
      exact .save hok.2 (fun _ => trivial) trivial
    · rename_i hphase
      rw [hphase] at hok
      exact .save hok.2 (fun _ => trivial) trivial
    · rename_i hphase
      rw [hphase] at hok
      exact .save hok.2 (fun _ => trivial) trivial
    · exact .stays
  | resume i =>
    dsimp only
    split
    · rename_i hphase
      exact .moves ⟨Nat.le_refl _, fun _ => rfl, hwrites hphase⟩
    · exact .stays
  | complete i time =>
    dsimp only [Action.handler] at hok ⊢
    split
    · rename_i hphase
      rw [hphase] at hok
      obtain ⟨hle, hcurrent, hcompletes⟩ := hok
      split
      · exact .moves trivial
      · exact .moves trivial
      · rename_i hensure
        refine .moves ⟨hle, fun heq => ?_⟩
        rw [← hcurrent heq]
        exact hwrites _ _ hcompletes hensure
      · exact .moves trivial
    · exact .stays
  | queue i =>
    dsimp only
    split
    · split
      · exact .moves trivial
      · exact .moves trivial
    · exact .stays
  | reconcile i jobId time =>
    dsimp only
    split
    · exact .moves trivial
    · split
      · exact .moves trivial
      · rename_i hreconcile
        exact .moves ⟨Nat.le_refl _, fun _ => hwrites _ hreconcile⟩
      · exact .moves trivial
    · exact .stays
  | record i =>
    dsimp only [Action.handler] at hok ⊢
    split
    · rename_i hphase
      rw [hphase] at hok
      exact .save hok.2 (fun _ => trivial) trivial
    · exact .stays
  | crash i => exact .moves trivial

theorem Chain.step (hrefl : ∀ c, R c c) (htrans : ∀ {a b c}, R a b → R b c → R a c) (h : Chain R Completes s)
    {a : Action} (hwrites : WritesFollow R Completes env secret s a) : Chain R Completes (step env secret s a) := by
  have hfollowed := followed_step (h.phases a.handler) hwrites
  generalize FindingResolution.step env secret s a = s' at hfollowed ⊢
  cases hfollowed with
  | stays => exact h
  | moves hp => exact ⟨@forall_setPhase (Follows R Completes s) s _ _ hp h.phases, h.last, h.pairwise⟩
  | stores hp hfollows =>
    refine ⟨@forall_setPhase (Follows R Completes _) s _ _ (hp _) fun j => (h.phases j).saved rfl, fun entry hentry => ?_, ?_⟩
    · rcases List.mem_append.mp hentry with hold | hnew
      · exact htrans (h.last entry hold) hfollows
      · rw [List.mem_singleton.mp hnew]
        exact hrefl _
    · refine List.pairwise_append.mpr ⟨h.pairwise, List.pairwise_singleton _ _, fun entry hold other hother => ?_⟩
      rw [List.mem_singleton.mp hother]
      exact htrans (h.last entry hold) hfollows

/-! ## The invariant -/

/-- What a save would store keeps the resolutions of the campaign that it may replace. -/
def PhaseOk (s : System) : Phase → Prop
  | .saving version campaign _ => version ≤ s.version ∧ (version = s.version → Kept s.campaign campaign)
  | .recording version campaign _ => version ≤ s.version ∧ (version = s.version → Kept s.campaign campaign)
  | .completing version campaign => version ≤ s.version ∧ (version = s.version → campaign = s.campaign)
  | _ => True

structure Inv (s : System) : Prop where
  phases : ∀ h, PhaseOk s (s.phase h)
  kept : ∀ entry ∈ s.stored, Kept entry.2 s.campaign
  pairwise : s.stored.Pairwise fun earlier later => Kept earlier.2 later.2

/-- Nothing is under way, and the campaign is the one that was stored. -/
structure Initial (s : System) : Prop where
  idle : ∀ h, s.phase h = .idle
  stored : ∃ h, s.stored = [(h, s.campaign)]

theorem inv_of_initial (h : Initial s) : Inv s := by
  obtain ⟨by_, hstored⟩ := h.stored
  refine ⟨fun i => ?_, fun entry hentry => ?_, ?_⟩
  · rw [h.idle i]
    trivial
  · rw [hstored] at hentry
    rw [List.mem_singleton.mp hentry]
    exact kept_of_findings_eq rfl
  · rw [hstored]
    exact List.pairwise_singleton _ _

/-- A step respects the resolutions when its request does not overwrite one. -/
def Respects (s : System) : Action → Prop
  | .validate _ v => ¬ Overwrites s.campaign v
  | _ => True

variable {a : Action}

theorem phaseOk_iff {p : Phase} : PhaseOk s p ↔ Follows Kept (fun _ => True) s p := by
  cases p <;> simp [PhaseOk, Follows]

theorem inv_iff : Inv s ↔ Chain Kept (fun _ => True) s :=
  ⟨fun h => ⟨fun i => phaseOk_iff.mp (h.phases i), h.kept, h.pairwise⟩, fun h => ⟨fun i => phaseOk_iff.mpr (h.phases i), h.last, h.pairwise⟩⟩

theorem writesFollow (hcond : Respects s a) : WritesFollow Kept (fun _ => True) env secret s a := by
  cases a with
  | validate i v => exact ⟨fun _ => trivial, fun _ _ hvalidate => kept_of_validateFinding hvalidate hcond⟩
  | edit i e => exact fun _ hedit => kept_of_edit hedit
  | resume i => exact fun _ => trivial
  | complete i time => exact fun _ _ _ hensure => kept_of_findings_eq (completes_of_ensureCompletionReport hensure).findings
  | reconcile i jobId time => exact fun _ hreconcile => kept_of_findings_eq (completes_of_reconcileReportJob hreconcile).findings
  | _ => trivial

theorem Inv.step (h : Inv s) (hcond : Respects s a) : Inv (step env secret s a) :=
  inv_iff.mpr ((inv_iff.mp h).step (fun _ => kept_of_findings_eq rfl) Kept.trans (writesFollow hcond))

/-- A run whose every step respects the resolutions. -/
def RespectfulRun (env : AuditEnv) (secret : ResolvedSecret) : System → List Action → Prop
  | _, [] => True
  | s, a :: l => Respects s a ∧ RespectfulRun env secret (step env secret s a) l

theorem inv_of_run {l : List Action} (h : Inv s) (hrun : RespectfulRun env secret s l) :
    Inv (steps env secret s l) := by
  induction l generalizing s with
  | nil => exact h
  | cons a l ih => exact ih (h.step hrun.1) hrun.2

/-! ## Repeated requests -/

/-- The step begins no new request of the handler. -/
def Continues (h : Nat) : Action → Prop
  | .validate i _ => i ≠ h
  | .edit i _ => i ≠ h
  | _ => True

/-- A step stores nothing, or stores the next version. -/
theorem step_cases (s : System) (a : Action) : step env secret s a = s ∨ (∃ p, step env secret s a = s.setPhase a.handler p) ∨
    ∃ c p, step env secret s a = { s.setPhase a.handler p with
      version := s.version + 1, campaign := c, stored := s.stored ++ [(a.handler, c)] } := by
  have hsave : ∀ {h version campaign saved conflict}, s.save h version campaign saved conflict = s ∨
      (∃ p, s.save h version campaign saved conflict = s.setPhase h p) ∨ ∃ c p, s.save h version campaign saved conflict =
        { s.setPhase h p with version := s.version + 1, campaign := c, stored := s.stored ++ [(h, c)] } := by
    intro h version campaign saved conflict
    unfold System.save
    split
    · exact .inr (.inr ⟨_, _, rfl⟩)
    · exact .inr (.inl ⟨_, rfl⟩)
  unfold step
  cases a with
  | validate h v =>
    dsimp only
    split
    · split
      · exact .inl rfl
      · exact .inl rfl
      · exact .inr (.inl ⟨_, rfl⟩)
      · exact .inr (.inl ⟨_, rfl⟩)
    · exact .inl rfl
  | edit h e =>
    dsimp only
    split
    · split
      · exact .inl rfl
      · exact .inl rfl
      · exact .inr (.inl ⟨_, rfl⟩)
    · exact .inl rfl
  | save h =>
    dsimp only
    split
    · exact hsave
    · exact hsave
    · exact hsave
    · exact .inl rfl
  | resume h =>
    dsimp only
    split
    · exact .inr (.inl ⟨_, rfl⟩)
    · exact .inl rfl
  | complete h time =>
    dsimp only
    split
    · split
      · exact .inr (.inl ⟨_, rfl⟩)
      · exact .inr (.inl ⟨_, rfl⟩)
      · exact .inr (.inl ⟨_, rfl⟩)
      · exact .inr (.inl ⟨_, rfl⟩)
    · exact .inl rfl
  | queue h =>
    dsimp only
    split
    · split
      · exact .inr (.inl ⟨_, rfl⟩)
      · exact .inr (.inl ⟨_, rfl⟩)
    · exact .inl rfl
  | reconcile h jobId time =>
    dsimp only
    split
    · exact .inr (.inl ⟨_, rfl⟩)
    · split
      · exact .inr (.inl ⟨_, rfl⟩)
      · exact .inr (.inl ⟨_, rfl⟩)
      · exact .inr (.inl ⟨_, rfl⟩)
    · exact .inl rfl
  | record h =>
    dsimp only
    split
    · exact hsave
    · exact .inl rfl
  | crash h => exact .inr (.inl ⟨_, rfl⟩)

/-- What a repeated request would store has the findings of the campaign that it may replace. -/
def RepeatOk (s : System) : Phase → Prop
  | .saving version campaign _ => version ≤ s.version ∧ (version = s.version → campaign.findings = s.campaign.findings)
  | .recording version campaign _ => version ≤ s.version ∧ (version = s.version → campaign.findings = s.campaign.findings)
  | .completing version campaign => version ≤ s.version ∧ (version = s.version → campaign = s.campaign)
  | _ => True

theorem repeatOk_iff {p : Phase} : RepeatOk s p ↔ Follows (fun c c' => c'.findings = c.findings) (fun _ => True) s p := by
  cases p <;> simp [RepeatOk, Follows]

theorem phase_setPhase (s : System) (h : Nat) (p : Phase) : (s.setPhase h p).phase h = p := Function.update_self ..

variable {h : Nat}

/-- A step of another request leaves what a handler is at. -/
theorem phase_of_ne (hne : a.handler ≠ h) : (step env secret s a).phase h = s.phase h := by
  rcases @step_cases env secret s a with heq | ⟨p, heq⟩ | ⟨c, p, heq⟩
  · rw [heq]
  · rw [heq]
    exact Function.update_of_ne (Ne.symm hne) ..
  · rw [heq]
    exact Function.update_of_ne (Ne.symm hne) ..

theorem RepeatOk.other (hne : a.handler ≠ h) (hok : RepeatOk s (s.phase h)) :
    RepeatOk (step env secret s a) ((step env secret s a).phase h) := by
  rw [phase_of_ne hne]
  rcases @step_cases env secret s a with heq | ⟨p, heq⟩ | ⟨c, p, heq⟩
  · rw [heq]
    exact hok
  · rw [heq]
    exact hok
  · rw [heq]
    exact repeatOk_iff.mpr ((repeatOk_iff.mp hok).saved rfl)

/-- A step of the handler keeps the findings. -/
theorem RepeatOk.own (hhandler : a.handler = h) (hcontinues : Continues h a)
    (hok : RepeatOk s (s.phase h)) : RepeatOk (step env secret s a) ((step env secret s a).phase h) ∧
      (step env secret s a).campaign.findings = s.campaign.findings := by
  subst hhandler
  have hwrites : WritesFollow (fun c c' => c'.findings = c.findings) (fun _ => True) env secret s a := by
    cases a with
    | validate i v => exact absurd rfl hcontinues
    | edit i e => exact absurd rfl hcontinues
    | resume i => exact fun _ => trivial
    | complete i time => exact fun _ _ _ hensure => (completes_of_ensureCompletionReport hensure).findings
    | reconcile i jobId time => exact fun _ hreconcile => (completes_of_reconcileReportJob hreconcile).findings
    | _ => trivial
  have hfollowed := followed_step (repeatOk_iff.mp hok) hwrites
  generalize step env secret s a = s' at hfollowed ⊢
  cases hfollowed with
  | stays => exact ⟨hok, rfl⟩
  | moves hp =>
    rw [phase_setPhase]
    exact ⟨repeatOk_iff.mpr hp, rfl⟩
  | stores hp hfindings =>
    refine ⟨repeatOk_iff.mpr ?_, hfindings⟩
    show Follows _ _ _ ((s.setPhase a.handler _).phase a.handler)
    rw [phase_setPhase]
    exact hp _

/-- The handler is done, or about to find that the completion is recorded. -/
def Quiet : Phase → Prop
  | .idle => True
  | .completing _ campaign => hasEvent campaign.events "campaign_completed" completionIdentity = true
  | _ => False

/-- A step of a quiet handler stores nothing. -/
theorem Quiet.own (hhandler : a.handler = h) (hcontinues : Continues h a)
    (hquiet : Quiet (s.phase h)) :
    Quiet ((step env secret s a).phase h) ∧ (step env secret s a).campaign = s.campaign := by
  have hidle : Quiet ((s.setPhase h .idle).phase h) ∧ (s.setPhase h .idle).campaign = s.campaign := by
    rw [phase_setPhase]
    exact ⟨trivial, rfl⟩
  have hstay : Quiet (s.phase h) ∧ s.campaign = s.campaign := ⟨hquiet, rfl⟩
  subst hhandler
  unfold step
  cases hphase : s.phase a.handler with
  | idle =>
    cases a with
    | validate i v => exact absurd rfl hcontinues
    | edit i e => exact absurd rfl hcontinues
    | crash i => exact hidle
    | _ =>
      dsimp only [Action.handler] at hphase hstay ⊢
      rw [hphase] at hstay ⊢
      exact ⟨by rw [hphase]; trivial, rfl⟩
  | completing version campaign =>
    rw [hphase] at hquiet
    cases a with
    | validate i v => exact absurd rfl hcontinues
    | edit i e => exact absurd rfl hcontinues
    | crash i => exact hidle
    | complete i time =>
      have hensure : ensureCompletionReport env secret campaign time = .ok .done := by
        unfold ensureCompletionReport
        exact if_pos hquiet
      dsimp only [Action.handler] at hphase hidle ⊢
      rw [hphase]
      dsimp only
      rw [hensure]
      exact hidle
    | _ =>
      dsimp only [Action.handler] at hphase hstay ⊢
      rw [hphase]
      exact hstay
  | _ =>
    rw [hphase] at hquiet
    cases hquiet

/-- What the check finds for a repeated request. -/
theorem validateFinding_of_repeat {v : Validation} (h : IsRepeat c v) {validated : Validated}
    (hv : validateFinding env secret c v = .ok validated) : validated = if c.allResolved then .completion else .unchanged := by
  obtain ⟨f, hf, hstatus, hvalidator⟩ := h
  unfold validateFinding at hv
  obtain ⟨-, -, hv⟩ := bind_ok hv
  rw [hf] at hv
  dsimp only at hv
  split at hv
  · cases hv
  split at hv
  · cases hv
  rw [if_pos ⟨hstatus, hvalidator⟩] at hv
  exact (Except.ok.inj hv).symm

/-- Some finding is open, or the completion of the campaign is recorded. -/
def Settled (c : Campaign) : Prop := c.allResolved = false ∨ hasEvent c.events "campaign_completed" completionIdentity = true

theorem phase_of_repeat {s : System} {h : Nat} {v : Validation} (hidle : s.phase h = .idle) (hrepeat : IsRepeat s.campaign v) :
    (step env secret s (.validate h v)).campaign = s.campaign ∧
      RepeatOk (step env secret s (.validate h v)) ((step env secret s (.validate h v)).phase h) ∧
        (Settled s.campaign → Quiet ((step env secret s (.validate h v)).phase h)) := by
  have hnone : RepeatOk s (s.phase h) ∧ (Settled s.campaign → Quiet (s.phase h)) := by
    rw [hidle]
    exact ⟨trivial, fun _ => trivial⟩
  unfold step
  dsimp only
  rw [hidle]
  dsimp only
  cases hvalidate : validateFinding env secret s.campaign v with
  | error e => exact ⟨rfl, hnone⟩
  | ok validated =>
    have hcases := validateFinding_of_repeat hrepeat hvalidate
    cases hall : s.campaign.allResolved with
    | false =>
      rw [hcases, hall]
      exact ⟨rfl, hnone⟩
    | true =>
      rw [hcases, hall]
      refine ⟨rfl, ?_, fun hsettled => ?_⟩
      · rw [if_pos rfl]
        dsimp only
        rw [phase_setPhase]
        exact ⟨Nat.le_refl _, fun _ => rfl⟩
      · rw [if_pos rfl]
        dsimp only
        rw [phase_setPhase]
        refine hsettled.resolve_left ?_
        rw [hall]
        decide

theorem repeatOk_of_run {l : List Action} (hcontinues : ∀ a ∈ l, Continues h a) (hok : RepeatOk s (s.phase h)) :
    RepeatOk (steps env secret s l) ((steps env secret s l).phase h) := by
  induction l generalizing s with
  | nil => exact hok
  | cons a l ih =>
    refine ih (fun b hb => hcontinues b (List.mem_cons_of_mem a hb)) ?_
    by_cases hhandler : a.handler = h
    · exact (RepeatOk.own hhandler (hcontinues a List.mem_cons_self) hok).1
    · exact RepeatOk.other hhandler hok

theorem quiet_of_run {l : List Action} (hcontinues : ∀ a ∈ l, Continues h a) (hquiet : Quiet (s.phase h)) :
    Quiet ((steps env secret s l).phase h) := by
  induction l generalizing s with
  | nil => exact hquiet
  | cons a l ih =>
    refine ih (fun b hb => hcontinues b (List.mem_cons_of_mem a hb)) ?_
    by_cases hhandler : a.handler = h
    · exact (Quiet.own hhandler (hcontinues a List.mem_cons_self) hquiet).1
    · rw [phase_of_ne hhandler]
      exact hquiet

/-! ## The result -/

/-- Whatever the request does after the check, with others in between: its steps change no finding, and nothing at all where the
campaign was settled. -/
def RepeatsQuietly (env : AuditEnv) (secret : ResolvedSecret) (s : System) (h : Nat) (v : Validation) : Prop :=
  (step env secret s (.validate h v)).campaign = s.campaign ∧
    ∀ l a, (∀ b ∈ l, Continues h b) → Continues h a → a.handler = h →
      let before := steps env secret (step env secret s (.validate h v)) l
      (step env secret before a).campaign.findings = before.campaign.findings ∧
        (Settled s.campaign → (step env secret before a).campaign = before.campaign)

def sampleReview : ReviewMetadata := ⟨"summary", "impact", [], "remediation", .null, .null⟩

def sampleFinding : Finding := ⟨"finding", "example.com", .validationRequired, "nuclei", none, sampleReview, .null⟩

/-- A campaign with one finding that awaits its validation. -/
def sampleCampaign : Campaign := ⟨.validating, Dict.empty.set "finding" sampleFinding, []⟩

def sampleSystem : System := ⟨0, sampleCampaign, fun _ => .idle, [(0, sampleCampaign)]⟩

theorem initial_sampleSystem : Initial sampleSystem := ⟨fun _ => rfl, 0, rfl⟩

/-- A reviewer confirms the finding. -/
def sampleConfirmation (h : Nat) (validator : String) : List Action :=
  [.validate h ⟨"finding", true, validator, true, "10:00"⟩, .save h]

end FindingResolution

end XbowPerso
