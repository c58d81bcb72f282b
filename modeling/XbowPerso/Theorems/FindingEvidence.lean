import XbowPerso.Lemmas.ObservationGraph
import XbowPerso.Theorems.ClosedCampaigns

/-!
# A confirmation rests on independent evidence

Only the resolution of a finding confirms it, and only with a validator that is not its discoverer and with an observed validation of
another source, to which evidence is attached. Observations stay, so that evidence is there in every later state.
-/

namespace XbowPerso

namespace FindingResolution

variable {env : AuditEnv} {secret : ResolvedSecret} {cfg : ObservationSettings}

/-! ## The statement -/

/-- A validation by another source than the discoverer observed the finding, with evidence attached to it. -/
def EvidencedBy (rows : Observations) (findingId : String) : Prop :=
  ∃ finding ∈ rows, ∃ validation ∈ rows, ∃ evidence ∈ rows,
    finding.kind = .finding ∧ finding.id.text = "finding:" ++ findingId ∧ validation.kind = .validation ∧ evidence.kind = .evidence ∧
    validation.value = "observed" ∧ finding.id ∈ validation.parentIds ∧ validation.source ≠ finding.source ∧
    validation.id ∈ evidence.parentIds

/-- What a confirmed finding has. -/
def Independent (rows : Observations) (findingId : String) (f : Finding) : Prop :=
  (∃ validator, f.validatedBy = some validator ∧ validator ≠ f.discoveredBy) ∧ EvidencedBy rows findingId

def ConfirmedFindings (rows : Observations) (c : Campaign) : Prop :=
  ∀ id f, c.findings.get? id = some f → f.status = .confirmed → Independent rows id f

/-- Every confirmed finding of the second is confirmed in the first, with the same validator and discoverer. -/
def NoneConfirmed (c c' : Campaign) : Prop :=
  ∀ id f', c'.findings.get? id = some f' → f'.status = .confirmed →
    ∃ f, c.findings.get? id = some f ∧ f.status = .confirmed ∧ f'.validatedBy = f.validatedBy ∧ f'.discoveredBy = f.discoveredBy

/-- Of the operations on a campaign only a resolution confirms: the finding of the request, which is not rejected, for a validator that has
not discovered it, and with evidence. -/
def ConfirmsOnlyByValidation (env : AuditEnv) (secret : ResolvedSecret) (c : Campaign) : Prop :=
  (∀ (e : Edit) c', e.Reports → e.apply env secret c = .ok (some c') → NoneConfirmed c c') ∧
  (∀ time c', ensureCompletionReport env secret c time = .ok (.save c') → NoneConfirmed c c') ∧
  (∀ jobId time c', reconcileReportJob env secret c jobId time = .ok (.save c') → NoneConfirmed c c') ∧
  ∀ v c' complete, validateFinding env secret c v = .ok (.resolved c' complete) →
    ∀ id f', c'.findings.get? id = some f' → f'.status = .confirmed →
      (∃ f, c.findings.get? id = some f ∧ f.status = .confirmed ∧ f'.validatedBy = f.validatedBy ∧ f'.discoveredBy = f.discoveredBy) ∨
      (id = v.findingId ∧ v.confirmed = true ∧ v.backed = true ∧ f'.validatedBy = some v.validator ∧ v.validator ≠ f'.discoveredBy ∧
        ∃ f, c.findings.get? id = some f ∧ f.status ≠ .rejected)

/-! ## The observations -/

variable {rows : Observations} {o : Observation}

/-- What a put adds to the rows stays there. -/
theorem rows_of_put {rows' : Observations} (h : rows.put cfg o = .ok rows') {row : ObservationRow}
    (hrow : row ∈ rows) : row ∈ rows' := by
  unfold Observations.put at h
  split at h
  · cases h
  rcases Observations.insert_cases h with ⟨heq, -, -⟩ | ⟨heq, -⟩
  · rw [heq]
    exact List.mem_append_left _ hrow
  · rw [heq]
    exact hrow

variable {findingId : String}

theorem EvidencedBy.mono {rows' : Observations} (hrows : ∀ row ∈ rows, row ∈ rows')
    (h : EvidencedBy rows findingId) : EvidencedBy rows' findingId := by
  obtain ⟨finding, hfinding, validation, hvalidation, evidence, hevidence, hrest⟩ := h
  exact ⟨finding, hrows _ hfinding, validation, hrows _ hvalidation, evidence, hrows _ hevidence, hrest⟩

variable {graph : ObservationGraph} {x : Observation}

theorem mem_of_put (h : x ∈ (graph.put o).values) : x ∈ graph.values ∨ x = o := by
  have hget := ObservationGraph.mem_values.mp h
  unfold ObservationGraph.put at hget
  dsimp only at hget
  rw [Dict.get?_set] at hget
  split at hget
  · exact .inr (Option.some.inj hget).symm
  · exact .inl (ObservationGraph.mem_values.mpr hget)

variable {graph' : ObservationGraph}

theorem mem_of_add (h : graph.add o = .ok graph') (hx : x ∈ graph'.values) :
    x ∈ graph.values ∨ x = o := by
  unfold ObservationGraph.add at h
  split at h
  · cases h
  split at h
  · split at h
    · cases h
      exact mem_of_put hx
    · cases h
  · cases h
    exact mem_of_put hx

theorem mem_of_pass {pending remaining : List Observation}
    (h : ObservationGraph.pass graph pending = .ok (graph', remaining)) :
    (∀ x ∈ graph'.values, x ∈ graph.values ∨ x ∈ pending) ∧ ∀ x ∈ remaining, x ∈ pending := by
  induction pending generalizing graph graph' remaining with
  | nil =>
    cases h
    exact ⟨fun x hx => .inl hx, fun x hx => hx⟩
  | cons o pending ih =>
    unfold ObservationGraph.pass at h
    split at h
    · split at h
      · cases h
      rename_i added hadd
      obtain ⟨hvalues, hremaining⟩ := ih h
      refine ⟨fun x hx => ?_, fun x hx => List.mem_cons_of_mem _ (hremaining x hx)⟩
      rcases hvalues x hx with hx | hx
      · rcases mem_of_add hadd hx with hx | rfl
        · exact .inl hx
        · exact .inr (List.mem_cons_self ..)
      · exact .inr (List.mem_cons_of_mem _ hx)
    · split at h
      · cases h
      rename_i passed left hpass
      cases h
      obtain ⟨hvalues, hremaining⟩ := ih hpass
      refine ⟨fun x hx => (hvalues x hx).imp_right (List.mem_cons_of_mem _), fun x hx => ?_⟩
      rcases List.mem_cons.mp hx with rfl | hx
      · exact List.mem_cons_self ..
      · exact List.mem_cons_of_mem _ (hremaining x hx)

theorem mem_of_passes {rounds : Nat} {pending : List Observation}
    (h : ObservationGraph.passes rounds graph pending = .ok graph') (hx : x ∈ graph'.values) :
    x ∈ graph.values ∨ x ∈ pending := by
  induction rounds generalizing graph pending with
  | zero =>
    cases pending with
    | nil =>
      cases h
      exact .inl hx
    | cons o pending => cases h
  | succ rounds ih =>
    cases pending with
    | nil =>
      cases h
      exact .inl hx
    | cons o pending =>
      unfold ObservationGraph.passes at h
      split at h
      · cases h
      rename_i passed remaining hpass
      split at h
      · cases h
      obtain ⟨hvalues, hremaining⟩ := mem_of_pass hpass
      rcases ih h with hx | hx
      · exact hvalues x hx
      · exact .inr (hremaining x hx)

/-- The observations of a graph are among its records. -/
theorem mem_of_fromRecords {records : List Observation} (h : ObservationGraph.fromRecords records = .ok graph)
    (hx : x ∈ graph.values) : x ∈ records := by
  rcases mem_of_passes h hx with hx | hx
  · cases hx
  · exact hx

theorem word_injective : Function.Injective ObservationKind.word := by
  intro a b h
  cases a <;> cases b <;> first | rfl | exact absurd h (by decide)

/-- An observation of a kind in a graph is a row of the kind. -/
theorem row_of_byKind {records : Observations} {kind : ObservationKind}
    (hperm : List.Perm records rows) (h : ObservationGraph.fromRecords (records.map ObservationRow.toObservation) = .ok graph)
    (ho : o ∈ graph.byKind kind) : ∃ row ∈ rows, row.kind = kind ∧ row.toObservation = o := by
  obtain ⟨hvalue, hkind⟩ := List.mem_filter.mp ho
  obtain ⟨row, hrow, rfl⟩ := List.mem_map.mp (mem_of_fromRecords h hvalue)
  exact ⟨row, hperm.mem_iff.mp hrow, word_injective (of_decide_eq_true hkind), rfl⟩

/-- The check of a resolution finds evidence among the rows. -/
theorem evidencedBy_of_backed (h : Backed rows findingId) : EvidencedBy rows findingId := by
  obtain ⟨records, graph, hperm, hgraph, hback⟩ := h
  obtain ⟨o, ho, hid⟩ : ∃ o ∈ graph.byKind .finding, o.id = "finding:" ++ findingId := by
    obtain ⟨validation, -, hfilter⟩ := List.mem_flatMap.mp hback
    obtain ⟨hobserves, -⟩ := Bool.and_eq_true_iff.mp (List.mem_filter.mp hfilter).2
    unfold ObservationGraph.observesIndependently at hobserves
    split at hobserves
    · cases hobserves
    rename_i finding hfinding
    have hfound : List.find? (fun o => decide (o.id = "finding:" ++ findingId)) (graph.byKind .finding) = some finding := hfinding
    have hid := List.find?_some hfound
    exact ⟨finding, List.mem_of_find?_eq_some hfound, of_decide_eq_true hid⟩
  rw [← hid] at hback
  obtain ⟨validation, hvalidation, evidence, hevidence, hvalue, hparent, hsource, hattached⟩ :=
    ObservationGraph.evidenced_of_backed ho hback
  obtain ⟨f, hf, hfkind, rfl⟩ := row_of_byKind hperm hgraph ho
  obtain ⟨v, hv, hvkind, rfl⟩ := row_of_byKind hperm hgraph hvalidation
  obtain ⟨e, he, hekind, rfl⟩ := row_of_byKind hperm hgraph hevidence
  obtain ⟨p, hp, hpid⟩ := List.mem_map.mp hparent
  obtain ⟨p', hp', hpid'⟩ := List.mem_map.mp hattached
  refine ⟨f, hf, v, hv, e, he, hfkind, hid, hvkind, hekind, hvalue, ?_, hsource, ?_⟩
  · rw [← Ident.text_injective hpid]
    exact hp
  · rw [← Ident.text_injective hpid']
    exact hp'

/-! ## What the operations confirm -/

variable {c c' : Campaign}

theorem noneConfirmed_of_eq (h : c'.findings = c.findings) : NoneConfirmed c c' := by
  intro id f hf hstatus
  rw [h] at hf
  exact ⟨f, hf, hstatus, rfl, rfl⟩

theorem NoneConfirmed.trans {c₁ c₂ c₃ : Campaign} (h : NoneConfirmed c₁ c₂) (h' : NoneConfirmed c₂ c₃) : NoneConfirmed c₁ c₃ := by
  intro id f hf hstatus
  obtain ⟨f', hf', hstatus', hvalidator, hdiscoverer⟩ := h' id f hf hstatus
  obtain ⟨f'', hf'', hstatus'', hvalidator', hdiscoverer'⟩ := h id f' hf' hstatus'
  exact ⟨f'', hf'', hstatus'', hvalidator.trans hvalidator', hdiscoverer.trans hdiscoverer'⟩

variable {f' : Finding}

/-- A finding that is not confirmed takes a place. -/
theorem noneConfirmed_set {key : String} (h : f'.status ≠ .confirmed) :
    NoneConfirmed c (c.setFinding key f') := by
  intro id f hf hstatus
  unfold Campaign.setFinding at hf
  dsimp only at hf
  rw [Dict.get?_set] at hf
  split at hf
  · cases hf
    exact absurd hstatus h
  exact ⟨f, hf, hstatus, rfl, rfl⟩

theorem noneConfirmed_ingest {findings : List Finding} (h : ∀ f ∈ findings, f.status = .validationRequired) (c : Campaign) :
    NoneConfirmed c (ingest c findings) := by
  unfold ingest
  induction findings generalizing c with
  | nil => exact noneConfirmed_of_eq rfl
  | cons finding findings ih =>
    have hrest := ih fun f hf => h f (List.mem_cons_of_mem _ hf)
    rw [List.foldl_cons]
    split
    · exact hrest c
    · refine NoneConfirmed.trans (noneConfirmed_set ?_) (hrest _)
      rw [h finding (List.mem_cons_self ..)]
      decide

/-- A finding takes the place of one of the same status. -/
theorem noneConfirmed_replace {key : String} {f : Finding} (hf : c.findings.get? key = some f)
    (hkeeps : f'.status = f.status ∧ f'.validatedBy = f.validatedBy ∧ f'.discoveredBy = f.discoveredBy) :
    NoneConfirmed c (c.setFinding key f') := by
  intro id g hg hstatus
  unfold Campaign.setFinding at hg
  dsimp only at hg
  rw [Dict.get?_set] at hg
  split at hg
  · rename_i hid
    cases hg
    rw [hid]
    exact ⟨f, hf, hkeeps.1.symm.trans hstatus, hkeeps.2⟩
  · exact ⟨g, hg, hstatus, rfl, rfl⟩

/-- No edit confirms a finding. -/
theorem noneConfirmed_of_edit {e : Edit} (hreports : e.Reports) (h : e.apply env secret c = .ok (some c')) :
    NoneConfirmed c c' := by
  cases (edit_effect h).1 with
  | same hfindings => exact noneConfirmed_of_eq hfindings
  | added _ hstatus hfindings => exact (noneConfirmed_set (by rw [hstatus]; decide)).trans (noneConfirmed_of_eq hfindings)
  | replaced hf hfindings hkeeps => exact (noneConfirmed_replace hf hkeeps).trans (noneConfirmed_of_eq hfindings)
  | ingested he hfindings =>
    obtain ⟨state, event, rfl⟩ := he
    exact (noneConfirmed_ingest hreports c).trans (noneConfirmed_of_eq hfindings)

/-- A resolution confirms the finding of its request only. -/
theorem confirmed_of_validateFinding {v : Validation} {complete : Bool}
    (h : validateFinding env secret c v = .ok (.resolved c' complete)) {id : String}
    (hf' : c'.findings.get? id = some f') (hstatus : f'.status = .confirmed) :
    (∃ f, c.findings.get? id = some f ∧ f.status = .confirmed ∧ f'.validatedBy = f.validatedBy ∧ f'.discoveredBy = f.discoveredBy) ∨
      (id = v.findingId ∧ v.confirmed = true ∧ v.backed = true ∧ f'.validatedBy = some v.validator ∧ v.validator ≠ f'.discoveredBy ∧
        ∃ f, c.findings.get? id = some f ∧ f.status ≠ .rejected) := by
  obtain ⟨finding, hfinding, hdiscoverer, hbacked, -, hconflict, hfindings, -⟩ := validateFinding_resolved h
  rw [hfindings, Dict.get?_set] at hf'
  split at hf'
  · rename_i hid
    cases hf'
    have hdesired : v.desiredStatus = .confirmed := hstatus
    have hconfirmed : v.confirmed = true := by
      by_contra hnot
      unfold Validation.desiredStatus at hdesired
      rw [if_neg hnot] at hdesired
      cases hdesired
    refine .inr ⟨hid, hconfirmed, hbacked, rfl, hdiscoverer, finding, hid ▸ hfinding, fun hrejected => ?_⟩
    refine hconflict ⟨by rw [hrejected]; rfl, ?_⟩
    rw [hrejected, hdesired]
    decide
  · exact .inl ⟨f', hf', hstatus, rfl, rfl⟩

theorem confirmsOnlyByValidation (c : Campaign) : ConfirmsOnlyByValidation env secret c := by
  refine ⟨fun e c' hreports h => noneConfirmed_of_edit hreports h, fun time c' h => ?_, fun jobId time c' h => ?_,
    fun v c' complete h id f' hf' hstatus => confirmed_of_validateFinding h hf' hstatus⟩
  · have hfindings := (completes_of_ensureCompletionReport h).findings
    exact noneConfirmed_of_eq hfindings
  · have hfindings := (completes_of_reconcileReportJob h).findings
    exact noneConfirmed_of_eq hfindings

/-! ## Runs -/

theorem ConfirmedFindings.of_noneConfirmed (h : NoneConfirmed c c')
    (hc : ConfirmedFindings rows c) : ConfirmedFindings rows c' := by
  intro id f hf hstatus
  obtain ⟨f', hf', hstatus', hvalidator, hdiscoverer⟩ := h id f hf hstatus
  obtain ⟨hindependent, hevidence⟩ := hc id f' hf' hstatus'
  rw [← hvalidator, ← hdiscoverer] at hindependent
  exact ⟨hindependent, hevidence⟩

/-- The requests of a run. -/
def requests (l : List ObservedAction) : List Action :=
  l.filterMap fun a =>
    match a with
    | .request a => some a
    | .observe _ => none

/-- What a step keeps of the rows. -/
theorem rows_step (s : Observed) (a : ObservedAction) : ∀ row ∈ s.rows, row ∈ (s.step env secret cfg a).rows := by
  intro row hrow
  cases a with
  | request a => exact hrow
  | observe o =>
    unfold Observed.step
    dsimp only
    split
    · exact hrow
    · rename_i hput
      exact rows_of_put hput hrow

theorem rows_steps (s : Observed) (l : List ObservedAction) : ∀ row ∈ s.rows, row ∈ (s.steps env secret cfg l).rows := by
  induction l generalizing s with
  | nil => exact fun row hrow => hrow
  | cons a l ih => exact fun row hrow => ih _ row (rows_step s a row hrow)

/-- The observations do not reach the requests. -/
theorem system_steps (s : Observed) (l : List ObservedAction) :
    (s.steps env secret cfg l).system = steps env secret s.system (requests l) := by
  induction l generalizing s with
  | nil => rfl
  | cons a l ih =>
    refine (ih (s.step env secret cfg a)).trans ?_
    cases a with
    | request a => rfl
    | observe o =>
      show steps env secret _ (requests l) = steps env secret s.system (requests l)
      congr 1
      unfold Observed.step
      dsimp only
      split
      · rfl
      · rfl

/-- Every write of a run keeps the confirmed findings independent, as the rows at its end tell. -/
theorem writesFollow_of_run {s : Observed} {l : List ObservedAction} {rows : Observations} (hrun : ObservedRun env secret cfg s l)
    (hrows : ∀ row ∈ (s.steps env secret cfg l).rows, row ∈ rows) :
    EachStep env secret (WritesFollow (fun c c' => ConfirmedFindings rows c → ConfirmedFindings rows c') (fun _ => True) env secret)
      s.system (requests l) := by
  induction l generalizing s with
  | nil => trivial
  | cons a l ih =>
    obtain ⟨hreal, hrest⟩ := hrun
    have hsteps := ih hrest hrows
    cases a with
    | observe o =>
      have hsystem : (s.step env secret cfg (.observe o)).system = s.system := by
        unfold Observed.step
        dsimp only
        split
        · rfl
        · rfl
      rw [hsystem] at hsteps
      exact hsteps
    | request a =>
      refine ⟨?_, hsteps⟩
      obtain ⟨hedit, hensure, hreconcile, -⟩ := @confirmsOnlyByValidation env secret s.system.campaign
      cases a with
      | validate i v =>
        refine ⟨fun _ => trivial, fun c' complete h hc id f' hf' hstatus => ?_⟩
        rcases confirmed_of_validateFinding h hf' hstatus with ⟨f, hf, hconfirmed, hvalidator, hdiscoverer⟩ |
          ⟨hid, -, hbacked, hvalidator, hdiscoverer, -⟩
        · obtain ⟨hindependent, hevidence⟩ := hc id f hf hconfirmed
          rw [← hvalidator, ← hdiscoverer] at hindependent
          exact ⟨hindependent, hevidence⟩
        · refine ⟨⟨v.validator, hvalidator, hdiscoverer⟩, ?_⟩
          rw [hid]
          exact (evidencedBy_of_backed (hreal.mp hbacked)).mono fun row hrow => hrows row (rows_steps s _ row hrow)
      | edit i e => exact fun c' h hc => hc.of_noneConfirmed (hedit e c' hreal h)
      | resume i => exact fun _ => trivial
      | complete i time =>
        intro read c' _ h hc
        have hfindings := (completes_of_ensureCompletionReport h).findings
        exact hc.of_noneConfirmed (noneConfirmed_of_eq hfindings)
      | reconcile i jobId time => exact fun c' h hc => hc.of_noneConfirmed (hreconcile jobId time c' h)
      | _ => trivial

/-- What was stored stays stored. -/
theorem stored_grows (s : System) (l : List Action) : s.stored <+: (steps env secret s l).stored := by
  induction l generalizing s with
  | nil => exact List.prefix_refl _
  | cons a l ih =>
    refine List.IsPrefix.trans ?_ (ih (step env secret s a))
    rcases @step_cases env secret s a with h | ⟨p, h⟩ | ⟨c, p, h⟩
    · have hsame : (step env secret s a).stored = s.stored := congrArg System.stored h
      exact hsame ▸ List.prefix_refl _
    · have hsame : (step env secret s a).stored = s.stored := (congrArg System.stored h).trans rfl
      exact hsame ▸ List.prefix_refl _
    · have hnext : (step env secret s a).stored = s.stored ++ [(a.handler, c)] := (congrArg System.stored h).trans rfl
      exact hnext ▸ List.prefix_append _ _

/-- In every run from a campaign without confirmed findings, every confirmed finding of every stored campaign has a validator that has not
discovered it and observed evidence of another source, and no operation but a resolution confirms a finding. -/
theorem confirmation_is_independent {s : Observed} {l : List ObservedAction} (hinitial : Initial s.system)
    (hnone : ∀ id f, s.system.campaign.findings.get? id = some f → f.status ≠ .confirmed) (hrun : ObservedRun env secret cfg s l) :
    (∀ entry ∈ (s.steps env secret cfg l).system.stored, ConfirmedFindings (s.steps env secret cfg l).rows entry.2) ∧
      ∀ c, ConfirmsOnlyByValidation env secret c := by
  refine ⟨fun entry hentry => ?_, confirmsOnlyByValidation⟩
  have hpairwise := pairwise_of_run (fun c hc => hc) (fun h h' hc => h' (h hc)) hinitial
    (@writesFollow_of_run env secret cfg s l _ hrun fun row hrow => hrow)
  obtain ⟨i, hstored⟩ := hinitial.stored
  obtain ⟨rest, hrest⟩ := @stored_grows env secret s.system (requests l)
  have hfirst : ConfirmedFindings (s.steps env secret cfg l).rows s.system.campaign := fun id f hf hstatus =>
    absurd hstatus (hnone id f hf)
  rw [hstored] at hrest
  rw [← hrest] at hpairwise
  rw [system_steps, ← hrest] at hentry
  rcases List.mem_cons.mp hentry with rfl | hlater
  · exact hfirst
  · exact List.rel_of_pairwise_cons hpairwise hlater hfirst

/-! ## A finding that is confirmed -/

def sampleFindingId : Ident := ⟨"finding:finding", by decide, by decide, by decide, by decide⟩
def sampleValidationId : Ident := ⟨"validation:finding", by decide, by decide, by decide, by decide⟩
def sampleEvidenceId : Ident := ⟨"evidence", by decide, by decide, by decide, by decide⟩

/-- A finding of a scanner, which another source has observed, with its evidence. -/
def sampleRows : Observations :=
  [⟨sampleFindingId, .finding, "finding", "nuclei", [], []⟩,
    ⟨sampleValidationId, .validation, "observed", "independent-http-validator", [sampleFindingId], []⟩,
    ⟨sampleEvidenceId, .evidence, "http", "independent-http-validator", [sampleValidationId], []⟩]

def sampleEvidence : ObservationGraph :=
  ((ObservationGraph.empty.put ⟨"finding:finding", "finding", "finding", "nuclei", [], []⟩).put
    ⟨"validation:finding", "validation", "observed", "independent-http-validator", ["finding:finding"], []⟩).put
    ⟨"evidence", "evidence", "http", "independent-http-validator", ["validation:finding"], []⟩

theorem fromRecords_sampleRows :
    ObservationGraph.fromRecords (sampleRows.map ObservationRow.toObservation) = .ok sampleEvidence := by rfl

theorem backed_sample : Backed sampleRows "finding" :=
  ⟨sampleRows, sampleEvidence, List.Perm.refl _, fromRecords_sampleRows, by decide +kernel⟩

theorem none_confirmed_sample : ∀ id f, sampleSystem.campaign.findings.get? id = some f → f.status ≠ .confirmed := by
  intro id f hf hstatus
  have hget : (Dict.empty.set "finding" sampleFinding).get? id = some f := hf
  rw [Dict.get?_set] at hget
  split at hget
  · cases hget
    cases hstatus
  cases hget

/-- The run that the sample confirmation makes. -/
def confirmedRun : Observed :=
  (Observed.mk sampleSystem sampleRows).steps CampaignAudit.sampleEnv (.ok none) ObservationSettings.default
    ((sampleConfirmation 0 "alice").map .request)

theorem confirmation_is_independent_sample :
    confirmedRun.system.stored.length = 2 ∧ ∀ entry ∈ confirmedRun.system.stored, ConfirmedFindings sampleRows entry.2 :=
  ⟨by decide +kernel,
    (@confirmation_is_independent CampaignAudit.sampleEnv (.ok none) ObservationSettings.default ⟨sampleSystem, sampleRows⟩
      ((sampleConfirmation 0 "alice").map .request) initial_sampleSystem none_confirmed_sample
      ⟨⟨fun _ => backed_sample, fun _ => rfl⟩, trivial, trivial⟩).1⟩

end FindingResolution

end XbowPerso
