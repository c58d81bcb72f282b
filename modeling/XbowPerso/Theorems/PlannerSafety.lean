import XbowPerso.Planner
import XbowPerso.Theorems.ContractRate

/-!
# When the planner reports and when it scans

Each question that the planner asks and does not stop at leaves a fact; the facts left when it proposes a report, or a scan, are its
precondition.
-/

namespace XbowPerso

namespace AdaptivePlanner

variable {campaign : Campaign} {graph : ObservationGraph} {host : String} {k : ActionKind}

/-- What holds when the planner proposes a report. -/
structure ReportReady (campaign : Campaign) (graph : ObservationGraph) : Prop where
  /-- The findings of the graph are those of the campaign. -/
  sameFindings : ∀ id, (∃ o ∈ graph.byKind .finding, campaignFindingId o = id) ↔ ∃ f ∈ campaign.findings, f.id = id
  /-- Every finding of the graph is backed by a validation that is independent of its discoverer and has evidence. -/
  backed : ∀ o ∈ graph.byKind .finding, graph.Evidenced o
  /-- Every finding of the campaign is confirmed or rejected. -/
  resolved : ∀ f ∈ campaign.findings, f.status = .confirmed ∨ f.status = .rejected
  confirmed : ∃ f ∈ campaign.findings, f.status = .confirmed
  noReport : ∀ o ∈ graph.byKind .evidence, o.metadataIs "artifact_kind" "report" = false

/-- What holds when the planner proposes a scan. -/
structure ScanReady (campaign : Campaign) (graph : ObservationGraph) : Prop where
  permitted : campaign.automatedScanning = true
  endpoints : graph.byKind .endpoint ≠ []
  noFinding : graph.byKind .finding = [] ∧ campaign.findings = []

/-- Some action is of a kind. -/
def Proposes (actions : List PlannedAction) (k : ActionKind) : Prop := ∃ a ∈ actions, a.kind = k

theorem proposes_singleton {a : PlannedAction} : Proposes [a] k ↔ a.kind = k := by
  simp [Proposes]

theorem not_proposes_singleton {a : PlannedAction} (hk : a.kind ≠ k) : ¬ Proposes [a] k := by
  rw [proposes_singleton]
  exact hk

theorem not_proposes_stop {target : Option String} {reason : String} (hk : k ≠ .stop) : ¬ Proposes (stop target reason) k :=
  not_proposes_singleton hk.symm

/-- A question at which the planner does not propose the action was passed. -/
theorem proposes_of_ite {c : Prop} [Decidable c] {actions rest : List PlannedAction} (h : Proposes (if c then actions else rest) k)
    (hnot : ¬ Proposes actions k) : ¬ c ∧ Proposes rest k := by
  by_cases hc : c
  · rw [if_pos hc] at h
    exact absurd h hnot
  · rw [if_neg hc] at h
    exact ⟨hc, h⟩

theorem sameIds_iff {xs ys : List String} : sameIds xs ys = true ↔ ∀ id, id ∈ xs ↔ id ∈ ys := by
  simp only [sameIds, Bool.and_eq_true, List.all_eq_true, decide_eq_true_iff]
  exact ⟨fun h id => ⟨h.1 id, h.2 id⟩, fun h => ⟨fun id => (h id).mp, fun id => (h id).mpr⟩⟩

/-! ## The questions about resolved findings and the inventory -/

theorem planResolved_report (h : Proposes (planResolved host campaign graph) .report) :
    (∀ f ∈ campaign.findings, f.status = .confirmed ∨ f.status = .rejected) ∧ (∃ f ∈ campaign.findings, f.status = .confirmed) ∧
      ∀ o ∈ graph.byKind .evidence, o.metadataIs "artifact_kind" "report" = false := by
  unfold planResolved at h
  obtain ⟨hopen, h⟩ := proposes_of_ite h (not_proposes_stop (by decide))
  obtain ⟨hconfirmed, h⟩ := proposes_of_ite h (not_proposes_stop (by decide))
  obtain ⟨hreport, -⟩ := proposes_of_ite h (not_proposes_stop (by decide))
  refine ⟨?_, ?_, ?_⟩
  · intro f hf
    by_contra hstatus
    rw [not_or] at hstatus
    exact hopen (List.any_eq_true.mpr ⟨f, hf, decide_eq_true hstatus⟩)
  · obtain ⟨f, hf, hstatus⟩ := List.any_eq_true.mp (not_not.mp hconfirmed)
    exact ⟨f, hf, of_decide_eq_true hstatus⟩
  · intro o ho
    by_contra hkind
    exact hreport (List.any_eq_true.mpr ⟨o, ho, (Bool.not_eq_false _).mp hkind⟩)

theorem planResolved_not_scan : ¬ Proposes (planResolved host campaign graph) .scan := by
  intro h
  unfold planResolved at h
  obtain ⟨-, h⟩ := proposes_of_ite h (not_proposes_stop (by decide))
  obtain ⟨-, h⟩ := proposes_of_ite h (not_proposes_stop (by decide))
  obtain ⟨-, h⟩ := proposes_of_ite h (not_proposes_stop (by decide))
  rw [proposes_singleton] at h
  cases h

theorem planInventory_scan (h : Proposes (planInventory host graph) .scan) :
    graph.byKind .endpoint ≠ [] ∧ graph.byKind .finding = [] := by
  unfold planInventory at h
  by_contra hc
  rw [if_neg hc] at h
  obtain ⟨-, h⟩ := proposes_of_ite h (not_proposes_singleton (by simp))
  exact not_proposes_stop (by decide) h

theorem planInventory_not_report : ¬ Proposes (planInventory host graph) .report := by
  intro h
  unfold planInventory at h
  split at h
  · obtain ⟨-, h⟩ := proposes_of_ite h (not_proposes_stop (by decide))
    rw [proposes_singleton] at h
    cases h
  obtain ⟨-, h⟩ := proposes_of_ite h (not_proposes_singleton (by simp))
  exact not_proposes_stop (by decide) h

theorem not_proposes_planUnresolved (hvalidate : .validate ≠ k) (hstop : k ≠ .stop) : ¬ Proposes (planUnresolved host graph) k := by
  intro h
  unfold planUnresolved at h
  obtain ⟨-, h⟩ := proposes_of_ite h (not_proposes_singleton hvalidate)
  exact not_proposes_stop hstop h

/-! ## The questions about the graph -/

/-- The findings of the graph and the campaign agree once the question about them is passed. -/
theorem sameFindings_of_passed
    (h : ¬ ((graph.byKind .finding ≠ [] ∨ campaign.findings ≠ []) ∧
      sameIds ((graph.byKind .finding).map campaignFindingId) (campaign.findings.map Finding.id) = false)) (id : String) :
    (∃ o ∈ graph.byKind .finding, campaignFindingId o = id) ↔ ∃ f ∈ campaign.findings, f.id = id := by
  rw [← List.mem_map, ← List.mem_map]
  by_cases hsome : graph.byKind .finding ≠ [] ∨ campaign.findings ≠ []
  · have hsame : sameIds ((graph.byKind .finding).map campaignFindingId) (campaign.findings.map Finding.id) = true :=
      (Bool.not_eq_false _).mp fun hfalse => h ⟨hsome, hfalse⟩
    exact sameIds_iff.mp hsame id
  · rw [not_or, not_not, not_not] at hsome
    rw [hsome.1, hsome.2]
    simp

theorem backed_of_all (h : graph.analyzeValidationState.allEvidenceBackedIndependently = true) {o : Observation}
    (ho : o ∈ graph.byKind .finding) : graph.Evidenced o := by
  obtain ⟨-, hall⟩ := Bool.and_eq_true_iff.mp h
  obtain ⟨hall, -⟩ := Bool.and_eq_true_iff.mp hall
  have hid : o.id ∈ graph.analyzeValidationState.findingIds := List.mem_map.mpr ⟨o, ho, rfl⟩
  exact ObservationGraph.evidenced_of_backed ho (of_decide_eq_true (List.all_eq_true.mp hall o.id hid))

theorem planObserved_report (h : Proposes (planObserved host campaign graph) .report) : ReportReady campaign graph := by
  unfold planObserved at h
  dsimp only at h
  obtain ⟨-, h⟩ := proposes_of_ite h (not_proposes_singleton (by simp))
  obtain ⟨hsame, h⟩ := proposes_of_ite h (not_proposes_stop (by decide))
  obtain ⟨-, h⟩ := proposes_of_ite h (not_proposes_planUnresolved (by decide) (by decide))
  obtain ⟨-, h⟩ := proposes_of_ite h (not_proposes_stop (by decide))
  by_cases hall : graph.byKind .finding ≠ [] ∧ graph.analyzeValidationState.allEvidenceBackedIndependently = true
  · rw [if_pos hall] at h
    obtain ⟨hresolved, hconfirmed, hreport⟩ := planResolved_report h
    exact ⟨sameFindings_of_passed hsame, fun o ho => backed_of_all hall.2 ho, hresolved, hconfirmed, hreport⟩
  · rw [if_neg hall] at h
    exact absurd h planInventory_not_report

theorem planObserved_scan (h : Proposes (planObserved host campaign graph) .scan) :
    graph.byKind .endpoint ≠ [] ∧ graph.byKind .finding = [] ∧ campaign.findings = [] := by
  unfold planObserved at h
  dsimp only at h
  obtain ⟨-, h⟩ := proposes_of_ite h (not_proposes_singleton (by simp))
  obtain ⟨hsame, h⟩ := proposes_of_ite h (not_proposes_stop (by decide))
  obtain ⟨-, h⟩ := proposes_of_ite h (not_proposes_planUnresolved (by decide) (by decide))
  obtain ⟨-, h⟩ := proposes_of_ite h (not_proposes_stop (by decide))
  obtain ⟨-, h⟩ := proposes_of_ite h planResolved_not_scan
  obtain ⟨hendpoints, hnone⟩ := planInventory_scan h
  refine ⟨hendpoints, hnone, ?_⟩
  -- a finding of the campaign would be one of the graph
  refine List.eq_nil_iff_forall_not_mem.mpr fun f hf => ?_
  obtain ⟨o, ho, -⟩ := (sameFindings_of_passed hsame f.id).mpr ⟨f, hf, rfl⟩
  rw [hnone] at ho
  exact List.not_mem_nil ho

/-- What a plan rests on: the planner stops, or scanning is permitted and the observations decide. -/
theorem plan_cases {u : Unicode} {limits : Option PlannerLimits} {actions : List PlannedAction}
    (h : plan u limits campaign graph = some actions) (hk : k ≠ .stop) (hproposes : Proposes actions k) :
    campaign.automatedScanning = true ∧ ∃ host, actions = planObserved host campaign graph := by
  unfold plan at h
  split at h
  · cases h
  rename_i url hurl
  dsimp only at h
  split at h
  · cases h
    exact absurd hproposes (not_proposes_stop hk)
  split at h
  · cases h
    exact absurd hproposes (not_proposes_stop hk)
  rename_i hscanning
  split at h
  · cases h
    exact absurd hproposes (not_proposes_stop hk)
  split at h
  · cases h
    exact absurd hproposes (not_proposes_stop hk)
  cases h
  exact ⟨(Bool.not_eq_false _).mp hscanning, _, rfl⟩

/-- The planner proposes a report, or a scan, only when it is ready for it. -/
theorem plan_ready (u : Unicode) (limits : Option PlannerLimits) (campaign : Campaign) (graph : ObservationGraph) :
    ∀ actions ∈ plan u limits campaign graph, ∀ a ∈ actions,
      (a.kind = .report → ReportReady campaign graph) ∧ (a.kind = .scan → ScanReady campaign graph) := by
  intro actions hplan a ha
  refine ⟨fun hk => ?_, fun hk => ?_⟩
  · obtain ⟨-, host, rfl⟩ := plan_cases hplan (by decide) ⟨a, ha, hk⟩
    exact planObserved_report ⟨a, ha, hk⟩
  · obtain ⟨hscanning, host, rfl⟩ := plan_cases hplan (by decide) ⟨a, ha, hk⟩
    obtain ⟨hendpoints, hnone⟩ := planObserved_scan ⟨a, ha, hk⟩
    exact ⟨hscanning, hendpoints, hnone⟩

/-! ## A campaign that is ready for its report -/

def sampleCampaign : Campaign := ⟨"https://api.example.com/", true, [⟨"f1", .confirmed⟩]⟩

/-- A finding of the scanner, its validation by another source, and the evidence of it. -/
def sampleGraph : ObservationGraph :=
  ((ObservationGraph.empty.put ⟨"finding:f1", "finding", "sqli", "scanner", [], []⟩).put
    ⟨"validation:f1", "validation", "observed", "validator", ["finding:f1"], []⟩).put
    ⟨"evidence:f1", "evidence", "response", "validator", ["validation:f1"], [("artifact_kind", .str "http_evidence")]⟩

theorem plan_sample : plan ExecutionContract.sampleUnicode (some ⟨5000, 1500, 250, by decide, by decide, by decide⟩) sampleCampaign
    sampleGraph = some [⟨.report, some "api.example.com", "confirmed findings are independently validated", 70⟩] := by
  decide +kernel

theorem plan_ready_sample : ReportReady sampleCampaign sampleGraph :=
  (plan_ready _ _ _ _ _ plan_sample _ (List.mem_singleton.mpr rfl)).1 rfl

end AdaptivePlanner

end XbowPerso
