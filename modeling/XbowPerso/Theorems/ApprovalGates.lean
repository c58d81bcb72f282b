import XbowPerso.ReportReview
import XbowPerso.Theorems.ContractRate
import XbowPerso.Theorems.FindingEvidence
import XbowPerso.Theorems.HackerOneSubmission

/-!
# The gates before an approval

An approval should come only on a campaign that is not cancelled and whose confirmed findings are ready. Each router asks for one of the
two: through the router for approvals the findings may be anything, through the one for submissions the campaign may be cancelled.
-/

namespace XbowPerso

namespace ReportReview

open AuditSeal ReportApproval ReportReadiness
open FindingResolution (sampleFindingId sampleValidationId sampleEvidenceId)

variable {env : ReviewEnv} {secret : ResolvedSecret} {s s' : Desk} {artifactId reviewer time : String}

/-! ## What is asked for -/

/-- Nothing keeps a finding from its review. -/
def ReviewReady (env : ReviewEnv) (s : Desk) (finding : AuditEntry) : Prop :=
  ∃ graph rows, loadObservationGraph s.observations = .ok graph ∧ buildReportReadiness env s.campaign.findings graph = .ok rows ∧
    ∀ row ∈ rows, row.findingId = textOf finding "id" → row.confirmed = true → row.blockers = []

/-- Every confirmed finding is ready. -/
def AllReady (env : ReviewEnv) (s : Desk) : Prop := ∀ finding ∈ confirmedFindings s.campaign, ReviewReady env s finding

/-- The document may get an approval. -/
def Gated (env : ReviewEnv) (s : Desk) : Prop := s.campaign.cancelled = false ∧ AllReady env s

/-- Every approval of a run is saved with a document that may get it. -/
def GatedRun (env : ReviewEnv) (secret : ResolvedSecret) : Desk → List Request → Prop
  | _, [] => True
  | s, request :: l =>
    (∀ event, Approves s (step env secret s request) event → Gated env (step env secret s request)) ∧
      GatedRun env secret (step env secret s request) l

/-- What the router of an approval does not ask for. -/
def Meets (env : ReviewEnv) (s : Desk) : Request → Prop
  | .approve .approval _ _ _ => AllReady env s
  | .approve .submission _ _ _ => s.campaign.cancelled = false
  | _ => True

/-- Every request of a run comes when what its router does not ask for holds. -/
def MeetsRun (env : ReviewEnv) (secret : ResolvedSecret) : Desk → List Request → Prop
  | _, [] => True
  | s, request :: l => Meets env s request ∧ MeetsRun env secret (step env secret s request) l

/-- Readiness, computed. -/
def isReviewReady (env : ReviewEnv) (s : Desk) (finding : AuditEntry) : Bool :=
  match loadObservationGraph s.observations with
  | .error _ => false
  | .ok graph =>
    match buildReportReadiness env s.campaign.findings graph with
    | .error _ => false
    | .ok rows => rows.all fun row => !(decide (row.findingId = textOf finding "id") && row.confirmed) || row.blockers.isEmpty

theorem isReviewReady_iff {finding : AuditEntry} : isReviewReady env s finding = true ↔ ReviewReady env s finding := by
  have hrow : ∀ row : ReportReadiness,
      (!(decide (row.findingId = textOf finding "id") && row.confirmed) || row.blockers.isEmpty) = true ↔
        (row.findingId = textOf finding "id" → row.confirmed = true → row.blockers = []) := by
    intro row
    rw [Bool.or_eq_true, Bool.not_eq_true', Bool.and_eq_false_iff, decide_eq_false_iff_not, List.isEmpty_iff, Bool.eq_false_iff]
    tauto
  unfold isReviewReady ReviewReady
  cases loadObservationGraph s.observations with
  | error e => simp
  | ok graph =>
    dsimp only
    cases hrows : buildReportReadiness env s.campaign.findings graph with
    | error e => simp [hrows]
    | ok rows =>
      dsimp only
      rw [List.all_eq_true]
      constructor
      · intro h
        exact ⟨graph, rows, rfl, hrows, fun row hmem => (hrow row).mp (h row hmem)⟩
      · rintro ⟨graph', rows', hgraph, hbuild, hall⟩
        cases hgraph
        rw [hrows] at hbuild
        cases hbuild
        exact fun row hmem => (hrow row).mpr (hall row hmem)

instance (env : ReviewEnv) (s : Desk) (finding : AuditEntry) : Decidable (ReviewReady env s finding) :=
  decidable_of_iff _ isReviewReady_iff

instance (env : ReviewEnv) (s : Desk) : Decidable (AllReady env s) :=
  inferInstanceAs (Decidable (∀ finding ∈ confirmedFindings s.campaign, ReviewReady env s finding))

instance (env : ReviewEnv) (s : Desk) : Decidable (Gated env s) := inferInstanceAs (Decidable (_ ∧ _))

/-! ## What the check of the readiness says -/

variable {graph : ObservationGraph}

/-- Findings of one identifier and one confirmation have one row. -/
theorem ofFinding_congr {duplicates : List String} {a b : AuditEntry} (hid : textOf a "id" = textOf b "id")
    (hstatus : hasText a "status" "confirmed" = hasText b "status" "confirmed") :
    ofFinding graph duplicates a = ofFinding graph duplicates b := by
  unfold ofFinding
  rw [hid, hstatus]

variable {row : ReportReadiness}

theorem confirmed_of_blockers (h : row.blockers = []) : row.confirmed = true := by
  unfold blockers at h
  simp only [List.append_eq_nil_iff] at h
  by_contra hnot
  rw [if_neg hnot] at h
  exact absurd h.1.1.1.1 (List.cons_ne_nil _ _)

variable {rows : List ReportReadiness}

theorem mem_of_rowOf {findingId : String} (h : rowOf rows findingId = some row) :
    row ∈ rows ∧ row.findingId = findingId :=
  ⟨List.mem_reverse.mp (List.mem_of_find?_eq_some h), by simpa using List.find?_some h⟩

/-- The rows of a readiness are those of its findings. -/
theorem mem_buildReportReadiness {findings : List AuditEntry}
    (h : buildReportReadiness env findings graph = .ok rows) :
    ∃ duplicates, ∀ row ∈ rows, ∃ finding ∈ findings, row = ofFinding graph duplicates finding := by
  unfold buildReportReadiness at h
  split at h
  · cases h
  rename_i groups hgroups
  rw [← Except.ok.inj h]
  refine ⟨duplicateIds groups, fun row hrow => ?_⟩
  rw [List.mem_insertionSort] at hrow
  obtain ⟨finding, hfinding, rfl⟩ := List.mem_map.mp hrow
  exact ⟨finding, hfinding, rfl⟩

/-- A finding without blockers is ready, also where another one has its identifier. -/
theorem blockers_of_ready {findings : List AuditEntry}
    (h : buildReportReadiness env findings graph = .ok rows) {findingId : String}
    (hrow : rowOf rows findingId = some row) (hready : row.blockers = []) {other : ReportReadiness} (hother : other ∈ rows)
    (hid : other.findingId = findingId) (hconfirmed : other.confirmed = true) : other.blockers = [] := by
  obtain ⟨duplicates, hall⟩ := mem_buildReportReadiness h
  obtain ⟨hmem, hrowid⟩ := mem_of_rowOf hrow
  obtain ⟨a, -, rfl⟩ := hall row hmem
  obtain ⟨b, -, rfl⟩ := hall other hother
  have hsame : ofFinding graph duplicates b = ofFinding graph duplicates a :=
    ofFinding_congr (hid.trans hrowid.symm) (hconfirmed.trans (confirmed_of_blockers hready).symm)
  rw [hsame, hready]

theorem allReady_of_assert (h : assertReportReviewReady env s.campaign s.observations = .ok ()) : AllReady env s := by
  unfold assertReportReviewReady at h
  split at h
  · cases h
  split at h
  · cases h
  rename_i graph hgraph
  split at h
  · cases h
  rename_i rows hrows
  dsimp only at h
  split at h
  · rename_i hblocked
    intro finding hfinding
    refine ⟨graph, rows, hgraph, hrows, fun row hrow hid hconfirmed => ?_⟩
    have hany := List.filter_eq_nil_iff.mp hblocked finding hfinding
    rw [Bool.not_eq_true, Bool.not_eq_false'] at hany
    obtain ⟨found, hfound, hready⟩ := (Option.any_eq_true _ _).mp hany
    exact blockers_of_ready hrows hfound (List.isEmpty_iff.mp hready) hrow hid hconfirmed
  · cases h

/-! ## What a request does -/

/-- An event of a type was appended, and nothing else but the version changed. -/
structure Recorded (s s' : Desk) (type : String) : Prop where
  cancelled : s'.campaign.cancelled = s.campaign.cancelled
  findings : s'.campaign.findings = s.campaign.findings
  observations : s'.observations = s.observations
  events : ∃ event, event.get "type" = .str type ∧ s'.campaign.events = s.campaign.events ++ [event]

variable {event : AuditEntry} {type : String}

theorem recorded_of_append (hevent : event.get "type" = .str type)
    (h : s.append env secret event = .ok s') : Recorded s s' type := by
  unfold Desk.append at h
  split at h
  · cases h
  rename_i sealedEvent hsealed
  rw [← Except.ok.inj h]
  refine ⟨rfl, rfl, rfl, sealedEvent, ?_, rfl⟩
  rw [CampaignAudit.sameFields_seal hsealed "type" (by decide)]
  exact hevent

theorem type_approvalEvent {campaign : Campaign} {artifact : Artifact}
    (h : approvalEvent env.audit campaign artifact reviewer time = .ok event) : event.get "type" = .str "report_approved" := by
  unfold approvalEvent at h
  split at h
  · cases h
  split at h
  · cases h
  rw [← Except.ok.inj h]
  exact get_textEntry (by simp) (by simp)

theorem type_revocationEvent (h : revocationEvent artifactId reviewer time = .ok event) :
    event.get "type" = .str "report_approval_revoked" := by
  unfold revocationEvent at h
  split at h
  · cases h
  rw [← Except.ok.inj h]
  exact get_textEntry (by simp) (by simp)

theorem type_approvalEventFromStorage
    (h : approvalEventFromStorage env s artifactId reviewer time = .ok event) : event.get "type" = .str "report_approved" := by
  unfold approvalEventFromStorage at h
  split at h
  · cases h
  split at h
  · cases h
  rename_i event' hevent
  rw [← Except.ok.inj h]
  exact type_approvalEvent hevent

/-- The router for approvals asks that the campaign is not cancelled. -/
theorem approval_cases (h : ApprovalApi.approveReport env secret s artifactId reviewer time = .ok s') :
    s' = s ∨ (s.campaign.cancelled = false ∧ Recorded s s' "report_approved") := by
  unfold ApprovalApi.approveReport at h
  split at h
  · cases h
  split at h
  · cases h
  rename_i hcancelled
  split at h
  · cases h
  split at h
  · exact Or.inl (Except.ok.inj h).symm
  · split at h
    · cases h
    rename_i event hevent
    exact Or.inr ⟨by simpa using hcancelled, recorded_of_append (type_approvalEventFromStorage hevent) h⟩

/-- The router for submissions asks that the confirmed findings are ready. -/
theorem submission_cases (h : SubmissionApi.approveReport env secret s artifactId reviewer time = .ok s') :
    s' = s ∨ (AllReady env s ∧ Recorded s s' "report_approved") := by
  unfold SubmissionApi.approveReport at h
  split at h
  · cases h
  split at h
  · cases h
  rename_i hassert
  split at h
  · cases h
  split at h
  · cases h
  split at h
  · exact Or.inl (Except.ok.inj h).symm
  · split at h
    · cases h
    rename_i event hevent
    exact Or.inr ⟨allReady_of_assert hassert, recorded_of_append (type_approvalEventFromStorage hevent) h⟩

/-- Neither router approves anything when it revokes. -/
theorem revoke_cases {router : Router} (h : handle env secret s (.revoke router artifactId reviewer time) = .ok s') :
    s' = s ∨ Recorded s s' "report_approval_revoked" := by
  cases router with
  | approval =>
    rw [handle] at h
    unfold ApprovalApi.revokeReportApproval at h
    split at h
    · cases h
    split at h
    · cases h
    split at h
    · cases h
    split at h
    · split at h
      · cases h
      rename_i event hevent
      exact Or.inr (recorded_of_append (type_revocationEvent hevent) h)
    · cases h
  | submission =>
    rw [handle] at h
    unfold SubmissionApi.revokeReportApproval at h
    split at h
    · cases h
    split at h
    · cases h
    split at h
    · exact Or.inl (Except.ok.inj h).symm
    · split at h
      · cases h
      rename_i event hevent
      exact Or.inr (recorded_of_append (type_revocationEvent hevent) h)

/-! ## Approvals -/

theorem not_approves_self : ¬ Approves s s event := by
  intro h
  have hmem := h.1
  rw [List.drop_length] at hmem
  cases hmem

theorem Recorded.approves_iff (h : Recorded s s' type) :
    (∃ event, Approves s s' event) ↔ type = "report_approved" := by
  obtain ⟨added, htype, hevents⟩ := h.events
  have hdrop : s'.campaign.events.drop s.campaign.events.length = [added] := by rw [hevents, List.drop_left]
  constructor
  · rintro ⟨event, hmem, happroved⟩
    rw [hdrop] at hmem
    rw [List.mem_singleton.mp hmem, hasText_iff, htype] at happroved
    exact Json.str.inj happroved
  · rintro rfl
    exact ⟨added, hdrop ▸ List.mem_singleton.mpr rfl, hasText_iff.mpr htype⟩

theorem Recorded.allReady_iff (h : Recorded s s' type) : AllReady env s' ↔ AllReady env s := by
  unfold AllReady ReviewReady confirmedFindings
  rw [h.findings, h.observations]

theorem Recorded.gated_iff (h : Recorded s s' type) : Gated env s' ↔ Gated env s := by
  unfold Gated
  rw [h.cancelled, h.allReady_iff]

/-- An approval may be given exactly when what its router does not ask for holds. -/
theorem gated_iff_meets {request : Request} (hadmissible : Admissible request)
    (happroves : Approves s (step env secret s request) event) :
    Gated env (step env secret s request) ↔ Meets env s request := by
  unfold step at happroves ⊢
  cases hhandle : handle env secret s request with
  | error r =>
    rw [hhandle] at happroves
    exact absurd happroves not_approves_self
  | ok s' =>
    rw [hhandle] at happroves
    dsimp only at happroves ⊢
    cases request with
    | approve router artifactId reviewer time =>
      cases router with
      | approval =>
        rcases approval_cases hhandle with rfl | ⟨hcancelled, hrecorded⟩
        · exact absurd happroves not_approves_self
        · rw [hrecorded.gated_iff]
          exact ⟨fun h => h.2, fun h => ⟨hcancelled, h⟩⟩
      | submission =>
        rcases submission_cases hhandle with rfl | ⟨hready, hrecorded⟩
        · exact absurd happroves not_approves_self
        · rw [hrecorded.gated_iff]
          exact ⟨fun h => h.1, fun h => ⟨h, hready⟩⟩
    | revoke router artifactId reviewer time =>
      rcases revoke_cases hhandle with rfl | hrecorded
      · exact absurd happroves not_approves_self
      · exact absurd (hrecorded.approves_iff.mp ⟨event, happroves⟩) (by decide)
    | other after appended =>
      rw [← Except.ok.inj hhandle] at happroves
      obtain ⟨hmem, htype⟩ := happroves
      dsimp only at hmem
      rw [List.drop_left] at hmem
      rw [hadmissible event hmem] at htype
      cases htype

/-- The approvals of a run come on documents that may get them as long as the requests come when what their routers do not ask for
holds: that the confirmed findings are ready through the router for approvals, that the campaign is not cancelled through the one for
submissions. -/
theorem approvals_gated (env : ReviewEnv) (secret : ResolvedSecret) :
    (∀ s l, (∀ request ∈ l, Admissible request) → MeetsRun env secret s l → GatedRun env secret s l) ∧
      ∀ s request event, Admissible request → Approves s (step env secret s request) event →
        (Gated env (step env secret s request) ↔ Meets env s request) := by
  refine ⟨fun s l hadmissible hmeets => ?_, fun s request event hadmissible happroves => gated_iff_meets hadmissible happroves⟩
  induction l generalizing s with
  | nil => trivial
  | cons request l ih =>
    have hrequest := hadmissible request (List.mem_cons_self ..)
    refine ⟨fun event happroves => (gated_iff_meets hrequest happroves).mpr hmeets.1, ?_⟩
    exact ih _ (fun r hr => hadmissible r (List.mem_cons_of_mem _ hr)) hmeets.2

/-! ## Samples -/

def sampleReview : ReviewEnv :=
  ⟨CampaignAudit.sampleEnv, ExecutionContract.sampleUnicode, fun s => String.ofList (s.toList.map Char.toUpper), fun _ => "Invalid URL"⟩

/-- A finding as a scanner reports it, with the texts of its review. -/
def sampleFinding (id status : String) : AuditEntry :=
  textEntry [("id", id), ("title", "SQL injection"), ("severity", "high"), ("asset", "https://example.com/"),
    ("endpoint", "https://example.com/login"), ("cwe", "CWE-89"), ("impact", "data is read"), ("status", status)]

theorem sampleFinding_texts (id status : String) : ∀ key ∈ findingTexts, ∃ s, (sampleFinding id status).get key = .str s := by
  intro key hkey
  simp only [findingTexts, List.mem_cons, List.not_mem_nil, or_false] at hkey
  rcases hkey with rfl | rfl | rfl | rfl
  · exact ⟨"SQL injection", get_textEntry (by simp) (by simp)⟩
  · exact ⟨"high", get_textEntry (by simp) (by simp)⟩
  · exact ⟨status, get_textEntry (by simp) (by simp)⟩
  · exact ⟨"data is read", get_textEntry (by simp) (by simp)⟩

/-- Findings of some identifiers and statuses. -/
def sampleFindings (l : List (String × String)) : List AuditEntry := l.map fun f => sampleFinding f.1 f.2

theorem sampleFindings_texts (l : List (String × String)) :
    ∀ finding ∈ sampleFindings l, ∀ key ∈ findingTexts, ∃ s, finding.get key = .str s := by
  intro finding hfinding
  obtain ⟨f, -, rfl⟩ := List.mem_map.mp hfinding
  exact sampleFinding_texts f.1 f.2

/-- A campaign with these findings. -/
def sampleDocument (cancelled : Bool) (findings : List (String × String)) : Campaign where
  cancelled := cancelled
  primaryUrl := "https://example.com/"
  authorizationReference := "contract"
  allowedTargets := ["example.com"]
  deniedTargets := []
  findings := sampleFindings findings
  events := []
  findings_texts := sampleFindings_texts findings

def sampleAsset : Ident := ⟨"asset", by decide, by decide, by decide, by decide⟩

/-- The chain of a finding that a validation with evidence has observed. -/
def sampleChain : List ObservationRow :=
  [⟨sampleAsset, .asset, "https://example.com/", "nuclei", [], []⟩,
    ⟨sampleFindingId, .finding, "finding", "nuclei", [sampleAsset], []⟩,
    ⟨sampleValidationId, .validation, "observed", "independent-http-validator", [sampleFindingId], []⟩,
    ⟨sampleEvidenceId, .evidence, "http", "independent-http-validator", [sampleValidationId], []⟩]

/-- A desk with the chain of one finding and the report of an empty file. -/
def sampleDesk (cancelled : Bool) (findings : List (String × String)) : Desk :=
  ⟨0, sampleDocument cancelled findings, sampleChain, HackerOneSubmission.sampleStore, fun _ => some []⟩

/-- A confirmed finding, and another one that may be the same. -/
def duplicateDesk : Desk := sampleDesk false [("finding", "confirmed"), ("finding-2", "validation_required")]

def readyDesk (cancelled : Bool) : Desk := sampleDesk cancelled [("finding", "confirmed")]

def approveThrough (router : Router) : Request := .approve router "report" "alice" "10:00"

def sampleRequests : List Request := [approveThrough .submission, .revoke .approval "report" "bob" "10:01", approveThrough .approval]

theorem admissible_sampleRequests : ∀ request ∈ sampleRequests, Admissible request := by
  intro request hrequest
  simp only [sampleRequests, approveThrough, List.mem_cons, List.not_mem_nil, or_false] at hrequest
  rcases hrequest with rfl | rfl | rfl <;> trivial

/-- The finding is ready still when the second approval is asked for. -/
theorem ready_sample :
    AllReady sampleReview (steps sampleReview (.ok none) (readyDesk false)
      [approveThrough .submission, .revoke .approval "report" "bob" "10:01"]) := by decide +kernel

theorem approvals_gated_sample :
    (steps sampleReview (.ok none) (readyDesk false) sampleRequests).campaign.events.length = 3 ∧
      GatedRun sampleReview (.ok none) (readyDesk false) sampleRequests :=
  ⟨by decide +kernel,
    (approvals_gated sampleReview (.ok none)).1 _ _ admissible_sampleRequests ⟨rfl, trivial, ready_sample, trivial⟩⟩

/-- Two approvals and a revocation. -/
example : sampleRequests.length = 3 := by decide +kernel

/-- Some approval is among the new events. -/
theorem approves_of_any
    (h : (s'.campaign.events.drop s.campaign.events.length).any (fun event => hasText event "type" "report_approved") = true) :
    ∃ event, Approves s s' event := by
  obtain ⟨event, hmem, htype⟩ := List.any_eq_true.mp h
  exact ⟨event, hmem, htype⟩

/-- A finding that may be a duplicate is approved through one router, and the report of a cancelled campaign through the other. -/
theorem approval_without_gate :
    ¬ GatedRun sampleReview (.ok none) duplicateDesk [approveThrough .approval] ∧
      ¬ GatedRun sampleReview (.ok none) (readyDesk true) [approveThrough .submission] := by
  constructor
  · intro h
    obtain ⟨event, happroves⟩ : ∃ event,
        Approves duplicateDesk (step sampleReview (.ok none) duplicateDesk (approveThrough .approval)) event :=
      approves_of_any (by decide +kernel)
    exact absurd (h.1 event happroves) (by decide +kernel)
  · intro h
    obtain ⟨event, happroves⟩ : ∃ event,
        Approves (readyDesk true) (step sampleReview (.ok none) (readyDesk true) (approveThrough .submission)) event :=
      approves_of_any (by decide +kernel)
    exact absurd (h.1 event happroves) (by decide +kernel)

end ReportReview

end XbowPerso
