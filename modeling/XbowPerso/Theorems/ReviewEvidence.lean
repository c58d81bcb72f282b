import XbowPerso.ReviewEvidence
import XbowPerso.Theorems.ContractRate

/-!
# Review credit is decided twice

The hypothesis engine credits a record by its type, its exact status and its lineage; the predicate of the other consumers folds the status
and reads the outcome. Both have a description without the code, and they agree on a record exactly if the two descriptions do.
-/

namespace XbowPerso

namespace ReviewEvidence

open PyText (stripChars)

variable {u : Unicode} {graph : ObservationGraph} {scopeChecker : Option (String → Bool)} {evidence : Observation}

/-! ## The two decisions -/

theorem isCompletedReviewEvidence_iff :
    isCompletedReviewEvidence u evidence = true ↔ Typed evidence ∧ FoldedStatus u evidence ∧ OutcomeAgrees u evidence := by
  unfold isCompletedReviewEvidence Typed FoldedStatus OutcomeAgrees
  cases evidence.metadataGet "review_type" with
  | str reviewType =>
    by_cases hblank : PyText.strip reviewType = ""
    · simp [hblank]
    · cases evidence.metadataGet "status" with
      | str status =>
        by_cases hstatus : folded u status ∈ completedReviewStates
        · cases evidence.metadataGet "outcome" <;> simp [hblank, hstatus]
        · simp [hblank, hstatus]
      | _ => simp [hblank]
  | _ => simp

theorem all_parents_iff {ids : List String} {parentKind : ObservationKind} :
    (ids.all fun id => (graph.items.get? id).any fun o => o.kind = parentKind.word) = true ↔
      ∀ id ∈ ids, ∃ o, graph.items.get? id = some o ∧ o.kind = parentKind.word := by
  simp only [List.all_eq_true, Option.any_eq_true, decide_eq_true_eq]

theorem credit_eq_some_iff {kind : String} :
    credit u graph scopeChecker evidence = .ok (some kind) ↔
      evidence.metadataGet "review_type" = .str kind ∧ Linked u graph scopeChecker evidence ∧ PlainStatus evidence := by
  constructor
  · intro h
    unfold credit at h
    split at h
    case h_2 => cases h
    case h_1 kind' status hkind hstatus =>
      split at h
      case h_1 => cases h
      case h_2 parentKind hparent =>
        by_cases hplain : status ∈ completedReviewStates
        · rw [if_neg (not_not_intro hplain)] at h
          by_cases hids : evidence.parentIds = []
          · rw [if_pos hids] at h
            cases h
          · rw [if_neg hids] at h
            split at h
            case h_1 => cases h
            case h_2 => cases h
            case h_3 hscope =>
              split at h
              case isTrue hall =>
                cases h
                exact ⟨hkind, ⟨kind, parentKind, hkind, hparent, hids, hscope, all_parents_iff.mp hall⟩, status, hplain, hstatus⟩
              case isFalse => cases h
        · rw [if_pos hplain] at h
          cases h
  · rintro ⟨hkind, ⟨kind', parentKind, hkind', hparent, hids, hscope, hall⟩, status, hplain, hstatus⟩
    cases hkind.symm.trans hkind'
    rw [credit, hkind, hstatus]
    dsimp only
    rw [hparent]
    dsimp only
    rw [if_neg (not_not_intro hplain), if_neg hids, hscope]
    dsimp only
    rw [if_pos (all_parents_iff.mpr hall)]

theorem credited_iff : Credited u graph scopeChecker evidence ↔ Linked u graph scopeChecker evidence ∧ PlainStatus evidence := by
  constructor
  · rintro ⟨kind, hkind⟩
    exact (credit_eq_some_iff.mp hkind).2
  · rintro ⟨hlinked, hplain⟩
    obtain ⟨kind, parentKind, hkind, hrest⟩ := hlinked
    exact ⟨kind, credit_eq_some_iff.mpr ⟨hkind, ⟨kind, parentKind, hkind, hrest⟩, hplain⟩⟩

/-! ## What the engine checks and the predicate does too -/

theorem reviewParentKind?_mem {kind : String} {parentKind : ObservationKind} (h : reviewParentKind? kind = some parentKind) :
    (kind, parentKind) ∈ reviewParentKinds := by
  rw [reviewParentKind?, Option.map_eq_some_iff] at h
  obtain ⟨entry, hfind, rfl⟩ := h
  have hkey := List.find?_some hfind
  rw [decide_eq_true_eq] at hkey
  rw [← hkey]
  exact List.mem_of_find?_eq_some hfind

/-- No type of the engine is blank. -/
theorem strip_reviewParentKinds : ∀ entry ∈ reviewParentKinds, PyText.strip entry.1 ≠ "" := by decide +kernel

theorem Linked.typed (h : Linked u graph scopeChecker evidence) : Typed evidence := by
  obtain ⟨kind, parentKind, hkind, hparent, _⟩ := h
  have hmem := reviewParentKind?_mem hparent
  have hblank := strip_reviewParentKinds (kind, parentKind) hmem
  exact ⟨kind, hkind, hblank⟩

theorem folded_of_ascii {text : String} (hstrip : stripChars text.toList = text.toList) (hascii : ∀ c ∈ text.toList, c.toNat < 128)
    (hlower : text.toList.map Char.toLower = text.toList) : folded u text = text := by
  rw [folded, hstrip, u.lower_ascii hascii, hlower, String.ofList_toList]

/-- A text without blanks around it, of ASCII characters in lower case. -/
def isPlain (text : String) : Bool :=
  decide (stripChars text.toList = text.toList) && (text.toList.all fun c => decide (c.toNat < 128)) &&
    decide (text.toList.map Char.toLower = text.toList)

theorem folded_of_isPlain {text : String} (h : isPlain text = true) : folded u text = text := by
  rw [isPlain, Bool.and_eq_true, Bool.and_eq_true, decide_eq_true_eq, decide_eq_true_eq, List.all_eq_true] at h
  obtain ⟨⟨hstrip, hascii⟩, hlower⟩ := h
  exact folded_of_ascii hstrip (fun c hc => of_decide_eq_true (hascii c hc)) hlower

theorem isPlain_states : completedReviewStates.all isPlain = true := by decide +kernel

theorem PlainStatus.folded (h : PlainStatus evidence) : FoldedStatus u evidence := by
  obtain ⟨status, hmem, hstatus⟩ := h
  exact ⟨status, hstatus, by rwa [folded_of_isPlain (List.all_eq_true.mp isPlain_states status hmem)]⟩

/-! ## When they agree -/

/-- The engine and the predicate agree on a record exactly if its outcome does not contradict what the engine credits, and the engine can
attribute what the predicate accepts. -/
theorem credited_iff_completed_iff (u : Unicode) (graph : ObservationGraph) (scopeChecker : Option (String → Bool))
    (evidence : Observation) :
    (Credited u graph scopeChecker evidence ↔ isCompletedReviewEvidence u evidence = true) ↔
      (Linked u graph scopeChecker evidence → PlainStatus evidence → OutcomeAgrees u evidence) ∧
        (Typed evidence → FoldedStatus u evidence → OutcomeAgrees u evidence →
          Linked u graph scopeChecker evidence ∧ PlainStatus evidence) := by
  rw [credited_iff, isCompletedReviewEvidence_iff]
  constructor
  · intro h
    exact ⟨fun hlinked hplain => (h.mp ⟨hlinked, hplain⟩).2.2, fun htyped hstatus houtcome => h.mpr ⟨htyped, hstatus, houtcome⟩⟩
  · rintro ⟨houtcome, hback⟩
    exact ⟨fun h => ⟨h.1.typed, h.2.folded, houtcome h.1 h.2⟩, fun h => hback h.1 h.2.1 h.2.2⟩

/-- An endpoint, and a review of it that is completed with the outcome `failed`. -/
def reviewedEndpoint : Observation := ⟨"endpoint-1", "endpoint", "https://example.com/search?q=1", "crawler", [], []⟩

def failedReview : Observation :=
  ⟨"review-1", "evidence", "review", "reviewer", ["endpoint-1"],
    [("review_type", .str "input_surface_review"), ("status", .str "completed"), ("outcome", .str "failed")]⟩

def failedReviewGraph : ObservationGraph := (ObservationGraph.empty.put reviewedEndpoint).put failedReview

theorem failedReview_credited :
    credit ExecutionContract.sampleUnicode failedReviewGraph none failedReview = .ok (some "input_surface_review") := rfl

theorem failedReview_rejected : isCompletedReviewEvidence ExecutionContract.sampleUnicode failedReview = false := by decide +kernel

/-- The engine closes the gap of a review that failed. -/
theorem failed_review_credited : ¬ ∀ (u : Unicode) (graph : ObservationGraph) (scopeChecker : Option (String → Bool))
    (evidence : Observation), evidence ∈ graph.byKind .evidence →
      (Credited u graph scopeChecker evidence ↔ isCompletedReviewEvidence u evidence = true) := by
  intro h
  have hmem : failedReview ∈ failedReviewGraph.byKind .evidence := List.mem_filter.mpr ⟨List.mem_cons_of_mem _ List.mem_cons_self, rfl⟩
  have haccepted := (h ExecutionContract.sampleUnicode failedReviewGraph none failedReview hmem).mp ⟨_, failedReview_credited⟩
  rw [failedReview_rejected] at haccepted
  cases haccepted

/-! ## What the consumers credit -/

theorem mem_creditAll {records : List Observation} {reviewed : List (String × String)}
    (h : creditAll u graph scopeChecker records = .ok reviewed) {kind id : String} :
    (kind, id) ∈ reviewed ↔ ∃ e ∈ records, credit u graph scopeChecker e = .ok (some kind) ∧ id ∈ e.parentIds := by
  induction records generalizing reviewed with
  | nil =>
    cases h
    simp
  | cons e records ih =>
    rw [creditAll] at h
    cases hcredit : credit u graph scopeChecker e with
    | error err =>
      rw [hcredit] at h
      cases h
    | ok credited =>
      cases hrest : creditAll u graph scopeChecker records with
      | error err =>
        rw [hcredit, hrest] at h
        cases h
      | ok rest =>
        rw [hcredit, hrest] at h
        cases h
        rw [List.mem_append, ih hrest]
        cases credited <;> simp [hcredit, eq_comm, and_comm]

theorem mem_reviewedParents {types eligible : List String} {records : List Observation} {reviewed : List String}
    (h : reviewedParents u types eligible records = .ok reviewed) {id : String} :
    id ∈ reviewed ↔ ∃ e ∈ records, (∃ kind ∈ types, e.metadataGet "review_type" = .str kind) ∧ isCompletedReviewEvidence u e = true ∧
      (∀ parent ∈ e.parentIds, parent ∈ eligible) ∧ id ∈ e.parentIds := by
  induction records generalizing reviewed with
  | nil =>
    cases h
    simp
  | cons e records ih =>
    rw [reviewedParents] at h
    cases htyped : inTypes types (e.metadataGet "review_type") with
    | error err =>
      rw [htyped] at h
      cases h
    | ok typed =>
      cases hrest : reviewedParents u types eligible records with
      | error err =>
        rw [htyped, hrest] at h
        cases h
      | ok rest =>
        rw [htyped, hrest] at h
        have htypes : typed = true ↔ ∃ kind ∈ types, e.metadataGet "review_type" = .str kind := by
          unfold inTypes at htyped
          split at htyped <;> cases htyped <;> simp_all
        replace h : (if typed = true ∧ isCompletedReviewEvidence u e = true ∧ e.parentIds ≠ [] ∧ ∀ id ∈ e.parentIds, id ∈ eligible then
          e.parentIds ++ rest else rest) = reviewed := Except.ok.inj h
        have hne : id ∈ e.parentIds → e.parentIds ≠ [] := fun hmem => List.ne_nil_of_mem hmem
        rw [List.exists_mem_cons_iff, ← ih hrest, ← h, ← htypes]
        split
        case isTrue hcond =>
          rw [List.mem_append, and_iff_right hcond.1, and_iff_right hcond.2.1, and_iff_right hcond.2.2.2]
        case isFalse hcond =>
          refine ⟨Or.inr, fun hmem => hmem.resolve_left ?_⟩
          rintro ⟨hkind, hcompleted, heligible, hid⟩
          exact hcond ⟨hkind, hcompleted, hne hid, heligible⟩

/-- Where the engine and the predicate agree on every record, the engine credits the parents of the linked records that the predicate
accepts, under the type of the record. -/
theorem mem_completedReviews_of_agree {reviewed : List (String × String)} (h : completedReviews u graph scopeChecker = .ok reviewed)
    (hagree : ∀ e ∈ graph.byKind .evidence, (Credited u graph scopeChecker e ↔ isCompletedReviewEvidence u e = true)) {kind id : String} :
    (kind, id) ∈ reviewed ↔ ∃ e ∈ graph.byKind .evidence, e.metadataGet "review_type" = .str kind ∧
      isCompletedReviewEvidence u e = true ∧ id ∈ e.parentIds := by
  rw [mem_creditAll h]
  constructor
  · rintro ⟨e, he, hcredit, hid⟩
    exact ⟨e, he, (credit_eq_some_iff.mp hcredit).1, (hagree e he).mp ⟨kind, hcredit⟩, hid⟩
  · rintro ⟨e, he, hkind, hcompleted, hid⟩
    obtain ⟨kind', hcredit⟩ := (hagree e he).mpr hcompleted
    obtain ⟨hkind', hrest⟩ := credit_eq_some_iff.mp hcredit
    exact ⟨e, he, credit_eq_some_iff.mpr ⟨hkind, hrest⟩, hid⟩

end ReviewEvidence

end XbowPerso
