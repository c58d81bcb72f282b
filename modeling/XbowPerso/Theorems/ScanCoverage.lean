import Mathlib.Algebra.BigOperators.Group.List.Lemmas
import Mathlib.Algebra.BigOperators.Ring.List
import XbowPerso.ScanCoverage
import XbowPerso.Theorems.HypothesisEngine

/-!
# Completed scans are accounted for exactly

Every completed scan is credited, a duplicate or untrusted. A job is credited once at most, and only when all of its records were
accepted and agree; the order of the records plays no part.
-/

namespace XbowPerso

namespace ScanCoverage

open AttackSurface (Surface buildAttackSurface)
open ExecutionContract (sortedSet)

variable {py : Python} {graph graph' : ObservationGraph} {surface : Option Surface}

/-! ## Counting -/

theorem total_cons (records : List Observation) (jobs : List (List Observation)) :
    total (records :: jobs) = records.length + total jobs := by
  rw [total, List.map_cons, List.sum_cons, total]

theorem total_split (p : List Observation → Bool) (jobs : List (List Observation)) :
    total (jobs.filter p) + total (jobs.filter fun records => !p records) = total jobs := by
  induction jobs with
  | nil => rfl
  | cons records jobs ih =>
    rw [List.filter_cons, List.filter_cons, total_cons]
    cases p records <;> simp [total_cons] <;> omega

theorem total_filter_le {p q : List Observation → Bool} (h : ∀ records, p records = true → q records = true)
    (jobs : List (List Observation)) : total (jobs.filter p) ≤ total (jobs.filter q) := by
  induction jobs with
  | nil => exact Nat.le_refl _
  | cons records jobs ih =>
    rw [List.filter_cons, List.filter_cons]
    cases hp : p records with
    | true =>
      rw [if_pos rfl, if_pos (h records hp), total_cons, total_cons]
      omega
    | false =>
      rw [if_neg Bool.false_ne_true]
      split
      · rw [total_cons]
        omega
      · exact ih

/-- The records of all jobs are those that were kept. -/
theorem total_jobsOf (kept : List (String × Observation)) : total (jobsOf kept) = kept.length := by
  have hcount := List.sum_map_count_dedup_eq_length (kept.map (·.1))
  have hperm : (sortedSet (kept.map (·.1))).Perm (kept.map (·.1)).dedup := List.perm_insertionSort _ _
  have hsum := (hperm.map fun identity => (kept.map (·.1)).count identity).sum_eq
  rw [hcount, List.length_map] at hsum
  have hfilter : ∀ identity, ((kept.filter fun entry => decide (entry.1 = identity)).map (·.2)).length = (kept.map (·.1)).count identity := by
    intro identity
    rw [List.length_map, List.count, List.countP_map, List.countP_eq_length_filter]
    rfl
  rw [total, jobsOf, List.map_map]
  simp only [Function.comp_def, hfilter]
  exact hsum

/-! ## Classes -/

variable {classified : List (Observation × Class)}

/-- The records with their classes. -/
theorem classified_spec
    (h : (completedScans graph).mapM (fun o => (classify py graph surface o).map fun c => (o, c)) = .ok classified) :
    classified.length = (completedScans graph).length ∧
      (∀ entry ∈ classified, entry.1 ∈ completedScans graph ∧ classify py graph surface entry.1 = .ok entry.2) ∧
      ∀ o ∈ completedScans graph, ∃ c, (o, c) ∈ classified := by
  have hpairs := PairedLists.forall₂_of_mapM h
  have hclass : ∀ o entry, ((classify py graph surface o).map fun c => (o, c)) = .ok entry →
      entry.1 = o ∧ classify py graph surface o = .ok entry.2 := by
    intro o entry hentry
    cases hc : classify py graph surface o with
    | error e =>
      rw [hc] at hentry
      cases hentry
    | ok c =>
      rw [hc] at hentry
      cases hentry
      exact ⟨rfl, rfl⟩
  refine ⟨hpairs.length_eq.symm, fun entry hentry => ?_, fun o ho => ?_⟩
  · obtain ⟨o, ho, hval⟩ := PairedLists.forall₂_right hpairs hentry
    obtain ⟨heq, hc⟩ := hclass o entry hval
    rw [heq]
    exact ⟨ho, hc⟩
  · obtain ⟨entry, hentry, hval⟩ := PairedLists.forall₂_left hpairs ho
    obtain ⟨heq, -⟩ := hclass o entry hval
    exact ⟨entry.2, heq ▸ hentry⟩

variable {o : Observation}

variable {identity : String}

theorem mem_keptOf :
    (identity, o) ∈ keptOf classified ↔
      (o, Class.accepted identity) ∈ classified ∧ ∀ other, (other, Class.tainted identity) ∉ classified := by
  rw [keptOf, List.mem_filter, List.mem_filterMap, decide_eq_true_eq, List.mem_filterMap]
  constructor
  · rintro ⟨⟨⟨x, c⟩, hmem, hsome⟩, hnot⟩
    cases c with
    | accepted i =>
      cases hsome
      exact ⟨hmem, fun other hother => hnot ⟨_, hother, rfl⟩⟩
    | tainted i => cases hsome
    | untrusted => cases hsome
  · rintro ⟨hmem, hnot⟩
    refine ⟨⟨_, hmem, rfl⟩, ?_⟩
    rintro ⟨⟨x, c⟩, hx, hsome⟩
    cases c with
    | tainted i =>
      cases hsome
      exact hnot x hx
    | accepted i => cases hsome
    | untrusted => cases hsome

theorem length_keptOf_le (classified : List (Observation × Class)) : (keptOf classified).length ≤ classified.length :=
  (List.length_filter_le _ _).trans (List.length_filterMap_le _ _)

/-- A record of a job is accepted under the job or taints it, unless the terminal records of the job conflict. -/
theorem classify_of_job {job : String} {c : Class} (hjob : jobOf py o = some job)
    (h : classify py graph surface o = .ok c) : (conflictingTerminal py graph job = true ∧ c = .untrusted) ∨
      (conflictingTerminal py graph job = false ∧ (c = .accepted (jobIdentity job) ∨ c = .tainted (jobIdentity job))) := by
  rw [classify, hjob] at h
  dsimp only at h
  split at h
  · rename_i hconflict
    cases h
    exact .inl ⟨hconflict, rfl⟩
  · rename_i hconflict
    cases hsound : sound py graph surface o with
    | error e =>
      rw [hsound] at h
      cases h
    | ok answer =>
      rw [hsound] at h
      cases h
      refine .inr ⟨Bool.eq_false_iff.mpr hconflict, ?_⟩
      cases answer
      · exact .inr rfl
      · exact .inl rfl

/-! ## Jobs -/

variable {records : List Observation}

variable {kept : List (String × Observation)}

theorem mem_jobsOf (h : records ∈ jobsOf kept) :
    ∃ identity, identity ∈ kept.map (·.1) ∧ records = (kept.filter fun entry => decide (entry.1 = identity)).map (·.2) := by
  obtain ⟨identity, hidentity, rfl⟩ := List.mem_map.mp h
  exact ⟨identity, FirstOfSet.mem_sorted.mp hidentity, rfl⟩

theorem mem_records :
    o ∈ (kept.filter fun entry => decide (entry.1 = identity)).map (·.2) ↔ (identity, o) ∈ kept := by
  rw [List.mem_map]
  constructor
  · rintro ⟨⟨i, x⟩, hmem, rfl⟩
    obtain ⟨hkept, hi⟩ := List.mem_filter.mp hmem
    have heq : i = identity := of_decide_eq_true hi
    rw [← heq]
    exact hkept
  · exact fun h => ⟨_, List.mem_filter.mpr ⟨h, decide_eq_true rfl⟩, rfl⟩

theorem mem_of_representative? (h : representative? records = some o) : o ∈ records :=
  SortByKey.mem_sortByKey.mp (List.mem_of_mem_head? h)

/-- A record states a count of findings. -/
def States (o : Observation) (n : Nat) : Prop :=
  ∃ value, o.metadata.find? (fun field => decide (field.1 = "findings")) = some ("findings", value) ∧ count? value = some n

theorem mem_counts {n : Nat} (ho : o ∈ records) (h : States o n) :
    n ∈ (reportedFindings records).filterMap count? := by
  obtain ⟨value, hfind, hcount⟩ := h
  refine List.mem_filterMap.mpr ⟨value, List.mem_filterMap.mpr ⟨o, ho, ?_⟩, hcount⟩
  rw [hfind]
  rfl

/-- The records of a credited job agree. -/
theorem agree_of_credited (h : judge py graph records = .credited) {a b : Observation} (ha : a ∈ records)
    (hb : b ∈ records) : PyText.strip a.source = PyText.strip b.source ∧ ∀ m n, States a m → States b n → m = n := by
  unfold judge at h
  dsimp only at h
  split at h
  · cases h
  rename_i hsources
  split at h
  · cases h
  rename_i hcounts
  rw [not_or, not_not] at hsources
  rw [not_or, not_or] at hcounts
  constructor
  · obtain ⟨source, hsource⟩ := Finset.card_eq_one.mp hsources.1
    have hmem : ∀ x ∈ records, PyText.strip x.source = source := by
      intro x hx
      have hx' : PyText.strip x.source ∈ (records.map fun o => PyText.strip o.source).toFinset :=
        List.mem_toFinset.mpr (List.mem_map.mpr ⟨x, hx, rfl⟩)
      rw [hsource] at hx'
      exact Finset.mem_singleton.mp hx'
    rw [hmem a ha, hmem b hb]
  · intro m n hm hn
    exact Finset.card_le_one.mp (not_lt.mp hcounts.2.1) m (List.mem_toFinset.mpr (mem_counts ha hm)) n
      (List.mem_toFinset.mpr (mem_counts hb hn))

/-! ## The same records in another order -/

theorem ancestors_of_perm (h : graph'.values.Perm graph.values) {accept accept' : Observation → Bool} (haccept : accept' = accept)
    (pending seen : List String) (found : List Observation) :
    ancestors graph' accept' pending seen found = ancestors graph accept pending seen found := by
  subst haccept
  have hget := HypothesisEngine.get?_of_perm h
  induction pending, seen, found using ScanCoverage.ancestors.induct graph accept' with
  | case1 seen found => rw [ancestors, ancestors]
  | case2 id pending seen found hseen ih => rw [ancestors, ancestors, dif_pos hseen, dif_pos hseen, ih]
  | case3 id pending seen found hseen hnone =>
    rw [ancestors, ancestors, dif_neg hseen, dif_neg hseen]
    split <;> rename_i hget' <;> rw [hget, hnone] at hget' <;> cases hget'
    split <;> rename_i hget'' <;> rw [hnone] at hget'' <;> cases hget''
  | case4 id pending seen found hseen parent hsome haccept =>
    rw [ancestors, ancestors, dif_neg hseen, dif_neg hseen]
    split <;> rename_i hget' <;> rw [hget, hsome] at hget' <;> cases hget'
    rw [if_pos haccept]
    split <;> rename_i hget'' <;> rw [hsome] at hget'' <;> cases hget''
    rw [if_pos haccept]
  | case5 id pending seen found hseen parent hsome haccept hasset ih =>
    rw [ancestors, ancestors, dif_neg hseen, dif_neg hseen]
    split <;> rename_i hget' <;> rw [hget, hsome] at hget' <;> cases hget'
    rw [if_neg haccept, if_pos hasset]
    split <;> rename_i hget'' <;> rw [hsome] at hget'' <;> cases hget''
    rw [if_neg haccept, if_pos hasset]
    exact ih
  | case6 id pending seen found hseen parent hsome haccept hasset ih =>
    rw [ancestors, ancestors, dif_neg hseen, dif_neg hseen]
    split <;> rename_i hget' <;> rw [hget, hsome] at hget' <;> cases hget'
    rw [if_neg haccept, if_neg hasset]
    split <;> rename_i hget'' <;> rw [hsome] at hget'' <;> cases hget''
    rw [if_neg haccept, if_neg hasset]
    exact ih

theorem ancestorsOf_of_perm (h : graph'.values.Perm graph.values) {accept accept' : Observation → Bool} (haccept : accept' = accept)
    (o : Observation) : ancestorsOf graph' accept' o = ancestorsOf graph accept o :=
  ancestors_of_perm h haccept _ _ _

theorem assetValue?_of_perm (h : graph'.values.Perm graph.values) : assetValue? graph' = assetValue? graph := by
  funext id
  rw [assetValue?, assetValue?, HypothesisEngine.get?_of_perm h]

theorem linkedLineageIds_of_perm (h : graph'.values.Perm graph.values) : linkedLineageIds graph' = linkedLineageIds graph := by
  funext o
  rw [linkedLineageIds, linkedLineageIds, ancestorsOf_of_perm h rfl]

theorem conflictingTerminal_of_perm (h : graph'.values.Perm graph.values) (job : String) :
    conflictingTerminal py graph' job = conflictingTerminal py graph job := by
  unfold conflictingTerminal
  simp only [(HypothesisEngine.byKind_perm h .evidence).any_eq]

/-- Two surfaces with the same rows. -/
structure SameRows (surface' surface : Surface) : Prop where
  assets : surface'.assets.Perm surface.assets
  endpoints : surface'.endpoints.Perm surface.endpoints
  forms : surface'.forms.Perm surface.forms

variable {a b : Surface}

theorem approvedAsset_of_same (h : SameRows a b) : approvedAsset a = approvedAsset b := by
  funext id
  exact h.assets.any_eq

theorem endpointOrigins_of_perm (h : graph'.values.Perm graph.values) (row : AttackSurface.EndpointItem) :
    endpointHasConsistentAssetOrigins py graph' row = endpointHasConsistentAssetOrigins py graph row := by
  unfold endpointHasConsistentAssetOrigins assetSupports assetParentIds
  rw [assetValue?_of_perm h, HypothesisEngine.get?_of_perm h]

theorem approvedEndpoint_of_same (h : graph'.values.Perm graph.values) (hsame : SameRows a b) :
    approvedEndpoint py graph' a = approvedEndpoint py graph b := by
  funext id
  unfold approvedEndpoint
  simp only [endpointOrigins_of_perm h]
  exact hsame.endpoints.any_eq

theorem approvedForm_of_same (h : graph'.values.Perm graph.values) (hsame : SameRows a b) :
    approvedForm py graph' a = approvedForm py graph b := by
  have hform : ∀ item, formHasConsistentAssetOrigins py graph' a item = formHasConsistentAssetOrigins py graph b item := by
    intro item
    unfold formHasConsistentAssetOrigins
    rw [HypothesisEngine.get?_of_perm h]
    have hof : ofOrigin py graph' a = ofOrigin py graph b := by
      funext origin parent
      unfold ofOrigin assetSupports
      rw [assetValue?_of_perm h, approvedEndpoint_of_same h hsame]
    simp only [hof, ancestorsOf_of_perm h rfl]
  funext id
  unfold approvedForm
  simp only [hform]
  exact hsame.forms.any_eq

theorem onlyAssetApproved_of_not (surface : Surface) {l : List Observation} (h : ∀ asset, l ≠ [asset]) :
    onlyAssetApproved surface l = false := by
  unfold onlyAssetApproved
  split
  · exact absurd rfl (h _)
  rfl

theorem onlyAssetApproved_perm {l l' : List Observation} (hsame : SameRows a b) (h : l'.Perm l) :
    onlyAssetApproved a l' = onlyAssetApproved b l := by
  by_cases hone : ∃ asset, l = [asset]
  · obtain ⟨asset, rfl⟩ := hone
    rw [List.perm_singleton.mp h, onlyAssetApproved, onlyAssetApproved, approvedAsset_of_same hsame]
  · rw [onlyAssetApproved_of_not a, onlyAssetApproved_of_not b]
    · exact fun asset hasset => hone ⟨asset, hasset⟩
    · intro asset hasset
      rw [hasset] at h
      exact hone ⟨asset, List.perm_singleton.mp h.symm⟩

theorem trustworthyLineage_of_same (h : graph'.values.Perm graph.values) (hsame : SameRows a b) (o : Observation) :
    trustworthyLineage py graph' (some a) o = trustworthyLineage py graph (some b) o := by
  unfold trustworthyLineage
  simp only [approvedAsset_of_same hsame, approvedEndpoint_of_same h hsame, approvedForm_of_same h hsame, ancestorsOf_of_perm h rfl]
  rw [onlyAssetApproved_perm hsame (HypothesisEngine.byKind_perm h .asset)]

variable {surface' : Option Surface}

theorem sound_of_trustworthy
    (h : ∀ o, trustworthyLineage py graph' surface' o = trustworthyLineage py graph surface o) (o : Observation) :
    sound py graph' surface' o = sound py graph surface o := by
  rw [sound, sound, h]

theorem classify_of_same (h : graph'.values.Perm graph.values)
    (htrust : ∀ o, trustworthyLineage py graph' surface' o = trustworthyLineage py graph surface o) (o : Observation) :
    classify py graph' surface' o = classify py graph surface o := by
  unfold classify
  simp only [conflictingTerminal_of_perm h, sound_of_trustworthy htrust]

theorem unionAll_perm {sets sets' : List (Finset String)} (h : sets'.Perm sets) : unionAll sets' = unionAll sets := by
  unfold unionAll
  refine h.foldr_eq' (fun a _ b _ c => ?_) _
  rw [← Finset.union_assoc, ← Finset.union_assoc, Finset.union_comm a b]

theorem matched_of_perm (h : graph'.values.Perm graph.values) (assets endpoints : Finset String) :
    matchedFindingCount graph' assets endpoints = matchedFindingCount graph assets endpoints := by
  unfold matchedFindingCount
  rw [linkedLineageIds_of_perm h]
  exact (HypothesisEngine.byKind_perm h .finding).countP_eq _

/-- The records of a job are judged alike in every order. -/
theorem judge_of_perm (h : graph'.values.Perm graph.values) {records' : List Observation} (hperm : records'.Perm records) :
    judge py graph' records' = judge py graph records := by
  have hreported : (reportedFindings records').Perm (reportedFindings records) := hperm.filterMap _
  have hcounts := hreported.filterMap count?
  have hclaim : claimOf py graph' = claimOf py graph := by
    funext id
    rw [claimOf, claimOf, assetValue?_of_perm h]
  unfold judge
  simp only [linkedLineageIds_of_perm h, matched_of_perm h, hclaim]
  rw [List.toFinset_eq_of_perm _ _ (hperm.map fun o => PyText.strip o.source), hreported.any_eq,
    unionAll_perm (hperm.map fun o => (linkedLineageIds graph o).1), unionAll_perm (hperm.map fun o => (linkedLineageIds graph o).2),
    List.toFinset_eq_of_perm _ _ (hperm.map fun o => (linkedLineageIds graph o).2), hperm.any_eq, hcounts.any_eq, hcounts.any_eq,
    List.toFinset_eq_of_perm _ _ hcounts]

/-- The jobs of the same records in another order: job by job, the same records in another order. -/
theorem jobsOf_perm {kept' : List (String × Observation)} (h : kept'.Perm kept) :
    List.Forall₂ List.Perm (jobsOf kept') (jobsOf kept) := by
  have hids : sortedSet (kept'.map (·.1)) = sortedSet (kept.map (·.1)) :=
    FirstOfSet.eq_of_mem_iff (FirstOfSet.pairwise_sorted _) (FirstOfSet.pairwise_sorted _) fun a =>
      FirstOfSet.mem_sorted.trans ((h.map (·.1)).mem_iff.trans FirstOfSet.mem_sorted.symm)
  rw [jobsOf, jobsOf, hids, List.forall₂_map_left_iff, List.forall₂_map_right_iff]
  exact List.forall₂_same.mpr fun identity _ => (h.filter _).map _

variable {jobs : List (List Observation)}

variable {jobs' : List (List Observation)}

theorem filter_perm (h : List.Forall₂ List.Perm jobs' jobs) {p p' : List Observation → Bool}
    (hp : ∀ records' records, records'.Perm records → p' records' = p records) :
    List.Forall₂ List.Perm (jobs'.filter p') (jobs.filter p) := by
  induction h with
  | nil => exact .nil
  | @cons records' records _ _ hrecords _ ih =>
    rw [List.filter_cons, List.filter_cons, hp _ _ hrecords]
    split
    · exact .cons hrecords ih
    · exact ih

theorem total_perm (h : List.Forall₂ List.Perm jobs' jobs) : total jobs' = total jobs := by
  induction h with
  | nil => rfl
  | cons hrecords _ ih => rw [total_cons, total_cons, hrecords.length_eq, ih]

/-- Records are distinguished by their identifiers. -/
def Identified (records : List Observation) : Prop := ∀ a ∈ records, ∀ b ∈ records, a.id = b.id → a = b

theorem representatives_perm (h : List.Forall₂ List.Perm jobs' jobs)
    (hidentified : ∀ records ∈ jobs, Identified records) : jobs'.filterMap representative? = jobs.filterMap representative? := by
  induction h with
  | nil => rfl
  | @cons records' records jobs' jobs hrecords _ ih =>
    have hsame : representative? records' = representative? records := by
      rw [representative?, representative?,
        SortByKey.sortByKey_eq_of_perm (hidentified records List.mem_cons_self) hrecords.symm]
    rw [List.filterMap_cons, List.filterMap_cons, hsame, ih fun x hx => hidentified x (List.mem_cons_of_mem _ hx)]

theorem keptOf_perm {classified' : List (Observation × Class)} (h : classified'.Perm classified) :
    (keptOf classified').Perm (keptOf classified) := by
  rw [keptOf, keptOf]
  have htainted : (fun entry : String × Observation => decide (entry.1 ∉ classified'.filterMap fun other => other.2.tainted?)) =
      fun entry => decide (entry.1 ∉ classified.filterMap fun other => other.2.tainted?) := by
    funext entry
    rw [decide_eq_decide, (h.filterMap _).mem_iff]
  rw [htainted]
  exact (h.filterMap _).filter _

/-- The same classes in another order are accounted for alike. -/
theorem account_perm (h : graph'.values.Perm graph.values) {classified' : List (Observation × Class)}
    (hperm : classified'.Perm classified) (hidentified : Identified (classified.map (·.1))) :
    account py graph' classified' = account py graph classified := by
  have hkept := keptOf_perm hperm
  have hjobs := jobsOf_perm hkept
  have hjudge : ∀ records' records : List Observation, records'.Perm records → judge py graph' records' = judge py graph records :=
    fun _ _ hrecords => judge_of_perm h hrecords
  have hfilter : ∀ p : Judgement → Bool, List.Forall₂ List.Perm ((jobsOf (keptOf classified')).filter fun records => p (judge py graph' records))
      ((jobsOf (keptOf classified)).filter fun records => p (judge py graph records)) :=
    fun p => filter_perm hjobs fun _ _ hrecords => by rw [hjudge _ _ hrecords]
  have hrecords : ∀ records ∈ (jobsOf (keptOf classified)).filter fun records => decide (judge py graph records = .credited),
      Identified records := by
    intro records hmem a ha b hb
    obtain ⟨identity, -, rfl⟩ := mem_jobsOf (List.mem_of_mem_filter hmem)
    have hin : ∀ x, (identity, x) ∈ keptOf classified → x ∈ classified.map (·.1) := fun x hx =>
      List.mem_map.mpr ⟨_, (mem_keptOf.mp hx).1, rfl⟩
    exact hidentified a (hin a (mem_records.mp ha)) b (hin b (mem_records.mp hb))
  have hreps := representatives_perm (hfilter fun j => decide (j = .credited)) hrecords
  unfold account
  dsimp only
  rw [hreps, total_perm (hfilter fun j => decide (j = .credited)), total_perm (hfilter fun j => decide (j ≠ .credited)),
    total_perm (hfilter fun j => decide (j = .unreconciled)), hperm.length_eq, hkept.length_eq]

/-! ## The surface of the same observations -/

theorem find?_perm {l l' : List (String × Text)} (h : l'.Perm l) (hkey : ∀ a ∈ l, ∀ b ∈ l, a.1 = b.1 → a = b) (p : String) :
    (l'.find? fun entry => decide (entry.1 = p)) = l.find? fun entry => decide (entry.1 = p) := by
  have hspec : ∀ m : List (String × Text), (∀ a ∈ m, ∀ b ∈ m, a.1 = b.1 → a = b) → ∀ e,
      (m.find? fun entry => decide (entry.1 = p)) = some e ↔ e ∈ m ∧ e.1 = p := by
    intro m hm e
    constructor
    · exact fun hfind => ⟨List.mem_of_find?_eq_some hfind, by simpa using List.find?_some hfind⟩
    · rintro ⟨hmem, he⟩
      cases hfind : m.find? fun entry => decide (entry.1 = p) with
      | none => exact absurd (List.find?_eq_none.mp hfind e hmem) (by simp [he])
      | some x =>
        have hx : x.1 = p := by simpa using List.find?_some hfind
        rw [hm x (List.mem_of_find?_eq_some hfind) e hmem (hx.trans he.symm)]
  have hkey' : ∀ a ∈ l', ∀ b ∈ l', a.1 = b.1 → a = b := fun a ha b hb => hkey a (h.mem_iff.mp ha) b (h.mem_iff.mp hb)
  refine Option.ext fun e => ?_
  rw [hspec l' hkey', hspec l hkey, h.mem_iff]

theorem parentHosts_of_perm (u : Unicode) (h : graph'.values.Perm graph.values) (o : Observation) :
    AttackSurface.parentHosts u graph' o = AttackSurface.parentHosts u graph o := by
  unfold AttackSurface.parentHosts AttackSurface.assetHosts
  have hkey : ∀ a ∈ (graph.byKind .asset).map (fun o => (o.id, AttackSurface.canonicalHost u o.value)),
      ∀ b ∈ (graph.byKind .asset).map (fun o => (o.id, AttackSurface.canonicalHost u o.value)), a.1 = b.1 → a = b := by
    intro a ha b hb hab
    obtain ⟨x, hx, rfl⟩ := List.mem_map.mp ha
    obtain ⟨y, hy, rfl⟩ := List.mem_map.mp hb
    have hgetx := ObservationGraph.mem_values.mp (List.mem_of_mem_filter hx)
    have hgety := ObservationGraph.mem_values.mp (List.mem_of_mem_filter hy)
    have hid : x.id = y.id := hab
    rw [hid, hgety] at hgetx
    rw [Option.some.inj hgetx]
  simp only [find?_perm ((HypothesisEngine.byKind_perm h .asset).map _) hkey]

theorem mapM_some_perm {α β : Type} {f : α → Option β} {l l' : List α} {out : List β} (h : l'.Perm l) (hout : l.mapM f = some out) :
    ∃ out', l'.mapM f = some out' ∧ out'.Perm out := by
  obtain ⟨out', hpairs, hperm⟩ := List.perm_comp_forall₂ h (mapM_eq_some_iff.mp hout)
  exact ⟨out', mapM_eq_some_iff.mpr hpairs, hperm⟩

/-- The same observations give a surface with the same rows. -/
theorem buildAttackSurface_perm {u : Unicode} {checker : Text → Option Bool} {surface : Surface} (h : graph'.values.Perm graph.values)
    (hbuild : buildAttackSurface u checker graph = some surface) :
    ∃ surface', buildAttackSurface u checker graph' = some surface' ∧ SameRows surface' surface := by
  unfold buildAttackSurface at hbuild ⊢
  have hendpoint : AttackSurface.endpointItem u checker graph' = AttackSurface.endpointItem u checker graph := by
    funext o
    unfold AttackSurface.endpointItem
    rw [parentHosts_of_perm u h]
  rw [hendpoint]
  split at hbuild
  · rename_i assets endpoints forms hassets hendpoints hforms
    cases hbuild
    obtain ⟨assets', hassets', hpa⟩ := mapM_some_perm (HypothesisEngine.byKind_perm h .asset) hassets
    obtain ⟨endpoints', hendpoints', hpe⟩ := mapM_some_perm (HypothesisEngine.byKind_perm h .endpoint) hendpoints
    obtain ⟨forms', hforms', hpf⟩ := mapM_some_perm (HypothesisEngine.byKind_perm h .form) hforms
    rw [hassets', hendpoints', hforms']
    exact ⟨_, rfl, hpa, hpe, hpf⟩
  · cases hbuild

/-! ## The accounting -/

variable {result : Accounting}

/-- The classes that an accounting is made from. -/
theorem completed_eq_ok (h : completedScansWithProvenance py graph surface = .ok result) :
    ∃ classified, (completedScans graph).mapM (fun o => (classify py graph surface o).map fun c => (o, c)) = .ok classified ∧
      result = account py graph classified := by
  unfold completedScansWithProvenance at h
  cases hclassified : (completedScans graph).mapM fun o => (classify py graph surface o).map fun c => (o, c) with
  | error e =>
    rw [hclassified] at h
    cases h
  | ok classified =>
    rw [hclassified] at h
    cases h
    exact ⟨classified, rfl, rfl⟩

theorem completedScans_perm (h : graph'.values.Perm graph.values) : (completedScans graph').Perm (completedScans graph) :=
  (HypothesisEngine.byKind_perm h .evidence).filter _

theorem completed_perm (h : graph'.values.Perm graph.values)
    (htrust : ∀ o, trustworthyLineage py graph' surface' o = trustworthyLineage py graph surface o)
    (hresult : completedScansWithProvenance py graph surface = .ok result) :
    completedScansWithProvenance py graph' surface' = .ok result := by
  obtain ⟨classified, hclassified, rfl⟩ := completed_eq_ok hresult
  have hclass : (fun o => (classify py graph' surface' o).map fun c => (o, c)) = fun o => (classify py graph surface o).map fun c => (o, c) := by
    funext o
    rw [classify_of_same h htrust]
  obtain ⟨classified', hclassified', hperm⟩ := PairedLists.mapM_perm (completedScans_perm h) hclassified
  have hidentified : Identified (classified.map (·.1)) := by
    have hin : ∀ x ∈ classified.map (·.1), graph.items.get? x.id = some x := by
      intro x hx
      obtain ⟨entry, hentry, rfl⟩ := List.mem_map.mp hx
      have hmem := ((classified_spec hclassified).2.1 entry hentry).1
      exact ObservationGraph.mem_values.mp (List.mem_of_mem_filter (List.mem_of_mem_filter hmem))
    intro a ha b hb hid
    have hget := hin a ha
    rw [hid, hin b hb] at hget
    exact (Option.some.inj hget).symm
  unfold completedScansWithProvenance
  rw [hclass, hclassified']
  exact congrArg Except.ok (account_perm h hperm hidentified)

theorem scanAccounting_perm {scopeChecker : Option (Text → Option Bool)} (h : graph'.values.Perm graph.values)
    (hresult : scanAccounting py graph scopeChecker = .ok result) : scanAccounting py graph' scopeChecker = .ok result := by
  cases scopeChecker with
  | none => exact completed_perm h (fun _ => rfl) hresult
  | some checker =>
    rw [scanAccounting] at hresult ⊢
    split at hresult
    · cases hresult
    rename_i surface hsurface
    obtain ⟨surface', hsurface', hsame⟩ := buildAttackSurface_perm h hsurface
    rw [hsurface']
    exact completed_perm h (trustworthyLineage_of_same h hsame) hresult

theorem exists_completed {scopeChecker : Option (Text → Option Bool)}
    (h : scanAccounting py graph scopeChecker = .ok result) :
    ∃ surface, completedScansWithProvenance py graph surface = .ok result := by
  cases scopeChecker with
  | none => exact ⟨none, h⟩
  | some checker =>
    rw [scanAccounting] at h
    split at h
    · cases h
    exact ⟨_, h⟩

theorem length_representatives_le (h : ∀ records ∈ jobs, records ≠ []) :
    (jobs.filterMap representative?).length ≤ total jobs := by
  induction jobs with
  | nil => exact Nat.le_refl _
  | cons records jobs ih =>
    have hpos := List.length_pos_iff.mpr (h records List.mem_cons_self)
    have hrest := ih fun x hx => h x (List.mem_cons_of_mem _ hx)
    rw [total_cons, List.filterMap_cons]
    split
    · omega
    · rw [List.length_cons]
      omega

/-- A representative is of a credited job. -/
theorem representative_spec {r : Observation}
    (h : r ∈ (account py graph classified).representatives) :
    ∃ identity, (identity, r) ∈ keptOf classified ∧
      judge py graph (((keptOf classified).filter fun entry => decide (entry.1 = identity)).map (·.2)) = .credited := by
  obtain ⟨records, hrecords, hrep⟩ := List.mem_filterMap.mp h
  obtain ⟨hjob, hcredited⟩ := List.mem_filter.mp hrecords
  obtain ⟨identity, -, rfl⟩ := mem_jobsOf hjob
  exact ⟨identity, mem_records.mp (mem_of_representative? hrep), of_decide_eq_true hcredited⟩

theorem identity_of_job
    (hclassified : (completedScans graph).mapM (fun o => (classify py graph surface o).map fun c => (o, c)) = .ok classified)
    {job : String} (hkept : (identity, o) ∈ keptOf classified) (hjob : jobOf py o = some job) :
    identity = jobIdentity job ∧ conflictingTerminal py graph job = false := by
  have hclass := ((classified_spec hclassified).2.1 _ (mem_keptOf.mp hkept).1).2
  rcases classify_of_job hjob hclass with ⟨-, hc⟩ | ⟨hconflict, hc | hc⟩
  · cases hc
  · cases hc
    exact ⟨rfl, hconflict⟩
  · cases hc

/-- The representatives are of distinct jobs. -/
theorem representatives_apart
    (hclassified : (completedScans graph).mapM (fun o => (classify py graph surface o).map fun c => (o, c)) = .ok classified) :
    (account py graph classified).representatives.Pairwise fun a b => ∀ job, jobOf py a = some job → jobOf py b ≠ some job := by
  have hids : (sortedSet ((keptOf classified).map (·.1))).Pairwise (· < ·) := FirstOfSet.pairwise_sorted _
  have hjobs : (jobsOf (keptOf classified)).Pairwise fun records records' =>
      ∀ a ∈ records, ∀ b ∈ records', ∀ job, jobOf py a = some job → jobOf py b ≠ some job := by
    rw [jobsOf, List.pairwise_map]
    refine hids.imp fun hlt a ha b hb job hjob hjob' => ?_
    have ha' := (identity_of_job hclassified (mem_records.mp ha) hjob).1
    have hb' := (identity_of_job hclassified (mem_records.mp hb) hjob').1
    rw [ha', hb'] at hlt
    exact absurd hlt (lt_irrefl _)
  show ((((jobsOf (keptOf classified)).filter _).filterMap representative?)).Pairwise _
  refine List.pairwise_filterMap.mpr ((hjobs.sublist List.filter_sublist).imp fun h a ha b hb => ?_)
  exact h a (mem_of_representative? ha) b (mem_of_representative? hb)

/-- The records agree on their source and on the findings that they count. -/
def Agree (a b : Observation) : Prop := PyText.strip a.source = PyText.strip b.source ∧ ∀ m n, States a m → States b n → m = n

def samplePython : Python := ⟨ExecutionContract.sampleUnicode, fun c => decide (32 ≤ c.toNat), fun _ => .ok none, fun _ => 0⟩

/-- A completed scan of one job, by the engine that it names. -/
def sampleScan (id engine : String) : Observation :=
  ⟨id, "evidence", "completed", "worker", [],
    [("phase", .str "scan"), ("status", .str "completed"), ("findings", .int 0), ("job_id", .str "job-1"), ("engine", .str engine)]⟩

def sampleGraph : ObservationGraph := (ObservationGraph.empty.put (sampleScan "scan-1" "strix")).put (sampleScan "scan-2" "nuclei")

example : sampleGraph.values.length = 2 := by decide +kernel

theorem linkedLineageIds_root (h : o.parentIds = []) : linkedLineageIds graph o = (∅, ∅) := by
  rw [linkedLineageIds, ancestorsOf, h, List.reverse_nil, ancestors]
  rfl

theorem judge_sample : judge samplePython sampleGraph [sampleScan "scan-1" "strix", sampleScan "scan-2" "nuclei"] = .credited := by
  have hroot : ∀ id engine, linkedLineageIds sampleGraph (sampleScan id engine) = (∅, ∅) := fun _ _ => linkedLineageIds_root rfl
  unfold judge
  simp only [List.map_cons, List.map_nil, List.any_cons, List.any_nil, hroot]
  decide +kernel

theorem completed_sample : completedScansWithProvenance samplePython sampleGraph none = .ok (account samplePython sampleGraph
    [(sampleScan "scan-1" "strix", .accepted "job:job-1"), (sampleScan "scan-2" "nuclei", .accepted "job:job-1")]) := by
  rfl

theorem jobs_sample : jobsOf (keptOf [(sampleScan "scan-1" "strix", .accepted "job:job-1"),
    (sampleScan "scan-2" "nuclei", .accepted "job:job-1")]) = [[sampleScan "scan-1" "strix", sampleScan "scan-2" "nuclei"]] := by
  rfl

/-- Both records of the job are accepted and one of them stands for it. -/
theorem scanAccounting_sample : ∃ result, scanAccounting samplePython sampleGraph none = .ok result ∧
    result.representatives = [sampleScan "scan-1" "strix"] := by
  refine ⟨_, completed_sample, ?_⟩
  unfold account
  dsimp only
  rw [jobs_sample, List.filter_cons_of_pos (by rw [judge_sample]; rfl), List.filter_nil]
  rfl

end ScanCoverage

end XbowPerso
