import XbowPerso.Lemmas.AuditSeal
import XbowPerso.Lib.EventLog
import XbowPerso.ReportApproval

/-!
# What an approval covers

Sealing an event keeps what the event says. An approval that counts names the artifact's digest and the basis digest of the campaign, and
equal basis texts have the same confirmed findings.
-/

namespace XbowPerso

namespace ReportApproval

open AuditSeal

variable {env : AuditEnv}

variable {event : AuditEntry} {key : String}

theorem hasText_iff {value : String} : hasText event key value = true ↔ event.get key = .str value :=
  ⟨eq_str_of_pyEq, fun h => by unfold hasText; rw [h]; exact pyEq_str value⟩

theorem hasText_eq_decide {s : String} (h : event.get key = .str s) (value : String) :
    hasText event key value = decide (s = value) := by
  rw [Bool.eq_iff_iff, hasText_iff, h, decide_eq_true_iff]
  exact ⟨Json.str.inj, congrArg _⟩

theorem isAbout_iff {type artifactId : String} :
    isAbout type artifactId event = true ↔ event.get "artifact_id" = .str artifactId ∧ event.get "type" = .str type := by
  unfold isAbout
  rw [Bool.and_eq_true, hasText_iff, hasText_iff]

/-- An event has one type. -/
theorem isAbout_type {type type' artifactId artifactId' : String} (h : isAbout type artifactId event = true)
    (h' : isAbout type' artifactId' event = true) : type = type' :=
  Json.str.inj ((isAbout_iff.mp h).2.symm.trans (isAbout_iff.mp h').2)

/-- The fields of an entry are what it was made from. -/
theorem get_foldl_set {α : Type} {g : α → Json} (hg : ∀ x, (g x).Distinct) {fields : List (String × α)} {value : α}
    (hnodup : (fields.map (·.1)).Nodup) (h : (key, value) ∈ fields) :
    (fields.foldl (fun entry f => entry.set f.1 (g f.2) (hg _)) (⟨.empty, distinct_empty⟩ : AuditEntry)).get key = g value := by
  induction fields using List.reverseRecOn with
  | nil => cases h
  | append_singleton fields f ih =>
    rw [List.map_append, List.map_singleton, List.nodup_append] at hnodup
    rw [List.foldl_concat, AuditEntry.get_set]
    rcases List.mem_append.mp h with hmem | hmem
    · rw [if_neg (hnodup.2.2 key (List.mem_map.mpr ⟨_, hmem, rfl⟩) f.1 (List.mem_singleton.mpr rfl))]
      exact ih hnodup.1 hmem
    · rw [← List.mem_singleton.mp hmem, if_pos rfl]

theorem get_textEntry {fields : List (String × String)} {value : String} (hnodup : (fields.map (·.1)).Nodup)
    (h : (key, value) ∈ fields) : (textEntry fields).get key = .str value :=
  get_foldl_set (g := Json.str) distinct_str hnodup h

/-! ## What sealing keeps -/

theorem hasText_of_sameFields {x y : AuditEntry} (h : CampaignAudit.SameFields x y)
    (hkey : key ∉ CampaignAudit.sealFields) (value : String) :
    hasText x key value = hasText y key value := by
  unfold hasText
  rw [h key hkey]

theorem isAbout_of_sameFields {x y : AuditEntry} (h : CampaignAudit.SameFields x y) (type artifactId : String) :
    isAbout type artifactId x = isAbout type artifactId y := by
  unfold isAbout
  rw [hasText_of_sameFields h (by decide), hasText_of_sameFields h (by decide)]

/-! ## The approval that counts -/

/-- The latest approval is the artifact's, names its bytes and the campaign as it is, and no submission was recorded after it. -/
structure Counts (env : AuditEnv) (campaign : Campaign) (artifact : Artifact) (approval : AuditEntry) : Prop where
  latest : (campaign.events.filter (isApprovalEvent artifact.id.text)).getLast? = some approval
  approves : isAbout "report_approved" artifact.id.text approval = true
  sha256 : approval.get "artifact_sha256" = .str artifact.sha256
  basis : approval.get "basis_digest" = .str (reportBasisDigest env campaign artifact)

variable {campaign : Campaign} {artifact : Artifact}

theorem counts_of_approved (h : (approvalStatus env campaign artifact).approved = true) :
    ∃ approval, Counts env campaign artifact approval := by
  unfold approvalStatus at h
  dsimp only at h
  split at h
  · cases h
  rename_i latest hlatest
  split at h
  · cases h
  rename_i hrevoked
  have hkind := (List.mem_filter.mp (List.mem_of_getLast? hlatest)).2
  unfold isApprovalEvent at hkind
  rw [Bool.or_eq_true] at hkind
  have happroves : isAbout "report_approved" artifact.id.text latest = true := by
    refine hkind.resolve_right fun h => hrevoked ?_
    exact hasText_iff.mpr (isAbout_iff.mp h).2
  rw [Bool.not_eq_true', Bool.or_eq_false_iff, Bool.not_eq_false', Bool.not_eq_false'] at h
  exact ⟨latest, hlatest, happroves, hasText_iff.mp h.1, hasText_iff.mp h.2⟩

/-- Where a report is approved and not submitted, its approval counts and no submission follows it. -/
theorem counts_of_status {status : SubmissionStatus}
    (h : submissionStatus env campaign artifact = .ok status) (happroved : (approvalStatus env campaign artifact).approved = true)
    (hstate : status.state ≠ .submitted) :
    ∃ approval before after, Counts env campaign artifact approval ∧ campaign.events = before ++ approval :: after ∧
      ∀ event ∈ after, isAbout "report_submitted" artifact.id.text event = false := by
  obtain ⟨approval, hcounts⟩ := counts_of_approved happroved
  obtain ⟨i, hlast⟩ := EventLog.last_filter hcounts.latest
  obtain ⟨hget, -, -⟩ := EventLog.last_filter_zipIdx hlast
  refine ⟨approval, _, _, hcounts, EventLog.eq_take_append_drop hget, fun event hevent => ?_⟩
  unfold submissionStatus at h
  split at h
  · cases h
  dsimp only at h
  rw [hlast, happroved, if_neg (by decide)] at h
  dsimp only at h
  split at h
  · cases h
    exact absurd rfl hstate
  rename_i hnone
  by_contra hsubmitted
  rw [Bool.not_eq_false] at hsubmitted
  obtain ⟨j, hij, hj⟩ := EventLog.mem_drop_iff.mp hevent
  rw [List.getLast?_eq_none_iff] at hnone
  have hmem : (event, j) ∈ (campaign.events.zipIdx.filter fun e => isAbout "report_submitted" artifact.id.text e.1).filter
      fun e => decide ((i : Int) < e.2) :=
    List.mem_filter.mpr ⟨List.mem_filter.mpr ⟨List.mem_zipIdx_iff_getElem?.mpr hj, hsubmitted⟩,
      decide_eq_true (by dsimp only; omega)⟩
  rw [hnone] at hmem
  cases hmem

/-! ## What the basis covers -/

/-- The digests of two basis texts do not collide. -/
def NoCollision (env : AuditEnv) (campaign campaign' : Campaign) (artifact artifact' : Artifact) : Prop :=
  reportBasisDigest env campaign artifact = reportBasisDigest env campaign' artifact' →
    (basisPayload env campaign artifact).dumpsAscii = (basisPayload env campaign' artifact').dumpsAscii

theorem distinct_texts (l : List String) : (texts l).Distinct := by
  refine (Json.distinctElems_iff _).mpr fun v hv => ?_
  obtain ⟨s, -, rfl⟩ := List.mem_map.mp hv
  trivial

theorem distinct_basisPayload (campaign : Campaign) (artifact : Artifact) : (basisPayload env campaign artifact).Distinct := by
  refine ⟨by simp, (Json.distinctFields_iff _).mpr fun f hf => ?_⟩
  simp only [List.mem_cons, List.not_mem_nil, or_false] at hf
  rcases hf with rfl | rfl | rfl | rfl | rfl | rfl
  · exact ⟨by simp, (Json.distinctFields_iff _).mpr fun f hf => by
      simp only [List.mem_cons, List.not_mem_nil, or_false] at hf
      rcases hf with rfl | rfl | rfl <;> trivial⟩
  · trivial
  · trivial
  · exact distinct_texts _
  · exact distinct_texts _
  · refine (Json.distinctElems_iff _).mpr fun v hv => ?_
    obtain ⟨finding, -, rfl⟩ := List.mem_map.mp hv
    exact ⟨finding.fields.nodup, (Json.distinctFields_iff _).mpr finding.distinct⟩

theorem mem_basisPayload {fields : List (String × Json)}
    (h : basisPayload env campaign artifact = .obj fields) {v : Json} :
    ("confirmed_findings", v) ∈ fields ↔
      v = .arr (((confirmedFindings campaign).insertionSort fun a b => findingKey env a ≤ findingKey env b).map
        fun f => .obj f.fields.entries) := by
  rw [← Json.obj.inj h]
  simp

/-- A dictionary with the same sorted fields has the same texts. -/
theorem get_of_sortKeys_eq {x y : AuditEntry} (h : (Json.obj x.fields.entries).sortKeys = (Json.obj y.fields.entries).sortKeys)
    {s : String} (hx : x.get key = .str s) : y.get key = .str s := by
  have hfield : x.fields.get? key = some (.str s) := by
    unfold AuditEntry.get at hx
    cases hget : x.fields.get? key with
    | none =>
      rw [hget] at hx
      cases hx
    | some v =>
      rw [hget] at hx
      exact congrArg some hx
  rw [Json.sortKeys_obj, Json.sortKeys_obj] at h
  have hmem : (key, (Json.str s).sortKeys) ∈ Json.sortFields (Json.sortKeysFields y.fields.entries) := by
    rw [← Json.obj.inj h]
    exact mem_sortKeys_fields.mpr ⟨_, Dict.mem_entries.mpr hfield, rfl⟩
  obtain ⟨w, hw, hsort⟩ := mem_sortKeys_fields.mp hmem
  unfold AuditEntry.get
  rw [Dict.mem_entries.mp hw, eq_str_of_sortKeys hsort]
  rfl

/-- Where the digests agree and do not collide, the only confirmed finding of one campaign is that of the other, with the same texts. -/
theorem confirmed_of_digest {campaign' : Campaign} {artifact' : Artifact}
    (hno : NoCollision env campaign campaign' artifact artifact')
    (hdigest : reportBasisDigest env campaign artifact = reportBasisDigest env campaign' artifact') {finding : AuditEntry}
    (h : confirmedFindings campaign = [finding]) :
    ∃ finding', confirmedFindings campaign' = [finding'] ∧ ∀ key s, finding.get key = .str s → finding'.get key = .str s := by
  have htext := Json.dumpsSorted_eq_of_dumpsAscii (hno hdigest)
  have hdistinct := @distinct_basisPayload env campaign artifact
  have hdistinct' := @distinct_basisPayload env campaign' artifact'
  obtain ⟨fields, hfields⟩ : ∃ fields, basisPayload env campaign artifact = .obj fields := ⟨_, rfl⟩
  obtain ⟨fields', hfields'⟩ : ∃ fields, basisPayload env campaign' artifact' = .obj fields := ⟨_, rfl⟩
  have hmem := (mem_basisPayload hfields).mpr rfl
  rw [h, List.insertionSort_cons, List.insertionSort_nil] at hmem
  rw [hfields] at htext hdistinct
  rw [hfields'] at htext hdistinct'
  obtain ⟨w, hw, hsort⟩ := field_of_dumpsSorted_eq hdistinct hdistinct' htext hmem
  rw [(mem_basisPayload hfields').mp hw] at hsort
  simp only [Json.sortKeys, Json.sortKeysElems_eq, Json.arr.injEq, List.map_map, List.orderedInsert_nil, List.map_cons, List.map_nil]
    at hsort
  obtain ⟨finding', hsorted, hfinding⟩ := List.map_eq_singleton_iff.mp hsort
  have hperm := List.perm_insertionSort (fun a b => findingKey env a ≤ findingKey env b) (confirmedFindings campaign')
  rw [hsorted] at hperm
  exact ⟨finding', List.perm_singleton.mp hperm.symm, fun key s hget => get_of_sortKeys_eq (by simpa [Json.sortKeys] using hfinding.symm) hget⟩

end ReportApproval

end XbowPerso
