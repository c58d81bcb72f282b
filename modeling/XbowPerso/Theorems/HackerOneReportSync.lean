import Mathlib.Data.List.Chain
import XbowPerso.HackerOneReportSync
import XbowPerso.Lemmas.ReportApproval
import XbowPerso.Theorems.CampaignChain

/-!
# The synchronization records nothing twice

A worker that saves was the last to read the record, so what it found new is new still. An activity is recorded once, a status is recorded
only when it differs from the one before, and a report that was synchronized has nothing new.
-/

namespace XbowPerso

namespace HackerOneReportSync

open AuditSeal (text?)
open CampaignAudit (SameFields)
open ReportApproval (isAbout isAbout_iff isAbout_of_sameFields)

variable {env : AuditEnv} {secret : ResolvedSecret} {submission : Submission} {time artifactId : String}
  {events events' : List AuditEntry}

/-! ## The fields of an event -/

variable {key : String}

/-- The fields of an entry are what it was made from. -/
theorem get_entryOf {fields : List (String × Option String)} {value : Option String} (hnodup : (fields.map (·.1)).Nodup)
    (h : (key, value) ∈ fields) : (entryOf fields).get key = optText value :=
  ReportApproval.get_foldl_set optText_distinct hnodup h

/-- Fields that come later leave those of other keys. -/
theorem get_entryOf_append {fields more : List (String × Option String)} (h : key ∉ more.map (·.1)) :
    (entryOf (fields ++ more)).get key = (entryOf fields).get key := by
  induction more using List.reverseRecOn with
  | nil => rw [List.append_nil]
  | append_singleton more f ih =>
    rw [List.map_append, List.mem_append, not_or] at h
    have hlast : entryOf (fields ++ (more ++ [f])) = (entryOf (fields ++ more)).set f.1 (optText f.2) (optText_distinct _) := by
      unfold entryOf
      rw [← List.append_assoc, List.foldl_concat]
    rw [hlast, AuditEntry.get_set, if_neg (fun heq => h.2 (by rw [heq]; exact List.mem_singleton_self _)), ih h.1]

theorem Status.fields_keys (status : Status) : status.fields.map Prod.fst = fingerprintKeys := by
  unfold Status.fields fingerprintKeys
  rw [List.map_append, status.tracked]
  rfl

/-- What an event of a status says. -/
theorem get_statusEvent (artifactId time : String) (status : Status) :
    (statusEvent artifactId time status).get "type" = .str statusType ∧
      (statusEvent artifactId time status).get "artifact_id" = .str artifactId ∧
      fingerprintOf (statusEvent artifactId time status) = status.fingerprint := by
  have hkeys : (([("type", some statusType)] ++ status.fields ++ [("artifact_id", some artifactId), ("observed_at", some time)]).map
      Prod.fst).Nodup := by
    rw [List.map_append, List.map_append, status.fields_keys]
    have hclosed : (["type"] ++ fingerprintKeys ++ ["artifact_id", "observed_at"]).Nodup := by decide
    exact hclosed
  have htype : (statusEvent artifactId time status).get "type" = optText (some statusType) := get_entryOf hkeys (by simp)
  have hartifact : (statusEvent artifactId time status).get "artifact_id" = optText (some artifactId) := get_entryOf hkeys (by simp)
  refine ⟨htype, hartifact, ?_⟩
  unfold fingerprintOf Status.fingerprint
  rw [← status.fields_keys, List.map_map]
  refine congrArg Json.arr (List.map_congr_left fun f hf => ?_)
  exact get_entryOf hkeys (List.mem_append_left _ (List.mem_append_right _ hf))

theorem get_needsMoreInfoEvent (artifactId remoteReportId time : String) (request : NeedsMoreInfo) :
    (needsMoreInfoEvent artifactId remoteReportId time request).get "type" = .str needsMoreInfoType ∧
      (needsMoreInfoEvent artifactId remoteReportId time request).get "artifact_id" = .str artifactId ∧
      (needsMoreInfoEvent artifactId remoteReportId time request).get "activity_id" = .str request.activityId := by
  have hkeys : ["type", "artifact_id", "remote_report_id", "activity_id", "message", "created_at", "updated_at", "observed_at"].Nodup := by
    decide
  have hget : ∀ key value, (key, value) ∈ [("type", some needsMoreInfoType), ("artifact_id", some artifactId),
      ("remote_report_id", some remoteReportId), ("activity_id", some request.activityId), ("message", some request.message),
      ("created_at", request.createdAt), ("updated_at", request.updatedAt), ("observed_at", some time)] →
      (needsMoreInfoEvent artifactId remoteReportId time request).get key = optText value :=
    fun _ _ hmem => get_entryOf hkeys hmem
  exact ⟨hget _ (some _) (by simp), hget _ (some _) (by simp), hget _ (some _) (by simp)⟩

theorem not_mem_whereSome {other : String} (h : key ≠ other) (value : Option String) : key ∉ (whereSome other value).map (·.1) := by
  cases value <;> simp [whereSome, h]

theorem get_activityEvent (artifactId remoteReportId time : String) (activity : Activity) :
    (activityEvent artifactId remoteReportId time activity).get "type" = .str activityType ∧
      (activityEvent artifactId remoteReportId time activity).get "artifact_id" = .str artifactId ∧
      (activityEvent artifactId remoteReportId time activity).get "activity_id" = .str activity.activityId := by
  have hkeys : ["type", "artifact_id", "remote_report_id", "activity_id", "activity_type", "created_at", "updated_at", "observed_at"].Nodup := by
    decide
  have hget : ∀ key value, key ≠ "message" → key ≠ "bounty_amount" → key ≠ "bonus_amount" → key ≠ "original_report_id" →
      (key, value) ∈ [("type", some activityType), ("artifact_id", some artifactId), ("remote_report_id", some remoteReportId),
        ("activity_id", some activity.activityId), ("activity_type", some activity.activityType), ("created_at", activity.createdAt),
        ("updated_at", activity.updatedAt), ("observed_at", some time)] →
      (activityEvent artifactId remoteReportId time activity).get key = optText value := by
    intro key value hmessage hbounty hbonus horiginal hmem
    unfold activityEvent
    rw [get_entryOf_append (not_mem_whereSome horiginal _), get_entryOf_append (not_mem_whereSome hbonus _),
      get_entryOf_append (not_mem_whereSome hbounty _), get_entryOf_append (not_mem_whereSome hmessage _)]
    exact get_entryOf hkeys hmem
  refine ⟨?_, ?_, ?_⟩
  · exact hget _ (some _) (by decide) (by decide) (by decide) (by decide) (by simp)
  · exact hget _ (some _) (by decide) (by decide) (by decide) (by decide) (by simp)
  · exact hget _ (some _) (by decide) (by decide) (by decide) (by decide) (by simp)

/-! ## Appending -/

variable {event : AuditEntry}

/-- An event that is appended says what it said before it was sealed. -/
theorem append_ok (h : append env secret events event = .ok events') :
    ∃ sealedEvent, SameFields sealedEvent event ∧ events' = events ++ [sealedEvent] := by
  unfold append at h
  split at h
  · cases h
  rename_i sealedEvent hseal
  cases h
  exact ⟨sealedEvent, CampaignAudit.sameFields_seal hseal, rfl⟩

variable {type : String}

theorem isAbout_of_get {artifactId : String} (htype : event.get "type" = .str type)
    (hartifact : event.get "artifact_id" = .str artifactId) (type' artifactId' : String) :
    isAbout type' artifactId' event = decide (type = type' ∧ artifactId = artifactId') := by
  rw [Bool.eq_iff_iff, isAbout_iff, decide_eq_true_iff, htype, hartifact]
  constructor
  · rintro ⟨ha, ht⟩
    exact ⟨Json.str.inj ht, Json.str.inj ha⟩
  · rintro ⟨rfl, rfl⟩
    exact ⟨rfl, rfl⟩

theorem observed_append (events : List AuditEntry) (event : AuditEntry) (artifactId : String) :
    observedPublicActivityIds (events ++ [event]) artifactId = observedPublicActivityIds events artifactId ++
      if isAbout activityType artifactId event = true then (text? (event.get "activity_id")).toList else [] := by
  unfold observedPublicActivityIds
  rw [List.filter_append, List.filterMap_append]
  congr 1
  cases habout : isAbout activityType artifactId event with
  | false => simp [habout]
  | true => cases htext : text? (event.get "activity_id") <;> simp [habout, htext]

/-- The events of the statuses of an artifact. -/
def statuses (artifactId : String) (events : List AuditEntry) : List AuditEntry := events.filter (isAbout statusType artifactId)

theorem statuses_append (events : List AuditEntry) (event : AuditEntry) (artifactId : String) :
    statuses artifactId (events ++ [event]) = statuses artifactId events ++
      if isAbout statusType artifactId event = true then [event] else [] := by
  unfold statuses
  rw [List.filter_append]
  congr 1
  cases h : isAbout statusType artifactId event <;> simp [h]

/-- Two statuses differ in what is tracked. -/
def Differ (a b : AuditEntry) : Prop := (fingerprintOf a).pyEq (fingerprintOf b) = false

/-- The invariant of the record: each activity once, and no status as the one before. -/
structure Recorded (events : List AuditEntry) : Prop where
  activities : ∀ artifactId, (observedPublicActivityIds events artifactId).Nodup
  statuses : ∀ artifactId, (statuses artifactId events).IsChain Differ

theorem recorded_nil : Recorded [] := ⟨fun _ => List.nodup_nil, fun _ => .nil⟩

/-- Another event changes neither. -/
theorem Recorded.append_other (h : Recorded events)
    (hother : ∀ artifactId, isAbout statusType artifactId event = false ∧ isAbout activityType artifactId event = false) :
    Recorded (events ++ [event]) := by
  constructor
  · intro artifactId
    rw [observed_append, (hother artifactId).2, if_neg Bool.false_ne_true, List.append_nil]
    exact h.activities artifactId
  · intro artifactId
    rw [statuses_append, (hother artifactId).1, if_neg Bool.false_ne_true, List.append_nil]
    exact h.statuses artifactId

/-! ## The three parts of a synchronization -/

theorem fingerprintOf_sameFields {x y : AuditEntry} (h : SameFields x y) : fingerprintOf x = fingerprintOf y := by
  unfold fingerprintOf
  refine congrArg Json.arr (List.map_congr_left fun key hkey => h key fun hseal => ?_)
  have hdisjoint : ∀ key ∈ fingerprintKeys, key ∉ CampaignAudit.sealFields := by decide
  exact hdisjoint key hkey hseal

variable {status : Status}

theorem addStatus_recorded (hrecorded : Recorded events)
    (h : addStatus env secret artifactId time status events = .ok events') : Recorded events' := by
  unfold addStatus at h
  split at h
  · rename_i hchanged
    obtain ⟨sealedEvent, hsame, rfl⟩ := append_ok h
    obtain ⟨htype, hartifact, hfingerprint⟩ := get_statusEvent artifactId time status
    have habout : ∀ type other, isAbout type other sealedEvent = decide (statusType = type ∧ artifactId = other) := by
      intro type other
      rw [isAbout_of_sameFields hsame, isAbout_of_get htype hartifact]
    have htypes : statusType ≠ activityType := by decide
    constructor
    · intro other
      rw [observed_append, habout, if_neg (by simp [htypes]), List.append_nil]
      exact hrecorded.activities other
    · intro other
      rw [statuses_append, habout]
      by_cases heq : artifactId = other
      · subst heq
        rw [if_pos (by simp)]
        refine List.isChain_append.mpr ⟨hrecorded.statuses artifactId, List.isChain_singleton _, ?_⟩
        intro last hlast next hnext
        obtain rfl : sealedEvent = next := by simpa using hnext
        unfold changed lastAbout at hchanged
        rw [show events.filter (isAbout statusType artifactId) = statuses artifactId events from rfl, Option.mem_def.mp hlast] at hchanged
        unfold Differ
        rw [fingerprintOf_sameFields hsame, hfingerprint]
        simpa using hchanged
      · rw [if_neg (by simp [heq]), List.append_nil]
        exact hrecorded.statuses other
  · cases h
    exact hrecorded

theorem addNeedsMoreInfo_recorded {request : Option NeedsMoreInfo} (hrecorded : Recorded events)
    (h : addNeedsMoreInfo env secret submission time request events = .ok events') : Recorded events' := by
  unfold addNeedsMoreInfo at h
  split at h
  · cases h
    exact hrecorded
  · rename_i request
    obtain hkept | happended := ite_eq_iff.mp h
    · cases hkept.2
      exact hrecorded
    · obtain ⟨sealedEvent, hsame, rfl⟩ := append_ok happended.2
      obtain ⟨htype, hartifact, -⟩ := get_needsMoreInfoEvent submission.artifactId submission.remoteReportId time request
      refine hrecorded.append_other fun other => ?_
      have hstatus : needsMoreInfoType ≠ statusType := by decide
      have hactivity : needsMoreInfoType ≠ activityType := by decide
      rw [isAbout_of_sameFields hsame, isAbout_of_sameFields hsame, isAbout_of_get htype hartifact, isAbout_of_get htype hartifact]
      simp [hstatus, hactivity]

/-- What one more activity changes. -/
theorem appendActivity_spec {activity : Activity}
    (h : append env secret events (activityEvent submission.artifactId submission.remoteReportId time activity) = .ok events') :
    (∀ other, observedPublicActivityIds events' other = observedPublicActivityIds events other ++
      if submission.artifactId = other then [activity.activityId] else []) ∧
    (∀ other, statuses other events' = statuses other events) ∧
    ∀ other, lastAbout needsMoreInfoType other events' = lastAbout needsMoreInfoType other events := by
  obtain ⟨sealedEvent, hsame, rfl⟩ := append_ok h
  obtain ⟨htype, hartifact, hid⟩ := get_activityEvent submission.artifactId submission.remoteReportId time activity
  have habout : ∀ type other, isAbout type other sealedEvent = decide (activityType = type ∧ submission.artifactId = other) := by
    intro type other
    rw [isAbout_of_sameFields hsame, isAbout_of_get htype hartifact]
  have hstatus : activityType ≠ statusType := by decide
  have hrequest : activityType ≠ needsMoreInfoType := by decide
  have htext : text? (sealedEvent.get "activity_id") = some activity.activityId := by
    rw [hsame "activity_id" (by decide), hid]
    rfl
  refine ⟨fun other => ?_, fun other => ?_, fun other => ?_⟩
  · rw [observed_append, habout, htext]
    by_cases heq : submission.artifactId = other
    · rw [if_pos (by simp [heq]), if_pos heq, Option.toList_some]
    · rw [if_neg (by simp [heq]), if_neg heq]
  · rw [statuses_append, habout, if_neg (by simp [hstatus]), List.append_nil]
  · unfold lastAbout
    rw [List.filter_append, List.filter_singleton, habout]
    simp [hrequest]

theorem addActivities_spec {observed : List String} {activities : List Activity}
    (hobserved : ∀ id, id ∈ observed ↔ id ∈ observedPublicActivityIds events submission.artifactId)
    (h : addActivities env secret submission time observed events activities = .ok events') :
    (Recorded events → Recorded events') ∧
      (∀ activity ∈ activities, activity.activityId ∈ observedPublicActivityIds events' submission.artifactId) ∧
      (∀ id ∈ observedPublicActivityIds events submission.artifactId, id ∈ observedPublicActivityIds events' submission.artifactId) ∧
      (∀ other, statuses other events' = statuses other events) ∧
      ∀ other, lastAbout needsMoreInfoType other events' = lastAbout needsMoreInfoType other events := by
  induction activities generalizing observed events with
  | nil =>
    cases h
    exact ⟨id, fun _ h => (nomatch h), fun _ h => h, fun _ => rfl, fun _ => rfl⟩
  | cons activity rest ih =>
    unfold addActivities at h
    split at h
    · rename_i hknown
      obtain ⟨hkeeps, hall, hmono, hstatuses, hlast⟩ := ih hobserved h
      refine ⟨hkeeps, ?_, hmono, hstatuses, hlast⟩
      intro other hother
      obtain rfl | hrest := List.mem_cons.mp hother
      · exact hmono _ ((hobserved _).mp hknown)
      · exact hall other hrest
    · rename_i hnew
      split at h
      · cases h
      rename_i between hbetween
      obtain ⟨hids, hstatuses, hlast⟩ := appendActivity_spec hbetween
      have hobserved' : ∀ id, id ∈ activity.activityId :: observed ↔ id ∈ observedPublicActivityIds between submission.artifactId := by
        intro id
        rw [hids, if_pos rfl, List.mem_append, List.mem_singleton, List.mem_cons, hobserved, or_comm]
      obtain ⟨hkeeps, hall, hmono, hstatuses', hlast'⟩ := ih hobserved' h
      refine ⟨fun hrecorded => hkeeps ⟨fun other => ?_, fun other => ?_⟩, ?_, ?_, fun other => ?_, fun other => ?_⟩
      · rw [hids]
        split
        · rename_i heq
          subst heq
          refine List.nodup_append.mpr ⟨hrecorded.activities _, List.nodup_singleton _, ?_⟩
          intro a ha b hb hab
          rw [List.mem_singleton.mp hb] at hab
          exact hnew ((hobserved _).mpr (hab ▸ ha))
        · rw [List.append_nil]
          exact hrecorded.activities other
      · rw [hstatuses]
        exact hrecorded.statuses other
      · intro other hother
        obtain rfl | hrest := List.mem_cons.mp hother
        · exact hmono _ ((hobserved' _).mp List.mem_cons_self)
        · exact hall other hrest
      · intro id hid
        exact hmono _ ((hobserved' id).mp (List.mem_cons_of_mem _ ((hobserved id).mpr hid)))
      · rw [hstatuses', hstatuses]
      · rw [hlast', hlast]

variable {projection : Projection}

/-- One synchronization keeps the invariant. -/
theorem syncEvents_recorded (hrecorded : Recorded events)
    (h : syncEvents env secret submission time projection events = .ok events') : Recorded events' := by
  unfold syncEvents at h
  split at h
  · cases h
  rename_i withStatus hstatus
  split at h
  · cases h
  rename_i withRequest hrequest
  exact (addActivities_spec (fun _ => Iff.rfl) h).1 (addNeedsMoreInfo_recorded (addStatus_recorded hrecorded hstatus) hrequest)

/-! ## A report that was synchronized -/

/-- A record that has all that a report says. -/
structure UpToDate (submission : Submission) (projection : Projection) (events : List AuditEntry) : Prop where
  status : changed (lastAbout statusType submission.artifactId events) projection.status = false
  needsMoreInfo : ∀ request, projection.needsMoreInfo = some request →
    ∃ previous, lastAbout needsMoreInfoType submission.artifactId events = some previous ∧
      (previous.get "activity_id").pyEq (.str request.activityId) = true
  activities : ∀ activity ∈ projection.activities, activity.activityId ∈ observedPublicActivityIds events submission.artifactId

theorem addActivities_known {observed : List String} {activities : List Activity}
    (h : ∀ activity ∈ activities, activity.activityId ∈ observed) :
    addActivities env secret submission time observed events activities = .ok events := by
  induction activities with
  | nil => rfl
  | cons activity rest ih =>
    unfold addActivities
    rw [if_pos (h activity List.mem_cons_self)]
    exact ih fun other hother => h other (List.mem_cons_of_mem _ hother)

/-- Nothing is new in it. -/
theorem UpToDate.syncEvents (h : UpToDate submission projection events) :
    syncEvents env secret submission time projection events = .ok events := by
  have hstatus : addStatus env secret submission.artifactId time projection.status events = .ok events := by
    unfold addStatus
    rw [h.status, if_neg Bool.false_ne_true]
  have hrequest : addNeedsMoreInfo env secret submission time projection.needsMoreInfo events = .ok events := by
    unfold addNeedsMoreInfo
    cases hsome : projection.needsMoreInfo with
    | none => rfl
    | some request =>
      obtain ⟨previous, hprevious, hknown⟩ := h.needsMoreInfo request hsome
      dsimp only
      rw [hprevious, Option.any_some, if_pos hknown]
  unfold HackerOneReportSync.syncEvents
  rw [hstatus]
  dsimp only
  rw [hrequest]
  exact addActivities_known fun activity hactivity => h.activities activity (List.mem_reverse.mp hactivity)

theorem pyEq_optText (text : Option String) : (optText text).pyEq (optText text) = true := by
  cases text <;> simp [optText, Json.pyEq]

theorem pyEq_fingerprint (status : Status) : status.fingerprint.pyEq status.fingerprint = true := by
  have hall : ∀ fields : List (String × Option String),
      Json.pyEqElems (fields.map fun f => optText f.2) (fields.map fun f => optText f.2) = true := by
    intro fields
    induction fields with
    | nil => rfl
    | cons f fields ih => simp [Json.pyEqElems, pyEq_optText, ih]
  exact hall status.fields

theorem changed_self (h : fingerprintOf event = status.fingerprint) :
    changed (some event) status = false := by
  unfold changed
  dsimp only
  rw [h, pyEq_fingerprint]
  rfl

theorem lastAbout_append_self (h : isAbout type artifactId event = true) :
    lastAbout type artifactId (events ++ [event]) = some event := by
  unfold lastAbout
  rw [List.filter_append, List.filter_singleton, h]
  simp

theorem lastAbout_append_other (h : isAbout type artifactId event = false) :
    lastAbout type artifactId (events ++ [event]) = lastAbout type artifactId events := by
  unfold lastAbout
  rw [List.filter_append, List.filter_singleton, h]
  simp

theorem addStatus_upToDate (h : addStatus env secret artifactId time status events = .ok events') :
    changed (lastAbout statusType artifactId events') status = false := by
  unfold addStatus at h
  split at h
  · obtain ⟨sealedEvent, hsame, rfl⟩ := append_ok h
    obtain ⟨htype, hartifact, hfingerprint⟩ := get_statusEvent artifactId time status
    have habout : isAbout statusType artifactId sealedEvent = true := by
      rw [isAbout_of_sameFields hsame, isAbout_of_get htype hartifact]
      simp
    rw [lastAbout_append_self habout]
    exact changed_self ((fingerprintOf_sameFields hsame).trans hfingerprint)
  · rename_i hsame
    cases h
    simpa using hsame

theorem addNeedsMoreInfo_upToDate {request : Option NeedsMoreInfo}
    (h : addNeedsMoreInfo env secret submission time request events = .ok events') :
    (∀ other, lastAbout statusType other events' = lastAbout statusType other events) ∧
      ∀ asked, request = some asked → ∃ previous, lastAbout needsMoreInfoType submission.artifactId events' = some previous ∧
        (previous.get "activity_id").pyEq (.str asked.activityId) = true := by
  unfold addNeedsMoreInfo at h
  split at h
  · cases h
    exact ⟨fun _ => rfl, fun _ hasked => (nomatch hasked)⟩
  · rename_i asked
    obtain ⟨hknown, hkept⟩ | ⟨-, happended⟩ := ite_eq_iff.mp h
    · cases hkept
      refine ⟨fun _ => rfl, fun other hother => ?_⟩
      cases hother
      obtain ⟨previous, hprevious, heq⟩ := (Option.any_eq_true _ _).mp hknown
      exact ⟨previous, hprevious, heq⟩
    · obtain ⟨sealedEvent, hsame, rfl⟩ := append_ok happended
      obtain ⟨htype, hartifact, hid⟩ := get_needsMoreInfoEvent submission.artifactId submission.remoteReportId time asked
      have hne : needsMoreInfoType ≠ statusType := by decide
      refine ⟨fun other => lastAbout_append_other ?_, fun other hother => ⟨sealedEvent, lastAbout_append_self ?_, ?_⟩⟩
      · rw [isAbout_of_sameFields hsame, isAbout_of_get htype hartifact]
        simp [hne]
      · rw [isAbout_of_sameFields hsame, isAbout_of_get htype hartifact]
        simp
      · cases hother
        rw [hsame "activity_id" (by decide), hid]
        exact AuditSeal.pyEq_str _

/-- After a synchronization the record has all that the report says. -/
theorem upToDate_of_syncEvents
    (h : syncEvents env secret submission time projection events = .ok events') : UpToDate submission projection events' := by
  unfold syncEvents at h
  split at h
  · cases h
  rename_i withStatus hstatus
  split at h
  · cases h
  rename_i withRequest hrequest
  obtain ⟨hsame, hasked⟩ := addNeedsMoreInfo_upToDate hrequest
  obtain ⟨-, hall, -, hstatuses, hlast⟩ := addActivities_spec (fun _ => Iff.rfl) h
  have hlastStatus : lastAbout statusType submission.artifactId events' = lastAbout statusType submission.artifactId withRequest :=
    congrArg List.getLast? (hstatuses submission.artifactId)
  refine ⟨?_, ?_, fun activity hactivity => hall activity (List.mem_reverse.mpr hactivity)⟩
  · rw [hlastStatus, hsame]
    exact addStatus_upToDate hstatus
  · intro request hsome
    rw [hlast]
    exact hasked request hsome

/-! ## Any interleaving -/

/-- What holds in every state: all records are recorded, and a worker whose version is current has read the record. -/
structure Good (s : State) : Prop where
  record : Recorded s.events
  past : ∀ events ∈ s.past, Recorded events
  readings : ∀ worker reading, s.readings worker = some reading →
    reading.version ≤ s.version ∧ (reading.version = s.version → reading.events = s.events)

theorem good_init : Good .init := ⟨recorded_nil, fun _ h => (nomatch h), fun _ _ h => (nomatch h)⟩

variable {s : State}

/-- A worker that reads, or ends. -/
theorem Good.update (h : Good s) (worker : Nat) {reading : Option Reading}
    (hreading : ∀ r, reading = some r → r.version = s.version ∧ r.events = s.events) :
    Good { s with readings := Function.update s.readings worker reading } := by
  refine ⟨h.record, h.past, fun other r hr => ?_⟩
  dsimp only at hr ⊢
  rw [Function.update_apply] at hr
  split at hr
  · obtain ⟨hversion, hevents⟩ := hreading r hr
    exact ⟨hversion.le, fun _ => hevents⟩
  · exact h.readings other r hr

/-- A writer stores a record. -/
theorem Good.store (h : Good s) (hrecorded : Recorded events) : Good (s.store events) := by
  refine ⟨hrecorded, ?_, ?_⟩
  · intro old hold
    obtain rfl | hpast := List.mem_cons.mp hold
    · exact h.record
    · exact h.past old hpast
  · intro worker reading hreading
    have hle := (h.readings worker reading hreading).1
    have hversion : (s.store events).version = s.version + 1 := rfl
    rw [hversion]
    exact ⟨Nat.le_succ_of_le hle, fun heq => absurd hle (by omega)⟩

theorem Recorded.append_others (h : Recorded events) (added : List OtherEvent) : Recorded (events ++ added.map Subtype.val) := by
  induction added using List.reverseRecOn with
  | nil => simpa using h
  | append_singleton added event ih =>
    rw [List.map_append, List.map_singleton, ← List.append_assoc]
    exact ih.append_other event.2

theorem step_good (h : Good s) (move : Step) : Good (step env s move) := by
  cases move with
  | read worker submission document =>
    refine h.update worker fun r hr => ?_
    split at hr
    · cases hr
    split at hr
    · cases hr
      exact ⟨rfl, rfl⟩
    · cases hr
  | save worker time secret =>
    unfold step
    dsimp only
    split
    · exact h
    rename_i reading hreading
    have hended : Good { s with readings := Function.update s.readings worker none } := h.update worker fun r hr => (nomatch hr)
    split
    · exact hended
    · rename_i events hevents
      split
      · exact hended
      · rename_i hsaved
        rw [not_or, not_not] at hsaved
        have hcurrent := (h.readings worker reading hreading).2 hsaved.2
        exact hended.store (syncEvents_recorded (hcurrent ▸ h.record) hevents)
  | other base added =>
    refine h.store (Recorded.append_others ?_ added)
    cases hbase : (s.events :: s.past)[base]? with
    | none => exact recorded_nil
    | some events =>
      obtain rfl | hpast := List.mem_cons.mp (List.mem_of_getElem? hbase)
      · exact h.record
      · exact h.past events hpast

theorem good_run (steps : List Step) : Good (run env steps) := by
  unfold run
  induction steps using List.reverseRecOn with
  | nil => exact good_init
  | append_singleton steps move ih =>
    rw [List.foldl_concat]
    exact step_good ih move

/-- A worker that synchronizes a report which the record is up to date with appends nothing. -/
theorem step_again {document : Json} (hproject : project env submission document = .ok projection)
    (hcurrent : UpToDate submission projection s.events) (worker : Nat) (time : String) (secret : ResolvedSecret) :
    (step env (step env s (.read worker submission document)) (.save worker time secret)).events = s.events := by
  unfold step
  dsimp only
  rw [hproject, Function.update_self]
  dsimp only
  by_cases hlatest : isLatest submission s.events = true
  · rw [if_pos hlatest]
    dsimp only
    rw [hcurrent.syncEvents]
    dsimp only
    rw [if_pos (.inl rfl)]
  · rw [if_neg hlatest]

/-- With a key that can be read, an event is appended. -/
theorem append_isOk (env : AuditEnv) (key : Option String) (events : List AuditEntry) (event : AuditEntry) :
    ∃ events', append env (.ok key) events event = .ok events' := ⟨_, rfl⟩

/-- So a synchronization does not fail. -/
theorem syncEvents_isOk (env : AuditEnv) (key : Option String) (submission : Submission) (time : String) (projection : Projection)
    (events : List AuditEntry) : ∃ events', syncEvents env (.ok key) submission time projection events = .ok events' := by
  have hactivities : ∀ (activities : List Activity) (observed : List String) (events : List AuditEntry),
      ∃ events', addActivities env (.ok key) submission time observed events activities = .ok events' := by
    intro activities
    induction activities with
    | nil => exact fun _ events => ⟨events, rfl⟩
    | cons activity rest ih =>
      intro observed events
      unfold addActivities
      split
      · exact ih observed events
      · exact ih _ _
  have hstatus : ∃ events', addStatus env (.ok key) submission.artifactId time projection.status events = .ok events' := by
    unfold addStatus
    split
    · exact append_isOk env key events _
    · exact ⟨events, rfl⟩
  obtain ⟨withStatus, hstatus⟩ := hstatus
  have hrequest : ∃ events', addNeedsMoreInfo env (.ok key) submission time projection.needsMoreInfo withStatus = .ok events' := by
    have hchoice : ∀ (known : Bool) (event : AuditEntry),
        ∃ events', (if known = true then .ok withStatus else append env (.ok key) withStatus event) = .ok events' := by
      intro known event
      cases known with
      | true => exact ⟨withStatus, rfl⟩
      | false => exact append_isOk env key withStatus event
    unfold addNeedsMoreInfo
    cases projection.needsMoreInfo with
    | none => exact ⟨withStatus, rfl⟩
    | some request => exact hchoice _ _
  obtain ⟨withRequest, hrequest⟩ := hrequest
  unfold syncEvents
  rw [hstatus]
  dsimp only
  rw [hrequest]
  exact hactivities _ _ _

/-- A report without activities. -/
def sampleReport : Json :=
  .obj [("data", .obj [("type", .str "report"), ("id", .str "1"), ("attributes", .obj [("state", .str "new")])])]

def sampleSubmission : Submission := ⟨"a", "1", "t"⟩

end HackerOneReportSync

end XbowPerso
