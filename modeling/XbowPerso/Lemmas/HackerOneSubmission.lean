import XbowPerso.HackerOneSubmission
import XbowPerso.Lemmas.ReportApproval

/-!
# What a step of a submission does

What the checks establish, which events the steps append, and the effects that a step can have on the stored campaign, the submissions
and the requests made.
-/

namespace XbowPerso

namespace HackerOneSubmission

open AuditSeal ReportApproval CampaignAudit

variable {env : AuditEnv} {secret : ResolvedSecret} {store : ArtifactStore}

/-! ## The checks -/

variable {artifactId : String}

theorem readArtifact_ok {file : Option (List UInt8)} {artifact : Artifact} {content : List UInt8}
    (h : readArtifact env.sha store file artifactId = .ok (artifact, content)) :
    PyText.strip artifactId = artifact.id.text ∧ store.record artifact.id = some artifact ∧ env.sha.hex content = artifact.sha256 := by
  unfold readArtifact at h
  split at h
  · cases h
  rename_i id hid
  split at h
  · cases h
  rename_i record hrecord
  split at h
  · cases h
  split at h
  · cases h
  split at h
  · cases h
  rename_i hsha
  cases h
  have hident := store.id_eq _ _ hrecord
  exact ⟨by rw [hident]; exact (text_of_identifierOf hid).symm, by rw [hident]; exact hrecord, not_not.mp hsha⟩

/-- What the checks of a submission establish of the campaign that they read. -/
structure Checked (env : AuditEnv) (campaign : Campaign) (attempt : Attempt) : Prop where
  named : PyText.strip attempt.artifactId = attempt.artifact.id.text
  content : ∃ content, env.sha.hex content = attempt.artifact.sha256 ∧
    decodeUtf8 content = some attempt.outbound.vulnerabilityInformation
  approval : ∃ approval before after, Counts env campaign attempt.artifact approval ∧
    campaign.events = before ++ approval :: after ∧
      ∀ event ∈ after, isAbout "report_submitted" attempt.artifact.id.text event = false
  resolved : unresolvedHackeroneAttempt campaign.events attempt.artifactId = none
  finding : ∃ finding, confirmedFindings campaign = [finding] ∧ attempt.outbound.title = finding.get "title" ∧
    attempt.outbound.impact = finding.get "impact" ∧ attempt.outbound.severityRating = severityRating finding

variable {attempt : Attempt}

theorem check_spec {c : Circumstances} {campaign : Campaign} {actor : String}
    (h : check env store c campaign artifactId actor = .ok (some attempt)) :
    attempt.artifactId = artifactId ∧ attempt.requestId = c.requestId ∧ Checked env campaign attempt := by
  unfold check at h
  split at h
  · cases h
  split at h
  · cases h
  · cases h
  · cases h
  rename_i artifact content hread
  obtain ⟨hnamed, hrecord, hsha⟩ := readArtifact_ok hread
  split at h
  · cases h
  split at h
  · cases h
  rename_i status hstatus
  split at h
  · split at h
    · cases h
    · cases h
  rename_i hstate
  split at h
  · cases h
  rename_i hresolved
  split at h
  · cases h
  rename_i again contentAgain hagain
  obtain ⟨hnamed', hrecord', -⟩ := readArtifact_ok hagain
  have hsame : again = artifact := by
    have hid : again.id = artifact.id := Ident.text_injective (hnamed'.symm.trans hnamed)
    rw [hid, hrecord] at hrecord'
    exact (Option.some.inj hrecord').symm
  subst hsame
  dsimp only at h
  split at h
  · cases h
  rename_i happroved
  split at h
  · rename_i finding hfinding
    split at h
    · cases h
    split at h
    · cases h
    split at h
    · cases h
    rename_i text htext
    cases h
    refine ⟨rfl, rfl, hnamed, ⟨content, hsha, htext⟩, ?_, ?_, ⟨finding, hfinding, rfl, rfl, rfl⟩⟩
    · exact counts_of_status hstatus (by simpa using (not_or.mp happroved).1) hstate
    · simpa using hresolved
  · cases h

/-! ## The events of an attempt -/

/-- An event that records the attempt. -/
def IsAttemptOf (attempt : Attempt) (event : AuditEntry) : Prop :=
  isAbout "hackerone_submission_attempted" attempt.artifactId event = true ∧ event.get "request_id" = .str attempt.requestId

variable {time : String} {event : AuditEntry}

theorem isAttemptOf_attemptedEvent
    (h : SameFields event (attemptedEvent attempt time)) : IsAttemptOf attempt event := by
  refine ⟨(isAbout_of_sameFields h _ _).trans (isAbout_iff.mpr ?_), (h _ (by decide)).trans ?_⟩
  · exact ⟨get_textEntry (by simp) (by simp), get_textEntry (by simp) (by simp)⟩
  · exact get_textEntry (by simp) (by simp)

theorem resolves_iff {requestId : String} :
    resolves (.str requestId) event = true ↔ event.get "request_id" = .str requestId ∧
      (event.get "type" = .str "hackerone_report_submitted" ∨ event.get "type" = .str "hackerone_submission_rejected") := by
  unfold resolves
  rw [Bool.and_eq_true, Bool.or_eq_true, hasText_iff, hasText_iff]
  exact and_congr_left fun _ => ⟨eq_str_of_pyEq, fun h => h ▸ pyEq_str _⟩

/-- An event of another type resolves nothing. -/
theorem resolves_of_type {requestId : Json} (hsubmitted : hasText event "type" "hackerone_report_submitted" = false)
    (hrejected : hasText event "type" "hackerone_submission_rejected" = false) : resolves requestId event = false := by
  unfold resolves
  rw [hsubmitted, hrejected, Bool.or_self, Bool.and_false]

/-- What the events appended for an answer are. -/
inductive Outcome (attempt : Attempt) : Answer → List AuditEntry → Prop
  | accepted {remoteReportId : String} {submitted marked : AuditEntry} : submitted.get "request_id" = .str attempt.requestId →
      submitted.get "type" = .str "hackerone_report_submitted" →
      isAbout "report_submitted" (PyText.strip attempt.artifactId) marked = true →
      Outcome attempt (.accepted remoteReportId) [submitted, marked]
  | rejected {statusCode : Int} {rejected : AuditEntry} : rejected.get "request_id" = .str attempt.requestId →
      rejected.get "type" = .str "hackerone_submission_rejected" → Outcome attempt (.rejected statusCode) [rejected]
  | lost {created : Bool} : Outcome attempt (.lost created) []

/-- What is appended is what was given, sealed. -/
theorem appendAll_spec : ∀ {l events events' : List AuditEntry}, appendAll env secret events l = .ok events' →
    ∃ appended, events' = events ++ appended ∧ List.Forall₂ SameFields appended l
  | [], events, events', h => by
    cases h
    exact ⟨[], (List.append_nil _).symm, .nil⟩
  | event :: rest, events, events', h => by
    unfold appendAll at h
    split at h
    · cases h
    rename_i sealedEvent hseal
    obtain ⟨appended, rfl, hall⟩ := appendAll_spec h
    exact ⟨sealedEvent :: appended, by rw [List.append_assoc]; rfl, .cons (sameFields_seal hseal) hall⟩

theorem given_of_appended {appended l : List AuditEntry} (h : List.Forall₂ SameFields appended l)
    (hevent : event ∈ appended) : ∃ given ∈ l, SameFields event given := by
  obtain ⟨i, hi, rfl⟩ := List.mem_iff_getElem.mp hevent
  exact ⟨_, List.getElem_mem _, h.get hi (h.length_eq ▸ hi)⟩

theorem submissionEvent_ok {actor platform : String}
    (h : submissionEvent artifactId actor platform time = .ok event) :
    isAbout "report_submitted" (PyText.strip artifactId) event = true := by
  unfold submissionEvent at h
  split at h
  · cases h
  split at h
  · cases h
  split at h
  · cases h
  split at h
  · cases h
  cases h
  exact isAbout_iff.mpr ⟨get_textEntry (by simp) (by simp), get_textEntry (by simp) (by simp)⟩

theorem outcome_of_outcomeEvents {answer : Answer} {l appended : List AuditEntry}
    (h : outcomeEvents attempt time answer = .ok l) (hsame : List.Forall₂ SameFields appended l) : Outcome attempt answer appended := by
  cases answer with
  | accepted remoteReportId =>
    unfold outcomeEvents at h
    dsimp only at h
    split at h
    · cases h
    rename_i event hevent
    rw [← Except.ok.inj h] at hsame
    obtain ⟨submitted, rest, hsubmitted, hrest, rfl⟩ := List.forall₂_cons_right_iff.mp hsame
    obtain ⟨marked, rest, hmarked, hnil, rfl⟩ := List.forall₂_cons_right_iff.mp hrest
    rw [List.forall₂_nil_right_iff.mp hnil]
    refine .accepted ((hsubmitted _ (by decide)).trans ?_) ((hsubmitted _ (by decide)).trans ?_)
      ((isAbout_of_sameFields hmarked _ _).trans (submissionEvent_ok hevent))
    · exact get_textEntry (by simp) (by simp)
    · exact get_textEntry (by simp) (by simp)
  | rejected statusCode =>
    rw [← Except.ok.inj h] at hsame
    obtain ⟨rejected, rest, hrejected, hnil, rfl⟩ := List.forall₂_cons_right_iff.mp hsame
    rw [List.forall₂_nil_right_iff.mp hnil]
    refine .rejected ((hrejected _ (by decide)).trans ?_) ((hrejected _ (by decide)).trans ?_)
    · simp [rejectedEvent, AuditEntry.get_set, textEntry]
    · simp [rejectedEvent, AuditEntry.get_set, textEntry]
  | lost created =>
    cases h
    cases hsame
    exact .lost

/-! ## Effects -/

/-- A campaign with more events. -/
def extend (campaign : Campaign) (appended : List AuditEntry) : Campaign := { campaign with events := campaign.events ++ appended }

/-- An event that no modelled step appends. -/
def Foreign (event : AuditEntry) : Prop := ∀ type ∈ ownTypes, hasText event "type" type = false

/-- The event of an approval of the campaign and the artifact. -/
structure Approves (env : AuditEnv) (campaign : Campaign) (artifact : Artifact) (event : AuditEntry) : Prop where
  approved : event.get "type" = .str "report_approved"
  sha256 : event.get "artifact_sha256" = .str artifact.sha256
  basis : event.get "basis_digest" = .str (reportBasisDigest env campaign artifact)

theorem approves_of_approvalEvent {campaign : Campaign} {artifact : Artifact} {reviewer : String} {sealedEvent : AuditEntry}
    (h : approvalEvent env campaign artifact reviewer time = .ok event) (hsame : SameFields sealedEvent event) :
    Approves env campaign artifact sealedEvent := by
  unfold approvalEvent at h
  split at h
  · cases h
  split at h
  · cases h
  cases h
  refine ⟨(hsame _ (by decide)).trans ?_, (hsame _ (by decide)).trans ?_, (hsame _ (by decide)).trans ?_⟩
  · exact get_textEntry (by simp) (by simp)
  · exact get_textEntry (by simp) (by simp)
  · exact get_textEntry (by simp) (by simp)

/-- A submission names the artifact in some way. -/
def Action.Names (named : String → Prop) : Action → Prop
  | check _ _ artifactId _ => named artifactId
  | _ => True

/-- What an admissible step can do, where submissions name artifacts in some way. -/
inductive Effect (env : AuditEnv) (named : String → Prop) (s : System) : System → Prop
  | same : Effect env named s s
  | idle (h : Nat) : Effect env named s (s.setPhase h .idle)
  | checked {h : Nat} {attempt : Attempt} : named attempt.artifactId → Checked env s.campaign attempt →
      (∀ event ∈ s.campaign.events, event.get "request_id" ≠ .str attempt.requestId) →
      (∀ h', h' ≠ h → ∀ version campaign other, s.phase h' = .checked version campaign other → other.requestId ≠ attempt.requestId) →
      Effect env named s (s.setPhase h (.checked s.version s.campaign attempt))
  | saved {h : Nat} {campaign : Campaign} {attempt : Attempt} {event : AuditEntry} : s.phase h = .checked s.version campaign attempt →
      IsAttemptOf attempt event →
      Effect env named s { s.setPhase h (.attempted (extend campaign [event]) attempt) with
        version := s.version + 1
        campaign := extend campaign [event] }
  | posted {h : Nat} {saved : Campaign} {attempt : Attempt} {answer : Answer} {phase : Phase} : s.phase h = .attempted saved attempt →
      phase = .idle ∨ phase = .answered attempt answer →
      Effect env named s { s.setPhase h phase with posts := s.posts ++ [⟨saved, attempt, s.campaign.events, answer.created⟩] }
  | reread {h : Nat} {attempt : Attempt} {answer : Answer} : s.phase h = .answered attempt answer →
      Effect env named s (s.setPhase h (.recording s.version s.campaign attempt answer))
  | recorded {h : Nat} {campaign : Campaign} {attempt : Attempt} {answer : Answer} {appended : List AuditEntry} :
      s.phase h = .recording s.version campaign attempt answer → Outcome attempt answer appended →
      Effect env named s { s.setPhase h .idle with version := s.version + 1, campaign := extend campaign appended }
  | approved {artifact : Artifact} {event : AuditEntry} : Approves env s.campaign artifact event →
      Effect env named s { s with
        version := s.version + 1
        campaign := extend s.campaign [event]
        approvals := s.approvals ++ [(event, s.campaign, artifact)] }
  | edited {campaign : Campaign} {appended : List AuditEntry} : (∀ event ∈ appended, Foreign event) →
      campaign.events = s.campaign.events ++ appended →
      Effect env named s { s with version := s.version + 1, campaign := campaign }

theorem effect_of_step {named : String → Prop} {s : System} {a : Action} (hadmissible : Admissible s a) (hnamed : a.Names named) :
    Effect env named s (step env secret store s a) := by
  cases a with
  | check h c artifactId actor =>
    unfold step
    dsimp only
    split
    · split
      · rename_i attempt hcheck
        obtain ⟨hname, hid, hchecked⟩ := check_spec hcheck
        rw [← hname] at hnamed
        refine .checked hnamed hchecked (fun event hevent hget => ?_) ?_
        · rw [hid] at hget
          have hfalse := hadmissible.1 event hevent
          rw [hasText_iff.mpr hget] at hfalse
          cases hfalse
        · rw [hid]
          exact hadmissible.2
      · exact .same
    · exact .same
  | saveAttempt h time =>
    unfold step
    dsimp only
    split
    · rename_i version campaign attempt hphase
      split
      · exact .idle h
      · rename_i events hevents
        obtain ⟨appended, rfl, hall⟩ := appendAll_spec hevents
        obtain ⟨event, rest, hsame, hnil, rfl⟩ := List.forall₂_cons_right_iff.mp hall
        rw [List.forall₂_nil_right_iff.mp hnil]
        split
        · rename_i hversion
          rw [hversion] at hphase
          exact .saved hphase (isAttemptOf_attemptedEvent hsame)
        · exact .idle h
    · exact .same
  | post h answer =>
    unfold step
    dsimp only
    split
    · rename_i saved attempt hphase
      split
      · exact .posted hphase (.inl rfl)
      · exact .posted hphase (.inr rfl)
    · exact .same
  | reread h =>
    unfold step
    dsimp only
    split
    · rename_i attempt answer hphase
      exact .reread hphase
    · exact .same
  | record h time =>
    unfold step
    dsimp only
    split
    · rename_i version campaign attempt answer hphase
      split
      · exact .idle h
      · rename_i l hl
        split
        · exact .idle h
        · rename_i events hevents
          obtain ⟨appended, rfl, hall⟩ := appendAll_spec hevents
          split
          · rename_i hversion
            rw [hversion] at hphase
            exact .recorded hphase (outcome_of_outcomeEvents hl hall)
          · exact .idle h
    · exact .same
  | crash h => exact .idle h
  | approve artifactId file reviewer time =>
    unfold step
    dsimp only
    split
    · exact .same
    · split
      · exact .same
      · rename_i event hevent
        split
        · exact .same
        · rename_i sealedEvent hseal
          exact .approved (approves_of_approvalEvent hevent (sameFields_seal hseal))
  | edit campaign appended =>
    unfold step
    dsimp only
    split
    · exact .same
    · rename_i events hevents
      obtain ⟨added, rfl, hall⟩ := appendAll_spec hevents
      refine @Effect.edited env named s _ added (fun event hevent type htype => ?_) rfl
      obtain ⟨given, hgiven, hsame⟩ := given_of_appended hall hevent
      rw [hasText_of_sameFields hsame (by decide)]
      exact hadmissible given hgiven type htype

end HackerOneSubmission

end XbowPerso
