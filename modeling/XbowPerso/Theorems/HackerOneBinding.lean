import XbowPerso.HackerOneBinding
import XbowPerso.Theorems.CampaignChain
import XbowPerso.Theorems.ScopeProjection

/-!
# What admission binds, the verification accepts

The event of an admission declares what the verification recomputes, and later events leave it so; a campaign that is accepted fixes
its policy up to the order of its scope lists, and the content of the event that binds it.
-/

namespace XbowPerso

namespace HackerOneBinding

open AuditSeal (truthy checkSignature)
open CampaignAudit (Built FullySealed SameFields appendCampaignEvent canonicalEvent sealCampaignEvent verifyCampaignEventChain)
open ExecutionContract (Campaign Python policySnapshotFingerprint rateJson sortedSet sorted texts urlHost)

variable {env : BindingEnv} {secret signer : ResolvedSecret}

/-! ## Reasons -/

theorem reasonsOf_eq_nil {checks : List (Bool × String)} : reasonsOf checks = [] ↔ ∀ check ∈ checks, check.1 = false := by
  unfold reasonsOf
  rw [List.map_eq_nil_iff, List.filter_eq_nil_iff]
  exact forall₂_congr fun _ _ => Bool.not_eq_true _ |>.to_iff

theorem declared_str (env : BindingEnv) (s : String) : declared env (.str s) = s := by
  unfold declared
  by_cases h : s = ""
  · subst h
    rfl
  · rw [if_pos (by simpa [truthy] using h), env.audit.str_str]

/-! ## The remote binding that admission makes -/

theorem lower_of_handleChars (u : Unicode) {cs : List Char} (h : cs.all isHandleChar = true) : u.lower cs = cs := by
  refine u.lower_of_lowered fun c hc => ?_
  have hchar := List.all_eq_true.mp h c hc
  simp only [isHandleChar, Bool.or_eq_true, Bool.and_eq_true, decide_eq_true_eq] at hchar
  have hunder : '_'.toNat = 95 := rfl
  have hdash : '-'.toNat = 45 := rfl
  have hupper : ¬ c.isUpper = true := by
    intro hup
    have hrange := ExecutionContract.isUpper_iff_toNat.mp hup
    rcases hchar with ((h | h) | rfl) | rfl
    all_goals omega
  refine u.lowered_ascii ?_ (ExecutionContract.toLower_of_not_isUpper hupper)
  rcases hchar with ((h | h) | rfl) | rfl
  all_goals omega

theorem isHandle_text (u : Unicode) (handle : Handle) : isHandle u (.str handle.text) = true := by
  simp [isHandle, handle.ne_empty, handle.chars, lower_of_handleChars u handle.chars]

theorem get_cons (k key : String) (v : Json) (fs : List (String × Json)) :
    HackerOneScope.get ((k, v) :: fs) key = if k = key then v else HackerOneScope.get fs key := by
  unfold HackerOneScope.get
  by_cases h : k = key
  · simp [h]
  · simp [h]

theorem get_nil (key : String) : HackerOneScope.get [] key = .null := rfl

theorem pyEq_null_str (s : String) : (Json.str s).pyEq .null = false := by
  cases h : (Json.str s).pyEq .null with
  | false => rfl
  | true => cases AuditSeal.eq_null_of_pyEq h

theorem get_remoteFields (r : RemoteBinding) :
    HackerOneScope.get r.fields "handle" = .str r.handle.text ∧
      HackerOneScope.get r.fields "snapshot_sha256" = .str r.snapshotSha256.text ∧
      HackerOneScope.get r.fields "verified" = .bool true ∧
      HackerOneScope.get r.fields "scope_mode" = ((r.scopeMode.map fun mode => Json.str mode.text).getD .null) ∧
      HackerOneScope.get r.fields "scope_document_sha256" =
        ((r.scopeDocumentSha256.map fun digest => Json.str digest.text).getD .null) := by
  obtain ⟨handle, digest, mode, document⟩ := r
  cases mode <;> cases document <;> simp [RemoteBinding.fields, get_cons, get_nil]

theorem remoteReasons_fields (u : Unicode) (r : RemoteBinding) : remoteReasons u r.fields = .ok [] := by
  obtain ⟨hhandle, hsnapshot, hverified, hmode, hdocument⟩ := get_remoteFields r
  have hmember : memberOf ["full", "exact-domain"] true (HackerOneScope.get r.fields "scope_mode") = .ok true := by
    rw [hmode]
    cases r.scopeMode with
    | none => rfl
    | some mode => cases mode <;> rfl
  have hdigest : ((HackerOneScope.get r.fields "scope_document_sha256").pyEq .null ||
      isDigest (HackerOneScope.get r.fields "scope_document_sha256")) = true := by
    rw [hdocument]
    cases r.scopeDocumentSha256 with
    | none => simp [AuditSeal.pyEq_null]
    | some digest => simp [isDigest, digest.hex]
  unfold remoteReasons
  rw [hmember]
  dsimp only
  rw [hdigest, hhandle, hsnapshot, hverified, isHandle_text]
  simp [reasonsOf, isDigest, isBool, r.snapshotSha256.hex]

theorem validated_of_remote (u : Unicode) (r : RemoteBinding) :
    validatedRemoteBinding u (.obj r.fields) [] = .ok ([], some (.obj r.fields)) := by
  obtain ⟨hhandle, hsnapshot, -, hmode, hdocument⟩ := get_remoteFields r
  unfold validatedRemoteBinding
  dsimp only
  rw [remoteReasons_fields]
  dsimp only
  rw [List.nil_append, if_neg (by simp), hhandle, hsnapshot]
  unfold present
  rw [hmode, hdocument]
  obtain ⟨handle, digest, mode, document⟩ := r
  cases mode <;> cases document <;> simp [RemoteBinding.fields, AuditSeal.pyEq_null, pyEq_null_str]

/-! ## The event that admission appends -/

theorem get_empty (key : String) : (⟨.empty, distinct_empty⟩ : AuditEntry).get key = .null := rfl

theorem get_typedEvent (kind time : String) : (typedEvent kind time).get "type" = .str kind ∧
    (typedEvent kind time).get "remote_binding" = .null := by
  simp [typedEvent, AuditEntry.get_set, get_empty]

theorem isBinding_typedEvent {kind time : String} (h : kind ≠ "hackerone_policy_bound") : isBinding (typedEvent kind time) = false := by
  unfold isBinding
  rw [(get_typedEvent _ _).1]
  exact Bool.eq_false_iff.mpr fun heq => h (Json.str.inj (AuditSeal.eq_str_of_pyEq heq))

/-- The fields of an event that binds a policy as the verification reads them. -/
structure Binds (env : BindingEnv) (policy : ProgramPolicy) (campaignFingerprint : String) (remote : Option RemoteBinding)
    (event : AuditEntry) : Prop where
  type : event.get "type" = .str "hackerone_policy_bound"
  provider : event.get "provider" = .str "hackerone"
  mode : event.get "mode" = .str "conservative"
  snapshot : event.get "policy_snapshot" = .obj (policy.toSnapshot env.floats)
  digest : event.get "policy_snapshot_sha256" = .str (jsonSha256 env.audit.sha (.obj (policy.toSnapshot env.floats)))
  campaign : event.get "campaign_policy_fingerprint" = .str campaignFingerprint
  fingerprint : event.get "binding_fingerprint" = .str (bindingFingerprint env.audit.sha
    (jsonSha256 env.audit.sha (.obj (policy.toSnapshot env.floats))) campaignFingerprint (remote.map fun r => .obj r.fields))
  remote : event.get "remote_binding" = (remote.map fun r => Json.obj r.fields).getD .null

theorem binds_bindingEvent (env : BindingEnv) (boundAt : String) (policy : ProgramPolicy) (campaignFingerprint : String)
    (remote : Option RemoteBinding) :
    Binds env policy campaignFingerprint remote (bindingEvent env boundAt policy campaignFingerprint remote) := by
  cases remote with
  | none => constructor <;> simp [bindingEvent, AuditEntry.get_set, get_typedEvent]
  | some r => constructor <;> simp [bindingEvent, AuditEntry.get_set, get_typedEvent]

variable {policy : ProgramPolicy} {remote : Option RemoteBinding} {event : AuditEntry}

variable {sealedEvent : AuditEntry}

/-- Sealing keeps what an event binds. -/
theorem Binds.of_sameFields {campaignFingerprint : String}
    (h : Binds env policy campaignFingerprint remote event) (hsame : SameFields sealedEvent event) :
    Binds env policy campaignFingerprint remote sealedEvent where
  type := (hsame _ (by decide)).trans h.type
  provider := (hsame _ (by decide)).trans h.provider
  mode := (hsame _ (by decide)).trans h.mode
  snapshot := (hsame _ (by decide)).trans h.snapshot
  digest := (hsame _ (by decide)).trans h.digest
  campaign := (hsame _ (by decide)).trans h.campaign
  fingerprint := (hsame _ (by decide)).trans h.fingerprint
  remote := (hsame _ (by decide)).trans h.remote

theorem isBinding_of_sameFields (h : SameFields sealedEvent event) :
    isBinding sealedEvent = isBinding event := by
  unfold isBinding
  rw [h "type" (by decide)]

theorem Binds.isBinding {campaignFingerprint : String}
    (h : Binds env policy campaignFingerprint remote event) : isBinding event = true := by
  unfold HackerOneBinding.isBinding
  rw [h.type]
  exact AuditSeal.pyEq_str _

/-! ## Acceptance -/

theorem get_toSnapshot (floats : FloatText) (p : ProgramPolicy) :
    HackerOneScope.get (p.toSnapshot floats) "safe_harbor_confirmed" = .bool p.safeHarborConfirmed ∧
      HackerOneScope.get (p.toSnapshot floats) "automated_scanning" = .bool p.automatedScanning ∧
      HackerOneScope.get (p.toSnapshot floats) "test_account_required" = .bool p.testAccountRequired ∧
      HackerOneScope.get (p.toSnapshot floats) "test_account_constraints" = .str p.testAccountConstraints ∧
      HackerOneScope.get (p.toSnapshot floats) "additional_restrictions" = texts p.additionalRestrictions := by
  simp [ProgramPolicy.toSnapshot, get_cons]

/-- A policy that nothing speaks against has all permissions and no conditions. -/
theorem conservative_of_reason {p : ProgramPolicy} (h : conservativeAdmissionReason p = none) :
    p.safeHarborConfirmed = true ∧ p.automatedScanning = true ∧ p.testAccountRequired = false ∧ p.testAccountConstraints = "" ∧
      p.additionalRestrictions = [] := by
  unfold conservativeAdmissionReason at h
  split at h
  · cases h
  rename_i hharbor
  split at h
  · cases h
  rename_i hscanning
  split at h
  · cases h
  rename_i haccount
  split at h
  · cases h
  rename_i hconstraints
  split at h
  · cases h
  rename_i hrestrictions
  exact ⟨(Bool.not_eq_false _).mp hharbor, (Bool.not_eq_false _).mp hscanning, (Bool.not_eq_true _).mp haccount,
    not_not.mp hconstraints, not_not.mp hrestrictions⟩

variable {current : String} {events : List AuditEntry}

/-- A sealed chain with one event that binds a conservative policy is accepted. -/
theorem verify_of_binds
    (hchain : FullySealed env.audit secret events) (hone : events.filter isBinding = [event])
    (hbinds : Binds env policy current remote event) (hpolicy : conservativeAdmissionReason policy = none) :
    ∃ verdict, verifyHackeroneCampaignBinding env secret events current = .ok verdict ∧ verdict.required = true ∧
      verdict.valid = true := by
  obtain ⟨chain, hverify, hvalid, hlegacy⟩ := hchain
  obtain ⟨hharbor, hscanning, haccount, hconstraints, hrestrictions⟩ := conservative_of_reason hpolicy
  obtain ⟨gharbor, gscanning, gaccount, gconstraints, grestrictions⟩ := get_toSnapshot env.floats policy
  have hreasons : bindingReasons env 1 chain event true current = [] := by
    unfold bindingReasons
    rw [hbinds.provider, hbinds.mode, hbinds.snapshot, hbinds.digest, hbinds.campaign, declared_str, declared_str]
    dsimp only [dictFields]
    rw [gharbor, gscanning, gaccount, grestrictions, hvalid, hlegacy, hharbor, hscanning, haccount, hrestrictions]
    simp [reasonsOf, AuditSeal.pyEq_str, isDict, isBool, texts, noRestrictions]
  have hremote : validatedRemoteBinding env.scope.unicode (event.get "remote_binding") [] =
      .ok ([], remote.map fun r => .obj r.fields) := by
    rw [hbinds.remote]
    cases remote with
    | none => rfl
    | some r => exact validated_of_remote _ r
  have hmember : memberOf [""] true (HackerOneScope.get (dictFields (event.get "policy_snapshot")) "test_account_constraints") =
      .ok true := by
    rw [hbinds.snapshot]
    dsimp only [dictFields]
    rw [gconstraints, hconstraints]
    rfl
  have hlast : (events.filter isBinding).getLast? = some event := by
    rw [hone]
    rfl
  unfold verifyHackeroneCampaignBinding
  rw [hlast, hverify]
  dsimp only
  rw [hmember]
  dsimp only
  rw [hone, List.length_singleton, hreasons, hremote]
  dsimp only
  rw [hbinds.fingerprint, declared_str, hbinds.snapshot]
  dsimp only [dictFields]
  exact ⟨_, rfl, rfl, by simp⟩

/-! ## Admission, and the events after it -/

variable {payload : AdmissionInput}

theorem admittedRules_policy {rules : ExecutionContract.ProgramRules}
    (h : admittedRules env payload = .ok (policy, rules)) : conservativeAdmissionReason policy = none := by
  unfold admittedRules at h
  split at h
  · cases h
  split at h
  · cases h
  split at h
  · cases h
  rename_i hreason
  split at h
  · cases h
  split at h
  · cases h
  cases h
  exact hreason

/-- What an admission appends. -/
theorem admit_cases {fetch : String → Except AdmissionError Snapshot} {draw : Draw}
    {verified : Option RemoteBinding} {c : BoundCampaign}
    (h : admitHackeroneCampaign env signer fetch draw payload verified = .ok c) :
    ∃ policy campaignFingerprint remote created bound, conservativeAdmissionReason policy = none ∧
      policySnapshotFingerprint env.python c.campaign = .ok campaignFingerprint ∧
      sealCampaignEvent env.audit signer (typedEvent "campaign_created" draw.createdAt) [] = .ok created ∧
      sealCampaignEvent env.audit signer (bindingEvent env draw.boundAt policy campaignFingerprint remote) [created] = .ok bound ∧
      c.events = [created, bound] := by
  unfold admitHackeroneCampaign at h
  split at h
  · cases h
  rename_i remote _
  split at h
  · cases h
  rename_i policy rules hrules
  dsimp only at h
  split at h
  · cases h
  rename_i campaignFingerprint hfingerprint
  split at h
  · cases h
  rename_i created hcreated
  split at h
  · cases h
  rename_i bound hbound
  cases h
  exact ⟨policy, campaignFingerprint, remote, created, bound, admittedRules_policy hrules, hfingerprint, hcreated, hbound, rfl⟩

theorem append_of_seal
    (h : sealCampaignEvent env.audit signer event events = .ok sealedEvent) :
    appendCampaignEvent env.audit events (event, signer) = events ++ [sealedEvent] := by
  unfold appendCampaignEvent
  rw [h]

/-- An event of another type does not bind. -/
theorem filter_append_event {append : AuditEntry × ResolvedSecret} (h : isBinding append.1 = false) :
    (appendCampaignEvent env.audit events append).filter isBinding = events.filter isBinding := by
  unfold appendCampaignEvent
  split
  · rfl
  · rename_i sealedEvent hseal
    rw [List.filter_append, List.filter_cons_of_neg, List.filter_nil, List.append_nil]
    rw [isBinding_of_sameFields (CampaignAudit.sameFields_seal hseal), h]
    exact Bool.false_ne_true

/-- What holds of a campaign from its admission on. -/
structure Bound (env : BindingEnv) (secret : ResolvedSecret) (c : Campaign) (events : List AuditEntry) : Prop where
  built : Built env.audit secret events
  binding : ∃ policy current remote event, conservativeAdmissionReason policy = none ∧
    policySnapshotFingerprint env.python c = .ok current ∧ events.filter isBinding = [event] ∧ Binds env policy current remote event

variable {c : Campaign}

theorem bound_of_seals {createdAt boundAt : String}
    {created bound : AuditEntry} (hpolicy : conservativeAdmissionReason policy = none)
    (hcurrent : policySnapshotFingerprint env.python c = .ok current)
    (hcreated : sealCampaignEvent env.audit signer (typedEvent "campaign_created" createdAt) [] = .ok created)
    (hbound : sealCampaignEvent env.audit signer (bindingEvent env boundAt policy current remote) [created] = .ok bound)
    (hkey : signer.key = none ∨ signer.key = secret.key) : Bound env secret c [created, bound] := by
  have hbinds := (binds_bindingEvent env boundAt policy current remote).of_sameFields (CampaignAudit.sameFields_seal hbound)
  have hother : isBinding created = false := by
    rw [isBinding_of_sameFields (CampaignAudit.sameFields_seal hcreated)]
    exact isBinding_typedEvent (by decide)
  refine ⟨?_, policy, current, remote, bound, hpolicy, hcurrent, ?_, hbinds⟩
  · have hnil : Built env.audit secret [] := ⟨rfl, fun item h => absurd h List.not_mem_nil⟩
    have hfirst := hnil.append (typedEvent "campaign_created" createdAt) hkey
    rw [append_of_seal hcreated] at hfirst
    have hsecond := hfirst.append (bindingEvent env boundAt policy current remote) hkey
    rw [List.nil_append, append_of_seal hbound] at hsecond
    exact hsecond
  · rw [List.filter_cons_of_neg (ne_true_of_eq_false hother), List.filter_cons_of_pos hbinds.isBinding, List.filter_nil]

theorem bound_of_admission {fetch : String → Except AdmissionError Snapshot} {draw : Draw}
    {verified : Option RemoteBinding} {c : BoundCampaign}
    (h : admitHackeroneCampaign env signer fetch draw payload verified = .ok c) (hkey : signer.key = none ∨ signer.key = secret.key) :
    Bound env secret c.campaign c.events := by
  obtain ⟨policy, current, remote, created, bound, hpolicy, hcurrent, hcreated, hbound, hevents⟩ := admit_cases h
  rw [hevents]
  exact bound_of_seals hpolicy hcurrent hcreated hbound hkey

theorem Bound.append (h : Bound env secret c events) {append : AuditEntry × ResolvedSecret}
    (hkey : append.2.key = none ∨ append.2.key = secret.key) (hother : isBinding append.1 = false) :
    Bound env secret c (appendCampaignEvent env.audit events append) := by
  obtain ⟨policy, current, remote, event, hpolicy, hcurrent, hone, hbinds⟩ := h.binding
  exact ⟨h.built.append append.1 hkey, policy, current, remote, event, hpolicy, hcurrent, (filter_append_event hother).trans hone, hbinds⟩

theorem Bound.appends (appends : List (AuditEntry × ResolvedSecret))
    (h : Bound env secret c events)
    (happends : ∀ a ∈ appends, (a.2.key = none ∨ a.2.key = secret.key) ∧ isBinding a.1 = false) :
    Bound env secret c (appends.foldl (appendCampaignEvent env.audit) events) := by
  induction appends generalizing events with
  | nil => exact h
  | cons a appends ih =>
    have ha := happends a List.mem_cons_self
    exact ih (h.append ha.1 ha.2) fun b hb => happends b (List.mem_cons_of_mem a hb)

theorem Bound.verify (h : Bound env secret c events) :
    ∃ current verdict, policySnapshotFingerprint env.python c = .ok current ∧
      verifyHackeroneCampaignBinding env secret events current = .ok verdict ∧ verdict.required = true ∧ verdict.valid = true := by
  obtain ⟨policy, current, remote, event, hpolicy, hcurrent, hone, hbinds⟩ := h.binding
  obtain ⟨verdict, hverify⟩ := verify_of_binds (CampaignAudit.fullySealed_of_built h.built) hone hbinds hpolicy
  exact ⟨current, verdict, hcurrent, hverify⟩

/-! ## What an accepted campaign has -/

theorem validated_append {u : Unicode} {value : Json} {reasons reasons' : List String} {remote : Option Json}
    (h : validatedRemoteBinding u value reasons = .ok (reasons', remote)) : ∃ new, reasons' = reasons ++ new := by
  unfold validatedRemoteBinding at h
  split at h
  · cases h
    exact ⟨[], (List.append_nil _).symm⟩
  · split at h
    · cases h
    rename_i new _
    dsimp only at h
    split at h
    · cases h
      exact ⟨new, rfl⟩
    · cases h
      exact ⟨new, rfl⟩
  · cases h
    exact ⟨_, rfl⟩

variable {result : List String × Option Json}

/-- Whether the remote binding can be read does not depend on the reasons before it. -/
theorem validated_of_validated {u : Unicode} {value : Json} {reasons : List String}
    (h : validatedRemoteBinding u value reasons = .ok result) (reasons' : List String) :
    ∃ result', validatedRemoteBinding u value reasons' = .ok result' := by
  unfold validatedRemoteBinding at h ⊢
  cases value with
  | null => exact ⟨_, rfl⟩
  | obj fields =>
    dsimp only at h ⊢
    split at h
    · cases h
    split
    · exact ⟨_, rfl⟩
    · exact ⟨_, rfl⟩
  | _ => exact ⟨_, rfl⟩

/-- The lines of a verification that found an event, up to the remote binding. -/
structure Reading (env : BindingEnv) (secret : ResolvedSecret) (events : List AuditEntry) (current : String) (binding : AuditEntry)
    (chain : CampaignAudit.Verdict) (constraintsEmpty : Bool) (result : List String × Option Json) : Prop where
  last : (events.filter isBinding).getLast? = some binding
  audit : verifyCampaignEventChain env.audit secret events = .ok chain
  constraints : memberOf [""] true (HackerOneScope.get (dictFields (binding.get "policy_snapshot")) "test_account_constraints") =
    .ok constraintsEmpty
  remote : validatedRemoteBinding env.scope.unicode (binding.get "remote_binding")
    (bindingReasons env (events.filter isBinding).length chain binding constraintsEmpty current) = .ok result

/-- The verdict of such a verification. -/
def verdictOf (env : BindingEnv) (binding : AuditEntry) (current : String) (result : List String × Option Json) : BindingVerdict :=
  let fingerprint := declared env (binding.get "binding_fingerprint")
  let expected := bindingFingerprint env.audit.sha
    (jsonSha256 env.audit.sha (.obj (dictFields (binding.get "policy_snapshot")))) current result.2
  let reasons := if fingerprint = expected then result.1 else result.1 ++ ["binding_fingerprint_mismatch"]
  ⟨true, reasons.isEmpty, sortedSet reasons, if fingerprint = "" then none else some fingerprint⟩

theorem verify_of_reading {binding : AuditEntry} {chain : CampaignAudit.Verdict}
    {constraintsEmpty : Bool}
    (h : Reading env secret events current binding chain constraintsEmpty result) :
    verifyHackeroneCampaignBinding env secret events current = .ok (verdictOf env binding current result) := by
  unfold verifyHackeroneCampaignBinding
  rw [h.last, h.audit]
  dsimp only
  rw [h.constraints]
  dsimp only
  rw [h.remote]
  rfl

variable {verdict : BindingVerdict}

theorem reading_of_verify
    (h : verifyHackeroneCampaignBinding env secret events current = .ok verdict) (hrequired : verdict.required = true) :
    ∃ binding chain constraintsEmpty result, Reading env secret events current binding chain constraintsEmpty result ∧
      verdict = verdictOf env binding current result := by
  unfold verifyHackeroneCampaignBinding at h
  split at h
  · cases h
    cases hrequired
  rename_i binding hbinding
  split at h
  · cases h
  rename_i chain hchain
  dsimp only at h
  split at h
  · cases h
  rename_i constraintsEmpty hconstraints
  split at h
  · cases h
  rename_i reasons remote hremote
  cases h
  exact ⟨binding, chain, constraintsEmpty, (reasons, remote), ⟨hbinding, hchain, hconstraints, hremote⟩, rfl⟩

/-- A valid verdict has no reason before the remote binding. -/
theorem Reading.reasons_nil {binding : AuditEntry} {chain : CampaignAudit.Verdict}
    {constraintsEmpty : Bool}
    (h : Reading env secret events current binding chain constraintsEmpty result)
    (hvalid : (verdictOf env binding current result).valid = true) :
    bindingReasons env (events.filter isBinding).length chain binding constraintsEmpty current = [] := by
  obtain ⟨new, hnew⟩ : ∃ new, result.1 =
      bindingReasons env (events.filter isBinding).length chain binding constraintsEmpty current ++ new := validated_append h.remote
  have hnil : result.1 = [] := by
    unfold verdictOf at hvalid
    dsimp only at hvalid
    split at hvalid
    · exact List.isEmpty_iff.mp hvalid
    · simp at hvalid
  rw [hnil] at hnew
  exact (List.append_eq_nil_iff.mp hnew.symm).1

/-- What the verification has found of a campaign that it accepts with an event. -/
structure Accepted (env : BindingEnv) (secret : ResolvedSecret) (events : List AuditEntry) (current : String) (binding : AuditEntry) :
    Prop where
  one : events.filter isBinding = [binding]
  sealed : FullySealed env.audit secret events
  campaign : declared env (binding.get "campaign_policy_fingerprint") = current

theorem Reading.accepted {events : List AuditEntry} {current : String} {binding : AuditEntry} {chain : CampaignAudit.Verdict}
    {constraintsEmpty : Bool} {result : List String × Option Json}
    (h : Reading env secret events current binding chain constraintsEmpty result)
    (hvalid : (verdictOf env binding current result).valid = true) : Accepted env secret events current binding := by
  have hreasons := reasonsOf_eq_nil.mp (h.reasons_nil hvalid)
  have hcount := hreasons (decide ((events.filter isBinding).length ≠ 1), "binding_event_count_invalid") (by simp)
  have hchain := hreasons (!chain.valid || decide (chain.legacyUnsealed ≠ 0), "campaign_audit_chain_invalid") (by simp)
  have hcampaign := hreasons (decide (declared env (binding.get "campaign_policy_fingerprint") ≠ current),
    "campaign_policy_fingerprint_mismatch") (by simp)
  refine ⟨?_, ⟨chain, h.audit, ?_, ?_⟩, ?_⟩
  · obtain ⟨event, hone⟩ := List.length_eq_one_iff.mp (not_not.mp (of_decide_eq_false hcount))
    have hlast := h.last
    rw [hone] at hlast ⊢
    exact congrArg (fun e => [e]) (Option.some.inj hlast)
  · exact (Bool.not_eq_false' _).mp (Bool.or_eq_false_iff.mp hchain).1
  · exact not_not.mp (of_decide_eq_false (Bool.or_eq_false_iff.mp hchain).2)
  · exact not_not.mp (of_decide_eq_false hcampaign)

theorem accepted_of_verify
    (h : verifyHackeroneCampaignBinding env secret events current = .ok verdict) (hrequired : verdict.required = true)
    (hvalid : verdict.valid = true) : ∃ binding, Accepted env secret events current binding := by
  obtain ⟨binding, chain, constraintsEmpty, result, hreading, rfl⟩ := reading_of_verify h hrequired
  exact ⟨binding, hreading.accepted hvalid⟩

/-- Another fingerprint of the campaign is reported. -/
theorem rejected_of_other {current' : String}
    (h : verifyHackeroneCampaignBinding env secret events current = .ok verdict) (hrequired : verdict.required = true)
    (hvalid : verdict.valid = true) (hne : current ≠ current') :
    ∃ verdict', verifyHackeroneCampaignBinding env secret events current' = .ok verdict' ∧ verdict'.required = true ∧
      verdict'.valid = false := by
  obtain ⟨binding, chain, constraintsEmpty, result, hreading, rfl⟩ := reading_of_verify h hrequired
  obtain ⟨result', hresult'⟩ := validated_of_validated hreading.remote
    (bindingReasons env (events.filter isBinding).length chain binding constraintsEmpty current')
  have hreading' : Reading env secret events current' binding chain constraintsEmpty result' :=
    ⟨hreading.last, hreading.audit, hreading.constraints, hresult'⟩
  refine ⟨_, verify_of_reading hreading', rfl, Bool.eq_false_iff.mpr fun hvalid' => ?_⟩
  exact hne ((hreading.accepted hvalid).campaign.symm.trans (hreading'.accepted hvalid').campaign)

/-! ## What the fingerprint fixes -/

/-- `stable_policy_snapshot` -/
def stableFields (floats : FloatText) (host : String) (c : Campaign) : List (String × Json) :=
  [("campaign_id", .str c.id), ("target", .str c.primaryUrl), ("host", .str host),
    ("authorization_reference", .str c.rules.authorizationReference), ("allowed_targets", texts (sorted c.rules.allowedTargets)),
    ("denied_targets", texts (sorted c.rules.deniedTargets)),
    ("max_requests_per_second", rateJson floats c.rules.maxRequestsPerSecond),
    ("automated_scanning", .bool c.rules.automatedScanning), ("destructive_testing", .bool c.rules.destructiveTesting),
    ("denial_of_service", .bool c.rules.denialOfService), ("social_engineering", .bool c.rules.socialEngineering),
    ("credential_attacks", .bool c.rules.credentialAttacks)]

/-- The text of which the fingerprint is the digest. -/
def stableText (floats : FloatText) (host : String) (c : Campaign) : List UInt8 :=
  utf8 (Json.obj (stableFields floats host c)).dumpsSorted

variable {py : Python}

theorem fingerprint_cases (h : policySnapshotFingerprint py c = .ok current) :
    ∃ host, urlHost py.unicode c.primaryUrl = some host ∧ current = py.sha.hex (stableText py.floats host c) := by
  unfold policySnapshotFingerprint at h
  split at h
  · cases h
  rename_i host hhost
  cases h
  exact ⟨host, hhost, rfl⟩

/-- The policies of two campaigns, up to the order of their scope lists. -/
structure SamePolicy (c c' : Campaign) : Prop where
  id : c.id = c'.id
  target : c.primaryUrl = c'.primaryUrl
  authorization : c.rules.authorizationReference = c'.rules.authorizationReference
  allowed : c.rules.allowedTargets.Perm c'.rules.allowedTargets
  denied : c.rules.deniedTargets.Perm c'.rules.deniedTargets
  rate : c.rules.maxRequestsPerSecond = c'.rules.maxRequestsPerSecond
  scanning : c.rules.automatedScanning = c'.rules.automatedScanning
  destructive : c.rules.destructiveTesting = c'.rules.destructiveTesting
  denial : c.rules.denialOfService = c'.rules.denialOfService
  social : c.rules.socialEngineering = c'.rules.socialEngineering
  credential : c.rules.credentialAttacks = c'.rules.credentialAttacks

theorem distinct_stableFields (floats : FloatText) (host : String) (c : Campaign) : (Json.obj (stableFields floats host c)).Distinct := by
  refine distinct_of_fields ?_ fun f hf => ?_
  · simp only [stableFields, List.map_cons, List.map_nil]
    decide
  · simp only [stableFields, List.mem_cons, List.not_mem_nil, or_false] at hf
    rcases hf with rfl | rfl | rfl | rfl | rfl | rfl | rfl | rfl | rfl | rfl | rfl | rfl
    all_goals first | exact distinct_str _ | exact distinct_bool _ | exact distinct_rateJson _ _ | exact distinct_texts _

theorem sortKeys_texts (values : List String) : (texts values).sortKeys = texts values := by
  unfold texts
  rw [Json.sortKeys, Json.sortKeysElems_eq, List.map_map]
  rfl

theorem texts_injective {values values' : List String} (h : texts values = texts values') : values = values' :=
  List.map_injective_iff.mpr (fun _ _ heq => Json.str.inj heq) (Json.arr.inj h)

theorem perm_of_sorted {values values' : List String} (h : sorted values = sorted values') : values.Perm values' :=
  ((List.perm_insertionSort _ values).symm.trans (List.Perm.of_eq h)).trans (List.perm_insertionSort _ values')

theorem sortKeys_rateJson (floats : FloatText) (rate : Binary64) : (rateJson floats rate).sortKeys = rateJson floats rate := by
  cases rate <;> rfl

/-- Where the same text was hashed, and the two rates are written apart, the policies are the same. -/
theorem samePolicy_of_text {floats : FloatText} {host host' : String} {c' : Campaign}
    (hrate : rateJson floats c.rules.maxRequestsPerSecond = rateJson floats c'.rules.maxRequestsPerSecond →
      c.rules.maxRequestsPerSecond = c'.rules.maxRequestsPerSecond)
    (h : stableText floats host c = stableText floats host' c') : SamePolicy c c' := by
  have hfield : ∀ {k : String} {v w : Json}, (k, v) ∈ stableFields floats host c →
      (∀ u, (k, u) ∈ stableFields floats host' c' → u = w) → w.sortKeys = v.sortKeys := by
    intro k v w hv hw
    obtain ⟨u, hu, hsort⟩ := AuditSeal.field_of_dumpsSorted_eq (distinct_stableFields _ _ _) (distinct_stableFields _ _ _)
      (utf8_injective h) hv
    rw [← hw u hu, hsort]
  have hid := hfield (k := "campaign_id") (v := .str c.id) (w := .str c'.id) (by simp [stableFields]) (by simp [stableFields])
  have htarget := hfield (k := "target") (v := .str c.primaryUrl) (w := .str c'.primaryUrl) (by simp [stableFields])
    (by simp [stableFields])
  have hauthorization := hfield (k := "authorization_reference") (v := .str c.rules.authorizationReference)
    (w := .str c'.rules.authorizationReference) (by simp [stableFields]) (by simp [stableFields])
  have hallowed := hfield (k := "allowed_targets") (v := texts (sorted c.rules.allowedTargets))
    (w := texts (sorted c'.rules.allowedTargets)) (by simp [stableFields]) (by simp [stableFields])
  have hdenied := hfield (k := "denied_targets") (v := texts (sorted c.rules.deniedTargets))
    (w := texts (sorted c'.rules.deniedTargets)) (by simp [stableFields]) (by simp [stableFields])
  have hcap := hfield (k := "max_requests_per_second") (v := rateJson floats c.rules.maxRequestsPerSecond)
    (w := rateJson floats c'.rules.maxRequestsPerSecond) (by simp [stableFields]) (by simp [stableFields])
  have hflag : ∀ {k : String} {flag flag' : Bool}, (k, .bool flag) ∈ stableFields floats host c →
      (∀ u, (k, u) ∈ stableFields floats host' c' → u = .bool flag') → flag = flag' := by
    intro k flag flag' hmem hmem'
    exact (Json.bool.inj (hfield hmem hmem')).symm
  rw [sortKeys_texts, sortKeys_texts] at hallowed hdenied
  rw [sortKeys_rateJson, sortKeys_rateJson] at hcap
  exact {
    id := (Json.str.inj hid).symm
    target := (Json.str.inj htarget).symm
    authorization := (Json.str.inj hauthorization).symm
    allowed := perm_of_sorted (texts_injective hallowed.symm)
    denied := perm_of_sorted (texts_injective hdenied.symm)
    rate := hrate hcap.symm
    scanning := hflag (k := "automated_scanning") (by simp [stableFields]) (by simp [stableFields])
    destructive := hflag (k := "destructive_testing") (by simp [stableFields]) (by simp [stableFields])
    denial := hflag (k := "denial_of_service") (by simp [stableFields]) (by simp [stableFields])
    social := hflag (k := "social_engineering") (by simp [stableFields]) (by simp [stableFields])
    credential := hflag (k := "credential_attacks") (by simp [stableFields]) (by simp [stableFields]) }

/-- No collision between two texts. -/
def NoCollision (sha : Sha256) (x y : List UInt8) : Prop := sha.hex x = sha.hex y → x = y

/-- The text of which the fingerprint of a campaign is the digest, if its target can be read. -/
def policyText (py : Python) (c : Campaign) : Option (List UInt8) :=
  (urlHost py.unicode c.primaryUrl).map fun host => stableText py.floats host c

theorem policyText_of_fingerprint (h : policySnapshotFingerprint py c = .ok current) :
    ∃ host, policyText py c = some (stableText py.floats host c) ∧ current = py.sha.hex (stableText py.floats host c) := by
  obtain ⟨host, hhost, hcurrent⟩ := fingerprint_cases h
  refine ⟨host, ?_, hcurrent⟩
  unfold policyText
  rw [hhost]
  rfl

theorem fingerprint_of_policyText {text : List UInt8} (h : policyText py c = some text) :
    policySnapshotFingerprint py c = .ok (py.sha.hex text) := by
  unfold policyText at h
  unfold policySnapshotFingerprint
  split
  · rename_i hnone
    rw [hnone] at h
    cases h
  rename_i host hhost
  rw [hhost] at h
  have htext : stableText py.floats host c = text := Option.some.inj h
  rw [← htext]
  rfl

/-- The fingerprint of another policy is another one. -/
theorem fingerprint_ne {c' : Campaign} {current' : String}
    (h : policySnapshotFingerprint py c = .ok current) (h' : policySnapshotFingerprint py c' = .ok current')
    (hrate : rateJson py.floats c.rules.maxRequestsPerSecond = rateJson py.floats c'.rules.maxRequestsPerSecond →
      c.rules.maxRequestsPerSecond = c'.rules.maxRequestsPerSecond)
    (hcollision : ∀ x ∈ policyText py c, ∀ y ∈ policyText py c', NoCollision py.sha x y) (hother : ¬ SamePolicy c c') :
    current ≠ current' := by
  intro heq
  obtain ⟨host, htext, hcurrent⟩ := policyText_of_fingerprint h
  obtain ⟨host', htext', hcurrent'⟩ := policyText_of_fingerprint h'
  refine hother (samePolicy_of_text hrate (hcollision _ htext _ htext' ?_))
  rw [← hcurrent, ← hcurrent', heq]

/-! ## What the chain fixes -/

theorem required_of_mem
    (h : verifyHackeroneCampaignBinding env secret events current = .ok verdict) (hmem : event ∈ events)
    (hbinding : isBinding event = true) : verdict.required = true := by
  have hfilter : event ∈ events.filter isBinding := List.mem_filter.mpr ⟨hmem, hbinding⟩
  unfold verifyHackeroneCampaignBinding at h
  split at h
  · rename_i hnone
    rw [List.getLast?_eq_none_iff.mp hnone] at hfilter
    cases hfilter
  split at h
  · cases h
  dsimp only at h
  split at h
  · cases h
  split at h
  · cases h
  cases h
  rfl

theorem linked_of_sealed (h : FullySealed env.audit secret events) :
    HashChain.Linked canonicalEvent env.audit.sha.hex CampaignAudit.namedHash none events ∧
      ∀ item ∈ events, env.audit.str (item.get "event_hash") = env.audit.sha.hex (canonicalEvent item) := by
  obtain ⟨_, hcheck⟩ := CampaignAudit.checkEvents_of_fullySealed h
  exact CampaignAudit.linked_of_checkEvents rfl hcheck

/-- Two sealed chains that differ in one event only: it has the same digest in both, unless it is the last one with a new hash. -/
theorem same_of_sealed {pre post : List AuditEntry} {event' : AuditEntry}
    (h : FullySealed env.audit secret (pre ++ event :: post)) (h' : FullySealed env.audit secret (pre ++ event' :: post))
    (hkept : post ≠ [] ∨ event'.get "event_hash" = event.get "event_hash")
    (hcollision : NoCollision env.audit.sha (canonicalEvent event) (canonicalEvent event')) :
    canonicalEvent event = canonicalEvent event' ∧
      env.audit.str (event.get "event_hash") = env.audit.str (event'.get "event_hash") := by
  obtain ⟨hlinked, hhash⟩ := linked_of_sealed h
  obtain ⟨hlinked', hhash'⟩ := linked_of_sealed h'
  have hevent := hhash event (List.mem_append_right _ List.mem_cons_self)
  have hevent' := hhash' event' (List.mem_append_right _ List.mem_cons_self)
  have hsame : env.audit.sha.hex (canonicalEvent event) = env.audit.sha.hex (canonicalEvent event') := by
    rcases hkept with hpost | hkept
    · cases post with
      | nil => exact absurd rfl hpost
      | cons next post =>
        -- the next event is the same one, and names the hash of the event before it
        exact Option.some.inj (hlinked.names_next.symm.trans hlinked'.names_next)
    · rw [← hevent, ← hevent', hkept]
  exact ⟨hcollision hsame, by rw [hevent, hevent', hsame]⟩

/-! ## Admission and binding agree -/

/-- What an admission makes is accepted, also after further events that bind nothing; where a campaign is accepted with an event that
binds its policy, the fingerprint of any other policy is reported, and so is a change of that event which keeps its type, unless it is
the last event and its hash is computed anew. -/
theorem admission_binding_agree (env : BindingEnv) (secret : ResolvedSecret) :
    (∀ signer fetch draw payload verified c, (signer.key = none ∨ signer.key = secret.key) →
      admitHackeroneCampaign env signer fetch draw payload verified = .ok c →
      ∀ appends : List (AuditEntry × ResolvedSecret),
        (∀ a ∈ appends, (a.2.key = none ∨ a.2.key = secret.key) ∧ isBinding a.1 = false) →
        ∃ current verdict, policySnapshotFingerprint env.python c.campaign = .ok current ∧
          verifyHackeroneCampaignBinding env secret (appends.foldl (appendCampaignEvent env.audit) c.events) current = .ok verdict ∧
          verdict.required = true ∧ verdict.valid = true) ∧
    ∀ c events current verdict, policySnapshotFingerprint env.python c = .ok current →
      verifyHackeroneCampaignBinding env secret events current = .ok verdict → verdict.required = true → verdict.valid = true →
      (∀ c' current', policySnapshotFingerprint env.python c' = .ok current' → ¬ SamePolicy c c' →
        (rateJson env.floats c.rules.maxRequestsPerSecond = rateJson env.floats c'.rules.maxRequestsPerSecond →
          c.rules.maxRequestsPerSecond = c'.rules.maxRequestsPerSecond) →
        (∀ x ∈ policyText env.python c, ∀ y ∈ policyText env.python c', NoCollision env.audit.sha x y) →
        ∃ verdict', verifyHackeroneCampaignBinding env secret events current' = .ok verdict' ∧ verdict'.required = true ∧
          verdict'.valid = false) ∧
      ∀ pre event post event', events = pre ++ event :: post → isBinding event = true → isBinding event' = true →
        (canonicalEvent event ≠ canonicalEvent event' ∨
          env.audit.str (event.get "event_hash") ≠ env.audit.str (event'.get "event_hash")) →
        (post ≠ [] ∨ event'.get "event_hash" = event.get "event_hash") →
        NoCollision env.audit.sha (canonicalEvent event) (canonicalEvent event') →
        ∀ current' verdict', verifyHackeroneCampaignBinding env secret (pre ++ event' :: post) current' = .ok verdict' →
          verdict'.valid = false := by
  constructor
  · intro signer fetch draw payload verified c hkey hadmission appends happends
    exact ((bound_of_admission hadmission hkey).appends appends happends).verify
  · intro c events current verdict hcurrent hverify hrequired hvalid
    constructor
    · intro c' current' hcurrent' hother hrate hcollision
      exact rejected_of_other hverify hrequired hvalid (fingerprint_ne hcurrent hcurrent' hrate hcollision hother)
    · rintro pre event post event' rfl - hbinding' hchange hkept hcollision current' verdict' hverify'
      refine Bool.eq_false_iff.mpr fun hvalid' => ?_
      have hmem : event' ∈ pre ++ event' :: post := List.mem_append_right _ List.mem_cons_self
      obtain ⟨_, haccepted⟩ := accepted_of_verify hverify hrequired hvalid
      obtain ⟨_, haccepted'⟩ := accepted_of_verify hverify' (required_of_mem hverify' hmem hbinding') hvalid'
      obtain ⟨hcanonical, hhash⟩ := same_of_sealed haccepted.sealed haccepted'.sealed hkept hcollision
      rcases hchange with hchange | hchange
      · exact hchange hcanonical
      · exact hchange hhash

/-! ## An admission with a scope of one domain -/

/-- A digest that tells whether a text has a tilde. -/
def tildeDigest (bytes : List UInt8) : String :=
  if bytes.any (fun b => decide (b.toNat = 126)) = true then String.ofList (List.replicate 64 'a')
  else String.ofList (List.replicate 64 'b')

theorem tildeDigest_valid (bytes : List UInt8) : RunnerRpc.isHexOfLength 64 (tildeDigest bytes) = true := by
  unfold tildeDigest
  split
  · decide
  · decide

def tildeSha : Sha256 := ⟨tildeDigest, tildeDigest_valid⟩

def sampleBindingEnv : BindingEnv where
  scope := HackerOneScope.sampleScope
  floats := ExecutionContract.samplePython.floats
  hmac := ExecutionContract.samplePython.hmac
  audit := ⟨tildeSha, CampaignAudit.sampleEnv.hmac, CampaignAudit.sampleEnv.hmac_valid, CampaignAudit.sampleStr,
    CampaignAudit.sampleEnv.str_str⟩

def samplePolicy : PolicyInput where
  authorizationReference := "program policy"
  policyVersion := "1"
  reviewedAt := ⟨1000000⟩
  offset := 0
  reviewedBy := "reviewer"
  safeHarborConfirmed := true
  automatedScanning := true
  maxRequestsPerSecond := .one
  testAccountRequired := false
  testAccountConstraints := ""
  additionalRestrictions := []
  programNotes := ""

def samplePayload : AdmissionInput :=
  ⟨HackerOneScope.sampleDocument "*.example.org", samplePolicy, none, none, none, "sample", "https://app.example.com/"⟩

def noFetch (_ : String) : Except AdmissionError Snapshot := .error (.http 404 "HackerOne resource was not found" none)

def sampleAdmission : Except AdmissionError BoundCampaign :=
  admitHackeroneCampaign sampleBindingEnv (.ok none) noFetch ⟨"campaign-1", "10:00", "10:01"⟩ samplePayload none

/-- A campaign with a page of its target as the target. -/
def movedTarget (c : Campaign) : Campaign := { c with primaryUrl := "https://app.example.com/~" }

theorem movedTarget_ne : "https://app.example.com/" ≠ (movedTarget c).primaryUrl := by
  show "https://app.example.com/" ≠ "https://app.example.com/~"
  decide

/-- Whether the text under a fingerprint has a tilde. -/
def hasTilde (c : Campaign) : Option Bool :=
  (policyText sampleBindingEnv.python c).map fun text => text.any fun b => decide (b.toNat = 126)

theorem sampleAdmission_facts :
    sampleAdmission.toOption.map (fun c => decide (c.campaign.primaryUrl = "https://app.example.com/")) = some true ∧
      sampleAdmission.toOption.map (fun c => hasTilde c.campaign) = some (some false) ∧
      sampleAdmission.toOption.map (fun c => hasTilde (movedTarget c.campaign)) = some (some true) := by
  refine ⟨?_, ?_, ?_⟩
  · decide +kernel
  · decide +kernel
  · decide +kernel

/-- The byte that is looked for is that of a tilde. -/
example : (utf8 "~").any (fun b => decide (b.toNat = 126)) = true := by decide +kernel

theorem sampleAdmission_ok : ∃ c, sampleAdmission = .ok c ∧ c.campaign.primaryUrl = "https://app.example.com/" ∧
    hasTilde c.campaign = some false ∧ hasTilde (movedTarget c.campaign) = some true := by
  obtain ⟨htarget, hplain, htilde⟩ := sampleAdmission_facts
  cases h : sampleAdmission with
  | error e =>
    rw [h] at htarget
    cases htarget
  | ok c =>
    rw [h] at htarget hplain htilde
    exact ⟨c, rfl, of_decide_eq_true (Option.some.inj htarget), Option.some.inj hplain, Option.some.inj htilde⟩

theorem tilde_of_hasTilde {flag : Bool} (h : hasTilde c = some flag) :
    ∃ text, policyText sampleBindingEnv.python c = some text ∧ text.any (fun b => decide (b.toNat = 126)) = flag := by
  unfold hasTilde at h
  exact Option.map_eq_some_iff.mp h

/-- Only one of the two texts has a tilde. -/
theorem noCollision_of_tilde {x y : List UInt8} (hx : x.any (fun b => decide (b.toNat = 126)) = false)
    (hy : y.any (fun b => decide (b.toNat = 126)) = true) : NoCollision tildeSha x y := by
  intro h
  have hdigests : tildeDigest x = tildeDigest y := h
  unfold tildeDigest at hdigests
  rw [if_neg (by rw [hx]; exact Bool.false_ne_true), if_pos hy] at hdigests
  exact absurd hdigests (by decide)

theorem hash_ne_empty (h : Built sampleBindingEnv.audit secret events)
    (hmem : event ∈ events) : sampleBindingEnv.audit.str (event.get "event_hash") ≠ "" := by
  obtain ⟨content, hhash⟩ := h.hashed event hmem
  rw [hhash, sampleBindingEnv.audit.str_str]
  intro hempty
  have hvalid := sampleBindingEnv.audit.sha.hex_valid content
  rw [hempty] at hvalid
  exact absurd hvalid (by decide)

def laterEvent : AuditEntry := typedEvent "scan_started" "10:02"

/-- The events of the admission and one more. -/
def laterEvents (c : BoundCampaign) : List AuditEntry := appendCampaignEvent sampleBindingEnv.audit c.events (laterEvent, .ok none)

/-- The admitted campaign is accepted after a later event; another target is reported, and so is the binding event without its hash. -/
theorem admission_binding_agree_sample :
    ∃ c current, sampleAdmission = .ok c ∧ policySnapshotFingerprint sampleBindingEnv.python c.campaign = .ok current ∧
      (∃ verdict, verifyHackeroneCampaignBinding sampleBindingEnv (.ok none) (laterEvents c) current = .ok verdict ∧
        verdict.required = true ∧ verdict.valid = true) ∧
      (∃ current' verdict', policySnapshotFingerprint sampleBindingEnv.python (movedTarget c.campaign) = .ok current' ∧
        verifyHackeroneCampaignBinding sampleBindingEnv (.ok none) (laterEvents c) current' = .ok verdict' ∧ verdict'.valid = false) ∧
      ∃ pre event post, laterEvents c = pre ++ event :: post ∧ isBinding event = true ∧ ∀ verdict',
        verifyHackeroneCampaignBinding sampleBindingEnv (.ok none) (pre ++ event.set "event_hash" (.str "") (distinct_str _) :: post)
          current = .ok verdict' → verdict'.valid = false := by
  obtain ⟨hadmitted, hchanged⟩ := admission_binding_agree sampleBindingEnv (.ok none)
  obtain ⟨c, hc, htarget, hplain, htilde⟩ := sampleAdmission_ok
  obtain ⟨current, verdict, hcurrent, hverify, hrequired, hvalid⟩ := hadmitted (.ok none) _ _ _ _ c (.inl rfl) hc
    [(laterEvent, .ok none)] fun a ha => by
      rw [List.mem_singleton.mp ha]
      exact ⟨.inl rfl, isBinding_typedEvent (by decide)⟩
  obtain ⟨hpolicy, hedit⟩ := hchanged c.campaign _ current verdict hcurrent hverify hrequired hvalid
  refine ⟨c, current, hc, hcurrent, ⟨verdict, hverify, hrequired, hvalid⟩, ?_, ?_⟩
  · obtain ⟨text, htext, hnone⟩ := tilde_of_hasTilde hplain
    obtain ⟨text', htext', hsome⟩ := tilde_of_hasTilde htilde
    obtain ⟨verdict', hverify', -, hvalid'⟩ := hpolicy (movedTarget c.campaign) _ (fingerprint_of_policyText htext')
      (fun hsame => movedTarget_ne (htarget.symm.trans hsame.target)) (fun _ => rfl) fun x hx y hy => by
        cases htext.symm.trans hx
        cases htext'.symm.trans hy
        exact noCollision_of_tilde hnone hsome
    exact ⟨_, verdict', fingerprint_of_policyText htext', hverify', hvalid'⟩
  · have hbuilt : Built sampleBindingEnv.audit (.ok none) c.events := (bound_of_admission hc (.inl rfl)).built
    obtain ⟨policy, fingerprint, remote, created, bound, -, -, -, hbound, hevents⟩ := admit_cases hc
    have hbinding : isBinding bound = true := by
      rw [isBinding_of_sameFields (CampaignAudit.sameFields_seal hbound)]
      exact (binds_bindingEvent _ _ _ _ _).isBinding
    have hshape : laterEvents c = [created] ++ bound :: [CampaignAudit.sealWith sampleBindingEnv.audit none
        (CampaignAudit.linked laterEvent c.events)] := by
      rw [laterEvents, append_of_seal rfl, hevents]
      rfl
    refine ⟨[created], bound, _, hshape, hbinding, fun verdict' hverify' => ?_⟩
    refine hedit [created] bound _ (bound.set "event_hash" (.str "") (distinct_str _)) hshape hbinding ?_ (.inr ?_)
      (.inl (List.cons_ne_nil _ _)) (fun _ => (CampaignAudit.canonicalEvent_set _ (by decide)).symm) current verdict' hverify'
    · unfold isBinding at hbinding ⊢
      rw [AuditEntry.get_set, if_neg (by decide)]
      exact hbinding
    · rw [AuditEntry.get_set, if_pos rfl, sampleBindingEnv.audit.str_str]
      exact hash_ne_empty hbuilt (hevents ▸ List.mem_cons_of_mem _ List.mem_cons_self)

/-! ## What admission and binding leave open -/

/-- A campaign with a list of allowed targets and a rate. -/
def scopedCampaign (allowed : List String) (rate : Binary64) : Campaign :=
  ⟨"campaign-1", "https://app.example.com/", ⟨"program policy", allowed, [], rate, false, false, false, false, true⟩⟩

theorem scopedCampaign_host : (urlHost ExecutionContract.sampleUnicode "https://app.example.com/").isSome = true := by decide +kernel

theorem rate_scopedCampaign (allowed : List String) (rate : Binary64) :
    (scopedCampaign allowed rate).rules.maxRequestsPerSecond = rate := rfl

theorem one_ne_rateLimit : Binary64.one ≠ rateLimit := by decide +kernel

theorem fingerprint_scopedCampaign (allowed : List String) (rate : Binary64) :
    ∃ current, policySnapshotFingerprint sampleBindingEnv.python (scopedCampaign allowed rate) = .ok current := by
  obtain ⟨host, hhost⟩ := Option.isSome_iff_exists.mp scopedCampaign_host
  have htext : policyText sampleBindingEnv.python (scopedCampaign allowed rate) = some (stableText _ host (scopedCampaign allowed rate)) :=
    congrArg (Option.map fun host => stableText sampleBindingEnv.floats host (scopedCampaign allowed rate)) hhost
  exact ⟨_, fingerprint_of_policyText htext⟩

/-- The fingerprint does not see the order of a scope list. -/
theorem fingerprint_of_order (py : Python) (rate : Binary64) :
    policySnapshotFingerprint py (scopedCampaign ["app.example.com", "example.com"] rate) =
      policySnapshotFingerprint py (scopedCampaign ["example.com", "app.example.com"] rate) := by
  have horder : sorted ["app.example.com", "example.com"] = sorted ["example.com", "app.example.com"] := by decide +kernel
  unfold policySnapshotFingerprint scopedCampaign
  dsimp only
  rw [horder]

/-- The two orders are different lists. -/
example : ["app.example.com", "example.com"] ≠ ["example.com", "app.example.com"] := by decide +kernel

/-- Without its type, the event does not bind the campaign any more. -/
theorem accepted_untyped {c : BoundCampaign} (hc : sampleAdmission = .ok c) : ∃ created bound, c.events = [created, bound] ∧
    ∀ current, verifyHackeroneCampaignBinding sampleBindingEnv (.ok none)
      [created, bound.set "type" (.str "note") (distinct_str _)] current = .ok ⟨false, true, [], none⟩ := by
  obtain ⟨_, _, _, created, bound, -, -, hcreated, -, hevents⟩ := admit_cases hc
  refine ⟨created, bound, hevents, fun current => ?_⟩
  have hother : isBinding created = false := by
    rw [isBinding_of_sameFields (CampaignAudit.sameFields_seal hcreated)]
    exact isBinding_typedEvent (by decide)
  have hnote : isBinding (bound.set "type" (.str "note") (distinct_str _)) = false := by
    unfold isBinding
    rw [AuditEntry.get_set, if_pos rfl]
    exact Bool.eq_false_iff.mpr fun heq => absurd (Json.str.inj (AuditSeal.eq_str_of_pyEq heq)) (by decide)
  unfold verifyHackeroneCampaignBinding
  rw [List.filter_cons_of_neg (ne_true_of_eq_false hother),
    List.filter_cons_of_neg (ne_true_of_eq_false hnote), List.filter_nil]
  rfl

theorem get_at_bindingEvent (env : BindingEnv) (boundAt : String) (policy : ProgramPolicy) (campaignFingerprint : String)
    (remote : Option RemoteBinding) :
    (bindingEvent env boundAt policy campaignFingerprint remote).get "at" = .str boundAt := by
  cases remote with
  | none => simp [bindingEvent, typedEvent, AuditEntry.get_set]
  | some r => simp [bindingEvent, typedEvent, AuditEntry.get_set]

/-- As the last event, it may have another time and a seal over it. -/
theorem accepted_resealed {c : BoundCampaign} (hc : sampleAdmission = .ok c) : ∃ created bound bound' current verdict,
    c.events = [created, bound] ∧ bound'.get "at" ≠ bound.get "at" ∧
      policySnapshotFingerprint sampleBindingEnv.python c.campaign = .ok current ∧
      verifyHackeroneCampaignBinding sampleBindingEnv (.ok none) [created, bound'] current = .ok verdict ∧ verdict.required = true ∧
      verdict.valid = true := by
  obtain ⟨policy, fingerprint, remote, created, bound, hpolicy, hfingerprint, hcreated, hbound, hevents⟩ := admit_cases hc
  have hseal : sealCampaignEvent sampleBindingEnv.audit (.ok none) (bindingEvent sampleBindingEnv "11:00" policy fingerprint remote)
      [created] = .ok (CampaignAudit.sealWith sampleBindingEnv.audit none
        (CampaignAudit.linked (bindingEvent sampleBindingEnv "11:00" policy fingerprint remote) [created])) := rfl
  have haccepted : Bound sampleBindingEnv (.ok none) c.campaign [created, _] :=
    bound_of_seals hpolicy hfingerprint hcreated hseal (.inl rfl)
  obtain ⟨current, verdict, hcurrent, hverify, hrequired, hvalid⟩ := haccepted.verify
  refine ⟨created, bound, _, current, verdict, hevents, fun heq => ?_, hcurrent, hverify, hrequired, hvalid⟩
  rw [CampaignAudit.sameFields_seal hseal "at" (by decide), CampaignAudit.sameFields_seal hbound "at" (by decide),
    get_at_bindingEvent, get_at_bindingEvent] at heq
  exact absurd (Json.str.inj heq) (by decide)

theorem append_binding (env : BindingEnv) (events : List AuditEntry) (time : String) : ∃ sealedEvent,
    appendCampaignEvent env.audit events (typedEvent "hackerone_policy_bound" time, .ok none) = events ++ [sealedEvent] ∧
      isBinding sealedEvent = true := by
  have hseal : sealCampaignEvent env.audit (.ok none) (typedEvent "hackerone_policy_bound" time) events = .ok
      (CampaignAudit.sealWith env.audit none (CampaignAudit.linked (typedEvent "hackerone_policy_bound" time) events)) := rfl
  refine ⟨_, append_of_seal hseal, ?_⟩
  rw [isBinding_of_sameFields (CampaignAudit.sameFields_seal hseal)]
  unfold isBinding
  rw [(get_typedEvent _ _).1]
  exact AuditSeal.pyEq_str _

theorem rejected_after_binding {c : BoundCampaign} (hc : sampleAdmission = .ok c)
    (hverify : verifyHackeroneCampaignBinding sampleBindingEnv (.ok none)
      (appendCampaignEvent sampleBindingEnv.audit c.events (typedEvent "hackerone_policy_bound" "10:02", .ok none)) current =
        .ok verdict) : verdict.valid = false := by
  refine Bool.eq_false_iff.mpr fun hvalid => ?_
  have hbound : Bound sampleBindingEnv (.ok none) c.campaign c.events := bound_of_admission hc (.inl rfl)
  obtain ⟨_, _, _, event, _, _, hone, _⟩ := hbound.binding
  obtain ⟨sealedEvent, happend, hnew⟩ := append_binding sampleBindingEnv c.events "10:02"
  rw [happend] at hverify
  have hmem := List.mem_append_right c.events (List.mem_singleton_self sealedEvent)
  obtain ⟨binding, haccepted⟩ := accepted_of_verify hverify (required_of_mem hverify hmem hnew) hvalid
  have hcount := congrArg List.length haccepted.one
  rw [List.filter_append, hone, List.filter_cons_of_pos hnew] at hcount
  simp at hcount

/-- A campaign without an event that binds it is accepted with every rate, the order of a scope list is not seen, an admitted campaign
is not accepted any more after a second event of the type that binds, and it is accepted when its last event has lost that type, or
was sealed anew over another time. -/
theorem agreement_not_for_all :
    (∃ slow fast current current' verdict, slow.rules.maxRequestsPerSecond ≠ fast.rules.maxRequestsPerSecond ∧
      policySnapshotFingerprint sampleBindingEnv.python slow = .ok current ∧
      policySnapshotFingerprint sampleBindingEnv.python fast = .ok current' ∧
      verifyHackeroneCampaignBinding sampleBindingEnv (.ok none) [] current = .ok verdict ∧
      verifyHackeroneCampaignBinding sampleBindingEnv (.ok none) [] current' = .ok verdict ∧ verdict.valid = true) ∧
    (∃ c c' : Campaign, c.rules.allowedTargets ≠ c'.rules.allowedTargets ∧
      policySnapshotFingerprint sampleBindingEnv.python c = policySnapshotFingerprint sampleBindingEnv.python c') ∧
    ∃ c, sampleAdmission = .ok c ∧
      (∀ current verdict, verifyHackeroneCampaignBinding sampleBindingEnv (.ok none)
        (appendCampaignEvent sampleBindingEnv.audit c.events (typedEvent "hackerone_policy_bound" "10:02", .ok none)) current =
          .ok verdict → verdict.valid = false) ∧
      (∃ created bound, c.events = [created, bound] ∧ ∀ current, verifyHackeroneCampaignBinding sampleBindingEnv (.ok none)
        [created, bound.set "type" (.str "note") (distinct_str _)] current = .ok ⟨false, true, [], none⟩) ∧
      ∃ created bound bound' current verdict, c.events = [created, bound] ∧ bound'.get "at" ≠ bound.get "at" ∧
        policySnapshotFingerprint sampleBindingEnv.python c.campaign = .ok current ∧
        verifyHackeroneCampaignBinding sampleBindingEnv (.ok none) [created, bound'] current = .ok verdict ∧
        verdict.required = true ∧ verdict.valid = true := by
  refine ⟨?_, ?_, ?_⟩
  · obtain ⟨current, hcurrent⟩ := fingerprint_scopedCampaign ["app.example.com"] .one
    obtain ⟨current', hcurrent'⟩ := fingerprint_scopedCampaign ["app.example.com"] rateLimit
    refine ⟨scopedCampaign ["app.example.com"] .one, scopedCampaign ["app.example.com"] rateLimit, current, current',
      ⟨false, true, [], none⟩, ?_, hcurrent, hcurrent', rfl, rfl, rfl⟩
    rw [rate_scopedCampaign, rate_scopedCampaign]
    exact one_ne_rateLimit
  · have hlists : ["app.example.com", "example.com"] ≠ ["example.com", "app.example.com"] := by decide
    exact ⟨scopedCampaign ["app.example.com", "example.com"] .one, scopedCampaign ["example.com", "app.example.com"] .one, hlists,
      fingerprint_of_order _ .one⟩
  · obtain ⟨c, hc, -⟩ := sampleAdmission_ok
    exact ⟨c, hc, fun _ _ hverify => rejected_after_binding hc hverify, accepted_untyped hc, accepted_resealed hc⟩

end HackerOneBinding

end XbowPerso
