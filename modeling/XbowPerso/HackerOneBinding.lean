import XbowPerso.CampaignAudit
import XbowPerso.HackerOneScope
import XbowPerso.Lib.PyDateTime

/-!
# The policy binding of a HackerOne campaign

`_admit_hackerone_campaign_impl` makes a campaign from a scope and a reviewed policy and appends an event that binds the two;
`verify_hackerone_campaign_binding` recomputes from the events and the current fingerprint of the campaign what that event declares.
-/

namespace XbowPerso

namespace HackerOneBinding

open AuditSeal (truthy)
open CampaignAudit (sealCampaignEvent verifyCampaignEventChain)
open ExecutionContract (Campaign Python ProgramRules policySnapshotFingerprint rateJson sortedSet texts)
open HackerOneScope (ScopeEnv ScopePreview importStructuredScope projectExactDomainScope isControl)

/-- What admission and verification take from the interpreter. -/
structure BindingEnv where
  scope : ScopeEnv
  floats : FloatText
  hmac : HmacSha256
  audit : AuditEnv

def BindingEnv.python (env : BindingEnv) : Python := ⟨env.scope.unicode, env.floats, env.audit.sha, env.hmac⟩

/-- `_json_sha256` and `canonical_json_sha256` -/
def jsonSha256 (sha : Sha256) (value : Json) : String := sha.hex (utf8 value.dumpsSorted)

/-! ## The reviewed policy -/

/-- A `HackerOneProgramPolicyInput` that its validators accept: the review time is a local time and its offset in seconds. -/
structure PolicyInput where
  authorizationReference : String
  policyVersion : String
  reviewedAt : PyDateTime
  offset : Int
  reviewedBy : String
  safeHarborConfirmed : Bool
  automatedScanning : Bool
  maxRequestsPerSecond : Binary64
  testAccountRequired : Bool
  testAccountConstraints : String
  additionalRestrictions : List String
  programNotes : String

/-- `HackerOneProgramPolicy`, with the review time as text. -/
structure ProgramPolicy where
  authorizationReference : String
  policyVersion : String
  reviewedAt : String
  reviewedBy : String
  safeHarborConfirmed : Bool
  automatedScanning : Bool
  maxRequestsPerSecond : Binary64
  testAccountRequired : Bool
  testAccountConstraints : String
  additionalRestrictions : List String
  programNotes : String

/-- What ends an admission: an `HTTPException`, or another exception. -/
inductive AdmissionError where
  | http (status : Nat) (message : String) (reason : Option String)
  | python (error : PyError)

/-- A `HackerOneScopeImportError` becomes a bad request. -/
def AdmissionError.badRequest (message : String) : AdmissionError := .http 400 message none

/-- `_explicit_text` -/
def explicitText (field : String) (minLength maxLength : Nat) (allowEmpty : Bool) (value : String) : Except String String :=
  if value ≠ PyText.strip value then .error ("HackerOne " ++ field ++ " must not contain outer whitespace")
  else if value.toList.any isControl = true then .error ("HackerOne " ++ field ++ " contains unsafe control characters")
  else if allowEmpty = false ∧ value.length < minLength then .error ("HackerOne " ++ field ++ " is required")
  else if maxLength < value.length then .error ("HackerOne " ++ field ++ " is too long")
  else .ok value

/-- `_restrictions` -/
def restrictions (value : List String) : Except String (List String) :=
  if 100 < value.length then .error "HackerOne additional_restrictions exceeds safety limit"
  else
    match value.mapM (explicitText "additional restriction" 1 1024 false) with
    | .error message => .error message
    | .ok items => .ok items.eraseDups

/-- `20.0` -/
def rateLimit : Binary64 := .ofRatio false (20 * 2 ^ 1074) Nat.one_pos

/-- The texts of a policy that come before its review time. -/
def checkHead (p : PolicyInput) : Except String Unit :=
  match explicitText "authorization reference" 3 2048 false p.authorizationReference with
  | .error message => .error message
  | .ok _ =>
    match explicitText "policy version" 1 256 false p.policyVersion with
    | .error message => .error message
    | .ok _ => .ok ()

/-- What is checked after the review time; the restrictions without what is repeated. -/
def checkTail (p : PolicyInput) : Except String (List String) :=
  match explicitText "reviewed_by" 1 256 false p.reviewedBy with
  | .error message => .error message
  | .ok _ =>
    if Binary64.zero.lt p.maxRequestsPerSecond = false ∨ p.maxRequestsPerSecond.le rateLimit = false then
      .error "HackerOne request rate must be greater than 0 and at most 20 requests/second"
    else
      match explicitText "test account constraints" 1 4096 (!p.testAccountRequired) p.testAccountConstraints with
      | .error message => .error message
      | .ok _ =>
        match restrictions p.additionalRestrictions with
        | .error message => .error message
        | .ok items =>
          match explicitText "program notes" 1 8192 true p.programNotes with
          | .error message => .error message
          | .ok _ => .ok items

/-- `_policy_from_input`, with the checks of `HackerOneProgramPolicy`. -/
def policyFromInput (p : PolicyInput) : Except AdmissionError ProgramPolicy :=
  match checkHead p with
  | .error message => .error (.badRequest message)
  | .ok () =>
    match p.reviewedAt.addSeconds (-p.offset) with
    | none => .error (.python (.overflowError "date value out of range"))
    | some reviewedAt =>
      match checkTail p with
      | .error message => .error (.badRequest message)
      | .ok items => .ok {
          authorizationReference := p.authorizationReference, policyVersion := p.policyVersion
          reviewedAt := reviewedAt.isoformat, reviewedBy := p.reviewedBy, safeHarborConfirmed := p.safeHarborConfirmed
          automatedScanning := p.automatedScanning, maxRequestsPerSecond := p.maxRequestsPerSecond
          testAccountRequired := p.testAccountRequired, testAccountConstraints := p.testAccountConstraints
          additionalRestrictions := items, programNotes := p.programNotes }

/-- `to_snapshot` -/
def ProgramPolicy.toSnapshot (floats : FloatText) (p : ProgramPolicy) : List (String × Json) :=
  [("authorization_reference", .str p.authorizationReference), ("policy_version", .str p.policyVersion),
    ("reviewed_at", .str p.reviewedAt), ("reviewed_by", .str p.reviewedBy),
    ("safe_harbor_confirmed", .bool p.safeHarborConfirmed), ("automated_scanning", .bool p.automatedScanning),
    ("max_requests_per_second", rateJson floats p.maxRequestsPerSecond),
    ("test_account_required", .bool p.testAccountRequired), ("test_account_constraints", .str p.testAccountConstraints),
    ("additional_restrictions", texts p.additionalRestrictions), ("program_notes", .str p.programNotes)]

/-- `_conservative_admission_reason` -/
def conservativeAdmissionReason (p : ProgramPolicy) : Option String :=
  if p.safeHarborConfirmed = false then some "safe_harbor_required"
  else if p.automatedScanning = false then some "automated_scanning_not_authorized"
  else if p.testAccountRequired = true then some "test_account_workflow_not_supported"
  else if p.testAccountConstraints ≠ "" then some "test_account_constraints_not_supported"
  else if p.additionalRestrictions ≠ [] then some "additional_restrictions_require_manual_enforcement"
  else none

/-! ## The remote binding -/

/-- The characters of a handle. -/
def isHandleChar (c : Char) : Bool :=
  (decide (97 ≤ c.toNat) && decide (c.toNat ≤ 122)) || (decide (48 ≤ c.toNat) && decide (c.toNat ≤ 57)) || decide (c = '_') ||
    decide (c = '-')

/-- A handle that `_validate_handle` accepts. -/
structure Handle where
  text : String
  ne_empty : text ≠ ""
  chars : text.toList.all isHandleChar = true

/-- A digest in hexadecimal digits. -/
structure Digest where
  text : String
  hex : RunnerRpc.isHexOfLength 64 text = true

def digestOf (sha : Sha256) (value : Json) : Digest := ⟨jsonSha256 sha value, sha.hex_valid _⟩

/-- What `fetch_hackerone_program_snapshot` returns and the admission reads. -/
structure Snapshot where
  handle : Handle
  document : Json
  snapshotSha256 : Digest

inductive ScopeMode where
  | full | exactDomain
  deriving DecidableEq

def ScopeMode.text : ScopeMode → String
  | full => "full"
  | exactDomain => "exact-domain"

/-- A verified remote binding; the launch of a reviewed batch makes one without mode and document. -/
structure RemoteBinding where
  handle : Handle
  snapshotSha256 : Digest
  scopeMode : Option ScopeMode
  scopeDocumentSha256 : Option Digest

def RemoteBinding.fields (r : RemoteBinding) : List (String × Json) :=
  [("handle", .str r.handle.text), ("snapshot_sha256", .str r.snapshotSha256.text), ("verified", .bool true)] ++
    (r.scopeMode.toList.map fun mode => ("scope_mode", .str mode.text)) ++
    r.scopeDocumentSha256.toList.map fun digest => ("scope_document_sha256", .str digest.text)

/-- `HackerOneCampaignAdmissionInput` -/
structure AdmissionInput where
  document : Json
  policy : PolicyInput
  remoteHandle : Option String
  remoteSnapshotSha256 : Option String
  preferredPrimaryUrl : Option String
  name : String
  primaryUrl : String

def documentMismatch (message : String) : AdmissionError := .http 409 message (some "hackerone_snapshot_document_mismatch")

/-- The mode in which the submitted document is the one of the snapshot, or its projection to one domain. -/
def scopeModeOf (env : BindingEnv) (payload : AdmissionInput) (snapshot : Snapshot) : Except AdmissionError ScopeMode :=
  if jsonSha256 env.audit.sha snapshot.document = jsonSha256 env.audit.sha payload.document then .ok .full
  else
    match payload.preferredPrimaryUrl with
    | none => .error (documentMismatch "HackerOne scope document does not match the verified remote snapshot")
    | some url =>
      match projectExactDomainScope env.scope snapshot.document url with
      | .error _ => .error (documentMismatch "HackerOne exact-domain scope projection no longer matches")
      | .ok projection =>
        if jsonSha256 env.audit.sha projection ≠ jsonSha256 env.audit.sha payload.document then
          .error (documentMismatch "HackerOne scope projection does not match the verified remote snapshot")
        else .ok .exactDomain

/-- `_verify_remote_binding`, from what the fetch of a snapshot returns, or what `_upstream_error` makes of its failure. -/
def verifyRemoteBinding (env : BindingEnv) (fetch : String → Except AdmissionError Snapshot) (payload : AdmissionInput) :
    Except AdmissionError (Option RemoteBinding) :=
  match payload.remoteHandle with
  | none => .ok none
  | some handle =>
    match fetch handle with
    | .error e => .error e
    | .ok snapshot =>
      if some snapshot.snapshotSha256.text ≠ payload.remoteSnapshotSha256 then
        .error (.http 409 "HackerOne remote snapshot changed; review again" (some "stale_hackerone_snapshot"))
      else
        match scopeModeOf env payload snapshot with
        | .error e => .error e
        | .ok mode => .ok (some ⟨snapshot.handle, snapshot.snapshotSha256, some mode, some (digestOf env.audit.sha payload.document)⟩)

/-- The remote binding of an admission; a reviewed batch has verified it before. -/
def remoteBindingOf (env : BindingEnv) (fetch : String → Except AdmissionError Snapshot) (payload : AdmissionInput) :
    Option RemoteBinding → Except AdmissionError (Option RemoteBinding)
  | none => verifyRemoteBinding env fetch payload
  | some verified =>
    if verified.handle.text ≠ payload.remoteHandle.getD "" ∨ verified.snapshotSha256.text ≠ payload.remoteSnapshotSha256.getD "" then
      .error (.http 500 "Internal HackerOne verified binding mismatch" none)
    else .ok (some verified)

/-- `_binding_fingerprint` -/
def bindingFingerprint (sha : Sha256) (snapshotSha256 campaignFingerprint : String) (remote : Option Json) : String :=
  jsonSha256 sha (.obj ([("provider", .str "hackerone"), ("mode", .str "conservative"),
    ("policy_snapshot_sha256", .str snapshotSha256), ("campaign_policy_fingerprint", .str campaignFingerprint)] ++
    remote.toList.map fun binding => ("remote_binding", binding)))

/-! ## The admission -/

/-- `to_program_rules`; what `ProgramRules` checks has been checked before. -/
def toProgramRules (preview : ScopePreview) (p : ProgramPolicy) : Except String ProgramRules :=
  if preview.complete = false then
    .error "HackerOne scope cannot be converted without resolving unsupported or conflicting assets"
  else if preview.allowedTargets = [] then .error "HackerOne scope contains no compatible in-scope targets"
  else .ok {
    authorizationReference := p.authorizationReference, allowedTargets := preview.allowedTargets
    deniedTargets := preview.deniedTargets, maxRequestsPerSecond := p.maxRequestsPerSecond, destructiveTesting := false
    denialOfService := false, socialEngineering := false, credentialAttacks := false, automatedScanning := p.automatedScanning }

/-- `primary_target_must_be_allowed` -/
def primaryTargetMustBeAllowed (u : Unicode) (primaryUrl : String) (rules : ProgramRules) : Except String Unit :=
  match PyUrl.urlsplit u primaryUrl.toList with
  | none => .error "primary_url is not a URL"
  | some parsed =>
    match parsed.hostname u with
    | none => .error "primary_url has no hostname"
    | some hostname =>
      if parsed.username ≠ [] ∨ parsed.password ≠ [] then .error "userinfo in primary_url is forbidden"
      else if parsed.query ≠ [] ∨ parsed.fragment ≠ [] then
        .error "query strings and fragments in primary_url are forbidden"
      else
        match ScopePolicy.isHostAllowed u (String.ofList (u.lower hostname)) rules.allowedTargets rules.deniedTargets with
        | some true => .ok ()
        | _ => .error "primary_url is outside the declared scope"

/-- The rules for the target that an admission makes, and the policy they come from. -/
def admittedRules (env : BindingEnv) (payload : AdmissionInput) : Except AdmissionError (ProgramPolicy × ProgramRules) :=
  match importStructuredScope env.scope payload.document with
  | .error message => .error (.badRequest message)
  | .ok preview =>
    match policyFromInput payload.policy with
    | .error e => .error e
    | .ok policy =>
      match conservativeAdmissionReason policy with
      | some reason => .error (.http 409 "HackerOne conservative admission blocked" (some reason))
      | none =>
        match toProgramRules preview policy with
        | .error message => .error (.badRequest message)
        | .ok rules =>
          match primaryTargetMustBeAllowed env.scope.unicode payload.primaryUrl rules with
          | .error message => .error (.badRequest message)
          | .ok () => .ok (policy, rules)

/-- A campaign with its name and its events. -/
structure BoundCampaign where
  campaign : Campaign
  name : String
  events : List AuditEntry

/-- What an admission draws: the identifier of the campaign, and the times of its two events. -/
structure Draw where
  id : String
  createdAt : String
  boundAt : String

theorem distinct_of_fields {fs : List (String × Json)} (hkeys : (fs.map Prod.fst).Nodup) (h : ∀ f ∈ fs, f.2.Distinct) :
    (Json.obj fs).Distinct := ⟨hkeys, (Json.distinctFields_iff fs).mpr h⟩

theorem distinct_texts (values : List String) : (texts values).Distinct := by
  refine (Json.distinctElems_iff _).mpr fun v hv => ?_
  obtain ⟨s, -, rfl⟩ := List.mem_map.mp hv
  exact distinct_str s

theorem distinct_rateJson (floats : FloatText) (rate : Binary64) : (rateJson floats rate).Distinct := by
  cases rate <;> trivial

theorem distinct_toSnapshot (floats : FloatText) (p : ProgramPolicy) : (Json.obj (p.toSnapshot floats)).Distinct := by
  refine distinct_of_fields ?_ fun f hf => ?_
  · show (List.map Prod.fst (p.toSnapshot floats)).Nodup
    simp only [ProgramPolicy.toSnapshot, List.map_cons, List.map_nil]
    decide
  · simp only [ProgramPolicy.toSnapshot, List.mem_cons, List.not_mem_nil, or_false] at hf
    rcases hf with rfl | rfl | rfl | rfl | rfl | rfl | rfl | rfl | rfl | rfl | rfl
    all_goals first | exact distinct_str _ | exact distinct_bool _ | exact distinct_rateJson _ _ | exact distinct_texts _

theorem distinct_remote (r : RemoteBinding) : (Json.obj r.fields).Distinct := by
  obtain ⟨handle, digest, mode, document⟩ := r
  refine distinct_of_fields ?_ fun f hf => ?_
  · cases mode <;> cases document <;> simp [RemoteBinding.fields]
  · cases mode <;> cases document <;> simp [RemoteBinding.fields] at hf <;> rcases hf with rfl | rfl | rfl | rfl | rfl <;>
      first | exact distinct_str _ | exact distinct_bool _

/-- An event with its type and its time. -/
def typedEvent (kind time : String) : AuditEntry :=
  ((⟨.empty, distinct_empty⟩ : AuditEntry).set "type" (.str kind) (distinct_str _)).set "at" (.str time) (distinct_str _)

/-- The event that binds the policy. -/
def bindingEvent (env : BindingEnv) (boundAt : String) (policy : ProgramPolicy) (campaignFingerprint : String)
    (remote : Option RemoteBinding) : AuditEntry :=
  let snapshot := Json.obj (policy.toSnapshot env.floats)
  let snapshotSha256 := jsonSha256 env.audit.sha snapshot
  let fingerprint := bindingFingerprint env.audit.sha snapshotSha256 campaignFingerprint (remote.map fun r => .obj r.fields)
  let event := ((((((typedEvent "hackerone_policy_bound" boundAt).set "provider" (.str "hackerone") (distinct_str _)).set "mode"
    (.str "conservative") (distinct_str _)).set "policy_snapshot" snapshot (distinct_toSnapshot _ _)).set "policy_snapshot_sha256"
    (.str snapshotSha256) (distinct_str _)).set "campaign_policy_fingerprint" (.str campaignFingerprint) (distinct_str _)).set
    "binding_fingerprint" (.str fingerprint) (distinct_str _)
  match remote with
  | none => event
  | some r => event.set "remote_binding" (.obj r.fields) (distinct_remote r)

/-- `_admit_hackerone_campaign_impl`: the campaign that it saves and returns. -/
def admitHackeroneCampaign (env : BindingEnv) (secret : ResolvedSecret) (fetch : String → Except AdmissionError Snapshot)
    (draw : Draw) (payload : AdmissionInput) (verified : Option RemoteBinding) : Except AdmissionError BoundCampaign :=
  match remoteBindingOf env fetch payload verified with
  | .error e => .error e
  | .ok remote =>
    match admittedRules env payload with
    | .error e => .error e
    | .ok (policy, rules) =>
      let campaign : Campaign := ⟨draw.id, payload.primaryUrl, rules⟩
      match policySnapshotFingerprint env.python campaign with
      | .error _ => .error (.python (.valueError "Invalid URL"))
      | .ok campaignFingerprint =>
        match sealCampaignEvent env.audit secret (typedEvent "campaign_created" draw.createdAt) [] with
        | .error e => .error (.python e)
        | .ok created =>
          match sealCampaignEvent env.audit secret (bindingEvent env draw.boundAt policy campaignFingerprint remote) [created] with
          | .error e => .error (.python e)
          | .ok bound => .ok ⟨campaign, payload.name, [created, bound]⟩

/-! ## The verification -/

/-- The fields of a value that is a dictionary. -/
def dictFields : Json → List (String × Json)
  | .obj fields => fields
  | _ => []

def isDict : Json → Bool
  | .obj _ => true
  | _ => false

/-- `value is flag` -/
def isBool (flag : Bool) : Json → Bool
  | .bool b => b == flag
  | _ => false

/-- `value in choices`, for a set of texts, to which `None` belongs or not; it raises for what has no hash. -/
def memberOf (choices : List String) (withNone : Bool) : Json → Except PyError Bool
  | .arr _ => .error (.typeError "unhashable type: 'list'")
  | .obj _ => .error (.typeError "unhashable type: 'dict'")
  | .str s => .ok (decide (s ∈ choices))
  | .null => .ok withNone
  | _ => .ok false

/-- `restrictions in ([], (), None)` -/
def noRestrictions : Json → Bool
  | .null => true
  | .arr [] => true
  | _ => false

/-- `str(value or "")` -/
def declared (env : BindingEnv) (value : Json) : String := if truthy value = true then env.audit.str value else ""

def isHandle (u : Unicode) : Json → Bool
  | .str handle => decide (handle ≠ "") && decide (u.lower handle.toList = handle.toList) && handle.toList.all isHandleChar
  | _ => false

def isDigest : Json → Bool
  | .str digest => RunnerRpc.isHexOfLength 64 digest
  | _ => false

/-- The reasons whose condition holds. -/
def reasonsOf (checks : List (Bool × String)) : List String := (checks.filter Prod.fst).map Prod.snd

/-- The reasons against a remote binding. -/
def remoteReasons (u : Unicode) (fields : List (String × Json)) : Except PyError (List String) :=
  match memberOf ["full", "exact-domain"] true (HackerOneScope.get fields "scope_mode") with
  | .error e => .error e
  | .ok modeValid =>
    let document := HackerOneScope.get fields "scope_document_sha256"
    .ok (reasonsOf [(!isHandle u (HackerOneScope.get fields "handle"), "remote_binding_handle_invalid"),
      (!isDigest (HackerOneScope.get fields "snapshot_sha256"), "remote_binding_snapshot_sha256_invalid"),
      (!isBool true (HackerOneScope.get fields "verified"), "remote_binding_not_verified"),
      (!modeValid, "remote_binding_scope_mode_invalid"),
      (!(document.pyEq .null || isDigest document), "remote_binding_scope_document_sha256_invalid")])

/-- The field of a dictionary, if it is not `None`. -/
def present (fields : List (String × Json)) (key : String) : List (String × Json) :=
  if (HackerOneScope.get fields key).pyEq .null = true then [] else [(key, HackerOneScope.get fields key)]

/-- `_validated_remote_binding`: the reasons after it, and the binding. -/
def validatedRemoteBinding (u : Unicode) (value : Json) (reasons : List String) : Except PyError (List String × Option Json) :=
  match value with
  | .null => .ok (reasons, none)
  | .obj fields =>
    match remoteReasons u fields with
    | .error e => .error e
    | .ok new =>
      let reasons := reasons ++ new
      if reasons.any (fun reason => "remote_binding_".toList.isPrefixOf reason.toList) = true then .ok (reasons, none)
      else .ok (reasons, some (.obj ([("handle", HackerOneScope.get fields "handle"),
        ("snapshot_sha256", HackerOneScope.get fields "snapshot_sha256"), ("verified", .bool true)] ++
        present fields "scope_mode" ++ present fields "scope_document_sha256")))
  | _ => .ok (reasons ++ ["remote_binding_invalid"], none)

structure BindingVerdict where
  required : Bool
  valid : Bool
  reasons : List String
  bindingFingerprint : Option String
  deriving DecidableEq

/-- `event.get("type") == "hackerone_policy_bound"` -/
def isBinding (event : AuditEntry) : Bool := (event.get "type").pyEq (.str "hackerone_policy_bound")

/-- The reasons that come before the remote binding. -/
def bindingReasons (env : BindingEnv) (count : Nat) (chain : CampaignAudit.Verdict) (binding : AuditEntry)
    (constraintsEmpty : Bool) (current : String) : List String :=
  let snapshot := dictFields (binding.get "policy_snapshot")
  reasonsOf [(decide (count ≠ 1), "binding_event_count_invalid"),
    (!chain.valid || decide (chain.legacyUnsealed ≠ 0), "campaign_audit_chain_invalid"),
    (!(binding.get "provider").pyEq (.str "hackerone"), "binding_provider_invalid"),
    (!(binding.get "mode").pyEq (.str "conservative"), "binding_mode_invalid"),
    (!isDict (binding.get "policy_snapshot"), "policy_snapshot_missing"),
    (decide (declared env (binding.get "policy_snapshot_sha256") ≠ jsonSha256 env.audit.sha (.obj snapshot)),
      "policy_snapshot_sha256_mismatch"),
    (!isBool true (HackerOneScope.get snapshot "safe_harbor_confirmed"), "safe_harbor_not_confirmed"),
    (!isBool true (HackerOneScope.get snapshot "automated_scanning"), "automated_scanning_not_authorized"),
    (!isBool false (HackerOneScope.get snapshot "test_account_required"), "test_account_workflow_not_supported"),
    (!constraintsEmpty, "test_account_constraints_not_supported"),
    (!noRestrictions (HackerOneScope.get snapshot "additional_restrictions"), "additional_restrictions_require_manual_enforcement"),
    (decide (declared env (binding.get "campaign_policy_fingerprint") ≠ current), "campaign_policy_fingerprint_mismatch")]

/-- `verify_hackerone_campaign_binding` -/
def verifyHackeroneCampaignBinding (env : BindingEnv) (secret : ResolvedSecret) (events : List AuditEntry) (current : String) :
    Except PyError BindingVerdict :=
  match (events.filter isBinding).getLast? with
  | none => .ok ⟨false, true, [], none⟩
  | some binding =>
    match verifyCampaignEventChain env.audit secret events with
    | .error e => .error e
    | .ok chain =>
      let snapshot := dictFields (binding.get "policy_snapshot")
      match memberOf [""] true (HackerOneScope.get snapshot "test_account_constraints") with
      | .error e => .error e
      | .ok constraintsEmpty =>
        let reasons := bindingReasons env (events.filter isBinding).length chain binding constraintsEmpty current
        match validatedRemoteBinding env.scope.unicode (binding.get "remote_binding") reasons with
        | .error e => .error e
        | .ok (reasons, remote) =>
          let fingerprint := declared env (binding.get "binding_fingerprint")
          let expected := bindingFingerprint env.audit.sha (jsonSha256 env.audit.sha (.obj snapshot)) current remote
          let reasons := if fingerprint = expected then reasons else reasons ++ ["binding_fingerprint_mismatch"]
          .ok ⟨true, reasons.isEmpty, sortedSet reasons, if fingerprint = "" then none else some fingerprint⟩

end HackerOneBinding

end XbowPerso
