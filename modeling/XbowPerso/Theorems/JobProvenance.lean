import XbowPerso.JobProvenance
import XbowPerso.Theorems.HackerOneBinding
import XbowPerso.Theorems.ScopeRefinement

/-!
# Which governed jobs the worker admits

A job is verified against the campaign as it is when the job is claimed. With the same policy, what was attached at the enqueue is
accepted then, whatever events came in between; only the endpoint for browser flows attaches nothing. A governed job that does not match
the campaign is stopped before its handler.
-/

namespace XbowPerso

namespace JobProvenance

open CampaignAudit (appendCampaignEvent)
open ExecutionContract (Campaign policySnapshotFingerprint rateJson sortedSet texts urlHost)
open HackerOneBinding (Bound BindingVerdict declared declared_str dictFields isBinding reasonsOf reasonsOf_eq_nil sortKeys_rateJson
  verifyHackeroneCampaignBinding distinct_of_fields distinct_texts distinct_rateJson filter_append_event reading_of_verify required_of_mem)
open RunnerRpc (JsonDict item item_sortKeys)
open WorkerService (Raised)

variable {env : ProvenanceEnv} {secret : ResolvedSecret} {s : StoredCampaign}

/-! ## The binding of a stored campaign -/

/-- A campaign as the code leaves it: without a binding, or bound at its admission. -/
def Governed (env : ProvenanceEnv) (secret : ResolvedSecret) (s : StoredCampaign) : Prop :=
  s.events.filter isBinding = [] ∨ Bound env.binding secret s.campaign s.events

/-- The campaign after more events were appended. -/
def later (env : ProvenanceEnv) (s : StoredCampaign) (appends : List (AuditEntry × ResolvedSecret)) : StoredCampaign :=
  { s with events := appends.foldl (appendCampaignEvent env.binding.audit) s.events }

/-- Events that do not bind, sealed without a key or with the key of the verifier. -/
def Ordinary (secret : ResolvedSecret) (appends : List (AuditEntry × ResolvedSecret)) : Prop :=
  ∀ a ∈ appends, (a.2.key = none ∨ a.2.key = secret.key) ∧ isBinding a.1 = false

variable {appends : List (AuditEntry × ResolvedSecret)}

theorem filter_later (h : Ordinary secret appends) (events : List AuditEntry) :
    (appends.foldl (appendCampaignEvent env.binding.audit) events).filter isBinding = events.filter isBinding := by
  induction appends generalizing events with
  | nil => rfl
  | cons a appends ih =>
    have hrest : Ordinary secret appends := fun b hb => h b (List.mem_cons_of_mem _ hb)
    exact (ih hrest _).trans (filter_append_event (h a List.mem_cons_self).2)

theorem Governed.later (h : Governed env secret s) (happends : Ordinary secret appends) :
    Governed env secret (later env s appends) := by
  rcases h with hnone | hbound
  · exact .inl ((filter_later happends s.events).trans hnone)
  · exact .inr (hbound.appends appends happends)

/-- The fingerprint that the binding event declares. -/
def declaredFingerprint (env : ProvenanceEnv) (events : List AuditEntry) : Option String :=
  (events.filter isBinding).getLast?.bind fun binding =>
    if declared env.binding (binding.get "binding_fingerprint") = "" then none
    else some (declared env.binding (binding.get "binding_fingerprint"))

variable {current : String}

/-- What of a verdict depends on the binding event alone. -/
theorem verdict_shape {events : List AuditEntry} {verdict : BindingVerdict}
    (h : verifyHackeroneCampaignBinding env.binding secret events current = .ok verdict) :
    verdict.required = decide (events.filter isBinding ≠ []) ∧ verdict.bindingFingerprint = declaredFingerprint env events := by
  cases hlast : (events.filter isBinding).getLast? with
  | none =>
    have hnil := List.getLast?_eq_none_iff.mp hlast
    unfold verifyHackeroneCampaignBinding at h
    rw [hlast] at h
    cases h
    rw [declaredFingerprint, hlast, hnil]
    exact ⟨rfl, rfl⟩
  | some last =>
    have hmem : last ∈ events.filter isBinding := List.mem_of_getLast? hlast
    have hrequired := required_of_mem h (List.mem_filter.mp hmem).1 (List.mem_filter.mp hmem).2
    obtain ⟨binding, chain, constraintsEmpty, result, hreading, rfl⟩ := reading_of_verify h hrequired
    have hsame : last = binding := Option.some.inj (hlast.symm.trans hreading.last)
    refine ⟨(decide_eq_true (List.ne_nil_of_mem hmem)).symm, ?_⟩
    rw [declaredFingerprint, hlast, hsame]
    rfl

theorem fingerprint_of {c : Campaign} (h : fingerprintOf env c = .ok current) :
    policySnapshotFingerprint env.binding.python c = .ok current := by
  unfold fingerprintOf at h
  split at h
  · cases h
  rename_i fingerprint hfingerprint
  cases h
  exact hfingerprint

/-- The binding of a campaign as the code leaves it is in order. -/
theorem verdict_of_governed (h : Governed env secret s) (hcurrent : fingerprintOf env s.campaign = .ok current) :
    ∃ verdict, verifyHackeroneCampaignBinding env.binding secret s.events current = .ok verdict ∧ verdict.valid = true := by
  rcases h with hnone | hbound
  · refine ⟨⟨false, true, [], none⟩, ?_, rfl⟩
    unfold verifyHackeroneCampaignBinding
    rw [hnone]
    rfl
  · obtain ⟨current', verdict, hcurrent', hverify, -, hvalid⟩ := hbound.verify
    rw [fingerprint_of hcurrent] at hcurrent'
    cases hcurrent'
    exact ⟨verdict, hverify, hvalid⟩

/-! ## Payloads -/

theorem distinct_scanRules (floats : FloatText) (c : Campaign) : (EnqueuePath.scanRules floats c).Distinct := by
  refine distinct_of_fields ?_ fun f hf => ?_
  · simp only [List.map_cons, List.map_nil]
    decide
  · simp only [List.mem_cons, List.not_mem_nil, or_false] at hf
    rcases hf with rfl | rfl | rfl | rfl | rfl | rfl | rfl | rfl
    all_goals first | exact distinct_texts _ | exact distinct_rateJson _ _ | exact distinct_bool _

/-- A dictionary with distinct keys, none of which is that of the provenance. -/
def Plain (payload : JsonDict) : Prop := (Json.obj payload).Distinct ∧ "_provenance" ∉ payload.map Prod.fst

variable {payload : JsonDict}

theorem plain_of_fields (hkeys : (payload.map Prod.fst).Nodup ∧ "_provenance" ∉ payload.map Prod.fst)
    (hvalues : ∀ f ∈ payload, f.2.Distinct) : Plain payload := ⟨distinct_of_fields hkeys.1 hvalues, hkeys.2⟩

theorem plain_validation (c : Campaign) (findingId asset : String) : Plain (EnqueuePath.validationPayload c findingId asset) := by
  refine plain_of_fields ?_ fun f hf => ?_
  · simp only [EnqueuePath.validationPayload, List.map_cons, List.map_nil]
    decide
  · simp only [EnqueuePath.validationPayload, List.mem_cons, List.not_mem_nil, or_false] at hf
    rcases hf with rfl | rfl | rfl
    all_goals exact distinct_str _

theorem plain_report (c : Campaign) (platform : String) : Plain (EnqueuePath.reportPayload c platform) := by
  refine plain_of_fields ?_ fun f hf => ?_
  · simp only [EnqueuePath.reportPayload, List.map_cons, List.map_nil]
    decide
  · simp only [EnqueuePath.reportPayload, List.mem_cons, List.not_mem_nil, or_false] at hf
    rcases hf with rfl | rfl
    all_goals exact distinct_str _

/-- The payload of every place is plain. -/
theorem plain_payload (floats : FloatText) (c : Campaign) (path : EnqueuePath) : Plain (path.payload floats c) := by
  cases path with
  | scan engine policy hpolicy =>
    refine plain_of_fields ?_ fun f hf => ?_
    · simp only [EnqueuePath.payload, List.map_cons, List.map_nil]
      decide
    · simp only [EnqueuePath.payload, List.mem_cons, List.not_mem_nil, or_false] at hf
      rcases hf with rfl | rfl | rfl | rfl
      · exact distinct_str _
      · exact distinct_str _
      · exact hpolicy
      · exact distinct_scanRules floats c
  | validate findingId asset repeatOrdinal =>
    cases repeatOrdinal with
    | none => exact plain_validation c findingId asset
    | some ordinal =>
      refine plain_of_fields ?_ fun f hf => ?_
      · simp only [EnqueuePath.payload, EnqueuePath.validationPayload, Option.toList_some, List.map_cons, List.map_nil, List.cons_append,
          List.nil_append]
        decide
      · rcases List.mem_append.mp hf with hf | hf
        · exact (Json.distinctFields_iff _).mp (plain_validation c findingId asset).1.2 f hf
        · rw [List.mem_singleton.mp hf]
          refine distinct_of_fields (by simp) fun f hf => ?_
          simp only [List.mem_cons, List.not_mem_nil, or_false] at hf
          rcases hf with rfl | rfl | rfl
          · exact distinct_str _
          · exact distinct_int _
          · exact distinct_str _
  | plannedReport => exact plain_report c _
  | reconTask kind target maxRequests allowedMethods sameOriginOnly readOnly =>
    refine plain_of_fields ?_ fun f hf => ?_
    · simp only [EnqueuePath.payload, List.map_cons, List.map_nil]
      decide
    · simp only [EnqueuePath.payload, List.mem_cons, List.not_mem_nil, or_false] at hf
      rcases hf with rfl | rfl | rfl | rfl | rfl | rfl | rfl
      all_goals first | exact distinct_str _ | exact distinct_int _ | exact distinct_texts _ | exact distinct_bool _
  | browserObserve target =>
    refine plain_of_fields ?_ fun f hf => ?_
    · simp only [EnqueuePath.payload, List.map_cons, List.map_nil]
      decide
    · simp only [EnqueuePath.payload, List.mem_cons, List.not_mem_nil, or_false] at hf
      rcases hf with rfl | rfl
      · exact distinct_str _
      · refine (Json.distinctElems_iff _).mpr fun step hstep => ?_
        simp only [List.mem_cons, List.not_mem_nil, or_false] at hstep
        rcases hstep with rfl | rfl
        all_goals simp [Json.Distinct, Json.DistinctFields]
  | ingest findingId asset => exact plain_validation c findingId asset
  | addFinding findingId asset => exact plain_validation c findingId asset
  | completionReport platform => exact plain_report c platform
  | queueReport platform => exact plain_report c platform
  | queueBrowserFlow steps identityLabel storageStateSecretEnv hsteps =>
    refine plain_of_fields ?_ fun f hf => ?_
    · cases identityLabel <;> cases storageStateSecretEnv <;> simp [EnqueuePath.payload]
    · simp only [EnqueuePath.payload, List.mem_append, List.mem_cons, List.not_mem_nil, or_false, List.mem_map] at hf
      rcases hf with ((rfl | rfl) | ⟨label, -, rfl⟩) | ⟨name, -, rfl⟩
      · exact distinct_str _
      · exact (Json.distinctElems_iff _).mpr hsteps
      · exact distinct_str _
      · exact distinct_str _

/-- A payload that is stored and handed out has its keys and, up to the order of keys, its values. -/
theorem item_claimed (h : (Json.obj payload).Distinct) :
    ∃ fields, claimedPayload payload = some (.obj fields) ∧ (∀ k, item fields k = (item payload k).sortKeys) ∧
      ∀ k, k ∈ fields.map Prod.fst ↔ k ∈ payload.map Prod.fst := by
  refine ⟨Json.sortFields (Json.sortKeysFields payload), Json.loads_dumpsSorted h, item_sortKeys h.1, fun k => ?_⟩
  have hperm := (Json.sortFields_perm (Json.sortKeysFields payload)).map Prod.fst
  rw [hperm.mem_iff, Json.sortKeysFields_eq, List.map_map]
  rfl

/-- The provenance of a payload to which it was attached. -/
theorem item_attached (h : "_provenance" ∉ payload.map Prod.fst) (provenance : Json) :
    item (payload ++ [("_provenance", provenance)]) "_provenance" = provenance := by
  have hnone : payload.lookup "_provenance" = none := by
    rw [List.lookup_eq_none_iff]
    intro f hf
    rw [bne_iff_ne]
    intro heq
    exact h (List.mem_map.mpr ⟨f, hf, heq.symm⟩)
  rw [item, List.lookup_append, hnone]
  rfl

/-! ## What is attached is accepted -/

/-- The fields of a provenance. -/
def fieldsOf (env : ProvenanceEnv) (s : StoredCampaign) (jobKind action current : String) (binding : BindingVerdict) : JsonDict :=
  [("schema", .str provenanceSchema), ("campaign_id", .str s.campaign.id), ("job_kind", .str jobKind), ("action", .str action),
    ("scope_host", .str (snapshotHost env s.campaign)), ("policy_fingerprint", .str current),
    ("request_rate_limit", rateJson env.binding.floats s.campaign.rules.maxRequestsPerSecond)] ++ externalPolicy binding

theorem build_spec {jobKind action : String} {provenance : JsonDict}
    (h : buildJobProvenance env secret s jobKind action = .ok provenance) :
    ∃ current binding, fingerprintOf env s.campaign = .ok current ∧
      verifyHackeroneCampaignBinding env.binding secret s.events current = .ok binding ∧
      provenance = fieldsOf env s jobKind action current binding := by
  unfold buildJobProvenance at h
  split at h
  · cases h
  rename_i current hcurrent
  split at h
  · cases h
  rename_i binding hbinding
  split at h
  · cases h
  cases h
  exact ⟨current, binding, hcurrent, hbinding, rfl⟩

theorem keys_externalPolicy (binding : BindingVerdict) :
    (externalPolicy binding).map Prod.fst = [] ∨
      (externalPolicy binding).map Prod.fst = ["external_policy_provider", "external_policy_fingerprint"] := by
  unfold externalPolicy
  split
  · exact .inr rfl
  · exact .inl rfl

theorem distinct_externalPolicy {binding : BindingVerdict} {f : String × Json} (h : f ∈ externalPolicy binding) : f.2.Distinct := by
  unfold externalPolicy at h
  split at h
  · simp only [List.mem_cons, List.not_mem_nil, or_false] at h
    rcases h with rfl | rfl
    · exact distinct_str _
    · cases binding.bindingFingerprint with
      | none => trivial
      | some fingerprint => exact distinct_str _
  · cases h

theorem distinct_fieldsOf (jobKind action current : String) (s : StoredCampaign) (binding : BindingVerdict) :
    (Json.obj (fieldsOf env s jobKind action current binding)).Distinct := by
  unfold fieldsOf
  refine distinct_of_fields ?_ fun f hf => ?_
  · rw [List.map_append]
    simp only [List.map_cons, List.map_nil]
    rcases keys_externalPolicy binding with hkeys | hkeys
    · rw [hkeys]
      decide
    · rw [hkeys]
      decide
  · rcases List.mem_append.mp hf with hf | hf
    · simp only [List.mem_cons, List.not_mem_nil, or_false] at hf
      rcases hf with rfl | rfl | rfl | rfl | rfl | rfl | rfl
      all_goals first | exact distinct_str _ | exact distinct_rateJson _ _
    · exact distinct_externalPolicy hf

theorem differs_self (x : Binary64.Finite) : differs (.finite x) (.finite x) = false := by
  have hle : (Binary64.finite x).le (.finite x) = true := Binary64.le_finite.mpr (le_refl _)
  rw [differs, hle]
  rfl

/-- The rate of a campaign is finite, as its rules check, and `float` reads the text of a float back. -/
structure RateReadBack (env : ProvenanceEnv) (rate : Binary64) : Prop where
  finite : ∃ x, rate = .finite x
  read : env.float (rateJson env.binding.floats rate) = .ok rate

theorem rateReasons_rate {rate : Binary64} (h : RateReadBack env rate) :
    rateReasons env (rateJson env.binding.floats rate) rate = .ok [] := by
  obtain ⟨x, hx⟩ := h.finite
  unfold rateReasons
  rw [h.read]
  dsimp only
  rw [hx, differs_self]
  rfl

theorem lower_snapshotHost (c : Campaign) :
    env.binding.scope.unicode.lower (snapshotHost env c).toList = (snapshotHost env c).toList := by
  unfold snapshotHost urlHost
  cases PyUrl.urlsplit env.binding.scope.unicode c.primaryUrl.toList with
  | none => exact env.binding.scope.unicode.lower_ascii fun _ hc => absurd hc List.not_mem_nil
  | some parsed =>
    rw [Option.map_some, Option.getD_some, String.toList_ofList]
    exact env.binding.scope.unicode.lower_lower _

/-- The text of a fingerprint that may be missing. -/
theorem declared_fingerprintJson (fingerprint : Option String) :
    declared env.binding (fingerprintJson fingerprint).sortKeys = fingerprint.getD "" := by
  cases fingerprint with
  | none => rfl
  | some fingerprint => exact declared_str env.binding fingerprint

variable {kind : String}

/-- What was attached gives no reason before the rate, as long as the binding is in order and the same. -/
theorem provenanceReasons_attached {action : String} {stored : JsonDict} {binding verdict : BindingVerdict}
    (hread : ∀ k, item stored k = (item (fieldsOf env s kind action current binding) k).sortKeys)
    (hrequired : verdict.required = binding.required) (hfingerprint : verdict.bindingFingerprint = binding.bindingFingerprint)
    (hvalid : verdict.valid = true) : provenanceReasons env kind stored s.campaign current verdict = [] := by
  have htext : ∀ k t, item (fieldsOf env s kind action current binding) k = .str t → declared env.binding (item stored k) = t := by
    intro k t hk
    rw [hread, hk]
    exact declared_str env.binding t
  have hexternal : binding.required = true →
      item (fieldsOf env s kind action current binding) "external_policy_provider" = .str "hackerone" ∧
      item (fieldsOf env s kind action current binding) "external_policy_fingerprint" = fingerprintJson binding.bindingFingerprint := by
    intro hreq
    rw [fieldsOf, externalPolicy, if_pos hreq]
    exact ⟨rfl, rfl⟩
  have hschema : (item stored "schema").pyEq (.str provenanceSchema) = true := by
    rw [hread]
    exact AuditSeal.pyEq_str provenanceSchema
  have hprovider : (binding.required && !(item stored "external_policy_provider").pyEq (.str "hackerone")) = false := by
    cases hreq : binding.required with
    | false => rfl
    | true =>
      rw [hread, (hexternal hreq).1]
      exact congrArg Bool.not (AuditSeal.pyEq_str "hackerone")
  have hdeclared : (binding.required && decide (declared env.binding (item stored "external_policy_fingerprint") ≠
      binding.bindingFingerprint.getD "")) = false := by
    cases hreq : binding.required with
    | false => rfl
    | true =>
      rw [hread, (hexternal hreq).2, declared_fingerprintJson]
      exact decide_eq_false fun hne => hne rfl
  have hhost : env.binding.scope.unicode.lower (declared env.binding (item stored "scope_host")).toList =
      (snapshotHost env s.campaign).toList := by
    rw [htext "scope_host" (snapshotHost env s.campaign) rfl, lower_snapshotHost]
  unfold provenanceReasons
  rw [reasonsOf_eq_nil, hrequired, hvalid, hfingerprint]
  intro check hcheck
  simp only [List.mem_cons, List.not_mem_nil, or_false] at hcheck
  rcases hcheck with rfl | rfl | rfl | rfl | rfl | rfl | rfl | rfl
  · exact congrArg Bool.not hschema
  · exact decide_eq_false fun hne => hne (htext "campaign_id" s.campaign.id rfl)
  · exact decide_eq_false fun hne => hne (htext "job_kind" kind rfl)
  · exact decide_eq_false fun hne => hne (htext "policy_fingerprint" current rfl)
  · exact Bool.and_false _
  · exact hprovider
  · exact hdeclared
  · exact decide_eq_false fun hne => hne hhost

theorem distinct_attached {provenance : Json} (h : Plain payload) (hprovenance : provenance.Distinct) :
    (Json.obj (payload ++ [("_provenance", provenance)])).Distinct := by
  refine distinct_of_fields ?_ fun f hf => ?_
  · rw [List.map_append, List.nodup_append]
    refine ⟨h.1.1, List.nodup_singleton _, fun a ha b hb hab => ?_⟩
    rw [List.mem_singleton.mp hb] at hab
    rw [hab] at ha
    exact h.2 ha
  · rcases List.mem_append.mp hf with hf | hf
    · exact (Json.distinctFields_iff _).mp h.1.2 f hf
    · rw [List.mem_singleton.mp hf]
      exact hprovenance

/-- A payload with its provenance, handed out while the policy is the same, is accepted for its kind. -/
theorem verify_of_attached {attached : JsonDict} {action : String}
    (hgoverned : Governed env secret s) (hrate : RateReadBack env s.campaign.rules.maxRequestsPerSecond) (hplain : Plain payload)
    (hattach : attachJobProvenance env secret payload s kind action = .ok attached) (happends : Ordinary secret appends) :
    ∃ fields, claimedPayload attached = some (.obj fields) ∧ "_provenance" ∈ fields.map Prod.fst ∧
      verifyJobProvenance env secret kind (.obj fields) (later env s appends) = .ok [] := by
  unfold attachJobProvenance at hattach
  rw [if_neg hplain.2] at hattach
  split at hattach
  · cases hattach
  rename_i provenance hbuild
  cases hattach
  obtain ⟨current, binding, hcurrent, hbinding, rfl⟩ := build_spec hbuild
  have hdistinct : (Json.obj (fieldsOf env s kind action current binding)).Distinct := distinct_fieldsOf kind action current s binding
  obtain ⟨fields, hclaimed, hitem, hkeys⟩ := item_claimed (distinct_attached hplain hdistinct)
  refine ⟨fields, hclaimed, (hkeys _).mpr ?_, ?_⟩
  · rw [List.map_append]
    exact List.mem_append_right _ List.mem_cons_self
  have hfound : item fields "_provenance" =
      .obj (Json.sortFields (Json.sortKeysFields (fieldsOf env s kind action current binding))) := by
    rw [hitem, item_attached hplain.2, Json.sortKeys_obj]
  have hread := item_sortKeys hdistinct.1
  -- the binding event is the same, so its fingerprint and what is required are
  obtain ⟨verdict, hverdict, hvalid⟩ := verdict_of_governed (hgoverned.later happends) hcurrent
  have hsame : (later env s appends).events.filter isBinding = s.events.filter isBinding := filter_later happends s.events
  have hrequired : verdict.required = binding.required := by
    rw [(verdict_shape hverdict).1, (verdict_shape hbinding).1, hsame]
  have hfingerprint : verdict.bindingFingerprint = binding.bindingFingerprint := by
    rw [(verdict_shape hverdict).2, (verdict_shape hbinding).2, declaredFingerprint, declaredFingerprint, hsame]
  have hreasons := provenanceReasons_attached hread hrequired hfingerprint hvalid
  have hrateItem := hread "request_rate_limit"
  generalize Json.sortFields (Json.sortKeysFields (fieldsOf env s kind action current binding)) = stored at hfound hreasons hrateItem
  have hstored : rateReasons env (item stored "request_rate_limit") s.campaign.rules.maxRequestsPerSecond = .ok [] := by
    have hitemRate : item (fieldsOf env s kind action current binding) "request_rate_limit" =
      rateJson env.binding.floats s.campaign.rules.maxRequestsPerSecond := rfl
    rw [hrateItem, hitemRate, sortKeys_rateJson]
    exact rateReasons_rate hrate
  have hcampaign : (later env s appends).campaign = s.campaign := rfl
  unfold verifyJobProvenance
  rw [hcampaign, hcurrent]
  dsimp only [dictFields]
  rw [hfound]
  dsimp only
  rw [hverdict]
  dsimp only
  rw [hstored, hreasons]
  rfl

theorem governed_kind (path : EnqueuePath) : path.kind.word ∈ governedJobKinds := by
  cases path with
  | scan engine policy hpolicy => cases engine <;> simp [EnqueuePath.kind, JobKind.word, governedJobKinds]
  | _ => simp [EnqueuePath.kind, JobKind.word, governedJobKinds]

/-- A governed job without provenance is rejected. -/
theorem rejected_without_provenance {fields : JsonDict} {load : Except Raised StoredCampaign}
    (hgoverned : kind ∈ governedJobKinds) (hmissing : "_provenance" ∉ fields.map Prod.fst) :
    verifyPolicyBoundJob env secret (.ok false) kind (.obj fields) load =
      .error (.rejected "job provenance rejected: provenance_missing") := by
  have hfields : "_provenance" ∉ (dictFields (.obj fields)).map (·.1) := hmissing
  unfold verifyPolicyBoundJob
  rw [if_neg hfields, if_pos hgoverned]

/-- What a place enqueues is admitted, unless it is the endpoint for browser flows. -/
theorem admitted_iff {path : EnqueuePath}
    (hgoverned : Governed env secret s) (hrate : RateReadBack env s.campaign.rules.maxRequestsPerSecond)
    (happends : Ordinary secret appends) (h : path.enqueued env secret s = .ok payload) :
    ∃ claimed, claimedPayload payload = some claimed ∧
      (path.isBrowserEndpoint = false → verifyJobProvenance env secret path.kind.word claimed (later env s appends) = .ok []) ∧
      (verifyPolicyBoundJob env secret (.ok false) path.kind.word claimed (.ok (later env s appends)) = .ok () ↔
        path.isBrowserEndpoint = false) := by
  have hplain := plain_payload env.binding.floats s.campaign path
  unfold EnqueuePath.enqueued at h
  split at h
  · rename_i hbrowser
    cases h
    obtain ⟨fields, hclaimed, -, hkeys⟩ := item_claimed hplain.1
    have hrejected : verifyPolicyBoundJob env secret (.ok false) path.kind.word (.obj fields) (.ok (later env s appends)) =
        .error (.rejected "job provenance rejected: provenance_missing") :=
      rejected_without_provenance (governed_kind path) fun hmem => hplain.2 ((hkeys _).mp hmem)
    refine ⟨.obj fields, hclaimed, fun hother => ?_, ?_⟩
    · rw [hbrowser] at hother
      cases hother
    · rw [hrejected, hbrowser]
      constructor
      · intro hadmitted
        cases hadmitted
      · intro hother
        cases hother
  · rename_i hother
    obtain ⟨fields, hclaimed, hmem, hverify⟩ := verify_of_attached hgoverned hrate hplain h happends
    refine ⟨.obj fields, hclaimed, fun _ => hverify, ?_⟩
    have hadmitted : verifyPolicyBoundJob env secret (.ok false) path.kind.word (.obj fields) (.ok (later env s appends)) = .ok () := by
      have hfields : "_provenance" ∈ (dictFields (.obj fields)).map (·.1) := hmem
      unfold verifyPolicyBoundJob
      rw [if_pos hfields]
      dsimp only
      rw [hverify]
    exact ⟨fun _ => (Bool.not_eq_true _).mp hother, fun _ => hadmitted⟩

/-! ## What is admitted is bound -/

/-- A job is bound to the policy that a campaign has now. -/
structure BoundToPolicy (env : ProvenanceEnv) (kind : String) (payload : Json) (s : StoredCampaign) : Prop where
  bound : ∃ provenance current, item (dictFields payload) "_provenance" = .obj provenance ∧ fingerprintOf env s.campaign = .ok current ∧
    declared env.binding (item provenance "policy_fingerprint") = current ∧
    declared env.binding (item provenance "job_kind") = kind ∧ declared env.binding (item provenance "campaign_id") = s.campaign.id

theorem eq_nil_of_sortedSet {l : List String} (h : sortedSet l = []) : l = [] := by
  refine List.eq_nil_iff_forall_not_mem.mpr fun n hn => ?_
  have hmem := ExecutionContract.mem_sortedSet.mpr hn
  rw [h] at hmem
  cases hmem

/-- A job without a reason against it is bound. -/
theorem bound_of_verify {payload : Json} (h : verifyJobProvenance env secret kind payload s = .ok []) :
    BoundToPolicy env kind payload s := by
  unfold verifyJobProvenance at h
  split at h
  · cases h
  rename_i current hcurrent
  split at h
  · rename_i provenance hprovenance
    split at h
    · cases h
    rename_i binding hbinding
    split at h
    · cases h
    rename_i reasons hreasons
    have hnil := (List.append_eq_nil_iff.mp (eq_nil_of_sortedSet (Except.ok.inj h))).1
    have hchecks := reasonsOf_eq_nil.mp hnil
    have hid := hchecks (_, "campaign_id_mismatch") (List.mem_cons_of_mem _ List.mem_cons_self)
    have hkind := hchecks (_, "job_kind_mismatch") (List.mem_cons_of_mem _ (List.mem_cons_of_mem _ List.mem_cons_self))
    have hfingerprint := hchecks (_, "policy_fingerprint_mismatch")
      (List.mem_cons_of_mem _ (List.mem_cons_of_mem _ (List.mem_cons_of_mem _ List.mem_cons_self)))
    exact ⟨provenance, current, hprovenance, hcurrent, not_not.mp (of_decide_eq_false hfingerprint),
      not_not.mp (of_decide_eq_false hkind), not_not.mp (of_decide_eq_false hid)⟩
  · cases h

/-- A governed job that gets past the verification, without the mode for legacy jobs, is bound to the policy of its campaign. -/
theorem bound_of_verified {payload : Json} {load : Except Raised StoredCampaign} (hgoverned : kind ∈ governedJobKinds)
    (h : verifyPolicyBoundJob env secret (.ok false) kind payload load = .ok ()) :
    ∃ s, load = .ok s ∧ BoundToPolicy env kind payload s := by
  unfold verifyPolicyBoundJob at h
  split at h
  · split at h
    · cases h
    rename_i s
    split at h
    · cases h
    · rename_i hverify
      exact ⟨s, rfl, bound_of_verify hverify⟩
    · cases h
  · cases h

/-- What the verification raises ends the attempt before its handler. -/
theorem outcome_of_rejected {a : WorkerService.Attempt} {e : Raised} (h : a.verified = .error e) : a.outcome = .error e := by
  unfold WorkerService.Attempt.outcome
  rw [h]
  rfl

/-- The governed jobs of the system, without the mode for legacy jobs. What a place enqueues is admitted while the policy of the campaign
is the same, exactly when the place is not the endpoint for browser flows. A governed job is bound to the policy that its campaign has
when the worker verifies it, or no handler of it counts. -/
theorem governed_jobs (env : ProvenanceEnv) (secret : ResolvedSecret) :
    (∀ (path : EnqueuePath) (s : StoredCampaign) (payload : JsonDict) (appends : List (AuditEntry × ResolvedSecret)),
      Governed env secret s → RateReadBack env s.campaign.rules.maxRequestsPerSecond → Ordinary secret appends →
      path.enqueued env secret s = .ok payload →
      ∃ claimed, claimedPayload payload = some claimed ∧
        (path.isBrowserEndpoint = false → verifyJobProvenance env secret path.kind.word claimed (later env s appends) = .ok []) ∧
        (verifyPolicyBoundJob env secret (.ok false) path.kind.word claimed (.ok (later env s appends)) = .ok () ↔
          path.isBrowserEndpoint = false)) ∧
    ∀ (a : WorkerService.Attempt) (payload : Json) (load : Except Raised StoredCampaign), a.job.kind.word ∈ governedJobKinds →
      a.verified = verifyPolicyBoundJob env secret (.ok false) a.job.kind.word payload load →
      (∃ s, load = .ok s ∧ BoundToPolicy env a.job.kind.word payload s) ∨
        ∃ e, ∀ handler, WorkerService.Attempt.outcome { a with handler := handler } = .error e := by
  refine ⟨fun path s payload appends hgoverned hrate happends h => admitted_iff hgoverned hrate happends h, ?_⟩
  intro a payload load hgoverned hverified
  cases hcase : verifyPolicyBoundJob env secret (.ok false) a.job.kind.word payload load with
  | ok admitted => exact .inl (bound_of_verified hgoverned hcase)
  | error e =>
    refine .inr ⟨e, fun handler => outcome_of_rejected ?_⟩
    exact hverified.trans hcase

/-! ## A report and a flow of one campaign -/

open HackerOneBinding (sampleBindingEnv scopedCampaign fingerprint_scopedCampaign)

theorem sampleRate_representable : Binary64.Representable (2 ^ 1074) := ⟨1, 1074, Nat.one_lt_two_pow (by decide), (Nat.one_mul _).symm⟩

theorem pow_lt_overflow {n : Nat} (h : n < 2098) : 2 ^ n < Binary64.overflow := by
  rwa [Binary64.overflow, Nat.pow_lt_pow_iff_right Nat.one_lt_two]

theorem sampleRate_lt : 2 ^ 1074 < Binary64.overflow := pow_lt_overflow (by decide)

/-- `1.0` -/
def sampleRate : Binary64.Finite := ⟨false, 2 ^ 1074, sampleRate_representable, sampleRate_lt⟩

/-- An interpreter that reads the text of every float as one. -/
def sampleProvenance : ProvenanceEnv := ⟨sampleBindingEnv, fun _ => .ok (.finite sampleRate)⟩

/-- A campaign without a HackerOne policy. -/
def sampleCampaign : StoredCampaign := ⟨scopedCampaign ["*.example.com"] (.finite sampleRate), []⟩

theorem sampleCampaign_governed (secret : ResolvedSecret) : Governed sampleProvenance secret sampleCampaign := .inl rfl

theorem sampleCampaign_rate : RateReadBack sampleProvenance sampleCampaign.campaign.rules.maxRequestsPerSecond := ⟨⟨sampleRate, rfl⟩, rfl⟩

theorem ordinary_nil (secret : ResolvedSecret) : Ordinary secret [] := fun _ ha => absurd ha List.not_mem_nil

/-- Every place but the endpoint for browser flows enqueues for the campaign, with one field more. -/
theorem sample_enqueued {path : EnqueuePath} (hpath : path.isBrowserEndpoint = false) :
    ∃ payload, path.enqueued sampleProvenance (.ok none) sampleCampaign = .ok payload ∧
      payload.length = (path.payload sampleProvenance.binding.floats sampleCampaign.campaign).length + 1 := by
  obtain ⟨current, hcurrent⟩ := fingerprint_scopedCampaign ["*.example.com"] (.finite sampleRate)
  have hfingerprint : fingerprintOf sampleProvenance sampleCampaign.campaign = .ok current := by
    unfold fingerprintOf
    rw [show policySnapshotFingerprint sampleProvenance.binding.python sampleCampaign.campaign = .ok current from hcurrent]
  have hbinding : verifyHackeroneCampaignBinding sampleProvenance.binding (.ok none) sampleCampaign.events current =
      .ok ⟨false, true, [], none⟩ := rfl
  have hplain := plain_payload sampleProvenance.binding.floats sampleCampaign.campaign path
  unfold EnqueuePath.enqueued attachJobProvenance buildJobProvenance
  dsimp only
  rw [if_neg (by rw [hpath]; exact Bool.false_ne_true), if_neg hplain.2, hfingerprint]
  dsimp only
  rw [hbinding]
  exact ⟨_, rfl, List.length_append⟩

theorem governed_jobs_sample : ∃ payload claimed,
    (EnqueuePath.queueReport "generic").enqueued sampleProvenance (.ok none) sampleCampaign = .ok payload ∧
    claimedPayload payload = some claimed ∧
    verifyPolicyBoundJob sampleProvenance (.ok none) (.ok false) "report" claimed (.ok sampleCampaign) = .ok () := by
  obtain ⟨payload, hpayload, -⟩ := @sample_enqueued (.queueReport "generic") rfl
  obtain ⟨claimed, hclaimed, -, hiff⟩ := (governed_jobs sampleProvenance (.ok none)).1 (.queueReport "generic") sampleCampaign payload []
    (sampleCampaign_governed _) sampleCampaign_rate (ordinary_nil _) hpayload
  exact ⟨payload, claimed, hpayload, hclaimed, hiff.mpr rfl⟩

/-- The steps of a flow that opens the primary URL. -/
def sampleSteps : List Json := [.obj [("operation", .str "navigate"), ("url", .str "https://app.example.com/"), ("timeout_ms", .int 10000)]]

theorem sampleSteps_distinct : ∀ step ∈ sampleSteps, step.Distinct := by
  intro step hstep
  rw [List.mem_singleton.mp hstep]
  simp [Json.Distinct, Json.DistinctFields]

/-- A flow that the endpoint enqueued is rejected right after. -/
theorem endpoint_flow_rejected : ∃ payload claimed,
    (EnqueuePath.queueBrowserFlow sampleSteps none none sampleSteps_distinct).enqueued sampleProvenance (.ok none) sampleCampaign =
      .ok payload ∧
    claimedPayload payload = some claimed ∧
    verifyPolicyBoundJob sampleProvenance (.ok none) (.ok false) "browser_flow" claimed (.ok sampleCampaign) =
      .error (.rejected "job provenance rejected: provenance_missing") := by
  have hplain := plain_payload sampleProvenance.binding.floats sampleCampaign.campaign
    (.queueBrowserFlow sampleSteps none none sampleSteps_distinct)
  obtain ⟨fields, hclaimed, -, hkeys⟩ := item_claimed hplain.1
  exact ⟨_, .obj fields, rfl, hclaimed, rejected_without_provenance (by decide) fun hmem => hplain.2 ((hkeys _).mp hmem)⟩

end JobProvenance

end XbowPerso
