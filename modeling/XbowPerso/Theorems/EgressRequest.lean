import XbowPerso.EgressRequest
import XbowPerso.Lemmas.AuditSeal
import XbowPerso.Lib.JsonSize
import XbowPerso.Theorems.EgressPacing
import XbowPerso.Theorems.HostSpelling

/-!
# The failures of an egress request

A request ends in a response within the limits of its model or in a `StrixEgressError`, except in these cases: a target pattern of
the contract cannot be read, the name of the host has no ASCII form, `http.client` cannot encode the path, the `Host` header or a
header value, or the server answers with a status from 600 on. The slot of the contract is released in these cases too.
-/

namespace XbowPerso

namespace EgressRequest

open Egress (Network Slots idnaEncode connectName acquireRequestSlot releaseRequestSlot)
open ExecutionContract (Python ContractError authorizeStrixContractRequest authorizeTarget parseTarget verifyStrixContractIntegrity)
open PyUrl (isAscii)
open RunnerRpc (isHexOfLength)

/-! ## What is caught -/

/-- The result is a value or a `StrixEgressError`. -/
def Caught {α : Type} (result : Except Failure α) : Prop := ∀ e, result = .error e → e.IsEgressError

section caught

variable {α : Type}

@[simp] theorem caught_ok (a : α) : Caught (.ok a) := fun _ h => (by cases h)

@[simp] theorem caught_error {e : Failure} : Caught (.error e : Except Failure α) ↔ e.IsEgressError := by
  constructor
  · exact fun h => h e rfl
  · intro h e' heq
    cases heq
    exact h

theorem not_caught_escape {e : Escape} : ¬ Caught (.error (.escape e) : Except Failure α) := fun h => h _ rfl

end caught

theorem caught_requestFailed {α : Type} : Caught (.error requestFailed : Except Failure α) := caught_error.mpr trivial

/-! ## The response model -/

theorem length_utf8Prefix (limit : Nat) (cs : List Char) : (utf8Prefix limit cs).length ≤ limit := by
  induction cs generalizing limit with
  | nil => exact Nat.zero_le _
  | cons c cs ih =>
    unfold utf8Prefix
    split
    · rename_i hsize
      have hpos := Char.utf8Size_pos c
      have hrest := ih (limit - c.utf8Size)
      rw [List.length_cons]
      omega
    · split
      · exact Nat.zero_le _
      · rename_i hlimit
        exact Nat.one_le_iff_ne_zero.mpr hlimit

theorem length_cutValue (value : String) : (cutValue value).length ≤ 4096 := by
  unfold cutValue
  split
  · rw [String.length_ofList]
    exact length_utf8Prefix 4096 value.toList
  · rename_i hsize
    exact (Json.length_le_utf8ByteSize value).trans (Nat.not_lt.mp hsize)

theorem length_of_isHeaderName {name : String} (h : isHeaderName name = true) : 1 ≤ name.length ∧ name.length ≤ 128 := by
  unfold isHeaderName at h
  rw [Bool.and_eq_true, Bool.and_eq_true, decide_eq_true_iff, decide_eq_true_iff] at h
  obtain ⟨⟨hne, hle⟩, -⟩ := h
  refine ⟨Nat.one_le_iff_ne_zero.mpr fun hzero => hne ?_, hle⟩
  exact String.length_eq_zero_iff.mp hzero

theorem validate_header {name : String} (h : isHeaderName name = true) (value : String) :
    ∃ header, BrokerHeader.validate name (cutValue value) = some header := by
  unfold BrokerHeader.validate
  rw [dif_pos ⟨length_of_isHeaderName h, length_cutValue value⟩]
  exact ⟨_, rfl⟩

/-- Every list of headers gives at most 64 headers within the limits. -/
theorem responseHeaders_some (headers : List (String × String)) {sanitized : List BrokerHeader} (h : sanitized.length ≤ 64) :
    ∃ clean, responseHeaders sanitized headers = some clean ∧ clean.length ≤ 64 := by
  induction headers generalizing sanitized with
  | nil => exact ⟨sanitized, rfl, h⟩
  | cons header headers ih =>
    unfold responseHeaders
    split
    · exact ⟨sanitized, rfl, h⟩
    rename_i hroom
    dsimp only
    split
    · exact ih h
    rename_i hname
    split
    · exact ih h
    obtain ⟨clean, hclean⟩ := validate_header (Bool.eq_true_of_not_eq_false fun hfalse => hname (.inl hfalse))
      (PyText.strip header.2)
    rw [hclean]
    refine ih ?_
    rw [List.length_append, List.length_singleton]
    omega

variable {p : Prepared}

/-- A response is answered, except when its status is above 599 and its body is read. -/
theorem respond_caught {response : Response} (hhash : isHexOfLength 64 p.contractHash = true) :
    Caught (respond p response) ↔ ∀ bytes, payload p response = some bytes → response.status ≤ 599 := by
  unfold respond
  cases hpayload : payload p response with
  | none => exact ⟨fun _ _ h => (by cases h), fun _ => caught_requestFailed⟩
  | some bytes =>
    obtain ⟨headers, hheaders, hlength⟩ := responseHeaders_some response.headers
      (show ([] : List BrokerHeader).length ≤ 64 from Nat.zero_le _)
    have hreason : (String.ofList (response.reason.toList.take 256)).length ≤ 256 := by
      rw [String.length_ofList, List.length_take]
      exact Nat.min_le_left _ _
    dsimp only
    rw [hheaders]
    dsimp only
    unfold BrokerHttpResponse.validate
    by_cases hstatus : response.status ≤ 599
    · rw [dif_pos ⟨⟨response.status_code.1, hstatus⟩, hreason, hlength, hhash⟩]
      exact ⟨fun _ _ _ => hstatus, fun _ => caught_ok _⟩
    · rw [dif_neg fun h => hstatus h.1.2]
      exact ⟨fun h => absurd h not_caught_escape, fun h => absurd (h bytes rfl) hstatus⟩

/-! ## The resolver -/

theorem publicIp_caught (net : Network) (value : String) : Caught (publicIp net value) := by
  unfold publicIp
  split
  · exact caught_error.mpr trivial
  · split
    · exact caught_ok _
    · exact caught_error.mpr trivial

theorem candidates_caught (net : Network) (port : Nat) (records : List AddressRecord) (found : List ResolvedEndpoint) :
    Caught (candidates net port found records) := by
  induction records generalizing found with
  | nil => exact caught_ok _
  | cons record records ih =>
    unfold candidates
    split
    · exact ih found
    split
    · rename_i e he
      exact caught_error.mpr (publicIp_caught net _ e he)
    · split
      · exact ih found
      · exact ih _

variable {net : Network}

/-- Whatever the resolver answers is classified; a name without an ASCII form is not. -/
theorem resolve_caught {lookup : List Char → Nat → Option (List AddressRecord)} {host : String} {port : Nat} :
    Caught (resolvePublicEndpoint net lookup host port) ↔
      (IpAddress.address? host.toList = none → idnaEncode net host.toList ≠ none) := by
  unfold resolvePublicEndpoint
  cases IpAddress.address? host.toList with
  | some literal =>
    refine ⟨fun _ h => (by cases h), fun _ => ?_⟩
    dsimp only
    split
    · rename_i e he
      exact caught_error.mpr (publicIp_caught net _ e he)
    · exact caught_ok _
  | none =>
    dsimp only
    cases idnaEncode net host.toList with
    | none => exact ⟨fun h => absurd h not_caught_escape, fun h => absurd rfl (h rfl)⟩
    | some name =>
      refine ⟨fun _ _ => Option.some_ne_none name, fun _ => ?_⟩
      dsimp only
      split
      · exact caught_error.mpr trivial
      split
      · rename_i e he
        exact caught_error.mpr (candidates_caught net port _ _ e he)
      · split
        · exact caught_error.mpr trivial
        · exact caught_ok _

/-! ## Sending -/

/-- `http.client` takes the host and the path as they are. -/
def Accepted (p : Prepared) : Prop := ¬ (p.host.toList.any isDisallowed = true ∨ p.path.toList.any isDisallowed = true)

/-- What is encoded before the connection is made has an encoding. -/
structure Encodable (net : Network) (p : Prepared) : Prop where
  path : isAscii p.path.toList = true
  host : connectName net p.host.toList ≠ none
  headers : ∀ value ∈ p.headers.values, isLatin1 value = true

/-- The request line and the headers are written, or the URL is refused as invalid. -/
theorem encode_cases (net : Network) (p : Prepared) :
    (¬ Accepted p ∧ encodeRequest net p = .error requestFailed) ∨ (Accepted p ∧ Encodable net p ∧ encodeRequest net p = .ok ()) ∨
      (Accepted p ∧ ¬ Encodable net p ∧ encodeRequest net p = .error (.escape .unicodeError)) := by
  unfold encodeRequest
  by_cases haccepted : Accepted p
  · rw [if_neg haccepted]
    by_cases hpath : isAscii p.path.toList = false
    · rw [if_pos hpath]
      refine .inr (.inr ⟨haccepted, fun h => ?_, rfl⟩)
      rw [h.path] at hpath
      cases hpath
    rw [if_neg hpath]
    by_cases hhost : connectName net p.host.toList = none
    · rw [if_pos hhost]
      exact .inr (.inr ⟨haccepted, fun h => h.host hhost, rfl⟩)
    rw [if_neg hhost]
    by_cases hheaders : p.headers.values.all isLatin1 = false
    · rw [if_pos hheaders]
      refine .inr (.inr ⟨haccepted, fun h => ?_, rfl⟩)
      rw [List.all_eq_true.mpr h.headers] at hheaders
      cases hheaders
    · rw [if_neg hheaders]
      refine .inr (.inl ⟨haccepted, ⟨Bool.eq_true_of_not_eq_false hpath, hhost, ?_⟩, rfl⟩)
      exact List.all_eq_true.mp (Bool.eq_true_of_not_eq_false hheaders)
  · rw [if_pos (not_not.mp haccepted)]
    exact .inl ⟨haccepted, rfl⟩

/-- The connection that the server makes has a name for its handshake, and its response, when the body is read, a status up to
599. -/
def Answers (net : Network) (p : Prepared) : Reply → Prop
  | .unreachable => True
  | .connected response =>
    ¬ (p.https = true ∧ idnaEncode net p.host.toList = none) ∧
      ∀ r, response = some r → ∀ bytes, payload p r = some bytes → r.status ≤ 599

/-- When sending a request, once it has its slot, is classified. -/
structure Manageable (net : Network) (remote : Remote) (p : Prepared) : Prop where
  name : IpAddress.address? p.host.toList = none → idnaEncode net p.host.toList ≠ none
  sent : ∀ endpoint, resolvePublicEndpoint net remote.lookup p.host p.port = .ok endpoint → Accepted p →
    Encodable net p ∧ connectName net endpoint.sockaddr.toList ≠ none ∧ Answers net p (remote.serve p endpoint)

/-- After the resolver: the rest of the `try` block, for an endpoint. -/
theorem exchange_of_resolved {remote : Remote} {endpoint : ResolvedEndpoint}
    (h : resolvePublicEndpoint net remote.lookup p.host p.port = .ok endpoint)
    (hhash : isHexOfLength 64 p.contractHash = true) :
    Caught (exchange net remote p) ↔
      (Accepted p → Encodable net p ∧ connectName net endpoint.sockaddr.toList ≠ none ∧ Answers net p (remote.serve p endpoint)) := by
  unfold exchange
  rw [h]
  dsimp only
  obtain ⟨hrefused, hencode⟩ | ⟨haccepted, hencodable, hencode⟩ | ⟨haccepted, hnot, hencode⟩ := encode_cases net p
  · rw [hencode]
    exact ⟨fun _ haccepted => absurd haccepted hrefused, fun _ => caught_requestFailed⟩
  · rw [hencode]
    dsimp only
    cases hname : connectName net endpoint.sockaddr.toList with
    | none => exact ⟨fun hcaught => absurd hcaught not_caught_escape, fun hsent => absurd rfl (hsent haccepted).2.1⟩
    | some name =>
      dsimp only
      cases hreply : remote.serve p endpoint with
      | unreachable => exact ⟨fun _ _ => ⟨hencodable, Option.some_ne_none _, trivial⟩, fun _ => caught_requestFailed⟩
      | connected response =>
        dsimp only
        by_cases hhandshake : p.https = true ∧ idnaEncode net p.host.toList = none
        · rw [if_pos hhandshake]
          exact ⟨fun hcaught => absurd hcaught not_caught_escape, fun hsent => absurd hhandshake (hsent haccepted).2.2.1⟩
        rw [if_neg hhandshake]
        cases response with
        | none =>
          refine ⟨fun _ _ => ⟨hencodable, Option.some_ne_none _, hhandshake, fun _ hnone => ?_⟩, fun _ => caught_requestFailed⟩
          cases hnone
        | some response =>
          refine (respond_caught hhash).trans ⟨fun hstatus _ => ⟨hencodable, Option.some_ne_none _, hhandshake, ?_⟩, fun hsent => ?_⟩
          · rintro r hr
            cases hr
            exact hstatus
          · exact (hsent haccepted).2.2.2 response rfl
  · rw [hencode]
    exact ⟨fun hcaught => absurd hcaught not_caught_escape, fun hsent => absurd (hsent haccepted).1 hnot⟩

/-- The whole `try` block. -/
theorem exchange_caught {remote : Remote} (hhash : isHexOfLength 64 p.contractHash = true) :
    Caught (exchange net remote p) ↔ Manageable net remote p := by
  cases hresolve : resolvePublicEndpoint net remote.lookup p.host p.port with
  | error e =>
    have hexchange : exchange net remote p = .error e := by
      unfold exchange
      rw [hresolve]
    have hname : Caught (resolvePublicEndpoint net remote.lookup p.host p.port) ↔ _ := resolve_caught
    rw [hresolve] at hname
    rw [hexchange, caught_error, ← caught_error (α := ResolvedEndpoint), hname]
    refine ⟨fun h => ⟨h, fun endpoint hendpoint => ?_⟩, fun h => h.name⟩
    rw [hresolve] at hendpoint
    cases hendpoint
  | ok endpoint =>
    have hname := resolve_caught.mp (show Caught (resolvePublicEndpoint net remote.lookup p.host p.port) by
      rw [hresolve]
      exact caught_ok _)
    rw [exchange_of_resolved hresolve hhash]
    refine ⟨fun h => ⟨hname, fun endpoint' hendpoint => ?_⟩, fun h => h.sent endpoint hresolve⟩
    rw [hresolve] at hendpoint
    cases hendpoint
    exact h

/-! ## Before the slot -/

section prepare

variable {py : Python} {settings : Settings} {secret : String} {r : BrokerHttpRequest}

/-- The patterns of a contract that passes its integrity check can be read, as far as the host of the target is looked up in them. -/
def Readable (py : Python) (secret : String) (r : BrokerHttpRequest) : Prop :=
  verifyStrixContractIntegrity py secret r.contract.toContract = .ok () → ∀ t, parseTarget py.unicode r.target = some t →
    t.isWellFormed = true →
      ScopePolicy.isHostAllowed py.unicode t.host r.contract.allowedTargets r.contract.deniedTargets ≠ none

theorem isAscii_of_hex {s : String} (h : isHexOfLength 64 s = true) : isAscii s.toList = true := by
  have hany := AuditSeal.isAscii_of_isHexOfLength h
  refine List.all_eq_true.mpr fun c hc => decide_eq_true ?_
  have hnot := List.any_eq_false.mp hany c hc
  rw [decide_eq_true_iff] at hnot
  omega

variable {e : ContractError}

/-- The digests of the document are ASCII texts, so comparing them raises nothing. -/
theorem verify_error (h : verifyStrixContractIntegrity py secret r.contract.toContract = .error e) :
    ∃ message, e = .contract message := by
  unfold verifyStrixContractIntegrity at h
  have hhash : r.contract.toContract.contractHash = r.contract.contractHash := rfl
  have hsignature : r.contract.toContract.signature = some r.contract.signature := rfl
  dsimp only at h
  rw [hhash, hsignature, if_neg (by rw [isAscii_of_hex r.contract_hash]; exact Bool.noConfusion)] at h
  split at h
  · exact ⟨_, (Except.error.inj h).symm⟩
  dsimp only at h
  split at h
  · exact ⟨_, (Except.error.inj h).symm⟩
  split at h
  · exact ⟨_, (Except.error.inj h).symm⟩
  rw [if_neg (by rw [isAscii_of_hex r.contract_signature]; exact Bool.noConfusion)] at h
  split at h
  · exact ⟨_, (Except.error.inj h).symm⟩
  · cases h

/-- A target is refused, or its host has no verdict: a pattern cannot be read. -/
theorem target_error {c : ExecutionContract.Contract} {target : String}
    (h : authorizeTarget py.unicode c target = .error e) :
    (∃ message, e = .contract message) ∨ e = .valueError ∧ ∃ t, parseTarget py.unicode target = some t ∧ t.isWellFormed = true ∧
      ScopePolicy.isHostAllowed py.unicode t.host c.allowedTargets c.deniedTargets = none := by
  unfold authorizeTarget at h
  split at h
  · exact .inl ⟨_, (Except.error.inj h).symm⟩
  rename_i t ht
  split at h
  · exact .inl ⟨_, (Except.error.inj h).symm⟩
  rename_i hwell
  split at h
  · rename_i hnone
    exact .inr ⟨(Except.error.inj h).symm, t, ht, Bool.eq_true_of_not_eq_false hwell, hnone⟩
  · cases h
  · exact .inl ⟨_, (Except.error.inj h).symm⟩

theorem authorizeTarget_of_unreadable {c : ExecutionContract.Contract} {target : String} {t}
    (ht : parseTarget py.unicode target = some t) (hwell : t.isWellFormed = true)
    (hnone : ScopePolicy.isHostAllowed py.unicode t.host c.allowedTargets c.deniedTargets = none) :
    authorizeTarget py.unicode c target = .error .valueError := by
  unfold authorizeTarget
  rw [ht]
  dsimp only
  rw [if_neg (by rw [hwell]; exact Bool.noConfusion), hnone]

/-- The authorisation raises its own error, or a pattern cannot be read. -/
theorem authorize_error
    (h : authorizeStrixContractRequest py secret r.contract.toContract r.target r.requestedRps = .error e) :
    (Readable py secret r ∧ ∃ message, e = .contract message) ∨ ¬ Readable py secret r ∧ e = .valueError := by
  by_cases hreadable : Readable py secret r
  · refine .inl ⟨hreadable, ?_⟩
    unfold authorizeStrixContractRequest at h
    split at h
    · rename_i e' hverify
      exact Except.error.inj h ▸ verify_error hverify
    rename_i hverify
    split at h
    · exact ⟨_, (Except.error.inj h).symm⟩
    split at h
    · exact ⟨_, (Except.error.inj h).symm⟩
    split at h
    · rename_i e' htarget
      rcases target_error htarget with hmessage | ⟨-, t, ht, hwell, hnone⟩
      · exact Except.error.inj h ▸ hmessage
      · exact absurd hnone (hreadable hverify t ht hwell)
    · split at h
      · exact ⟨_, (Except.error.inj h).symm⟩
      · cases h
  · refine .inr ⟨hreadable, ?_⟩
    unfold Readable at hreadable
    push Not at hreadable
    obtain ⟨hverify, t, ht, hwell, hnone⟩ := hreadable
    unfold authorizeStrixContractRequest at h
    rw [hverify, authorizeTarget_of_unreadable ht hwell hnone] at h
    dsimp only at h
    rw [if_neg (by simp [ExecutionContract.BrokerContractDocument.toContract]),
      if_neg (by simp [ExecutionContract.BrokerContractDocument.toContract])] at h
    exact (Except.error.inj h).symm

theorem addHeaders_caught (headers : List (String × String)) (normalized : Dict String String) :
    Caught (addHeaders normalized headers) := by
  induction headers generalizing normalized with
  | nil => exact caught_ok _
  | cons header headers ih =>
    unfold addHeaders
    split
    · rename_i e he
      unfold addHeader at he
      dsimp only at he
      split at he
      · cases he
        exact caught_error.mpr trivial
      · split at he
        · cases he
          exact caught_error.mpr trivial
        · cases he
    · exact ih _

theorem normalizeHeaders_caught (headers : List (String × String)) : Caught (normalizeHeaders headers) := by
  unfold normalizeHeaders
  split
  · exact caught_error.mpr trivial
  split
  · rename_i e he
    exact caught_error.mpr (addHeaders_caught _ _ e he)
  · exact caught_ok _

theorem timeoutSeconds_caught : Caught (timeoutSeconds settings) := by
  unfold timeoutSeconds
  split
  · exact caught_error.mpr trivial
  · split
    · exact caught_ok _
    · exact caught_error.mpr trivial

theorem maxResponseBytes_caught : Caught (maxResponseBytes settings) := by
  unfold maxResponseBytes
  split
  · exact caught_error.mpr trivial
  · split
    · exact caught_ok _
    · exact caught_error.mpr trivial

variable {authorized : ExecutionContract.AuthorizedRequest}

/-- The checks after the authorisation raise `StrixEgressError`s only, for a target that can be split. -/
theorem prepareAuthorized_caught {u : Unicode}
    (hsplit : PyUrl.urlsplit u authorized.target.toList ≠ none) : Caught (prepareAuthorized settings u r authorized) := by
  unfold prepareAuthorized
  split
  · exact caught_error.mpr trivial
  split
  · exact caught_error.mpr trivial
  split
  · rename_i hnone
    exact absurd hnone hsplit
  split
  · exact caught_error.mpr trivial
  split
  · exact caught_error.mpr trivial
  split
  · rename_i e he
    exact caught_error.mpr (normalizeHeaders_caught _ e he)
  split
  · rename_i e he
    exact caught_error.mpr (timeoutSeconds_caught e he)
  split
  · rename_i e he
    exact caught_error.mpr (maxResponseBytes_caught e he)
  · exact caught_ok _

theorem urlsplit_of_authorized
    (h : authorizeStrixContractRequest py secret r.contract.toContract r.target r.requestedRps = .ok authorized) :
    PyUrl.urlsplit py.unicode authorized.target.toList ≠ none := by
  obtain ⟨-, htarget, heq, -⟩ := ExecutionContract.authorize_cases h
  obtain ⟨t, ht, -⟩ := ExecutionContract.authorizeTarget_inScope htarget
  intro hnone
  rw [heq] at hnone
  unfold parseTarget at ht
  rw [hnone] at ht
  cases ht

theorem prepare_caught : Caught (prepare py settings secret r) ↔ Readable py secret r := by
  unfold prepare
  cases h : authorizeStrixContractRequest py secret r.contract.toContract r.target r.requestedRps with
  | error e =>
    dsimp only
    rcases authorize_error h with ⟨hreadable, message, rfl⟩ | ⟨hnot, rfl⟩
    · exact ⟨fun _ => hreadable, fun _ => caught_error.mpr trivial⟩
    · exact ⟨fun hcaught => absurd hcaught not_caught_escape, fun hreadable => absurd hreadable hnot⟩
  | ok authorized =>
    refine ⟨fun _ => ?_, fun _ => prepareAuthorized_caught (urlsplit_of_authorized h)⟩
    intro _ t ht hwell hnone
    obtain ⟨-, htarget, -⟩ := ExecutionContract.authorize_cases h
    rw [authorizeTarget_of_unreadable ht hwell hnone] at htarget
    cases htarget

/-- What the preparation takes from the authorisation. -/
theorem prepareAuthorized_ok {u : Unicode} {p : Prepared}
    (h : prepareAuthorized settings u r authorized = .ok p) :
    p.contractHash = authorized.contractHash ∧ p.rps = authorized.maxRequestsPerSecond ∧ p.host = authorized.host := by
  unfold prepareAuthorized at h
  split at h
  · cases h
  split at h
  · cases h
  split at h
  · cases h
  split at h
  · cases h
  split at h
  · cases h
  split at h
  · cases h
  split at h
  · cases h
  split at h
  · cases h
  have hp := Except.ok.inj h
  subst hp
  exact ⟨rfl, rfl, rfl⟩

theorem prepare_ok {p : Prepared} (h : prepare py settings secret r = .ok p) :
    p.contractHash = r.contract.contractHash ∧ p.rps.le .zero = false := by
  unfold prepare at h
  split at h
  · cases h
  rename_i authorized hauthorized
  obtain ⟨-, -, -, hrate, hhash, hzero, -⟩ := ExecutionContract.authorize_cases hauthorized
  obtain ⟨hcontract, hrps, -⟩ := prepareAuthorized_ok h
  refine ⟨hcontract.trans hhash, ?_⟩
  rw [hrps, hrate]
  exact hzero

end prepare

/-! ## The slot -/

/-- A rate above zero has an interval. -/
theorem recip_ne_none {rps : Binary64} (h : rps.le .zero = false) : Binary64.recip rps ≠ none := by
  cases rps with
  | nan => exact Option.some_ne_none _
  | infinity s => exact Option.some_ne_none _
  | finite a =>
    unfold Binary64.recip
    dsimp only
    by_cases hunits : 0 < a.units
    · rw [dif_pos hunits]
      exact Option.some_ne_none _
    · have hzero : a.toInt ≤ 0 := by
        unfold Binary64.Finite.toInt
        split
        · omega
        · omega
      have hle : (Binary64.finite a).le .zero = true := decide_eq_true hzero
      rw [hle] at h
      cases h

/-- So asking for a slot raises the errors of the transport only. -/
theorem slot_caught {s s' : Slots} {contractHash : String} {rps : Binary64} {now : Binary64.Finite} {e : Egress.SlotError}
    (hrps : rps.le .zero = false) (h : acquireRequestSlot s contractHash rps now = (.error e, s')) :
    (Failure.ofSlot e).IsEgressError := by
  unfold acquireRequestSlot at h
  split at h
  · rename_i hnone
    exact absurd hnone (recip_ne_none hrps)
  split at h
  · cases h
    trivial
  split at h
  · cases h
    trivial
  split at h
  · cases h
    trivial
  · cases h

/-! ## The whole request -/

/-- The promise: a response or a `StrixEgressError`, a slot that is free again unless another request of the contract has it, and
the slots as they were when the request is refused for its contract, its URL or its headers. -/
structure Classified (r : BrokerHttpRequest) (prepared : Except Failure Prepared) (s : Slots)
    (result : Except Failure BrokerHttpResponse × Slots) : Prop where
  caught : Caught result.1
  slot : r.contract.contractHash ∉ result.2.inflight ∨ r.contract.contractHash ∈ s.inflight ∧ result.2 = s
  refused : ∀ e, prepared = .error e → result.2 = s

/-- A contract for the hosts below one domain. -/
def wildcardDocument (cap : Binary64) : ExecutionContract.BrokerContractDocument where
  campaignId := "campaign-1"
  jobId := "job-1"
  primaryTarget := "https://example.com/"
  policyFingerprint := ExecutionContract.sampleDigest
  allowedTargets := ["*.example.com"]
  deniedTargets := []
  maxRequestsPerSecond := cap
  contractHash := ExecutionContract.sampleDigest
  signature := ExecutionContract.sampleDigest

/-- A host below the domain, with an empty label. -/
def emptyLabelTarget : String := "http://a..example.com/"

theorem emptyLabelTarget_length : 1 ≤ emptyLabelTarget.length ∧ emptyLabelTarget.length ≤ 2048 := by decide +kernel

def emptyLabelRequestAt (cap : Binary64) (h : ExecutionContract.boundedRate? cap = some cap) : BrokerHttpRequest where
  contract := wildcardDocument cap
  target := emptyLabelTarget
  requestedRps := cap
  method := .get
  headers := []
  contract_hash := ExecutionContract.sampleDigest_facts.1
  contract_signature := ExecutionContract.sampleDigest_facts.1
  target_length := emptyLabelTarget_length
  rate := h
  headers_nodup := List.nodup_nil
  headers_length := Nat.zero_le _

theorem boundedRate?_one : ExecutionContract.boundedRate? .one = some .one := by
  have htwenty : ExecutionContract.twenty.lt .one = false := by decide +kernel
  unfold ExecutionContract.boundedRate?
  rw [if_neg]
  rintro (hzero | hmost)
  · rw [ExecutionContract.one_facts.2.2.1] at hzero
    cases hzero
  · rw [htwenty] at hmost
    cases hmost

def emptyLabelRequest : BrokerHttpRequest := emptyLabelRequestAt .one boundedRate?_one

def sampleSettings : Settings := ⟨some .one, some 262144⟩

/-- A server that is never reached, and a resolver without records. -/
def silentRemote : Remote := ⟨fun _ _ => none, fun _ _ => .unreachable⟩

/-- What the functions compute on this target. -/
theorem emptyLabel_facts :
    (parseTarget ExecutionContract.sampleUnicode emptyLabelTarget).any
        (fun t => t.isWellFormed && decide (t.host = "a..example.com")) = true ∧
      ScopePolicy.isHostAllowed ExecutionContract.sampleUnicode "a..example.com" ["*.example.com"] [] = some true ∧
      IpAddress.address? "a..example.com".toList = none ∧
      idnaEncode Egress.sampleNetwork "a..example.com".toList = none := by decide +kernel

def isOk {α : Type} : Except Failure α → Bool
  | .ok _ => true
  | .error _ => false

theorem isOk_prepareAuthorized : isOk (prepareAuthorized sampleSettings ExecutionContract.sampleUnicode emptyLabelRequest
    ⟨ExecutionContract.sampleDigest, emptyLabelTarget, "a..example.com", .one⟩) = true := by decide +kernel

/-- The host has an empty label. -/
example : emptyLabelTarget ≠ "http://a.example.com/" := by decide +kernel

/-- The request is authorised, for every rate that its model and its contract admit. -/
theorem prepare_emptyLabelAt {cap : Binary64} (h : ExecutionContract.boundedRate? cap = some cap)
    (hrate : cap.le .zero = false ∧ cap.lt cap = false) :
    prepare ExecutionContract.samplePython sampleSettings "key" (emptyLabelRequestAt cap h) =
      prepareAuthorized sampleSettings ExecutionContract.sampleUnicode (emptyLabelRequestAt cap h)
        ⟨ExecutionContract.sampleDigest, emptyLabelTarget, "a..example.com", cap⟩ := by
  obtain ⟨hparse, hallowed, -⟩ := emptyLabel_facts
  have htarget := ExecutionContract.authorizeTarget_eq_ok (c := ExecutionContract.contractFor ["*.example.com"] [] cap)
    hparse hallowed
  have hauthorized : authorizeStrixContractRequest ExecutionContract.samplePython "key"
      (emptyLabelRequestAt cap h).contract.toContract (emptyLabelRequestAt cap h).target (emptyLabelRequestAt cap h).requestedRps =
        .ok ⟨ExecutionContract.sampleDigest, emptyLabelTarget, "a..example.com", cap⟩ :=
    ExecutionContract.authorize_contractFor htarget hrate
  unfold prepare
  rw [hauthorized]
  rfl

theorem prepare_emptyLabel : ∃ p, prepare ExecutionContract.samplePython sampleSettings "key" emptyLabelRequest = .ok p ∧
    p.rps = .one ∧ p.host = "a..example.com" := by
  have hok := isOk_prepareAuthorized
  unfold emptyLabelRequest at hok ⊢
  rw [prepare_emptyLabelAt boundedRate?_one ⟨ExecutionContract.one_facts.2.2.1, ExecutionContract.one_facts.2.2.2.1⟩]
  cases hp : prepareAuthorized sampleSettings ExecutionContract.sampleUnicode (emptyLabelRequestAt .one boundedRate?_one)
      ⟨ExecutionContract.sampleDigest, emptyLabelTarget, "a..example.com", .one⟩ with
  | error e =>
    rw [hp] at hok
    cases hok
  | ok p =>
    obtain ⟨-, hrps, hhost⟩ := prepareAuthorized_ok hp
    dsimp only at hrps hhost
    exact ⟨p, rfl, hrps, hhost⟩

theorem acquire_empty (contractHash : String) : ∃ s', acquireRequestSlot ⟨Dict.empty, ∅⟩ contractHash .one Egress.sampleReading =
    (.ok (), s') := by
  have hroom : ¬ Egress.Crowded ⟨Dict.empty, ∅⟩ contractHash := fun h => absurd h.2 (by decide)
  unfold acquireRequestSlot Egress.makeRoom
  rw [Egress.recip_one]
  dsimp only
  rw [if_neg (Finset.notMem_empty _), if_neg hroom]
  exact ⟨_, rfl⟩

end EgressRequest

end XbowPerso
