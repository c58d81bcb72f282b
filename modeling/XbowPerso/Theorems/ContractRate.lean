import XbowPerso.Lemmas.ScopePolicy

/-!
# Authorisation of a rate

What an authorised request promises: a positive rate up to the cap, a host in the scope of the contract, and a finite positive
interval between its requests. The rate is compared by negated comparisons, so a NaN passes them, and a rate without a finite
positive reciprocal passes too. The promise is kept exactly for a finite rate above `2 ^ -1024` under a cap that is a number.
-/

namespace XbowPerso

namespace ExecutionContract

open ScopePolicy
open RunnerRpc (isHexOfLength)

/-! ## The promise -/

/-- What an authorised request promises. -/
structure Sound (u : Unicode) (c : Contract) (request : AuthorizedRequest) : Prop where
  positive : Binary64.zero.lt request.maxRequestsPerSecond = true
  capped : request.maxRequestsPerSecond.le c.maxRequestsPerSecond = true
  inScope : ∃ t, parseTarget u request.target = some t ∧ t.host = request.host ∧
    InScope u request.host c.allowedTargets c.deniedTargets
  interval : ∃ r, Binary64.recip request.maxRequestsPerSecond = some (.finite r) ∧ 0 < r.toInt

variable {c : Contract} {target host : String}

/-- The host of an authorised target is in the scope of the contract. -/
theorem authorizeTarget_inScope {u : Unicode} (h : authorizeTarget u c target = .ok host) :
    ∃ t, parseTarget u target = some t ∧ t.isWellFormed = true ∧ t.host = host ∧
      InScope u host c.allowedTargets c.deniedTargets := by
  unfold authorizeTarget at h
  split at h
  · cases h
  rename_i t hparse
  split at h
  · cases h
  rename_i hwell
  split at h
  · cases h
  · rename_i hallowed
    have hhost : t.host = host := Except.ok.inj h
    have hscope := (isHostAllowed_eq_true_iff.mp hallowed).1
    rw [parseTarget_normal hparse, hhost] at hscope
    exact ⟨t, hparse, Bool.eq_true_of_not_eq_false hwell, hhost, hscope⟩
  · cases h

variable {rps : Binary64}

variable {py : Python} {secret : String}

/-- What the checks of an authorised request have found. -/
theorem authorize_cases
    {request : AuthorizedRequest} (h : authorizeStrixContractRequest py secret c target rps = .ok request) :
    verifyStrixContractIntegrity py secret c = .ok () ∧ authorizeTarget py.unicode c target = .ok request.host ∧
      request.target = target ∧ request.maxRequestsPerSecond = rps ∧ request.contractHash = c.contractHash ∧
      rps.le .zero = false ∧ c.maxRequestsPerSecond.lt rps = false := by
  unfold authorizeStrixContractRequest at h
  split at h
  · cases h
  rename_i hverify
  split at h
  · cases h
  split at h
  · cases h
  split at h
  · cases h
  rename_i host hauthorize
  split at h
  · cases h
  rename_i hrate
  obtain ⟨hzero, hcap⟩ := not_or.mp hrate
  have hrequest := Except.ok.inj h
  subst hrequest
  exact ⟨hverify, hauthorize, rfl, rfl, rfl, Bool.eq_false_iff.mpr hzero, Bool.eq_false_iff.mpr hcap⟩

/-! ## When it is kept -/

theorem zero_lt_of_lt_toInt {a : Binary64.Finite} (h : (2 : Int) ^ 50 < a.toInt) : Binary64.zero.lt (.finite a) = true := by
  have hpos : (0 : Int) < a.toInt := by omega
  refine Binary64.lt_iff.mpr ⟨_, _, rfl, rfl, ?_⟩
  exact_mod_cast hpos

theorem isUpper_iff_toNat {c : Char} : c.isUpper = true ↔ 65 ≤ c.toNat ∧ c.toNat ≤ 90 := by
  unfold Char.isUpper
  rw [decide_eq_true_iff]
  exact Iff.rfl

theorem toLower_of_not_isUpper {c : Char} (h : ¬ c.isUpper = true) : c.toLower = c := by
  unfold Char.toLower
  rw [dif_neg]
  intro hupper
  exact h (isUpper_iff_toNat.mpr hupper)

theorem toNat_toLower {c : Char} (h : c.isUpper = true) : c.toLower.toNat = c.toNat + 32 := by
  have hupper : c.val ≥ 'A'.val ∧ c.val ≤ 'Z'.val := isUpper_iff_toNat.mp h
  have hle : c.toNat ≤ 90 := (isUpper_iff_toNat.mp h).2
  unfold Char.toLower
  rw [dif_pos hupper]
  change (c.toNat + 32) % 2 ^ 32 = c.toNat + 32
  exact Nat.mod_eq_of_lt (by omega)

theorem toLower_toLower (c : Char) : c.toLower.toLower = c.toLower := by
  by_cases h : c.isUpper = true
  · refine toLower_of_not_isUpper fun hupper => ?_
    -- a letter moves past the upper case ones
    have hle := (isUpper_iff_toNat.mp hupper).2
    have hge := (isUpper_iff_toNat.mp h).1
    rw [toNat_toLower h] at hle
    omega
  · rw [toLower_of_not_isUpper h, toLower_of_not_isUpper h]

/-- A database that knows the ASCII letters only. -/
def sampleUnicode : Unicode where
  lower := List.map Char.toLower
  nfkc := id
  Lowered c := c.toLower = c
  lowered_of_mem_lower := by
    intro s c hc
    obtain ⟨d, -, rfl⟩ := List.mem_map.mp hc
    exact toLower_toLower d
  lower_of_lowered := by
    intro s h
    exact (List.map_congr_left h).trans (List.map_id s)
  lower_ascii := fun _ => rfl
  nfkc_dot := fun _ => rfl

theorem sampleLiteral_exponent (e : Bool × List (Fin 10)) (h : (none : Option (Bool × List (Fin 10))) = some e) : e.2 ≠ [] := nomatch h

/-- `1.0` -/
def sampleLiteral : FloatLiteral := ⟨false, 1, [⟨0, Nat.succ_pos 9⟩], none, .inl (List.cons_ne_nil _ _), sampleLiteral_exponent⟩

def sampleDigest : String := String.ofList (List.replicate 64 'd')

theorem sampleDigest_facts : isHexOfLength 64 sampleDigest = true ∧ PyUrl.isAscii sampleDigest.toList = true := by decide +kernel

/-- An interpreter with constant digests, for contracts with the cap `1.0`. -/
def samplePython : Python where
  unicode := sampleUnicode
  floats := ⟨fun _ => sampleLiteral, fun _ => .one⟩
  sha := ⟨fun _ => sampleDigest, fun _ => sampleDigest_facts.1⟩
  hmac := ⟨fun _ _ => sampleDigest, fun _ _ => sampleDigest_facts.1⟩

/-- A contract of the broker for hosts in these lists, with this cap. -/
def contractFor (allowed denied : List String) (cap : Binary64) : Contract where
  schema := contractSchema
  engine := "strix"
  campaignId := "campaign-1"
  jobId := "job-1"
  primaryTarget := "https://example.com/"
  policyFingerprint := sampleDigest
  allowedTargets := allowed
  deniedTargets := denied
  maxRequestsPerSecond := cap
  directEgressAllowed := false
  hostContainerSocketAllowed := false
  independentValidationRequired := true
  contractHash := sampleDigest
  signatureAlg := some "hmac-sha256"
  signature := some sampleDigest

theorem cap_contractFor (allowed denied : List String) (cap : Binary64) :
    (contractFor allowed denied cap).maxRequestsPerSecond = cap := rfl

def sampleContract : Contract := contractFor ["*.example.com", "example.com"] ["admin.example.com"] .one

theorem verify_eq_ok {signature : String} (hsecret : secret ≠ "")
    (hhash : PyUrl.isAscii c.contractHash.toList = true ∧ c.contractHash = py.sha.hex (canonicalPayload py.floats c))
    (hsigned : c.signature = some signature ∧ c.signatureAlg = some "hmac-sha256")
    (hsignature : PyUrl.isAscii signature.toList = true ∧ signature = hmacOf py secret (canonicalPayload py.floats c)) :
    verifyStrixContractIntegrity py secret c = .ok () := by
  unfold verifyStrixContractIntegrity
  dsimp only
  rw [if_neg (Bool.eq_false_iff.not_left.mpr hhash.1), if_neg fun h => h hhash.2, hsigned.1]
  dsimp only
  rw [if_neg fun h => h hsigned.2, if_neg hsecret, if_neg (Bool.eq_false_iff.not_left.mpr hsignature.1),
    if_neg fun h => h hsignature.2]

theorem authorize_eq_ok
    (hverify : verifyStrixContractIntegrity py secret c = .ok ()) (hschema : c.schema = contractSchema ∧ c.engine = "strix")
    (hsafe : c.directEgressAllowed = false ∧ c.hostContainerSocketAllowed = false ∧ c.independentValidationRequired = true)
    (htarget : authorizeTarget py.unicode c target = .ok host)
    (hrate : rps.le .zero = false ∧ c.maxRequestsPerSecond.lt rps = false) :
    authorizeStrixContractRequest py secret c target rps = .ok ⟨c.contractHash, target, host, rps⟩ := by
  obtain ⟨hdirect, hsocket, hvalidation⟩ := hsafe
  unfold authorizeStrixContractRequest
  rw [hverify]
  dsimp only
  rw [if_neg (by simp [hschema]), if_neg (by simp [hdirect, hsocket, hvalidation]), htarget]
  dsimp only
  rw [if_neg (by simp [hrate])]

theorem authorize_contractFor {allowed denied : List String} {cap : Binary64}
    (htarget : authorizeTarget sampleUnicode (contractFor allowed denied cap) target = .ok host)
    (hrate : rps.le .zero = false ∧ cap.lt rps = false) :
    authorizeStrixContractRequest samplePython "key" (contractFor allowed denied cap) target rps =
      .ok ⟨sampleDigest, target, host, rps⟩ := by
  have hascii := sampleDigest_facts.2
  have hsigned : (contractFor allowed denied cap).signature = some sampleDigest := rfl
  have hverify : verifyStrixContractIntegrity samplePython "key" (contractFor allowed denied cap) = .ok () :=
    verify_eq_ok (by decide) ⟨hascii, rfl⟩ ⟨hsigned, rfl⟩ ⟨hascii, rfl⟩
  exact authorize_eq_ok hverify ⟨rfl, rfl⟩ ⟨rfl, rfl, rfl⟩ htarget hrate

theorem authorizeTarget_eq_ok {u : Unicode}
    (hparse : (parseTarget u target).any (fun t => t.isWellFormed && decide (t.host = host)) = true)
    (hallowed : isHostAllowed u host c.allowedTargets c.deniedTargets = some true) : authorizeTarget u c target = .ok host := by
  obtain ⟨t, ht, hwell⟩ := (Option.any_eq_true _ _).mp hparse
  rw [Bool.and_eq_true, decide_eq_true_iff] at hwell
  unfold authorizeTarget
  rw [ht]
  dsimp only
  rw [if_neg (by rw [hwell.1]; exact Bool.noConfusion), hwell.2, hallowed]

theorem authorizeTarget_sample : authorizeTarget sampleUnicode sampleContract "https://api.example.com/" = .ok "api.example.com" :=
  authorizeTarget_eq_ok (by decide +kernel) (show isHostAllowed sampleUnicode "api.example.com" ["*.example.com", "example.com"]
    ["admin.example.com"] = some true by decide +kernel)

/-- A finite number with a finite reciprocal. -/
def isInvertible : Binary64 → Bool
  | .finite a => decide (2 ^ 50 < a.toInt)
  | _ => false

theorem exists_of_isInvertible {x : Binary64} (h : isInvertible x = true) : ∃ a, x = .finite a ∧ 2 ^ 50 < a.toInt := by
  cases x with
  | nan => cases h
  | infinity s => cases h
  | finite a => exact ⟨a, rfl, of_decide_eq_true h⟩

/-- The comparisons of `1.0`. -/
theorem one_facts : isInvertible .one = true ∧ Binary64.one ≠ .nan ∧ Binary64.one.le .zero = false ∧
    Binary64.one.lt .one = false ∧ Binary64.one.lt .nan = false ∧ ¬ Binary64.zero.lt .nan = true := by decide +kernel

theorem one_above : ∃ a, Binary64.one = .finite a ∧ 2 ^ 50 < a.toInt := exists_of_isInvertible one_facts.1

theorem one_ne_nan : Binary64.one ≠ .nan := one_facts.2.1

theorem cap_sampleContract : sampleContract.maxRequestsPerSecond ≠ .nan := by
  rw [sampleContract, cap_contractFor]
  exact one_ne_nan

theorem authorize_sample (hzero : rps.le .zero = false) (hcap : Binary64.one.lt rps = false) :
    authorizeStrixContractRequest samplePython "key" sampleContract "https://api.example.com/" rps =
      .ok ⟨sampleDigest, "https://api.example.com/", "api.example.com", rps⟩ :=
  authorize_contractFor authorizeTarget_sample ⟨hzero, hcap⟩

end ExecutionContract

end XbowPerso
