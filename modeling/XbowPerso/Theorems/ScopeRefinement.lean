import XbowPerso.Lemmas.PatternNormalForm
import XbowPerso.Theorems.ContractRate
import Mathlib.Data.List.Dedup

/-!
# The scope of a contract

A contract lists the normal forms of the patterns of its campaign, and the broker normalises what it has received once more when it
decides. It decides as the campaign does when no normal form has white space at its ends; another one is a different pattern there.
-/

namespace XbowPerso

namespace ExecutionContract

open ScopePolicy
open RunnerRpc (isHexOfLength item)

variable {py : Python} {secret : Option (Option String)} {campaign : Campaign} {jobId : String} {c c' : Contract}

/-! ## From the campaign to the broker -/

variable {l : List String} {n : String}

theorem mem_sortedSet : n ∈ sortedSet l ↔ n ∈ l := by
  rw [sortedSet, List.mem_insertionSort, List.mem_dedup]

variable {u : Unicode}

theorem normalizedTargets_eq_ok {targets : List String} (h : normalizedTargets u targets = .ok l) :
    ∃ normals, targets.mapM (normalizePattern u) = some normals ∧ l = sortedSet normals := by
  unfold normalizedTargets at h
  split at h
  · cases h
  rename_i normals hnormals
  exact ⟨normals, hnormals, (Except.ok.inj h).symm⟩

/-- The lists of a contract are those of the normal forms. -/
theorem build_lists (h : buildStrixExecutionContract py secret campaign jobId = .ok c) :
    normalizedTargets py.unicode campaign.rules.allowedTargets = .ok c.allowedTargets ∧
      normalizedTargets py.unicode campaign.rules.deniedTargets = .ok c.deniedTargets := by
  unfold buildStrixExecutionContract at h
  split at h
  · cases h
  split at h
  · cases h
  split at h
  · cases h
  split at h
  · cases h
  rename_i unsigned hunsigned
  split at h
  · cases h
  have hc := Except.ok.inj h
  subst hc
  unfold unsignedContract at hunsigned
  split at hunsigned
  · cases hunsigned
  rename_i hallowed
  split at hunsigned
  · cases hunsigned
  rename_i hdenied
  split at hunsigned
  · cases hunsigned
  have heq := Except.ok.inj hunsigned
  subst heq
  exact ⟨hallowed, hdenied⟩

theorem mapM_string? (l : List String) : (l.map Json.str).mapM string? = some l := by
  rw [mapM_eq_some_iff, List.forall₂_map_left_iff]
  exact List.forall₂_same.mpr fun _ _ => rfl

theorem texts?_texts {least most : Nat} {l' : List String} (h : texts? least most (texts l) = some l') : l' = l := by
  unfold texts? texts at h
  dsimp only at h
  split at h
  · rw [mapM_string?] at h
    exact (Option.some.inj h).symm
  · cases h

theorem distinct_texts (l : List String) : (texts l).Distinct := by
  show Json.DistinctElems _
  rw [Json.distinctElems_iff]
  intro v hv
  obtain ⟨s, -, rfl⟩ := List.mem_map.mp hv
  trivial

theorem distinct_rateJson (floats : FloatText) (x : Binary64) : (rateJson floats x).Distinct := by
  cases x <;> trivial

theorem distinct_optional (s : Option String) : (optional s).Distinct := by
  cases s <;> trivial

theorem distinct_toDict_contract (floats : FloatText) (c : Contract) : (Json.obj (c.toDict floats)).Distinct := by
  refine ⟨?_, ?_⟩
  · show (documentFields).Nodup
    decide
  · rw [Json.distinctFields_iff]
    intro field hfield
    simp only [Contract.toDict, List.mem_cons, List.not_mem_nil, or_false] at hfield
    rcases hfield with rfl | rfl | rfl | rfl | rfl | rfl | rfl | rfl | rfl | rfl | rfl | rfl | rfl | rfl | rfl
    all_goals first | trivial | exact distinct_texts _ | exact distinct_rateJson _ _ | exact distinct_optional _

theorem validate_lists {floats : FloatText} {d : RunnerRpc.JsonDict} {doc : BrokerContractDocument}
    (h : BrokerContractDocument.validate floats d = some doc) :
    ∃ allowed denied, texts? 1 256 (item d "allowed_targets") = some allowed ∧
      texts? 0 256 (item d "denied_targets") = some denied ∧
      doc.allowedTargets = sortedSet allowed ∧ doc.deniedTargets = sortedSet denied := by
  unfold BrokerContractDocument.validate at h
  split at h
  · cases h
  split at h
  · cases h
  simp only [bind, Option.bind_eq_some_iff] at h
  obtain ⟨_, -, _, -, _, -, _, -, allowed, hallowed, denied, hdenied, _, -, _, -, _, -, h⟩ := h
  have hdoc := Option.some.inj h
  subst hdoc
  exact ⟨allowed, denied, hallowed, hdenied, rfl, rfl⟩

/-- What the broker receives is what the contract lists. -/
theorem receive_lists {floats : FloatText} (h : receive floats c = some c') :
    c'.allowedTargets = sortedSet c.allowedTargets ∧ c'.deniedTargets = sortedSet c.deniedTargets := by
  unfold receive at h
  rw [Json.loads_dumps (distinct_toDict_contract floats c)] at h
  obtain ⟨doc, hdoc, rfl⟩ := Option.map_eq_some_iff.mp h
  obtain ⟨allowed, denied, hallowed, hdenied, heq, heq'⟩ := validate_lists hdoc
  exact ⟨heq.trans (by rw [texts?_texts hallowed]), heq'.trans (by rw [texts?_texts hdenied])⟩

/-- The broker has the normal forms of the campaign's patterns, and each of these has one. -/
theorem broker_lists (hbuild : buildStrixExecutionContract py secret campaign jobId = .ok c)
    (hreceive : receive py.floats c = some c') :
    ∃ allowed denied, campaign.rules.allowedTargets.mapM (normalizePattern py.unicode) = some allowed ∧
      campaign.rules.deniedTargets.mapM (normalizePattern py.unicode) = some denied ∧
      (∀ n, n ∈ c'.allowedTargets ↔ n ∈ allowed) ∧ ∀ n, n ∈ c'.deniedTargets ↔ n ∈ denied := by
  obtain ⟨hallowed, hdenied⟩ := build_lists hbuild
  obtain ⟨allowed, has, heqa⟩ := normalizedTargets_eq_ok hallowed
  obtain ⟨denied, hds, heqd⟩ := normalizedTargets_eq_ok hdenied
  obtain ⟨ha, hd⟩ := receive_lists hreceive
  refine ⟨allowed, denied, has, hds, fun n => ?_, fun n => ?_⟩
  · rw [ha, heqa, mem_sortedSet, mem_sortedSet]
  · rw [hd, heqd, mem_sortedSet, mem_sortedSet]

/-! ## The decision of the broker -/

/-- The normal forms of the patterns have no white space at their ends. -/
def Trimmed (u : Unicode) (patterns : List String) : Prop :=
  ∀ p ∈ patterns, ∀ n, normalizePattern u p = some n → PyText.strip n = n

theorem mapM_normal {patterns normals : List String} (htrimmed : Trimmed u patterns)
    (hnormals : patterns.mapM (normalizePattern u) = some normals) (hl : ∀ n, n ∈ l ↔ n ∈ normals) :
    l.mapM (normalizePattern u) = some l := by
  refine mapM_eq_some_iff.mpr (List.forall₂_same.mpr fun n hn => ?_)
  obtain ⟨p, hp, hpn⟩ := (mem_normal_iff hnormals).mp ((hl n).mp hn)
  exact (normalizePattern_normal hpn).mpr (htrimmed p hp n hpn)

/-- A pattern that stands for itself. -/
def Literal (n : String) : Prop := ∀ c ∈ n.toList, c ≠ '*' ∧ c ≠ '?' ∧ c ≠ '['

theorem hostMatches_literal {host : String} (h : Literal n) : hostMatches host n = true ↔ host = n := by
  rw [hostMatches, Glob.fnmatch_plain h, ← String.toList_inj]

/-- The normal form of a pattern that stands for itself and is its own lower case does so too. -/
theorem literal_normal {m : String} (hlower : ∀ c ∈ n.toList, u.Lowered c) (hn : Literal n)
    (h : normalizePattern u n = some m) : Literal m := by
  have hpart := isInfix_stripChars n.toList
  have hstripped : u.lower (PyText.stripChars n.toList) = PyText.stripChars n.toList :=
    u.lower_of_lowered fun c hc => hlower c (hpart.subset hc)
  intro c hc
  rcases normalizePattern_cases h hstripped with ⟨hm, -⟩ | ⟨-, r, hsplit, hm⟩
  · rw [hm] at hc
    exact hn c (hpart.subset (mem_of_mem_rstripDots hc))
  · rw [hm] at hc
    exact hn c (hpart.subset (mem_host_of_urlsplit hsplit (mem_of_mem_rstripDots hc)).1)

/-- A host that only a literal pattern with white space at its ends denies, and that the broker allows. -/
theorem broker_allows_denied {p : String} {allowed allowed' denied' normals : List String}
    (hp : normalizePattern u p = some n) (hliteral : Literal n) (hstrip : PyText.strip n ≠ n)
    (hnormals : allowed.mapM (normalizePattern u) = some normals) (htrimmed : Trimmed u allowed)
    (hallowed' : ∀ m, m ∈ allowed' ↔ m ∈ normals) (hdenied' : ∀ m, m ∈ denied' ↔ m = n)
    (hmatch : ∃ m ∈ normals, hostMatches n m = true) :
    isHostAllowed u n allowed [p] = some false ∧ isHostAllowed u n allowed' denied' ≠ some false := by
  obtain ⟨hlower, hdots, -⟩ := normalizePattern_eq_some hp
  have hhost : normalizedHost u n = n := by
    rw [normalizedHost, u.lower_of_lowered hlower, hdots, String.ofList_toList]
  constructor
  · have hdenied : [p].mapM (normalizePattern u) = some [n] := mapM_eq_some_iff.mpr (.cons hp .nil)
    rw [isHostAllowed_eq_decision hnormals hdenied, hhost, decision, List.any_cons, (hostMatches_literal hliteral).mpr rfl]
    rfl
  · intro hfalse
    rcases hdenied : denied'.mapM (normalizePattern u) with _ | ds
    · rw [isHostAllowed, hdenied] at hfalse
      cases hfalse
    · rw [isHostAllowed_eq_decision (mapM_normal htrimmed hnormals hallowed') hdenied, hhost, Option.some_inj, decision] at hfalse
      have hno : ds.any (hostMatches n) = false := by
        rw [List.any_eq_false]
        intro m hm hmatch
        obtain ⟨q, hq, hqm⟩ := (mem_normal_iff hdenied).mp hm
        rw [(hdenied' q).mp hq] at hqm
        have heq := (hostMatches_literal (literal_normal hlower hliteral hqm)).mp hmatch
        rw [← heq] at hqm
        exact hstrip ((normalizePattern_normal hp).mp hqm)
      have hyes : allowed'.any (hostMatches n) = true := by
        obtain ⟨m, hm, hmatch⟩ := hmatch
        exact List.any_eq_true.mpr ⟨m, (hallowed' m).mpr hm, hmatch⟩
      rw [hno, hyes] at hfalse
      cases hfalse

/-- The broker decides on every host as the campaign does when no normal form has white space at its ends. These are the patterns
that the second normalisation leaves as they are; and a host that the campaign denies by another literal pattern alone is not
denied by the broker. -/
theorem scope_refinement (py : Python) (secret : Option (Option String)) (campaign : Campaign) (jobId : String) (c c' : Contract)
    (hbuild : buildStrixExecutionContract py secret campaign jobId = .ok c) (hreceive : receive py.floats c = some c') :
    (Trimmed py.unicode (campaign.rules.allowedTargets ++ campaign.rules.deniedTargets) →
        ∀ host, isHostAllowed py.unicode host c'.allowedTargets c'.deniedTargets =
          isHostAllowed py.unicode host campaign.rules.allowedTargets campaign.rules.deniedTargets) ∧
      (∀ p n, normalizePattern py.unicode p = some n → (normalizePattern py.unicode n = some n ↔ PyText.strip n = n)) ∧
      ∀ p n, campaign.rules.deniedTargets = [p] → normalizePattern py.unicode p = some n → Literal n → PyText.strip n ≠ n →
        Trimmed py.unicode campaign.rules.allowedTargets →
        (∃ q ∈ campaign.rules.allowedTargets, ∃ m, normalizePattern py.unicode q = some m ∧ hostMatches n m = true) →
        isHostAllowed py.unicode n campaign.rules.allowedTargets campaign.rules.deniedTargets = some false ∧
          isHostAllowed py.unicode n c'.allowedTargets c'.deniedTargets ≠ some false := by
  obtain ⟨allowed, denied, hallowed, hdenied, hca, hcd⟩ := broker_lists hbuild hreceive
  refine ⟨fun htrimmed host => ?_, fun p n hp => normalizePattern_normal hp, ?_⟩
  · have hta : Trimmed py.unicode campaign.rules.allowedTargets := fun p hp => htrimmed p (List.mem_append_left _ hp)
    have htd : Trimmed py.unicode campaign.rules.deniedTargets := fun p hp => htrimmed p (List.mem_append_right _ hp)
    rw [isHostAllowed_eq_decision (mapM_normal hta hallowed hca) (mapM_normal htd hdenied hcd),
      isHostAllowed_eq_decision hallowed hdenied, decision_congr hca hcd]
  · intro p n hone hp hliteral hstrip htrimmed ⟨q, hq, m, hqm, hmatch⟩
    have hsingle : ∀ d, d ∈ c'.deniedTargets ↔ d = n := by
      intro d
      rw [hone] at hdenied
      have hnormal : denied = [n] := Option.some.inj (hdenied.symm.trans (mapM_eq_some_iff.mpr (.cons hp .nil)))
      rw [hcd, hnormal, List.mem_singleton]
    rw [hone]
    exact broker_allows_denied hp hliteral hstrip hallowed htrimmed hca hsingle
      ⟨m, (mem_normal_iff hallowed).mpr ⟨q, hq, hqm⟩, hmatch⟩

/-! ## A rule that is lost on the way -/

/-- A campaign whose targets are allowed by one pattern and denied by another. -/
def campaignFor (allowed denied : String) (cap : Binary64) : Campaign where
  id := "campaign-1"
  primaryUrl := "https://example.com/"
  rules := {
    authorizationReference := "program-1", allowedTargets := [allowed], deniedTargets := [denied], maxRequestsPerSecond := cap
    destructiveTesting := false, denialOfService := false, socialEngineering := false, credentialAttacks := false
    automatedScanning := true }

/-- What the functions compute on the texts of the sample. -/
theorem sample_texts : urlHost sampleUnicode "https://example.com/" = some "example.com" ∧
    withoutDots "example.com" = "example.com" ∧ validateJobId "job-1" = .ok "job-1" ∧
    text? 1 128 (.str "campaign-1") = some "campaign-1" ∧ text? 1 128 (.str "job-1") = some "job-1" ∧
    text? 1 2048 (.str "https://example.com/") = some "https://example.com/" := by decide +kernel

theorem unsafeCampaignReasons_sample {allowed denied : String} {cap : Binary64}
    (h : isHostAllowed sampleUnicode "example.com" [allowed] [denied] = some true) :
    unsafeCampaignReasons sampleUnicode (campaignFor allowed denied cap) = .ok [] := by
  obtain ⟨hhost, hdots, -⟩ := sample_texts
  unfold unsafeCampaignReasons
  rw [show (campaignFor allowed denied cap).primaryUrl = "https://example.com/" from rfl, hhost]
  dsimp only
  rw [hdots, if_neg (by decide),
    show isHostAllowed sampleUnicode "example.com" (campaignFor allowed denied cap).rules.allowedTargets
      (campaignFor allowed denied cap).rules.deniedTargets = some true from h]
  rfl

theorem normalizedTargets_single {p : String} (h : normalizePattern u p = some n) :
    normalizedTargets u [p] = .ok [n] := by
  have hsorted : sortedSet [n] = [n] := rfl
  rw [normalizedTargets, mapM_eq_some_iff.mpr (.cons h .nil)]
  exact congrArg Except.ok hsorted

theorem policySnapshotFingerprint_sample (allowed denied : String) (cap : Binary64) :
    policySnapshotFingerprint samplePython (campaignFor allowed denied cap) = .ok sampleDigest := by
  unfold policySnapshotFingerprint
  rw [show urlHost samplePython.unicode (campaignFor allowed denied cap).primaryUrl = some "example.com" from sample_texts.1]
  rfl

/-- The contract of such a campaign. -/
theorem build_sample {allowed denied allowed' denied' : String} (cap : Binary64)
    (hallowed : normalizePattern sampleUnicode allowed = some allowed') (hdenied : normalizePattern sampleUnicode denied = some denied')
    (h : isHostAllowed sampleUnicode "example.com" [allowed] [denied] = some true) :
    buildStrixExecutionContract samplePython (some (some "key")) (campaignFor allowed denied cap) "job-1" =
      .ok (contractFor [allowed'] [denied'] cap) := by
  obtain ⟨-, -, hjob, -⟩ := sample_texts
  have hkey : (some "key").filter (fun key => decide (key ≠ "")) = some "key" := by decide
  unfold buildStrixExecutionContract
  rw [show samplePython.unicode = sampleUnicode from rfl, unsafeCampaignReasons_sample h]
  dsimp only
  rw [if_neg (fun h => h rfl), hjob]
  dsimp only
  unfold unsignedContract
  rw [show samplePython.unicode = sampleUnicode from rfl,
    show normalizedTargets sampleUnicode (campaignFor allowed denied cap).rules.allowedTargets = .ok [allowed'] from
      normalizedTargets_single hallowed]
  dsimp only
  rw [show normalizedTargets sampleUnicode (campaignFor allowed denied cap).rules.deniedTargets = .ok [denied'] from
      normalizedTargets_single hdenied, policySnapshotFingerprint_sample]
  dsimp only
  rw [sign, hkey]
  rfl

theorem texts?_single {least : Nat} (hleast : least ≤ 1) (s : String) : texts? least 256 (texts [s]) = some [s] := by
  show (if _ then _ else _) = _
  rw [if_pos ⟨hleast, (by decide : 1 ≤ 256)⟩]
  exact mapM_string? [s]

theorem hex?_sampleDigest : hex? (.str sampleDigest) = some sampleDigest := by
  rw [hex?, if_pos sampleDigest_facts.1]

theorem receive_sample (allowed denied : String) {cap : Binary64}
    (hread : rate? samplePython.floats (rateJson samplePython.floats cap) = some cap) :
    receive samplePython.floats (contractFor [allowed] [denied] cap) = some (contractFor [allowed] [denied] cap) := by
  obtain ⟨d, hd⟩ : ∃ d, (contractFor [allowed] [denied] cap).toDict samplePython.floats = d := ⟨_, rfl⟩
  have hkeys : (d.all fun field => decide (field.1 ∈ documentFields)) = true := by
    rw [← hd]
    simp [Contract.toDict, documentFields]
  have hfixed : ¬ (RunnerRpc.isStr (item d "schema") contractSchema = false ∨ RunnerRpc.isStr (item d "engine") "strix" = false ∨
      RunnerRpc.isBool (item d "direct_egress_allowed") false = false ∨
      RunnerRpc.isBool (item d "host_container_socket_allowed") false = false ∨
      RunnerRpc.isBool (item d "independent_validation_required") true = false ∨
      RunnerRpc.isStr (item d "signature_alg") "hmac-sha256" = false) := by
    rw [← hd]
    simp [Contract.toDict, contractFor, item, RunnerRpc.isStr, RunnerRpc.isBool, optional, List.lookup_cons]
  obtain ⟨-, -, -, htexts⟩ := sample_texts
  have hsorted : ∀ s : String, sortedSet [s] = [s] := fun _ => rfl
  unfold receive
  rw [Json.loads_dumps (distinct_toDict_contract _ _), hd]
  dsimp only
  unfold BrokerContractDocument.validate
  rw [if_neg (by rw [hkeys]; exact Bool.noConfusion), if_neg hfixed, ← hd]
  rw [show item _ "campaign_id" = .str "campaign-1" from rfl, show item _ "job_id" = .str "job-1" from rfl,
    show item _ "primary_target" = .str "https://example.com/" from rfl,
    show item _ "policy_fingerprint" = .str sampleDigest from rfl, show item _ "allowed_targets" = texts [allowed] from rfl,
    show item _ "denied_targets" = texts [denied] from rfl,
    show item _ "max_requests_per_second" = rateJson samplePython.floats cap from rfl,
    show item _ "contract_hash" = .str sampleDigest from rfl, show item _ "signature" = .str sampleDigest from rfl,
    htexts.1, htexts.2.1, htexts.2.2, hex?_sampleDigest, texts?_single le_rfl, texts?_single (Nat.zero_le 1), hread]
  simp only [bind, Option.bind_some, Option.map_some, hsorted]
  rfl

theorem bounded_one : boundedRate? .one = some .one := by decide +kernel

theorem read_sample (literal : FloatLiteral) : samplePython.floats.read literal = .one := by
  dsimp only [samplePython]

theorem rate_one : rate? samplePython.floats (rateJson samplePython.floats .one) = some .one := by
  obtain ⟨a, ha, -⟩ := one_above
  have hread : rate? samplePython.floats (rateJson samplePython.floats (.finite a)) = boundedRate? .one := by
    rw [rateJson, rate?, read_sample]
  rw [ha, hread, bounded_one, ha]

theorem trimmed_of_all {patterns : List String}
    (h : (patterns.all fun p => (normalizePattern u p).all fun n => decide (PyText.strip n = n)) = true) : Trimmed u patterns := by
  intro p hp n hn
  have hall := List.all_eq_true.mp h p hp
  rw [hn] at hall
  exact of_decide_eq_true hall

/-- What the functions compute on the patterns of the sample. -/
theorem sample_patterns :
    (normalizePattern sampleUnicode "*Example.com" = some "*example.com" ∧
      normalizePattern sampleUnicode "https://admin.example.com/" = some "admin.example.com" ∧
      isHostAllowed sampleUnicode "example.com" ["*Example.com"] ["https://admin.example.com/"] = some true ∧
      (["*Example.com", "https://admin.example.com/"].all fun p =>
        (normalizePattern sampleUnicode p).all fun n => decide (PyText.strip n = n)) = true) ∧
    normalizePattern sampleUnicode "*" = some "*" ∧ normalizePattern sampleUnicode "evil.com ." = some "evil.com " ∧
      isHostAllowed sampleUnicode "example.com" ["*"] ["evil.com ."] = some true ∧
      isHostAllowed sampleUnicode "evil.com " ["*"] ["evil.com ."] = some false ∧
      isHostAllowed sampleUnicode "evil.com " ["*"] ["evil.com "] = some true := by decide +kernel

/-- A pattern that keeps a space is not trimmed. -/
example : PyText.strip "evil.com " ≠ "evil.com " := by decide +kernel

theorem build_plain : buildStrixExecutionContract samplePython (some (some "key"))
    (campaignFor "*Example.com" "https://admin.example.com/" .one) "job-1" =
      .ok (contractFor ["*example.com"] ["admin.example.com"] .one) :=
  build_sample .one sample_patterns.1.1 sample_patterns.1.2.1 sample_patterns.1.2.2.1

theorem scope_refinement_sample :
    isHostAllowed sampleUnicode "admin.example.com" ["*example.com"] ["admin.example.com"] =
      isHostAllowed sampleUnicode "admin.example.com" ["*Example.com"] ["https://admin.example.com/"] :=
  (scope_refinement samplePython (some (some "key")) (campaignFor "*Example.com" "https://admin.example.com/" .one) "job-1" _ _
    build_plain (receive_sample _ _ rate_one)).1 (trimmed_of_all sample_patterns.1.2.2.2) "admin.example.com"

/-- The campaign denies the host and the contract that it is given allows it. -/
theorem denied_host_allowed : ∃ c c',
    buildStrixExecutionContract samplePython (some (some "key")) (campaignFor "*" "evil.com ." .one) "job-1" = .ok c ∧
      receive samplePython.floats c = some c' ∧
      isHostAllowed sampleUnicode "evil.com " ["*"] ["evil.com ."] = some false ∧
      isHostAllowed sampleUnicode "evil.com " c'.allowedTargets c'.deniedTargets = some true := by
  obtain ⟨-, hany, hpadded, hbuilt, hdenied, hallowed⟩ := sample_patterns
  exact ⟨_, _, build_sample .one hany hpadded hbuilt, receive_sample _ _ rate_one, hdenied, hallowed⟩

end ExecutionContract

end XbowPerso
