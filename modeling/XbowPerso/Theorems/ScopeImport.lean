import XbowPerso.Theorems.ScopeProjection
import XbowPerso.Theorems.ScopeRefinement

/-!
# The scope that an import gives

A domain whose pattern has no character of a glob authorises its own host and no other, an asset that is not eligible and has a
pattern keeps what it matches out, and a complete import has a pattern for every asset. A URL never has one.
-/

namespace XbowPerso

namespace HackerOneScope

open ExecutionContract (mem_sortedSet)
open ScopePolicy (normalizePattern hostMatches normalizedHost isHostAllowed)

variable {env : ScopeEnv} {assets : List Asset} {asset : Asset} {pattern : List Char}

/-! ## The lists of a preview -/

variable {name : String}

theorem mem_statuses {eligible : Bool} :
    (name, eligible) ∈ statuses env assets ↔ ∃ asset ∈ assets, asset.eligible = eligible ∧
      ∃ pattern, compatibleHostPattern env asset.assetType asset.identifier = .ok pattern ∧ String.ofList pattern = name := by
  unfold statuses
  rw [List.mem_filterMap]
  constructor
  · rintro ⟨asset, hasset, heq⟩
    split at heq
    · rename_i pattern hpattern
      cases heq
      exact ⟨asset, hasset, rfl, pattern, hpattern, rfl⟩
    · cases heq
  · rintro ⟨asset, hasset, rfl, pattern, hpattern, rfl⟩
    refine ⟨asset, hasset, ?_⟩
    rw [hpattern]

theorem mem_patternsWith {st : List (String × Bool)} {test : Bool → Bool → Bool} :
    name ∈ patternsWith st test ↔
      (∃ eligible, (name, eligible) ∈ st) ∧ test (decide ((name, true) ∈ st)) (decide ((name, false) ∈ st)) = true := by
  unfold patternsWith
  rw [mem_sortedSet, List.mem_filter, List.mem_map]
  constructor
  · rintro ⟨⟨⟨_, eligible⟩, hmem, rfl⟩, htest⟩
    exact ⟨⟨eligible, hmem⟩, htest⟩
  · rintro ⟨⟨eligible, hmem⟩, htest⟩
    exact ⟨⟨(name, eligible), hmem, rfl⟩, htest⟩

theorem mem_allowedTargets :
    name ∈ (preview env assets).allowedTargets ↔ (name, true) ∈ statuses env assets ∧ (name, false) ∉ statuses env assets := by
  unfold preview
  dsimp only
  rw [mem_patternsWith]
  constructor
  · rintro ⟨-, htest⟩
    simpa using htest
  · rintro ⟨htrue, hfalse⟩
    exact ⟨⟨true, htrue⟩, by simp [htrue, hfalse]⟩

theorem mem_deniedTargets : name ∈ (preview env assets).deniedTargets ↔ (name, false) ∈ statuses env assets := by
  unfold preview
  dsimp only
  rw [mem_patternsWith]
  constructor
  · rintro ⟨-, htest⟩
    exact of_decide_eq_true htest
  · intro hfalse
    exact ⟨⟨false, hfalse⟩, decide_eq_true hfalse⟩

/-- A complete import has a pattern for every asset, and no pattern both ways. -/
theorem of_complete (h : (preview env assets).complete = true) :
    (∀ asset ∈ assets, ∃ pattern, compatibleHostPattern env asset.assetType asset.identifier = .ok pattern) ∧
      ∀ name, (name, true) ∈ statuses env assets → (name, false) ∉ statuses env assets := by
  obtain ⟨hconflicts, hunsupported⟩ := Bool.and_eq_true_iff.mp h
  rw [List.isEmpty_iff] at hconflicts hunsupported
  constructor
  · intro asset hasset
    cases hpattern : compatibleHostPattern env asset.assetType asset.identifier with
    | ok pattern => exact ⟨pattern, rfl⟩
    | error reason =>
      have hlabel : asset.assetType ++ ":" ++ String.ofList asset.identifier ∈ unsupportedLabels env assets := by
        refine List.mem_filterMap.mpr ⟨asset, hasset, ?_⟩
        rw [hpattern]
      have hmem := mem_sortedSet.mpr hlabel
      rw [hunsupported] at hmem
      exact absurd hmem List.not_mem_nil
  · intro name htrue hfalse
    have hmem : name ∈ patternsWith (statuses env assets) fun eligible denied => eligible && denied :=
      mem_patternsWith.mpr ⟨⟨true, htrue⟩, by simp [htrue, hfalse]⟩
    rw [hconflicts] at hmem
    exact absurd hmem List.not_mem_nil

/-! ## The patterns in the policy -/

/-- A single pattern without characters of a glob authorises its own host and no other. -/
theorem isHostAllowed_single {normal : String} (hnormal : normalizePattern env.unicode name = some normal)
    (hliteral : ExecutionContract.Literal normal) (host : String) :
    isHostAllowed env.unicode host [name] [] = some true ↔ normalizedHost env.unicode host = normal := by
  unfold isHostAllowed
  simp only [List.mapM_cons, List.mapM_nil, hnormal]
  simp [ExecutionContract.hostMatches_literal hliteral]

/-- What a denied pattern matches is not allowed. -/
theorem not_isHostAllowed {normal host : String} {allowed denied : List String} (hname : name ∈ denied)
    (hnormal : normalizePattern env.unicode name = some normal)
    (hmatch : hostMatches (normalizedHost env.unicode host) normal = true) :
    isHostAllowed env.unicode host allowed denied ≠ some true := by
  unfold isHostAllowed
  split
  · nofun
  rename_i patterns hpatterns
  have hmem : normal ∈ patterns := by
    exact (ScopePolicy.mem_normal_iff hpatterns).mpr ⟨name, hname, hnormal⟩
  rw [if_pos (List.any_eq_true.mpr ⟨normal, hmem, hmatch⟩)]
  simp

/-! ## Imports -/

theorem not_ok_url (identifier pattern : List Char) : compatibleHostPattern env "Url" identifier ≠ .ok pattern := by
  unfold compatibleHostPattern
  rw [if_neg (by decide), if_neg (by decide), if_neg (by decide), if_pos rfl]
  split
  · nofun
  split
  · nofun
  split
  · nofun
  nofun

/-- What a preview says about the assets of its document. -/
structure Faithful (env : ScopeEnv) (preview : ScopePreview) : Prop where
  /-- An eligible domain is listed, and a pattern without characters of a glob authorises its own host only. -/
  domains : ∀ asset ∈ preview.assets, asset.assetType = "Domain" → asset.eligible = true →
    ∀ pattern, compatibleHostPattern env "Domain" asset.identifier = .ok pattern →
      (String.ofList pattern ∈ preview.allowedTargets ∨ String.ofList pattern ∈ preview.deniedTargets) ∧
      ∀ normal, normalizePattern env.unicode (String.ofList pattern) = some normal → ExecutionContract.Literal normal →
        ∀ host, isHostAllowed env.unicode host [String.ofList pattern] [] = some true ↔ normalizedHost env.unicode host = normal
  /-- A URL has no pattern, and the import is then not complete. -/
  urls : ∀ asset ∈ preview.assets, asset.assetType = "Url" →
    (∀ pattern, compatibleHostPattern env "Url" asset.identifier ≠ .ok pattern) ∧ preview.complete = false
  /-- An asset that is not eligible and has a pattern is denied, and what the pattern matches is not allowed. -/
  exclusions : ∀ asset ∈ preview.assets, asset.eligible = false →
    ∀ pattern, compatibleHostPattern env asset.assetType asset.identifier = .ok pattern →
      String.ofList pattern ∈ preview.deniedTargets ∧
      ∀ normal host, normalizePattern env.unicode (String.ofList pattern) = some normal →
        hostMatches (normalizedHost env.unicode host) normal = true →
          isHostAllowed env.unicode host preview.allowedTargets preview.deniedTargets ≠ some true
  disjoint : ∀ name ∈ preview.allowedTargets, name ∉ preview.deniedTargets
  represented : preview.complete = true → ∀ asset ∈ preview.assets, asset.eligible = true →
    ∃ pattern, compatibleHostPattern env asset.assetType asset.identifier = .ok pattern ∧
      String.ofList pattern ∈ preview.allowedTargets

theorem faithful_preview (env : ScopeEnv) (assets : List Asset) : Faithful env (preview env assets) where
  domains asset hasset htype heligible pattern hpattern := by
    have hlisted : (String.ofList pattern, true) ∈ statuses env assets :=
      mem_statuses.mpr ⟨asset, hasset, heligible, pattern, by rw [htype]; exact hpattern, rfl⟩
    refine ⟨?_, fun normal hnormal hliteral host => isHostAllowed_single hnormal hliteral host⟩
    by_cases hdenied : (String.ofList pattern, false) ∈ statuses env assets
    · exact .inr (mem_deniedTargets.mpr hdenied)
    · exact .inl (mem_allowedTargets.mpr ⟨hlisted, hdenied⟩)
  urls asset hasset htype := by
    refine ⟨fun pattern => not_ok_url asset.identifier pattern, ?_⟩
    rw [← Bool.not_eq_true]
    intro hcomplete
    obtain ⟨pattern, hpattern⟩ := (of_complete hcomplete).1 asset hasset
    rw [htype] at hpattern
    exact not_ok_url asset.identifier pattern hpattern
  exclusions asset hasset heligible pattern hpattern := by
    have hdenied : String.ofList pattern ∈ (preview env assets).deniedTargets :=
      mem_deniedTargets.mpr (mem_statuses.mpr ⟨asset, hasset, heligible, pattern, hpattern, rfl⟩)
    exact ⟨hdenied, fun normal host hnormal hmatch => not_isHostAllowed hdenied hnormal hmatch⟩
  disjoint name hallowed hdenied := (mem_allowedTargets.mp hallowed).2 (mem_deniedTargets.mp hdenied)
  represented hcomplete asset hasset heligible := by
    obtain ⟨hpatterns, hconflicts⟩ := of_complete hcomplete
    obtain ⟨pattern, hpattern⟩ := hpatterns asset hasset
    have hlisted : (String.ofList pattern, true) ∈ statuses env assets :=
      mem_statuses.mpr ⟨asset, hasset, heligible, pattern, hpattern, rfl⟩
    exact ⟨pattern, hpattern, mem_allowedTargets.mpr ⟨hlisted, hconflicts _ hlisted⟩⟩

/-- An import reads every resource of the document, and its preview is faithful to them. -/
theorem faithful_of_import (env : ScopeEnv) (document : Json) (result : ScopePreview)
    (h : importStructuredScope env document = .ok result) :
    (∃ resources, documentResources "import" document = .ok resources ∧ resources.mapM (readAsset env) = .ok result.assets) ∧
      Faithful env result := by
  unfold importStructuredScope at h
  split at h
  · cases h
  · rename_i resources hresources
    split at h
    · cases h
    · split at h
      · cases h
      · rename_i assets hassets
        cases h
        exact ⟨⟨resources, hresources, hassets⟩, faithful_preview env assets⟩

/-! ## A URL -/

/-- A document with one eligible asset. -/
def singleDocument (identifier assetType : String) : Json := .obj [("data", sampleResource identifier assetType true)]

theorem single_imported :
    ((importStructuredScope sampleScope (singleDocument "https://app.example.com/" "URL")).toOption.map
      fun result => (result.assets.map fun asset => (asset.assetType, asset.eligible), result.allowedTargets, result.deniedTargets)) =
        some ([("Url", true)], [], []) ∧
    (importStructuredScope sampleScope (singleDocument "app.example.com" "Domain")).toOption.isSome = true := by
  decide +kernel

/-- The import accepts an eligible URL, and its host is not authorised. -/
theorem url_not_authorised : ∃ result, importStructuredScope sampleScope (singleDocument "https://app.example.com/" "URL") = .ok result ∧
    (∃ asset ∈ result.assets, asset.assetType = "Url" ∧ asset.eligible = true) ∧
      isHostAllowed sampleScope.unicode "app.example.com" result.allowedTargets result.deniedTargets = some false := by
  obtain ⟨result, hresult⟩ : ∃ result, importStructuredScope sampleScope (singleDocument "https://app.example.com/" "URL") = .ok result := by
    refine ok_of_isSome ?_
    have hsome := congrArg Option.isSome single_imported.1
    rwa [Option.isSome_map] at hsome
  have himported := single_imported.1
  rw [hresult] at himported
  have heq := Option.some.inj himported
  simp only [Prod.mk.injEq] at heq
  obtain ⟨hassets, hallowed, hdenied⟩ := heq
  refine ⟨result, hresult, ?_, ?_⟩
  · obtain ⟨asset, hasset, htype⟩ := List.mem_map.mp (hassets ▸ List.mem_singleton.mpr rfl :
      ("Url", true) ∈ result.assets.map fun asset => (asset.assetType, asset.eligible))
    exact ⟨asset, hasset, congrArg Prod.fst htype, congrArg Prod.snd htype⟩
  · rw [hallowed, hdenied]
    rfl

theorem faithful_of_import_sample : ∃ result, importStructuredScope sampleScope (singleDocument "app.example.com" "Domain") = .ok result ∧
    Faithful sampleScope result := by
  obtain ⟨result, hresult⟩ := ok_of_isSome single_imported.2
  exact ⟨result, hresult, (faithful_of_import sampleScope _ result hresult).2⟩

end HackerOneScope

end XbowPerso
