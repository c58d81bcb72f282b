import XbowPerso.HackerOneScope
import XbowPerso.Theorems.HostSpelling

/-!
# The exclusions that a projection honours

An asset that is not eligible is read as a pattern, a star standing for any text. A domain without stars and a wildcard of the one
shape that the import knows keep a projection from the host; any other spelling that covers the host is passed over.
-/

namespace XbowPerso

namespace HackerOneScope

open Egress (idnaEncode)
open ScopePolicy (rstripDots)
open PyUrl (isAscii)
open ExecutionContract (toNat_toLower toLower_of_not_isUpper)

variable {env : ScopeEnv} {host : List Char} {asset : Asset}

/-! ## What an asset covers -/

/-- The atom of a character: a star stands for any text, another character for itself, whatever its case. -/
def atomOf (c : Char) : Glob.Atom := if c = '*' then .star else .char c.toLower

/-- The identifier, read as a host pattern, covers the host. -/
def Covers (identifier host : List Char) : Prop := Glob.matchAtoms ((rstripDots identifier).map atomOf) host = true

instance (identifier host : List Char) : Decidable (Covers identifier host) := inferInstanceAs (Decidable (_ = true))

/-- A spelling that the projection reads: a domain without stars, or a wildcard of the known shape. -/
def Understood (env : ScopeEnv) (asset : Asset) : Prop :=
  (asset.assetType = "Domain" ∧ '*' ∉ asset.identifier ∧ ∃ domain, asciiDomain env asset.identifier = some domain) ∨
    (asset.assetType = "Wildcard" ∧ ∃ pattern, compatibleHostPattern env "Wildcard" asset.identifier = .ok pattern)

variable {pattern : List Char}

theorem matchAtoms_plain (h : '*' ∉ pattern) (name : List Char) :
    Glob.matchAtoms (pattern.map atomOf) name = true ↔ name = pattern.map Char.toLower := by
  induction pattern generalizing name with
  | nil => simp [Glob.matchAtoms]
  | cons c pattern ih =>
    rw [List.mem_cons, not_or] at h
    have hatom : atomOf c = .char c.toLower := if_neg (Ne.symm h.1)
    rw [List.map_cons, List.map_cons, hatom]
    cases name with
    | nil => simp [Glob.matchAtoms]
    | cons d name => simp [Glob.matchAtoms, Glob.Atom.accepts, ih h.2]

theorem matchAtoms_star (h : '*' ∉ pattern) (name : List Char) :
    Glob.matchAtoms (('*' :: pattern).map atomOf) name = true ↔ pattern.map Char.toLower <:+ name := by
  rw [List.map_cons, show atomOf '*' = .star from rfl, Glob.matchAtoms, List.any_eq_true]
  constructor
  · rintro ⟨rest, hrest, hmatch⟩
    rw [← (matchAtoms_plain h rest).mp hmatch]
    exact (List.mem_tails _ _).mp hrest
  · intro hsuffix
    exact ⟨_, (List.mem_tails _ _).mpr hsuffix, (matchAtoms_plain h _).mpr rfl⟩

/-! ## Lower case in ASCII -/

theorem isAscii_of_map_toLower {s : List Char} (h : isAscii (s.map Char.toLower) = true) : isAscii s = true := by
  unfold isAscii at h ⊢
  simp only [List.all_map, List.all_eq_true, Function.comp_apply, decide_eq_true_iff] at h ⊢
  intro c hc
  by_cases hupper : c.isUpper = true
  · have hlower := h c hc
    rw [toNat_toLower hupper] at hlower
    omega
  · have hlower := h c hc
    rwa [toLower_of_not_isUpper hupper] at hlower

/-- The lower case of what becomes ASCII. -/
theorem lower_eq {s : List Char} (h : isAscii (s.map Char.toLower) = true) : env.unicode.lower s = s.map Char.toLower := by
  refine env.unicode.lower_ascii fun c hc => ?_
  have hascii := List.all_eq_true.mp (isAscii_of_map_toLower h) c hc
  exact of_decide_eq_true hascii

variable {value ascii : List Char}

/-- What passes as a plain domain is not blank and is encoded. -/
theorem of_asciiDomain (h : asciiDomain env value = some ascii) :
    env.unicode.lower (rstripDots value) ≠ [] ∧ idnaEncode env.net (env.unicode.lower (rstripDots value)) = some ascii := by
  unfold asciiDomain at h
  dsimp only at h
  split at h
  · cases h
  rename_i hplain
  split at h
  · cases h
  rename_i encoded hencode
  split at h
  · cases h
  cases h
  exact ⟨fun hnil => hplain (.inl hnil), hencode⟩

theorem isAscii_asciiDomain (h : asciiDomain env value = some ascii) : isAscii ascii = true :=
  Egress.isAscii_idnaEncode (of_asciiDomain h).2

/-- A domain whose lower case is ASCII is that text. -/
theorem asciiDomain_eq (h : asciiDomain env value = some ascii)
    (hascii : isAscii ((rstripDots value).map Char.toLower) = true) : ascii = (rstripDots value).map Char.toLower := by
  have hencode := (of_asciiDomain h).2
  rw [lower_eq hascii] at hencode
  exact Egress.idnaEncode_ascii hencode hascii

/-! ## The exclusions that are read -/

theorem mem_of_mem_rstripDots {c : Char} (h : c ∈ rstripDots value) : c ∈ value :=
  (List.rdropWhile_prefix _ _).subset h

/-- Dropping full stops at the end keeps what stands before something else. -/
theorem rstripDots_append (front : List Char) (h : rstripDots value ≠ []) :
    rstripDots (front ++ value) = front ++ rstripDots value := by
  unfold rstripDots at h ⊢
  rw [List.rdropWhile, List.reverse_append, List.dropWhile_append]
  rw [List.rdropWhile, ne_eq, List.reverse_eq_nil_iff] at h
  rw [if_neg (by simpa using h), List.reverse_append, List.reverse_reverse]
  rfl

theorem of_wildcard {identifier : List Char} (h : compatibleHostPattern env "Wildcard" identifier = .ok pattern) :
    ∃ rest suffix, identifier = '*' :: '.' :: rest ∧ '*' ∉ rest ∧ asciiDomain env rest = some suffix ∧ pattern = '*' :: '.' :: suffix := by
  unfold compatibleHostPattern at h
  rw [if_neg (by decide), if_pos rfl] at h
  split at h
  · cases h
  rename_i hshape
  rw [not_or, Bool.not_eq_false, not_not] at hshape
  obtain ⟨hstart, hcount⟩ := hshape
  obtain ⟨rest, rfl⟩ := List.isPrefixOf_iff_prefix.mp hstart
  split at h
  · rename_i suffix hdomain
    cases h
    refine ⟨rest, suffix, rfl, ?_, hdomain, rfl⟩
    have hrest : rest.count '*' = 0 := by simpa using hcount
    exact List.count_eq_zero.mp hrest
  · cases h

/-- An asset that is not eligible and covers the host denies it, when its spelling is read. -/
theorem denied_of_covers (hhost : isAscii host = true) (h : Understood env asset) (heligible : asset.eligible = false)
    (hcovers : Covers asset.identifier host) : matchAsset env host asset = .denied := by
  unfold Covers at hcovers
  unfold matchAsset
  rcases h with ⟨htype, hplain, domain, hdomain⟩ | ⟨htype, pattern, hpattern⟩
  · have heq := (matchAtoms_plain (fun h => hplain (mem_of_mem_rstripDots h)) host).mp hcovers
    rw [if_pos htype, hdomain]
    dsimp only
    rw [asciiDomain_eq hdomain (heq ▸ hhost), ← heq, if_neg (not_not.mpr rfl), heligible]
    rfl
  · obtain ⟨rest, suffix, hidentifier, hplain, hsuffix, rfl⟩ := of_wildcard hpattern
    have hne : rstripDots rest ≠ [] := by
      intro hnil
      have hlower := (of_asciiDomain hsuffix).1
      rw [hnil, env.unicode.lower_ascii (fun c hc => absurd hc List.not_mem_nil)] at hlower
      exact hlower rfl
    have hdots : rstripDots asset.identifier = '*' :: ('.' :: rstripDots rest) := by
      rw [hidentifier]
      exact rstripDots_append ['*', '.'] hne
    have hstar : '*' ∉ '.' :: rstripDots rest := by
      rw [List.mem_cons, not_or]
      exact ⟨by decide, fun h => hplain (mem_of_mem_rstripDots h)⟩
    rw [hdots] at hcovers
    have hend := (matchAtoms_star hstar host).mp hcovers
    rw [List.map_cons] at hend
    have hascii : isAscii ((rstripDots rest).map Char.toLower) = true := by
      refine List.all_eq_true.mpr fun c hc => List.all_eq_true.mp hhost c (hend.subset (List.mem_cons_of_mem _ hc))
    have htypeNot : asset.assetType ≠ "Domain" := by
      rw [htype]
      decide
    rw [if_neg htypeNot, if_pos ⟨htype, heligible⟩, htype, hpattern]
    dsimp only
    rw [if_neg (by simp [List.isPrefixOf]), if_pos]
    rw [List.drop_succ_cons, List.drop_succ_cons, List.drop_zero, asciiDomain_eq hsuffix hascii]
    exact List.isSuffixOf_iff_suffix.mpr hend

/-- The loop goes over all resources, and remembers a denial. -/
theorem of_matchResources {resources allowed : List Json} {denied : Bool} (h : matchResources env host resources = .ok (allowed, denied)) :
    ∀ resource ∈ resources, ∀ asset, readAsset env resource = .ok asset → matchAsset env host asset = .denied → denied = true := by
  induction resources generalizing allowed denied with
  | nil => exact fun resource hr => absurd hr List.not_mem_nil
  | cons resource resources ih =>
    unfold matchResources at h
    split at h
    · cases h
    rename_i read hread
    split at h
    · cases h
    rename_i allowed' denied' hrest
    intro r hr asset hasset hdenied
    rcases List.mem_cons.mp hr with rfl | hr
    · rw [hread] at hasset
      cases hasset
      rw [hdenied] at h
      cases h
      rfl
    · have hdenied' := ih hrest r hr asset hasset hdenied
      split at h
      · cases h
        exact hdenied'
      · cases h
        rfl
      · cases h
        exact hdenied'

/-! ## Projections -/

/-- The document lists the asset. -/
def Lists (env : ScopeEnv) (document : Json) (asset : Asset) : Prop :=
  ∃ resources, documentResources "projection" document = .ok resources ∧ ∃ resource ∈ resources, readAsset env resource = .ok asset

theorem not_denied_of_project {document projection : Json} {url : String} (hhost : primaryHost env url = .ok host)
    (h : projectExactDomainScope env document url = .ok projection) (hlists : Lists env document asset) :
    matchAsset env host asset ≠ .denied := by
  obtain ⟨resources, hresources, resource, hmem, hread⟩ := hlists
  unfold projectExactDomainScope at h
  rw [hhost] at h
  dsimp only at h
  rw [hresources] at h
  dsimp only at h
  split at h
  · cases h
  rename_i allowed denied hmatch
  intro hdenied
  rw [of_matchResources hmatch resource hmem asset hread hdenied, if_pos rfl] at h
  cases h

theorem isAscii_primaryHost {url : String} (h : primaryHost env url = .ok host) : isAscii host = true := by
  unfold primaryHost at h
  split at h
  · cases h
  split at h
  · cases h
  split at h
  · cases h
  split at h
  · cases h
  split at h
  · cases h
  rename_i hdomain
  cases h
  exact isAscii_asciiDomain hdomain

/-- Where a projection is returned, no asset that is not eligible covers the host exactly when none does in a spelling that is not
read. -/
theorem projection_excludes_iff (env : ScopeEnv) (document projection : Json) (url : String) (host : List Char)
    (hhost : primaryHost env url = .ok host) (h : projectExactDomainScope env document url = .ok projection) :
    (∀ asset, Lists env document asset → asset.eligible = false → ¬ Covers asset.identifier host) ↔
      ∀ asset, Lists env document asset → asset.eligible = false → ¬ Understood env asset → ¬ Covers asset.identifier host := by
  constructor
  · exact fun hall asset hlists heligible _ => hall asset hlists heligible
  · intro hother asset hlists heligible hcovers
    by_cases hread : Understood env asset
    · exact not_denied_of_project hhost h hlists (denied_of_covers (isAscii_primaryHost hhost) hread heligible hcovers)
    · exact hother asset hlists heligible hread hcovers

/-! ## An exclusion that is passed over -/

def sampleScope : ScopeEnv := ⟨ExecutionContract.sampleUnicode, Egress.sampleNetwork, Char.isAlphanum⟩

def sampleResource (identifier assetType : String) (eligible : Bool) : Json :=
  .obj [("type", .str "structured-scope"), ("attributes", .obj [("asset_identifier", .str identifier), ("asset_type", .str assetType),
    ("eligible_for_submission", .bool eligible)])]

/-- A document that makes one domain eligible and excludes a wildcard. -/
def sampleDocument (excluded : String) : Json :=
  .obj [("data", .arr [sampleResource "app.example.com" "Domain" true, sampleResource excluded "Wildcard" false])]

def sampleHost : List Char := "app.example.com".toList

theorem sample_primaryHost : (primaryHost sampleScope "https://app.example.com/").toOption = some sampleHost := by decide +kernel

/-- Both documents are projected: neither wildcard has the known shape and matches. -/
theorem sample_projected : (projectExactDomainScope sampleScope (sampleDocument "*example.com") "https://app.example.com/").toOption.isSome =
      true ∧
    (projectExactDomainScope sampleScope (sampleDocument "*.example.org") "https://app.example.com/").toOption.isSome = true := by
  decide +kernel

theorem ok_of_isSome {α : Type} {x : Except String α} (h : x.toOption.isSome = true) : ∃ a, x = .ok a := by
  cases x with
  | error e => cases h
  | ok a => exact ⟨a, rfl⟩

/-- The wildcard `*example.com` is excluded and covers the host, which is authorised. -/
theorem covered_host_projected : ∃ asset, Lists sampleScope (sampleDocument "*example.com") asset ∧ asset.eligible = false ∧
    Covers asset.identifier sampleHost ∧
      ∃ projection, projectExactDomainScope sampleScope (sampleDocument "*example.com") "https://app.example.com/" = .ok projection := by
  refine ⟨⟨"*example.com".toList, "Wildcard", false⟩, ⟨_, rfl, _, List.mem_cons_of_mem _ (List.mem_cons_self ..), rfl⟩, rfl, ?_, ?_⟩
  · decide
  · exact ok_of_isSome sample_projected.1

/-- With the wildcard `*.example.org` excluded, the equivalence is about a projection that is returned. -/
theorem projection_excludes_iff_sample : ∃ host,
    (∀ asset, Lists sampleScope (sampleDocument "*.example.org") asset → asset.eligible = false → ¬ Covers asset.identifier host) ↔
      ∀ asset, Lists sampleScope (sampleDocument "*.example.org") asset → asset.eligible = false → ¬ Understood sampleScope asset →
        ¬ Covers asset.identifier host := by
  obtain ⟨projection, hprojection⟩ := ok_of_isSome sample_projected.2
  have hhost : primaryHost sampleScope "https://app.example.com/" = .ok sampleHost := by
    cases hprimary : primaryHost sampleScope "https://app.example.com/" with
    | error e =>
      have hsome := sample_primaryHost
      rw [hprimary] at hsome
      cases hsome
    | ok host =>
      have hsome := sample_primaryHost
      rw [hprimary] at hsome
      rw [Option.some.inj hsome]
  exact ⟨sampleHost, projection_excludes_iff sampleScope _ projection _ sampleHost hhost hprojection⟩

end HackerOneScope

end XbowPerso
