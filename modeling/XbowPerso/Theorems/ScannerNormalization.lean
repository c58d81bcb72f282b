import XbowPerso.Lemmas.PatternNormalForm
import XbowPerso.ScannerNormalization
import XbowPerso.Theorems.ContractRate

/-!
# The hosts of normalised findings

A finding was judged by one host. The endpoint of a Nuclei finding has that host, and so has its asset unless the host cannot stand
in a URL as it is. A Strix finding is judged by its asset alone: whatever the asset designates otherwise, and the endpoint, are not
looked at.
-/

namespace XbowPerso

namespace ScannerNormalization

open PyUrl
open ScopePolicy
open ExecutionContract (Campaign)

variable {env : ScannerEnv} {c : Campaign}

/-- The host that a text designates: as a URL, or as what would follow the slashes of one. -/
def designatedHost (env : ScannerEnv) (text : Text) : Option Text :=
  if HasScheme text then probeHost env text else probeHost env ('/' :: '/' :: text)

/-- The targets of the campaign allow a host. -/
def Allowed (env : ScannerEnv) (c : Campaign) (host : Text) : Prop := hostAllowed env c host = some true

/-- The asset designates the host that the finding was judged by, the campaign allows it, and it allows the host of an absolute
endpoint. -/
structure InScope (env : ScannerEnv) (c : Campaign) (f : NormalizedScannerFinding) (judged : Text) : Prop where
  asset : designatedHost env f.asset = some (rstripDots judged)
  allowed : Allowed env c (rstripDots judged)
  endpoint : ∀ url, f.endpoint = some url → HasScheme url → ∃ host, probeHost env url = some host ∧ Allowed env c host

/-! ## Hosts -/

/-- A host in lower case is allowed with its full stops at the end or without them. -/
theorem allowed_rstripDots {host : Text} (h : Allowed env c (env.unicode.lower host)) :
    Allowed env c (rstripDots (env.unicode.lower host)) := by
  have hsame : normalizedHost env.unicode (String.ofList (rstripDots (env.unicode.lower host))) =
      normalizedHost env.unicode (String.ofList (env.unicode.lower host)) := by
    rw [normalizedHost_normal, normalizedHost, String.toList_ofList, env.unicode.lower_lower]
  unfold Allowed hostAllowed at *
  rw [isHostAllowed_eq_true_iff] at h ⊢
  rw [hsame]
  exact h

theorem hostname_ne_nil {parsed : SplitResult} {hostname : Text} (h : parsed.hostname env.unicode = some hostname) :
    hostname ≠ [] := by
  rw [SplitResult.hostname] at h
  split at h
  · cases h
  rename_i hne
  cases h
  intro hnil
  obtain ⟨hlower, hzone⟩ := List.append_eq_nil_iff.mp hnil
  have hwhole := List.takeWhile_append_dropWhile (p := fun c => decide (c ≠ '%')) (l := (hostinfo parsed.netloc).1)
  rw [hzone, List.append_nil] at hwhole
  exact env.lower_ne_nil _ (fun hbefore => hne (hwhole.symm.trans hbefore)) hlower

/-! ## Strix -/

variable {item : Item} {f : NormalizedScannerFinding}

theorem normalizeStrixItem_spec
    (h : normalizeStrixItem env c item = some (some f)) :
    ∃ host, strixHost env f.asset = some (env.unicode.lower host) ∧ Allowed env c (env.unicode.lower host) ∧
      f.asset = strixAsset env c item ∧ optionalStr env ((item.get? "endpoint").getD .null) = some f.endpoint := by
  unfold normalizeStrixItem at h
  split at h
  · cases h
  rename_i host hhost
  split at h
  · cases h
  · cases h
  · rename_i hallowed
    obtain ⟨endpoint, hendpoint, hf⟩ := Option.map_eq_some_iff.mp h
    cases hf
    obtain ⟨parsed, hparsed, rfl⟩ := Option.map_eq_some_iff.mp hhost
    exact ⟨_, hhost, hallowed, rfl, hendpoint⟩

/-- What the code does not look at: an absolute asset has a host, another one designates the text before its first colon, and an
absolute endpoint has an allowed host. -/
structure StrixCondition (env : ScannerEnv) (c : Campaign) (asset : Text) (endpoint : Option Text) : Prop where
  absolute : HasScheme asset → (probeHost env asset).isSome = true
  bare : ¬ HasScheme asset → ∀ judged, strixHost env asset = some judged →
    probeHost env ('/' :: '/' :: asset) = some (rstripDots judged)
  endpoint : ∀ url, endpoint = some url → HasScheme url → ∃ host, probeHost env url = some host ∧ Allowed env c host

/-- An asset whose URL has a host is judged by it. -/
theorem probeHost_eq_judged {asset judged : Text} (hhost : (probeHost env asset).isSome = true)
    (hjudged : strixHost env asset = some judged) : probeHost env asset = some (rstripDots judged) := by
  obtain ⟨host, hhost⟩ := Option.isSome_iff_exists.mp hhost
  obtain ⟨parsed, hparsed, hmap⟩ := Option.bind_eq_some_iff.mp hhost
  obtain ⟨hostname, hname, -⟩ := Option.map_eq_some_iff.mp hmap
  rw [strixHost, hparsed, Option.map_some, hname, Option.some.injEq] at hjudged
  simp only [if_neg (hostname_ne_nil hname)] at hjudged
  rw [probeHost, hparsed, Option.bind_some, hname, Option.map_some, hjudged]

/-- A Strix finding is in scope exactly when the condition holds of its item. -/
theorem strix_inScope_iff (h : normalizeStrixItem env c item = some (some f)) :
    ∃ judged, strixHost env f.asset = some judged ∧
      (InScope env c f judged ↔ ∀ endpoint, optionalStr env ((item.get? "endpoint").getD .null) = some endpoint →
        StrixCondition env c (strixAsset env c item) endpoint) := by
  obtain ⟨host, hjudged, hallowed, hasset, hendpoint⟩ := normalizeStrixItem_spec h
  refine ⟨_, hjudged, fun hin endpoint hsame => ?_, fun hcond => ?_⟩
  · rw [hendpoint] at hsame
    cases hsame
    rw [← hasset]
    refine ⟨fun habsolute => ?_, fun hbare judged hj => ?_, hin.endpoint⟩
    · have hdesignated := hin.asset
      rw [designatedHost, if_pos habsolute] at hdesignated
      rw [hdesignated]
      rfl
    · have hdesignated := hin.asset
      rw [designatedHost, if_neg hbare] at hdesignated
      rw [hjudged] at hj
      cases hj
      exact hdesignated
  · have hcond := hcond _ hendpoint
    rw [← hasset] at hcond
    refine ⟨?_, allowed_rstripDots hallowed, hcond.endpoint⟩
    unfold designatedHost
    split
    · rename_i habsolute
      exact probeHost_eq_judged (hcond.absolute habsolute) hjudged
    · rename_i hbare
      exact hcond.bare hbare _ hjudged

/-! ## Nuclei -/

theorem normalizeNucleiItem_spec
    (h : normalizeNucleiItem env c item = some (some f)) :
    ∃ parsed hostname, urlsplit env.unicode (matchedAt env item) = some parsed ∧ parsed.hostname env.unicode = some hostname ∧
      Allowed env c (env.unicode.lower hostname) ∧
      f = ⟨"nuclei", nucleiAsset parsed.scheme (env.unicode.lower hostname), some (matchedAt env item)⟩ := by
  unfold normalizeNucleiItem at h
  split at h
  · cases h
  rename_i parsed hparsed
  dsimp only at h
  split at h
  · cases h
  rename_i hfields
  rw [not_or] at hfields
  cases hname : parsed.hostname env.unicode with
  | none =>
    rw [hname] at hfields
    exact absurd (env.unicode.lower_ascii fun c hc => absurd hc List.not_mem_nil) hfields.2
  | some hostname =>
    rw [hname, Option.getD_some] at h
    split at h
    · cases h
    · cases h
    · rename_i hallowed
      cases h
      exact ⟨parsed, hostname, hparsed, hname, hallowed, rfl⟩

/-- The characters that cannot stand in a host as it is written in a URL. -/
def PlainHost (host : Text) : Prop := ∀ c ∈ host, 32 < c.toNat ∧ c ∉ ['/', '?', '#', '@', ':', '[', ']']

theorem hasScheme_nucleiAsset (scheme host : Text) : HasScheme (nucleiAsset scheme host) := ⟨scheme, host, rfl⟩

/-- What a scheme is made of stays that in lower case. -/
theorem scheme_toLower : (List.range 128).all (fun n =>
    (!isSchemeChar (Char.ofNat n) || (isSchemeChar (Char.ofNat n).toLower && decide ((Char.ofNat n).toLower ≠ ':') &&
      decide (32 < (Char.ofNat n).toLower.toNat))) &&
    (!(Char.ofNat n).isAlpha || (Char.ofNat n).toLower.isAlpha)) = true := by decide +kernel

theorem facts_of_isSchemeChar {c : Char} (h : isSchemeChar c = true) (hascii : c.toNat < 128) :
    isSchemeChar c.toLower = true ∧ c.toLower ≠ ':' ∧ 32 < c.toLower.toNat := by
  have hall := List.all_eq_true.mp scheme_toLower c.toNat (List.mem_range.mpr hascii)
  rw [Char.ofNat_toNat, h, Bool.not_true, Bool.false_or, Bool.and_eq_true, Bool.and_eq_true, Bool.and_eq_true,
    decide_eq_true_eq, decide_eq_true_eq] at hall
  exact ⟨hall.1.1.1, hall.1.1.2, hall.1.2⟩

theorem isAlpha_toLower {c : Char} (h : c.isAlpha = true) (hascii : c.toNat < 128) : c.toLower.isAlpha = true := by
  have hall := List.all_eq_true.mp scheme_toLower c.toNat (List.mem_range.mpr hascii)
  rw [Char.ofNat_toNat, h, Bool.not_true, Bool.false_or, Bool.and_eq_true] at hall
  exact hall.2

theorem ascii_of_isSchemeChar {c : Char} (h : isSchemeChar c = true) : c.toNat < 128 := by
  unfold isSchemeChar Char.isAlphanum Char.isAlpha Char.isUpper Char.isLower Char.isDigit at h
  simp only [Bool.or_eq_true, Bool.and_eq_true, decide_eq_true_eq] at h
  rcases h with ((((⟨-, h⟩ | ⟨-, h⟩) | ⟨-, h⟩) | rfl) | rfl) | rfl
  · exact Nat.lt_of_le_of_lt h (by decide)
  · exact Nat.lt_of_le_of_lt h (by decide)
  · exact Nat.lt_of_le_of_lt h (by decide)
  all_goals decide

/-- The scheme of a URL. -/
theorem scheme_of_urlsplit {u : Unicode} {url : Text} {parsed : SplitResult} (h : urlsplit u url = some parsed)
    (hne : parsed.scheme ≠ []) :
    (∀ c ∈ parsed.scheme, isSchemeChar c = true ∧ c ≠ ':' ∧ 32 < c.toNat) ∧
      (parsed.scheme.head?.map Char.isAlpha).getD false = true := by
  have hscheme : parsed.scheme = (splitScheme (clean url)).1 := by
    unfold urlsplit at h
    dsimp only at h
    split at h
    · cases h
      rfl
    · cases h
  rw [hscheme] at hne ⊢
  simp only [splitScheme] at hne ⊢
  split at hne
  · rename_i hcond
    rw [if_pos hcond]
    obtain ⟨-, halpha, hall⟩ := hcond
    rw [List.all_eq_true] at hall
    constructor
    · intro c hc
      obtain ⟨d, hd, rfl⟩ := List.mem_map.mp hc
      exact facts_of_isSchemeChar (hall d hd) (ascii_of_isSchemeChar (hall d hd))
    · cases hbefore : before ':' (clean url) with
      | nil =>
        rw [hbefore] at halpha
        cases halpha
      | cons d rest =>
        rw [hbefore] at halpha hall
        exact isAlpha_toLower halpha (ascii_of_isSchemeChar (hall d List.mem_cons_self))
  · exact absurd rfl hne

theorem before_append_cons {d : Char} {front : Text} (h : d ∉ front) (back : Text) : before d (front ++ d :: back) = front := by
  rw [before_append_of_not_mem h, before, List.takeWhile_cons_of_neg (by simp), List.append_nil]

theorem after_append_cons {d : Char} {front : Text} (h : d ∉ front) (back : Text) : after d (front ++ d :: back) = back := by
  rw [after_append_of_not_mem h, after, List.dropWhile_cons_of_neg (by simp), List.tail_cons]

/-- A plain host is the whole of a network location. -/
theorem hostinfo_plain {host : Text} (h : PlainHost host) : (hostinfo host).1 = host := by
  have hno : ∀ d ∈ ['/', '?', '#', '@', ':', '[', ']'], ∀ c ∈ host, c ≠ d := fun d hd c hc heq => (h c hc).2 (heq ▸ hd)
  have hlast : afterLast '@' host = host :=
    List.rtakeWhile_eq_self_iff.mpr fun c hc => decide_eq_true (hno '@' (by decide) c hc)
  have hbracket : '[' ∉ host := fun hmem => hno '[' (by decide) '[' hmem rfl
  simp only [hostinfo, hlast, if_neg hbracket]
  exact List.takeWhile_eq_self_iff.mpr fun c hc => decide_eq_true (hno ':' (by decide) c hc)

/-- A scheme and a plain host in lower case, put together, are a URL with this host. -/
theorem probeHost_nucleiAsset {scheme host : Text} (hscheme : ∀ c ∈ scheme, isSchemeChar c = true ∧ c ≠ ':' ∧ 32 < c.toNat)
    (halpha : (scheme.head?.map Char.isAlpha).getD false = true) (hplain : PlainHost host)
    (hcheck : checkNetloc env.unicode host = true) (hne : host ≠ []) (hlower : ∀ c ∈ host, env.unicode.Lowered c) :
    probeHost env (nucleiAsset scheme host) = some (rstripDots host) := by
  have hno : ∀ d ∈ ['/', '?', '#', '@', ':', '[', ']'], ∀ c ∈ host, c ≠ d := fun d hd c hc heq => (hplain c hc).2 (heq ▸ hd)
  have hclean : clean (nucleiAsset scheme host) = nucleiAsset scheme host := by
    have hbig : ∀ c ∈ nucleiAsset scheme host, 32 < c.toNat := by
      intro c hc
      rcases List.mem_append.mp hc with hc | hc
      · rcases List.mem_append.mp hc with hc | hc
        · exact (hscheme c hc).2.2
        · simp only [List.mem_cons, List.not_mem_nil, or_false] at hc
          rcases hc with rfl | rfl | rfl <;> decide
      · exact (hplain c hc).1
    have hfront : (nucleiAsset scheme host).dropWhile (fun c => decide (c.toNat ≤ 32)) = nucleiAsset scheme host := by
      refine List.dropWhile_eq_self_iff.mpr fun hl => ?_
      rw [decide_eq_true_eq, not_le]
      exact hbig _ (List.getElem_mem hl)
    rw [clean, hfront, List.filter_eq_self]
    intro c hc
    have := hbig c hc
    rw [decide_eq_true_eq]
    refine ⟨?_, ?_, ?_⟩ <;> rintro rfl <;> exact absurd this (by decide)
  have hsplit : splitScheme (nucleiAsset scheme host) = (scheme.map Char.toLower, '/' :: '/' :: host) := by
    have hshape : nucleiAsset scheme host = scheme ++ ':' :: '/' :: '/' :: host := by
      rw [nucleiAsset, List.append_assoc]
      rfl
    have hcolon : ':' ∉ scheme := fun hc => (hscheme ':' hc).2.1 rfl
    have hcond : ':' ∈ nucleiAsset scheme host ∧ (scheme.head?.map Char.isAlpha).getD false = true ∧
        scheme.all isSchemeChar = true := by
      refine ⟨?_, halpha, List.all_eq_true.mpr fun c hc => (hscheme c hc).1⟩
      rw [hshape]
      exact List.mem_append_right _ List.mem_cons_self
    rw [hshape] at hcond ⊢
    simp only [splitScheme, before_append_cons hcolon, after_append_cons hcolon, if_pos hcond]
  have hnetloc : splitNetloc ('/' :: '/' :: host) = (host, []) := by
    have hstop : ∀ c ∈ host, decide (c ≠ '/' ∧ c ≠ '?' ∧ c ≠ '#') = true := fun c hc =>
      decide_eq_true ⟨hno '/' (by decide) c hc, hno '?' (by decide) c hc, hno '#' (by decide) c hc⟩
    rw [splitNetloc, List.takeWhile_eq_self_iff.mpr hstop, List.dropWhile_eq_nil_iff.mpr hstop]
  have hbrackets : checkBrackets host = true := by
    have hopen : '[' ∉ host := fun hmem => hno '[' (by decide) '[' hmem rfl
    have hclose : ']' ∉ host := fun hmem => hno ']' (by decide) ']' hmem rfl
    rw [checkBrackets, if_neg fun h => hopen h.1]
    exact decide_eq_true ⟨hopen, hclose⟩
  have hname : ∀ parsed : SplitResult, parsed.netloc = host → parsed.hostname env.unicode = some host := by
    intro parsed hparsed
    rw [SplitResult.hostname, hparsed, hostinfo_plain hplain, if_neg hne,
      env.unicode.lower_of_lowered fun c hc => hlower c (mem_before hc)]
    exact congrArg some (before_append_rest '%' host)
  rw [probeHost, urlsplit, hclean, hsplit]
  dsimp only
  rw [hnetloc, if_pos ⟨hbrackets, hcheck⟩, Option.bind_some, hname _ rfl, Option.map_some, env.unicode.lower_of_lowered hlower]

/-- Without a scheme the asset of a Nuclei finding is no URL with a host. -/
theorem probeHost_nucleiAsset_nil (host : Text) : probeHost env (nucleiAsset [] host) = none := by
  obtain ⟨rest, hrest⟩ : ∃ rest, clean (nucleiAsset [] host) = ':' :: rest := ⟨_, rfl⟩
  have hsplit : splitScheme (':' :: rest) = ([], ':' :: rest) := by
    have hbefore : before ':' (':' :: rest) = [] := List.takeWhile_cons_of_neg (by simp)
    simp only [splitScheme, hbefore]
    rfl
  have hnetloc : splitNetloc (':' :: rest) = ([], ':' :: rest) := by
    unfold splitNetloc
    split
    · rename_i heq
      cases heq
    · rfl
  rw [probeHost, urlsplit, hrest, hsplit]
  dsimp only
  rw [hnetloc]
  split <;> rfl

/-- The URL of a Nuclei finding has the host that it was judged by. -/
theorem nuclei_inScope_iff (h : normalizeNucleiItem env c item = some (some f)) :
    ∃ parsed hostname, urlsplit env.unicode (matchedAt env item) = some parsed ∧ parsed.hostname env.unicode = some hostname ∧
      let judged := env.unicode.lower hostname
      (InScope env c f judged ↔ probeHost env (nucleiAsset parsed.scheme judged) = some (rstripDots judged)) ∧
      (parsed.scheme ≠ [] → PlainHost judged → checkNetloc env.unicode judged = true → InScope env c f judged) ∧
      (parsed.scheme = [] → ¬ InScope env c f judged) := by
  obtain ⟨parsed, hostname, hparsed, hname, hallowed, rfl⟩ := normalizeNucleiItem_spec h
  refine ⟨parsed, hostname, hparsed, hname, ?_⟩
  intro judged
  have hendpoint : probeHost env (matchedAt env item) = some (rstripDots judged) := by
    rw [probeHost, hparsed, Option.bind_some, hname, Option.map_some]
  have hdesignated : designatedHost env (nucleiAsset parsed.scheme judged) = probeHost env (nucleiAsset parsed.scheme judged) :=
    if_pos (hasScheme_nucleiAsset parsed.scheme judged)
  have hiff : InScope env c ⟨"nuclei", nucleiAsset parsed.scheme judged, some (matchedAt env item)⟩ judged ↔
      probeHost env (nucleiAsset parsed.scheme judged) = some (rstripDots judged) := by
    constructor
    · intro hin
      exact hdesignated.symm.trans hin.asset
    · intro hasset
      refine ⟨hdesignated.trans hasset, allowed_rstripDots hallowed, fun url hurl _ => ?_⟩
      cases hurl
      exact ⟨_, hendpoint, allowed_rstripDots hallowed⟩
  refine ⟨hiff, fun hscheme hplain hcheck => ?_, fun hscheme hin => ?_⟩
  · obtain ⟨hchars, halpha⟩ := scheme_of_urlsplit hparsed hscheme
    have hne : judged ≠ [] := env.lower_ne_nil hostname (hostname_ne_nil hname)
    exact hiff.mpr (probeHost_nucleiAsset hchars halpha hplain hcheck hne fun c hc => env.unicode.lowered_of_mem_lower hc)
  · have hasset := hiff.mp hin
    rw [hscheme, probeHost_nucleiAsset_nil] at hasset
    cases hasset

/-- The findings that the normalisers return, for every item and every campaign. A Strix finding is in scope exactly when its item
meets the condition that the code does not check. A Nuclei finding is in scope exactly when its scheme and its host, put together,
are a URL with this host: so it is with a scheme and a plain host, and not without a scheme. -/
theorem findings_in_scope (env : ScannerEnv) (c : Campaign) (item : Item) (f : NormalizedScannerFinding) :
    (normalizeStrixItem env c item = some (some f) →
      ∃ judged, strixHost env f.asset = some judged ∧
        (InScope env c f judged ↔ ∀ endpoint, optionalStr env ((item.get? "endpoint").getD .null) = some endpoint →
          StrixCondition env c (strixAsset env c item) endpoint)) ∧
    (normalizeNucleiItem env c item = some (some f) →
      ∃ parsed hostname, urlsplit env.unicode (matchedAt env item) = some parsed ∧
        parsed.hostname env.unicode = some hostname ∧
        let judged := env.unicode.lower hostname
        (InScope env c f judged ↔ probeHost env (nucleiAsset parsed.scheme judged) = some (rstripDots judged)) ∧
        (parsed.scheme ≠ [] → PlainHost judged → checkNetloc env.unicode judged = true → InScope env c f judged) ∧
        (parsed.scheme = [] → ¬ InScope env c f judged)) :=
  ⟨strix_inScope_iff, nuclei_inScope_iff⟩

theorem sampleLower_ne_nil (s : Text) (h : s ≠ []) : ExecutionContract.sampleUnicode.lower s ≠ [] :=
  fun hnil => h (List.map_eq_nil_iff.mp hnil)

def sampleStr : Json → String
  | .str s => s
  | _ => "value"

theorem sampleStr_str (s : String) : sampleStr (.str s) = s := rfl

def sampleEnv : ScannerEnv := ⟨ExecutionContract.sampleUnicode, sampleStr, sampleStr_str, sampleLower_ne_nil⟩

/-- A campaign that allows the subdomains of one domain. -/
def sampleScope : Campaign where
  id := "campaign"
  primaryUrl := "https://app.example.test"
  rules := ⟨"AUTH-1", ["*.example.test"], [], Binary64.one, false, false, false, false, true⟩

/-- An item of Strix whose endpoint is on another host than its asset. -/
def sampleItem : Item :=
  (Dict.empty.set "asset" (.str "https://app.example.test")).set "endpoint" (.str "https://elsewhere.test/x")

def sampleFinding : NormalizedScannerFinding :=
  ⟨"strix", "https://app.example.test".toList, some "https://elsewhere.test/x".toList⟩

theorem normalizeStrixItem_sample : normalizeStrixItem sampleEnv sampleScope sampleItem = some (some sampleFinding) := by
  decide +kernel

/-- An item of Nuclei. -/
def sampleMatch : Item := Dict.empty.set "matched-at" (.str "https://app.example.test/login")

def sampleMatched : NormalizedScannerFinding :=
  ⟨"nuclei", "https://app.example.test".toList, some "https://app.example.test/login".toList⟩

theorem normalizeNucleiItem_sample : normalizeNucleiItem sampleEnv sampleScope sampleMatch = some (some sampleMatched) := by
  decide +kernel

/-- The findings of the two samples: that of Nuclei is in scope, that of Strix is not. -/
theorem findings_in_scope_sample :
    ¬ InScope sampleEnv sampleScope sampleFinding "app.example.test".toList ∧
      InScope sampleEnv sampleScope sampleMatched "app.example.test".toList := by
  constructor
  · obtain ⟨judged, hjudged, hiff⟩ := (findings_in_scope sampleEnv sampleScope sampleItem sampleFinding).1 normalizeStrixItem_sample
    have hhost : strixHost sampleEnv sampleFinding.asset = some "app.example.test".toList := by decide +kernel
    rw [hhost] at hjudged
    cases hjudged
    rw [hiff]
    intro hcond
    have hendpoint : optionalStr sampleEnv ((sampleItem.get? "endpoint").getD .null) = some sampleFinding.endpoint := by
      decide +kernel
    obtain ⟨host, hprobe, hallowed⟩ := (hcond _ hendpoint).endpoint "https://elsewhere.test/x".toList rfl ⟨"https".toList, _, rfl⟩
    have hother : probeHost sampleEnv "https://elsewhere.test/x".toList = some "elsewhere.test".toList := by decide +kernel
    rw [hother] at hprobe
    cases hprobe
    have hdenied : hostAllowed sampleEnv sampleScope "elsewhere.test".toList = some false := by decide +kernel
    rw [Allowed, hdenied] at hallowed
    cases hallowed
  · obtain ⟨parsed, hostname, hparsed, hname, hiff, -⟩ :=
      (findings_in_scope sampleEnv sampleScope sampleMatch sampleMatched).2 normalizeNucleiItem_sample
    have hparts : (urlsplit sampleEnv.unicode (matchedAt sampleEnv sampleMatch)).map
        (fun r => (r.scheme, r.hostname sampleEnv.unicode)) = some ("https".toList, some "app.example.test".toList) := by
      decide +kernel
    rw [hparsed, Option.map_some, hname, Option.some.injEq, Prod.mk.injEq, Option.some.injEq] at hparts
    obtain ⟨hscheme, hhostname⟩ := hparts
    have hlower : sampleEnv.unicode.lower "app.example.test".toList = "app.example.test".toList := by decide +kernel
    rw [hscheme, hhostname, hlower] at hiff
    exact hiff.mpr (by decide +kernel)

/-- The endpoint of the sample lies outside the scope that its asset lies in. -/
theorem strix_endpoint_unchecked :
    ¬ ∀ (env : ScannerEnv) (c : Campaign) (item : Item) (f : NormalizedScannerFinding) (judged : Text),
      normalizeStrixItem env c item = some (some f) → strixHost env f.asset = some judged → InScope env c f judged := by
  intro h
  have hhost : strixHost sampleEnv sampleFinding.asset = some "app.example.test".toList := by decide +kernel
  have hin := h _ _ _ _ _ normalizeStrixItem_sample hhost
  obtain ⟨host, hprobe, hallowed⟩ := hin.endpoint "https://elsewhere.test/x".toList rfl ⟨"https".toList, _, rfl⟩
  have hother : probeHost sampleEnv "https://elsewhere.test/x".toList = some "elsewhere.test".toList := by decide +kernel
  rw [hother] at hprobe
  cases hprobe
  have hdenied : hostAllowed sampleEnv sampleScope "elsewhere.test".toList = some false := by decide +kernel
  rw [Allowed, hdenied] at hallowed
  cases hallowed

end ScannerNormalization

end XbowPerso
