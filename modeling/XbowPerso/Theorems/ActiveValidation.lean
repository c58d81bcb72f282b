import XbowPerso.ActiveValidation
import XbowPerso.Lib.PairedLists
import XbowPerso.Theorems.AttackSurface

/-!
# Plans of safe probes are inert

A URL that was split and written again is split the same way, and a query that was written is read back. So every probe of a plan asks
for the scheme, the network location, the path and the query of the target, up to one value that is a marker.
-/

namespace XbowPerso

namespace ActiveValidation

open PyUrl (urlsplit urlparse ParseResult SplitResult before after afterLast splitScheme splitNetloc clean isSchemeChar splitParams
  usesParams checkBrackets checkNetloc)
open PyQuery (parseQsl urlencode)
open ScannerNormalization (before_append_cons after_append_cons scheme_of_urlsplit)
open AttackSurface (Front Follows isDelimiter joined splitNetloc_joined splitScheme_joined dropWhile_joined splitNetloc_cases
  before_cons_after)

variable {u : Unicode} {sha : Sha256}

/-! ## The parameters of a path -/

/-- A path and its parameters as one text. -/
def joinParams (split : Text × Text) : Text := if split.2 = [] then split.1 else split.1 ++ ';' :: split.2

theorem slash_not_mem_afterLast (path : Text) : '/' ∉ afterLast '/' path := by
  intro hmem
  have hno := List.mem_rtakeWhile_imp hmem
  simp at hno

/-- The text before the last segment. -/
theorem afterLast_front {front last : Text} (hfront : front.rdropWhile (· ≠ '/') = front) (hlast : '/' ∉ last) :
    afterLast '/' (front ++ last) = last ∧ (front ++ last).rdropWhile (· ≠ '/') = front := by
  have hall : ∀ c ∈ last.reverse, decide (c ≠ '/') = true := by
    intro c hc
    refine decide_eq_true ?_
    rintro rfl
    exact hlast (List.mem_reverse.mp hc)
  have htake : front.reverse.takeWhile (fun c => decide (c ≠ '/')) = [] := by
    have hsplit := List.takeWhile_append_dropWhile (p := fun c => decide (c ≠ '/')) (l := front.reverse)
    have hdrop : front.reverse.dropWhile (fun c => decide (c ≠ '/')) = front.reverse := by
      have hreverse := congrArg List.reverse hfront
      rwa [List.rdropWhile, List.reverse_reverse] at hreverse
    rw [hdrop] at hsplit
    exact List.append_left_eq_self.mp hsplit
  have hdrop : front.reverse.dropWhile (fun c => decide (c ≠ '/')) = front.reverse := by
    have hsplit := List.takeWhile_append_dropWhile (p := fun c => decide (c ≠ '/')) (l := front.reverse)
    rwa [htake, List.nil_append] at hsplit
  constructor
  · rw [afterLast, List.rtakeWhile, List.reverse_append, List.takeWhile_append_of_pos hall, htake, List.append_nil, List.reverse_reverse]
  · rw [List.rdropWhile, List.reverse_append, List.dropWhile_append_of_pos hall, hdrop, List.reverse_reverse]

theorem front_append_last (path : Text) : path.rdropWhile (· ≠ '/') ++ afterLast '/' path = path :=
  List.rdropWhile_append_rtakeWhile

/-- The parameters of a path that was split and written are split the same way, and what is written is in front of the path. -/
theorem splitParams_join (path : Text) :
    splitParams (joinParams (splitParams path)) = splitParams path ∧ joinParams (splitParams path) <+: path := by
  by_cases hmem : ';' ∈ afterLast '/' path
  · have hsplit : splitParams path =
        (path.rdropWhile (· ≠ '/') ++ before ';' (afterLast '/' path), after ';' (afterLast '/' path)) := if_pos hmem
    have hlast := before_cons_after hmem
    rw [hsplit]
    by_cases hnil : after ';' (afterLast '/' path) = []
    · have hbefore : ';' ∉ before ';' (afterLast '/' path) := by
        intro h
        have hno := List.mem_takeWhile_imp h
        simp at hno
      have hslash : '/' ∉ before ';' (afterLast '/' path) :=
        fun h => slash_not_mem_afterLast path ((List.takeWhile_prefix _).subset h)
      obtain ⟨hafter, -⟩ := afterLast_front (List.rdropWhile_idempotent _ path) hslash
      have hjoin : joinParams (path.rdropWhile (· ≠ '/') ++ before ';' (afterLast '/' path), after ';' (afterLast '/' path)) =
          path.rdropWhile (· ≠ '/') ++ before ';' (afterLast '/' path) := if_pos hnil
      rw [hjoin]
      refine ⟨?_, [';'], ?_⟩
      · rw [splitParams, hafter, if_neg hbefore, hnil]
      · rw [hnil] at hlast
        rw [List.append_assoc, hlast, front_append_last]
    · have hjoin : joinParams (path.rdropWhile (· ≠ '/') ++ before ';' (afterLast '/' path), after ';' (afterLast '/' path)) = path := by
        rw [joinParams, if_neg hnil]
        dsimp only
        rw [List.append_assoc, hlast, front_append_last]
      rw [hjoin]
      exact ⟨hsplit, List.prefix_refl _⟩
  · have hsplit : splitParams path = (path, []) := if_neg hmem
    have hjoin : joinParams (path, []) = path := if_pos rfl
    rw [hsplit, hjoin]
    exact ⟨hsplit, List.prefix_refl _⟩

theorem semicolon_of_splitParams {path : Text} (h : ';' ∉ path) : splitParams path = (path, []) :=
  if_neg fun hmem => h (by rw [← front_append_last path]; exact List.mem_append_right _ hmem)

/-! ## What was split is written and split again -/

/-- A text that cleaning leaves alone. -/
def Untouched (s : Text) : Prop := ∀ c ∈ s, c ≠ '\t' ∧ c ≠ '\r' ∧ c ≠ '\n'

variable {s : Text}

theorem untouched_of_all (h : (s.all fun c => decide (c ≠ '\t' ∧ c ≠ '\r' ∧ c ≠ '\n')) = true) : Untouched s :=
  fun c hc => of_decide_eq_true (List.all_eq_true.mp h c hc)

/-- A result that is read back from what it writes. -/
structure Written (u : Unicode) (r : ParseResult) : Prop where
  scheme : r.scheme = "http".toList ∨ r.scheme = "https".toList
  delimiters : ∀ c ∈ r.netloc, ¬ isDelimiter c
  brackets : checkBrackets r.netloc = true
  normal : checkNetloc u r.netloc = true
  root : r.pathParams = [] ∨ r.pathParams.head? = some '/'
  split : splitParams r.pathParams = (r.path, r.params)
  path : ∀ c ∈ r.pathParams, c ≠ '?' ∧ c ≠ '#'
  query : '#' ∉ r.query
  fragment : r.fragment = []
  untouched : Untouched (r.netloc ++ (r.pathParams ++ r.query))

variable {r : ParseResult}

theorem Written.front (h : Written u r) : Front u [] r.scheme r.netloc where
  spaces_le := fun _ hc => absurd hc List.not_mem_nil
  alpha := by rcases h.scheme with hs | hs <;> rw [hs] <;> decide
  scheme_chars := by rcases h.scheme with hs | hs <;> rw [hs] <;> decide
  no_colon := by rcases h.scheme with hs | hs <;> rw [hs] <;> decide
  no_delimiter := h.delimiters
  brackets := h.brackets
  normal := h.normal

theorem Written.tail_eq (h : Written u r) :
    r.tail = r.pathParams ++ (if r.query = [] then [] else '?' :: r.query) := by
  rw [ParseResult.tail, if_pos h.root, if_pos h.fragment, List.append_nil]

theorem Written.follows (h : Written u r) : Follows r.tail := by
  rw [h.tail_eq]
  rcases h.root with hnil | hslash
  · rw [hnil, List.nil_append]
    split
    · exact fun c hc => absurd hc (by simp)
    · intro c hc
      exact .inr (.inl (Option.some.inj hc).symm)
  · intro c hc
    cases hpath : r.pathParams with
    | nil =>
      rw [hpath] at hslash
      cases hslash
    | cons d rest =>
      rw [hpath] at hslash hc
      rw [← Option.some.inj hc]
      exact .inl (Option.some.inj hslash)

theorem Written.clean_geturl (h : Written u r) : clean r.geturl = r.geturl := by
  have hdrop : r.geturl.dropWhile (fun c => decide (c.toNat ≤ 32)) = r.geturl := dropWhile_joined h.front r.tail
  have hscheme : Untouched (r.scheme ++ ':' :: '/' :: ['/']) := by
    rcases h.scheme with hs | hs <;> rw [hs] <;> exact untouched_of_all (by decide)
  have hrest : Untouched (r.netloc ++ r.tail) := by
    intro c hc
    rw [h.tail_eq] at hc
    rcases List.mem_append.mp hc with hc | hc
    · exact h.untouched c (List.mem_append_left _ hc)
    · rcases List.mem_append.mp hc with hc | hc
      · exact h.untouched c (List.mem_append_right _ (List.mem_append_left _ hc))
      · split at hc
        · exact absurd hc List.not_mem_nil
        rcases List.mem_cons.mp hc with rfl | hc
        · decide
        · exact h.untouched c (List.mem_append_right _ (List.mem_append_right _ hc))
  rw [clean, hdrop, List.filter_eq_self]
  intro c hc
  have hshape : r.geturl = (r.scheme ++ ':' :: '/' :: ['/']) ++ (r.netloc ++ r.tail) := by
    simp [ParseResult.geturl]
  rw [hshape] at hc
  rw [decide_eq_true_eq]
  rcases List.mem_append.mp hc with hc | hc
  · exact hscheme c hc
  · exact hrest c hc

variable {d : Char}

theorem before_eq_self (h : d ∉ s) : before d s = s := by
  refine List.takeWhile_eq_self_iff.mpr fun c hc => decide_eq_true ?_
  rintro rfl
  exact h hc

theorem after_eq_nil (h : d ∉ s) : after d s = [] := by
  have hdrop : s.dropWhile (fun c => decide (c ≠ d)) = [] := by
    refine List.dropWhile_eq_nil_iff.mpr fun c hc => decide_eq_true ?_
    rintro rfl
    exact h hc
  rw [after, hdrop, List.tail_nil]

theorem Written.lower (h : Written u r) : r.scheme.map Char.toLower = r.scheme ∧ r.scheme ∈ usesParams := by
  rcases h.scheme with hs | hs <;> rw [hs] <;> decide

/-- What is written is split into the parts it was written from. -/
theorem Written.urlsplit_geturl (h : Written u r) :
    urlsplit u r.geturl = some ⟨r.scheme, r.netloc, r.pathParams, r.query, []⟩ := by
  have hhash : '#' ∉ r.tail := by
    rw [h.tail_eq]
    intro hmem
    rcases List.mem_append.mp hmem with hmem | hmem
    · exact (h.path _ hmem).2 rfl
    · split at hmem
      · exact absurd hmem List.not_mem_nil
      rcases List.mem_cons.mp hmem with hmem | hmem
      · exact absurd hmem (by decide)
      · exact h.query hmem
  have hquestion : '?' ∉ r.pathParams := fun hmem => (h.path _ hmem).1 rfl
  have hparts : before '?' r.tail = r.pathParams ∧ after '?' r.tail = r.query := by
    rw [h.tail_eq]
    split
    · rename_i hnil
      rw [List.append_nil, hnil]
      exact ⟨before_eq_self hquestion, after_eq_nil hquestion⟩
    · exact ⟨before_append_cons hquestion _, after_append_cons hquestion _⟩
  have hscheme : splitScheme r.geturl = (r.scheme, '/' :: '/' :: (r.netloc ++ r.tail)) := by
    have hsplit := splitScheme_joined h.front r.tail
    rwa [h.lower.1] at hsplit
  unfold urlsplit
  rw [h.clean_geturl, hscheme]
  dsimp only
  rw [splitNetloc_joined h.delimiters h.follows]
  dsimp only
  rw [if_pos ⟨h.brackets, h.normal⟩, before_eq_self hhash, after_eq_nil hhash, hparts.1, hparts.2]

theorem Written.urlparse_geturl (h : Written u r) : urlparse u r.geturl = some r := by
  have hsplit : (if r.scheme ∈ usesParams ∧ ';' ∈ r.pathParams then splitParams r.pathParams else (r.pathParams, [])) =
      (r.path, r.params) := by
    split
    · exact h.split
    · rename_i hno
      have hmem : ';' ∉ r.pathParams := fun hmem => hno ⟨h.lower.2, hmem⟩
      rw [← h.split, semicolon_of_splitParams hmem]
  unfold urlparse
  rw [h.urlsplit_geturl, Option.map_some]
  dsimp only
  rw [hsplit]
  have hfragment := h.fragment
  cases r
  dsimp only at hfragment
  rw [hfragment]

variable {url : Text}

/-- What follows the scheme and the network location of a URL. -/
theorem rest_of_urlsplit {r : SplitResult} (h : urlsplit u url = some r) (hnetloc : r.netloc ≠ []) :
    (∀ c ∈ r.netloc, ¬ isDelimiter c) ∧ checkBrackets r.netloc = true ∧ checkNetloc u r.netloc = true ∧
      Untouched (r.netloc ++ (r.path ++ r.query)) ∧ (r.path = [] ∨ r.path.head? = some '/') ∧ (∀ c ∈ r.path, c ≠ '?' ∧ c ≠ '#') ∧
      '#' ∉ r.query := by
  have huntouched : Untouched (splitScheme (clean url)).2 := by
    have hclean : Untouched (clean url) := fun c hc => of_decide_eq_true (List.mem_filter.mp hc).2
    unfold splitScheme
    dsimp only
    split
    · exact fun c hc => hclean c ((List.dropWhile_suffix _).subset (List.mem_of_mem_tail hc))
    · exact hclean
  unfold urlsplit at h
  dsimp only at h
  generalize (splitScheme (clean url)).2 = rest at h huntouched
  split at h
  · rename_i hchecks
    cases h
    obtain ⟨tail, hrest, hno, hfollows⟩ := splitNetloc_cases hnetloc
    have htail : (splitNetloc rest).2 = tail := by
      conv_lhs => rw [hrest]
      rw [splitNetloc_joined hno hfollows]
    dsimp only
    rw [htail]
    have hbefore : ∀ c ∈ before '#' tail, c ∈ tail ∧ c ≠ '#' := by
      intro c hc
      have hne := List.mem_takeWhile_imp hc
      exact ⟨(List.takeWhile_prefix _).subset hc, of_decide_eq_true hne⟩
    have hpath : ∀ c ∈ before '?' (before '#' tail), c ∈ before '#' tail ∧ c ≠ '?' := by
      intro c hc
      have hne := List.mem_takeWhile_imp hc
      exact ⟨(List.takeWhile_prefix _).subset hc, of_decide_eq_true hne⟩
    have hquery : ∀ c ∈ after '?' (before '#' tail), c ∈ before '#' tail :=
      fun c hc => (List.dropWhile_suffix _).subset (List.mem_of_mem_tail hc)
    refine ⟨hno, hchecks.1, hchecks.2, fun c hc => huntouched c ?_, ?_, fun c hc => ?_, fun hc => ?_⟩
    · rw [hrest]
      refine List.mem_cons_of_mem _ (List.mem_cons_of_mem _ (List.mem_append.mpr ?_))
      rcases List.mem_append.mp hc with hc | hc
      · exact .inl hc
      · rcases List.mem_append.mp hc with hc | hc
        · exact .inr (hbefore c (hpath c hc).1).1
        · exact .inr (hbefore c (hquery c hc)).1
    · cases htail : tail with
      | nil => exact .inl rfl
      | cons c tail =>
        rcases hfollows c (by rw [htail]; rfl) with rfl | rfl | rfl
        · exact .inr rfl
        · exact .inl rfl
        · exact .inl rfl
    · exact ⟨(hpath c hc).2, (hbefore c (hpath c hc).1).2⟩
    · exact (hbefore _ (hquery _ hc)).2 rfl
  · cases h

theorem head?_of_prefix {front whole : Text} (h : front <+: whole) (hwhole : whole = [] ∨ whole.head? = some d) :
    front = [] ∨ front.head? = some d := by
  obtain ⟨back, rfl⟩ := h
  cases front with
  | nil => exact .inl rfl
  | cons c front =>
    rcases hwhole with hnil | hhead
    · cases hnil
    · exact .inr hhead

/-- A web URL with a network location is written and read back. -/
theorem written_of_urlparse (h : urlparse u url = some r)
    (hscheme : r.scheme = "http".toList ∨ r.scheme = "https".toList) (hnetloc : r.netloc ≠ []) :
    Written u { r with fragment := [] } := by
  unfold urlparse at h
  obtain ⟨raw, hraw, h⟩ := Option.map_eq_some_iff.mp h
  have hused : raw.scheme ∈ usesParams := by
    rw [← h] at hscheme
    rcases hscheme with hs | hs <;> dsimp only at hs <;> rw [hs] <;> decide
  have hsplit : (if raw.scheme ∈ usesParams ∧ ';' ∈ raw.path then splitParams raw.path else (raw.path, [])) = splitParams raw.path := by
    split
    · rfl
    · rename_i hno
      exact (semicolon_of_splitParams fun hmem => hno ⟨hused, hmem⟩).symm
  dsimp only at h
  rw [hsplit] at h
  subst h
  dsimp only at hscheme hnetloc
  obtain ⟨hno, hbrackets, hnormal, huntouched, hroot, hpath, hquery⟩ := rest_of_urlsplit hraw hnetloc
  obtain ⟨hagain, hhead⟩ := splitParams_join raw.path
  exact {
    scheme := hscheme
    delimiters := hno
    brackets := hbrackets
    normal := hnormal
    root := head?_of_prefix hhead hroot
    split := hagain
    path := fun c hc => hpath c (hhead.subset hc)
    query := hquery
    fragment := rfl
    untouched := by
      intro c hc
      refine huntouched c ?_
      rcases List.mem_append.mp hc with hc | hc
      · exact List.mem_append_left _ hc
      · rcases List.mem_append.mp hc with hc | hc
        · exact List.mem_append_right _ (List.mem_append_left _ (hhead.subset hc))
        · exact List.mem_append_right _ (List.mem_append_right _ hc) }

/-- Another query that was written keeps the other parts. -/
theorem Written.withQuery (h : Written u r) (pairs : List (Text × Text)) :
    Written u { r with query := urlencode pairs, fragment := [] } where
  scheme := h.scheme
  delimiters := h.delimiters
  brackets := h.brackets
  normal := h.normal
  root := h.root
  split := h.split
  path := h.path
  query := fun hmem => (PyQuery.facts_urlencode pairs _ hmem).2 rfl
  fragment := rfl
  untouched := by
    intro c hc
    rcases List.mem_append.mp hc with hc | hc
    · exact h.untouched c (List.mem_append_left _ hc)
    · rcases List.mem_append.mp hc with hc | hc
      · exact h.untouched c (List.mem_append_right _ (List.mem_append_left _ hc))
      · have hlarge := (PyQuery.facts_urlencode pairs c hc).1
        refine ⟨?_, ?_, ?_⟩ <;> rintro rfl <;> exact absurd hlarge (by decide)

/-! ## Probes -/

/-- A value that no server gives a meaning to: the reserved URL, or a prefix and the beginning of a digest. -/
def IsMarker (value : Text) : Prop :=
  value = reservedRedirect ∨
    ∃ digits : Text, value = "xbowv2-".toList ++ digits ∧ digits.length = 16 ∧ digits.all RunnerRpc.isLowerHex = true

/-- The pairs, or the pairs with the first value of one parameter replaced by a marker. -/
def Substituted (pairs pairs' : List (Text × Text)) : Prop :=
  pairs' = pairs ∨
    ∃ front name value marker back, pairs = front ++ (name, value) :: back ∧ (∀ pair ∈ front, pair.1 ≠ name) ∧
      pairs' = front ++ (name, marker) :: back ∧ IsMarker marker

/-- A request for the target, up to the value of one parameter. -/
structure Inert (u : Unicode) (target : ParseResult) (probe : SafeProbe) : Prop where
  method : probe.method = "GET"
  url : ∃ parsed, urlparse u probe.requestUrl = some parsed ∧ parsed.scheme = target.scheme ∧ parsed.netloc = target.netloc ∧
    parsed.path = target.path ∧ parsed.params = target.params ∧ parsed.fragment = [] ∧
    Substituted (parseQsl target.query) (parseQsl parsed.query)

theorem parse_eq_ok : parse u url = .ok r ↔ urlparse u url = some r := by
  unfold parse
  cases urlparse u url <;> simp

theorem validateTargetUrl_eq_ok {value : Json} {target : Text} (h : validateTargetUrl u value = .ok target) :
    ∃ text parsed, value = .str text ∧ urlparse u text.toList = some parsed ∧ Written u { parsed with fragment := [] } ∧
      target = { parsed with fragment := [] }.geturl := by
  unfold validateTargetUrl at h
  split at h
  · rename_i text
    split at h
    · cases h
    cases hparse : parse u text.toList with
    | error e =>
      rw [hparse] at h
      cases h
    | ok parsed =>
      rw [hparse] at h
      change (if _ then _ else _) = _ at h
      split at h
      · cases h
      rename_i hweb
      split at h
      · cases h
      cases h
      have hurl := parse_eq_ok.mp hparse
      rw [not_or, not_and_or, not_not, not_not] at hweb
      have hnetloc : parsed.netloc ≠ [] := by
        intro hnil
        refine hweb.2 ?_
        have hname : parsed.hostname u = none := by
          rw [ParseResult.hostname, SplitResult.hostname, ParseResult.split, hnil]
          rfl
        rw [hname]
        rfl
      exact ⟨text, parsed, rfl, hurl, written_of_urlparse hurl hweb.1 hnetloc, rfl⟩
  · cases h

theorem replaceFirst_eq_some {parameter value : Text} {pairs updated : List (Text × Text)}
    (h : replaceFirst parameter value pairs = some updated) :
    ∃ front current back, pairs = front ++ (parameter, current) :: back ∧ (∀ pair ∈ front, pair.1 ≠ parameter) ∧
      updated = front ++ (parameter, value) :: back := by
  induction pairs generalizing updated with
  | nil => cases h
  | cons pair pairs ih =>
    obtain ⟨key, current⟩ := pair
    unfold replaceFirst at h
    split at h
    · rename_i heq
      subst heq
      cases h
      exact ⟨[], current, pairs, rfl, fun _ hmem => absurd hmem List.not_mem_nil, rfl⟩
    · rename_i hne
      obtain ⟨rest, hrest, rfl⟩ := Option.map_eq_some_iff.mp h
      obtain ⟨front, value', back, hpairs, hfront, hupdated⟩ := ih hrest
      refine ⟨(key, current) :: front, value', back, by rw [hpairs, List.cons_append], fun pair hmem => ?_,
        by rw [hupdated, List.cons_append]⟩
      rcases List.mem_cons.mp hmem with rfl | hmem
      · exact hne
      · exact hfront pair hmem

/-- A request for the target itself. -/
theorem inert_of_target (h : Written u r) {probe : SafeProbe} (hmethod : probe.method = "GET")
    (hurl : probe.requestUrl = r.geturl) : Inert u r probe where
  method := hmethod
  url := ⟨r, by rw [hurl, h.urlparse_geturl], rfl, rfl, rfl, rfl, h.fragment, .inl rfl⟩

/-- A request with one value replaced. -/
theorem inert_of_replacement (h : Written u r) {kind : ProbeKind} {parameter marker : Text} {probe : SafeProbe}
    (hmarker : IsMarker marker) (hprobe : replacementProbe u kind r.geturl parameter marker = .ok probe) : Inert u r probe := by
  have hparse : parse u r.geturl = .ok r := parse_eq_ok.mpr h.urlparse_geturl
  unfold replacementProbe replaceFirstParameter at hprobe
  rw [hparse] at hprobe
  dsimp only [bind, Except.bind] at hprobe
  cases hreplace : replaceFirst parameter marker (parseQsl r.query) with
  | none =>
    rw [hreplace] at hprobe
    cases hprobe
  | some updated =>
    rw [hreplace] at hprobe
    cases hprobe
    obtain ⟨front, current, back, hpairs, hfront, hupdated⟩ := replaceFirst_eq_some hreplace
    refine ⟨rfl, _, (h.withQuery updated).urlparse_geturl, rfl, rfl, rfl, rfl, rfl, .inr ?_⟩
    exact ⟨front, parameter, current, marker, back, hpairs, hfront, by rw [PyQuery.parseQsl_urlencode, hupdated], hmarker⟩

theorem isMarker_markerOf (findingId : String) (parameter : Text) : IsMarker (markerOf sha findingId parameter) := by
  have hhex := sha.hex_valid (utf8 (findingId ++ ":" ++ String.ofList parameter))
  rw [RunnerRpc.isHexOfLength, Bool.and_eq_true, beq_iff_eq] at hhex
  refine .inr ⟨_, rfl, ?_, ?_⟩
  · rw [List.length_take, String.length_toList, hhex.1]
    decide
  · exact List.all_eq_true.mpr fun c hc => List.all_eq_true.mp hhex.2 c (List.mem_of_mem_take hc)

/-! ## Plans -/

/-- How many candidates the checks of a request have: the baseline, the selected parameters, the origin, the redirects. -/
def candidateCount (u : Unicode) (request : ProbeRequest) (selected : List Text) : Nat :=
  1 + ((if request.parameterValidationEnabled then selected.length else 0) +
    ((if request.corsValidationEnabled then 1 else 0) +
      (if request.redirectValidationEnabled then (selected.filter (isRedirectName u)).length else 0)))

/-- The probes of a check that is on. -/
theorem checkProbes_spec {check : Bool} {names : List Text} {probeOf : Text → Except PlanError SafeProbe} {probes : List SafeProbe}
    (h : checkProbes check names probeOf = .ok probes) :
    probes.length = (if check then names.length else 0) ∧ ∀ probe ∈ probes, ∃ name ∈ names, probeOf name = .ok probe := by
  cases check with
  | false =>
    cases h
    exact ⟨rfl, fun _ hmem => absurd hmem List.not_mem_nil⟩
  | true =>
    have hpairs := PairedLists.forall₂_of_mapM h
    exact ⟨hpairs.length_eq.symm, fun probe hprobe => PairedLists.forall₂_right hpairs hprobe⟩

theorem candidatesOf_spec (hwritten : Written u r) {request : ProbeRequest} {findingId : String}
    {selected : List Text} {candidates : List SafeProbe}
    (h : candidatesOf u sha request findingId r.geturl selected = .ok candidates) :
    (∀ probe ∈ candidates, Inert u r probe) ∧ candidates.head? = some (baselineProbe r.geturl) ∧
      candidates.length = candidateCount u request selected := by
  unfold candidatesOf at h
  cases hparameters : checkProbes request.parameterValidationEnabled selected (parameterProbe u sha findingId r.geturl) with
  | error e =>
    rw [hparameters] at h
    cases h
  | ok parameters =>
    rw [hparameters] at h
    cases hredirects : checkProbes request.redirectValidationEnabled (selected.filter (isRedirectName u)) (redirectProbe u r.geturl) with
    | error e =>
      rw [hredirects] at h
      cases h
    | ok redirects =>
      rw [hredirects] at h
      cases h
      obtain ⟨hparameterCount, hparameter⟩ := checkProbes_spec hparameters
      obtain ⟨hredirectCount, hredirect⟩ := checkProbes_spec hredirects
      refine ⟨fun probe hmem => ?_, rfl, ?_⟩
      · rcases List.mem_cons.mp hmem with rfl | hmem
        · exact inert_of_target hwritten rfl rfl
        rcases List.mem_append.mp hmem with hmem | hmem
        · obtain ⟨name, -, hprobe⟩ := hparameter probe hmem
          exact inert_of_replacement hwritten (isMarker_markerOf findingId name) hprobe
        rcases List.mem_append.mp hmem with hmem | hmem
        · split at hmem
          · rw [List.mem_singleton.mp hmem]
            exact inert_of_target hwritten rfl rfl
          · exact absurd hmem List.not_mem_nil
        · obtain ⟨name, -, hprobe⟩ := hredirect probe hmem
          exact inert_of_replacement hwritten (.inl rfl) hprobe
      · have hcors : (if request.corsValidationEnabled then [corsProbe r.geturl] else []).length =
            (if request.corsValidationEnabled then 1 else 0) := by
          split <;> rfl
        rw [List.length_cons, List.length_append, List.length_append, hparameterCount, hredirectCount, hcors, candidateCount]
        omega

/-- What a plan may be for a target. -/
structure InertPlan (u : Unicode) (request : ProbeRequest) (target : ParseResult) (plan : SafeProbePlan) : Prop where
  budget : request.maxRequests = .int plan.maxRequests ∧ (plan.probes.length : Int) ≤ plan.maxRequests
  names : plan.parameterNames =
    DistinctBy.distinctBy id [] (((parseQsl target.query).map Prod.fst).filter fun key => decide (key ≠ []))
  limit : request.maxParameters = .int plan.maxParameters
  inert : ∀ probe ∈ plan.probes, Inert u target probe
  baseline : request.enabled = true →
    plan.probes.head? = some (baselineProbe target.geturl) ∧ urlparse u target.geturl = some target
  count : request.enabled = true →
    plan.probes.length + plan.skippedProbeCount =
      candidateCount u request (plan.parameterNames.take plan.maxParameters.toNat)
  disabled : request.enabled = false → plan.probes = [] ∧ plan.skippedProbeCount = 0

theorem boundedInt_eq_ok {value : Json} {name : String} {minimum maximum n : Int} (h : boundedInt value name minimum maximum = .ok n) :
    value = .int n ∧ minimum ≤ n ∧ n ≤ maximum := by
  unfold boundedInt at h
  split at h
  · split at h
    · rename_i hbounds
      cases h
      exact ⟨rfl, hbounds⟩
    · cases h
  · cases h

/-- A plan that is built makes requests for the target only: the target first, then with one value of one parameter replaced by a
marker, as many as the budget allows. The candidates that it leaves out are counted. -/
theorem inert_of_buildSafeProbePlan {request : ProbeRequest} {plan : SafeProbePlan} (h : buildSafeProbePlan u sha request = .ok plan) :
    ∃ text parsed, request.targetUrl = .str text ∧ urlparse u text.toList = some parsed ∧
      InertPlan u request { parsed with fragment := [] } plan := by
  unfold buildSafeProbePlan at h
  cases hfinding : checkFindingId request.findingId with
  | error e =>
    rw [hfinding] at h
    cases h
  | ok findingId =>
  rw [hfinding] at h
  cases hvalid : validateTargetUrl u request.targetUrl with
  | error e =>
    rw [hvalid] at h
    cases h
  | ok target =>
  rw [hvalid] at h
  cases hparameters : boundedInt request.maxParameters "max_parameters" 0 hardMaxParameters with
  | error e =>
    rw [hparameters] at h
    cases h
  | ok maxParameters =>
  rw [hparameters] at h
  cases hrequests : boundedInt request.maxRequests "max_requests" 1 hardMaxRequests with
  | error e =>
    rw [hrequests] at h
    cases h
  | ok maxRequests =>
  rw [hrequests] at h
  obtain ⟨text, parsed, htext, hurl, hwritten, rfl⟩ := validateTargetUrl_eq_ok hvalid
  obtain ⟨hlimit, -, -⟩ := boundedInt_eq_ok hparameters
  obtain ⟨hbudget, hone, -⟩ := boundedInt_eq_ok hrequests
  have hparse : parse u { parsed with fragment := [] }.geturl = .ok { parsed with fragment := [] } :=
    parse_eq_ok.mpr hwritten.urlparse_geturl
  unfold parameterNames at h
  dsimp only [bind, Except.bind] at h
  rw [hparse] at h
  refine ⟨text, parsed, htext, hurl, ?_⟩
  cases henabled : request.enabled with
  | false =>
    rw [henabled] at h
    cases h
    exact {
      budget := ⟨hbudget, by simp only [List.length_nil]; omega⟩
      names := rfl
      limit := hlimit
      inert := fun _ hmem => absurd hmem List.not_mem_nil
      baseline := fun h => Bool.noConfusion (henabled.symm.trans h)
      count := fun h => Bool.noConfusion (henabled.symm.trans h)
      disabled := fun _ => ⟨rfl, rfl⟩ }
  | true =>
    rw [henabled] at h
    generalize hnames : DistinctBy.distinctBy id [] (((parseQsl parsed.query).map Prod.fst).filter fun key => decide (key ≠ [])) = names
    dsimp only [pure, Except.pure] at h
    rw [hnames] at h
    cases hcandidates : candidatesOf u sha request findingId { parsed with fragment := [] }.geturl (names.take maxParameters.toNat) with
    | error e =>
      rw [hcandidates] at h
      cases h
    | ok candidates =>
    rw [hcandidates] at h
    cases h
    obtain ⟨hinert, hhead, hcount⟩ := candidatesOf_spec hwritten hcandidates
    have htake : (candidates.take maxRequests.toNat).length ≤ maxRequests.toNat := List.length_take_le _ _
    have hle : (candidates.take maxRequests.toNat).length ≤ candidates.length := List.length_take_le' _ _
    exact {
      budget := ⟨hbudget, by dsimp only; omega⟩
      names := hnames.symm
      limit := hlimit
      inert := fun probe hmem => hinert probe (List.mem_of_mem_take hmem)
      baseline := fun _ => by
        refine ⟨?_, hwritten.urlparse_geturl⟩
        dsimp only
        rw [List.head?_take, if_neg (by omega), hhead]
      count := fun _ => by
        dsimp only
        omega
      disabled := fun h => Bool.noConfusion (henabled.symm.trans h) }

/-- A request with all checks for a URL with two parameters, one of them for a redirect. -/
def sampleRequest : ProbeRequest where
  findingId := .str "F-1"
  targetUrl := .str "https://shop.example/cart;v=2?next=%2Fhome&q="
  enabled := true
  parameterValidationEnabled := true
  corsValidationEnabled := true
  redirectValidationEnabled := true

theorem inert_of_buildSafeProbePlan_sample :
    ∃ plan text parsed, buildSafeProbePlan ExecutionContract.sampleUnicode ManifestAdmission.sampleSha sampleRequest = .ok plan ∧
      plan.probes.length = 5 ∧ sampleRequest.targetUrl = .str text ∧
      urlparse ExecutionContract.sampleUnicode text.toList = some parsed ∧
      InertPlan ExecutionContract.sampleUnicode sampleRequest { parsed with fragment := [] } plan := by
  have hlength : (buildSafeProbePlan ExecutionContract.sampleUnicode ManifestAdmission.sampleSha sampleRequest).toOption.map
      (fun plan => plan.probes.length) = some 5 := by decide +kernel
  cases hplan : buildSafeProbePlan ExecutionContract.sampleUnicode ManifestAdmission.sampleSha sampleRequest with
  | error e =>
    rw [hplan] at hlength
    cases hlength
  | ok plan =>
    rw [hplan] at hlength
    obtain ⟨text, parsed, htext, hparsed, hinert⟩ := inert_of_buildSafeProbePlan hplan
    exact ⟨plan, text, parsed, rfl, Option.some.inj hlength, htext, hparsed, hinert⟩

/-- A plan that is not enabled has no baseline, and a plan for the origin alone has two candidates for one parameter. -/
theorem candidates_not_parameters :
    (buildSafeProbePlan ExecutionContract.sampleUnicode ManifestAdmission.sampleSha { sampleRequest with enabled := false }).toOption.map
        (fun plan => (plan.probes.length, plan.skippedProbeCount, plan.parameterNames.length)) = some (0, 0, 2) ∧
      (buildSafeProbePlan ExecutionContract.sampleUnicode ManifestAdmission.sampleSha
        { findingId := .str "F-1", targetUrl := .str "https://shop.example/?q=1", enabled := true,
          corsValidationEnabled := true }).toOption.map
        (fun plan => (plan.probes.length, plan.skippedProbeCount, plan.parameterNames.length)) = some (2, 0, 1) := by
  decide +kernel

end ActiveValidation

end XbowPerso
