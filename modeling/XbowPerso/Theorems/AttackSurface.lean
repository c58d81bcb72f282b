import XbowPerso.AttackSurface
import XbowPerso.Theorems.FindingEvidence
import XbowPerso.Theorems.FindingHistory
import XbowPerso.Theorems.ScannerNormalization

/-!
# Results that stay on their assets keep the surface whole

An endpoint that is a URL on the host of its asset is valid, in scope when the host is, and on the host of its parent when it is read
again. A link to another host of a wildcard scope is none of these, and it blocks the consensus.
-/

namespace XbowPerso

namespace AttackSurface

open PyUrl (urlsplit SplitResult before after splitScheme splitNetloc clean isSchemeChar checkBrackets checkNetloc)
open ScopePolicy (isHostAllowed normalizePattern)
open ScannerNormalization (before_append_cons after_append_cons)
open JobAttempt (JobEnv Attempt Finding recordAsset recordEndpoint recordTypedChild observeAll recordFindingChain
  processBrowserFlow stopped putObservation_cases)

variable {u : Unicode} {value : Text} {parsed : SplitResult}

/-! ## The front of a URL -/

theorem hasControl_append (first second : Text) : hasControl (first ++ second) = (hasControl first || hasControl second) :=
  List.any_append

/-- What ends a network location. -/
def isDelimiter (c : Char) : Prop := c = '/' ∨ c = '?' ∨ c = '#'

/-- The front of a URL: spaces, a scheme and a network location. -/
structure Front (u : Unicode) (spaces scheme netloc : Text) : Prop where
  spaces_le : ∀ c ∈ spaces, c.toNat ≤ 32
  alpha : (scheme.head?.map Char.isAlpha).getD false = true
  scheme_chars : scheme.all isSchemeChar = true
  no_colon : ':' ∉ scheme
  no_delimiter : ∀ c ∈ netloc, ¬ isDelimiter c
  brackets : checkBrackets netloc = true
  normal : checkNetloc u netloc = true

/-- What follows a network location. -/
def Follows (rest : Text) : Prop := ∀ c, rest.head? = some c → isDelimiter c

/-- A URL with this front. -/
def joined (spaces scheme netloc rest : Text) : Text := spaces ++ (scheme ++ ':' :: '/' :: '/' :: (netloc ++ rest))

theorem stop_iff (c : Char) : decide (c ≠ '/' ∧ c ≠ '?' ∧ c ≠ '#') = true ↔ ¬ isDelimiter c := by
  rw [decide_eq_true_eq, isDelimiter, not_or, not_or]

variable {netloc : Text}

theorem splitNetloc_joined {rest : Text} (hno : ∀ c ∈ netloc, ¬ isDelimiter c) (hrest : Follows rest) :
    splitNetloc ('/' :: '/' :: (netloc ++ rest)) = (netloc, rest) := by
  have hall : ∀ c ∈ netloc, decide (c ≠ '/' ∧ c ≠ '?' ∧ c ≠ '#') = true := fun c hc => (stop_iff c).mpr (hno c hc)
  have htake : rest.takeWhile (fun c => decide (c ≠ '/' ∧ c ≠ '?' ∧ c ≠ '#')) = [] ∧
      rest.dropWhile (fun c => decide (c ≠ '/' ∧ c ≠ '?' ∧ c ≠ '#')) = rest := by
    cases rest with
    | nil => exact ⟨rfl, rfl⟩
    | cons c rest =>
      have hstop : ¬ decide (c ≠ '/' ∧ c ≠ '?' ∧ c ≠ '#') = true := fun h => (stop_iff c).mp h (hrest c rfl)
      exact ⟨List.takeWhile_cons_of_neg hstop, List.dropWhile_cons_of_neg hstop⟩
  rw [splitNetloc, List.takeWhile_append_of_pos hall, List.dropWhile_append_of_pos hall, htake.1, htake.2, List.append_nil]

/-- Without control characters, cleaning drops the spaces in front. -/
theorem clean_eq (h : hasControl value = false) : clean value = value.dropWhile fun c => decide (c.toNat ≤ 32) := by
  rw [clean, List.filter_eq_self]
  intro c hc
  have hmem : c ∈ value := (List.dropWhile_sublist _).subset hc
  have hplain := List.any_eq_false.mp h c hmem
  rw [Bool.or_eq_true, decide_eq_true_eq, not_or] at hplain
  rw [decide_eq_true_eq]
  refine ⟨?_, ?_, ?_⟩ <;> rintro rfl <;> exact hplain.1 (by decide)

variable {spaces scheme : Text}

theorem dropWhile_joined (h : Front u spaces scheme netloc) (rest : Text) :
    (joined spaces scheme netloc rest).dropWhile (fun c => decide (c.toNat ≤ 32)) =
      scheme ++ ':' :: '/' :: '/' :: (netloc ++ rest) := by
  rw [joined, List.dropWhile_append_of_pos fun c hc => decide_eq_true (h.spaces_le c hc)]
  cases hscheme : scheme with
  | nil =>
    have halpha := h.alpha
    rw [hscheme] at halpha
    cases halpha
  | cons c scheme =>
    have halpha := h.alpha
    rw [hscheme] at halpha
    refine List.dropWhile_cons_of_neg fun hle => ?_
    have hupper : (c.isUpper || c.isLower) = true := halpha
    unfold Char.isUpper Char.isLower at hupper
    simp only [Bool.or_eq_true, Bool.and_eq_true, decide_eq_true_eq, UInt32.le_iff_toNat_le] at hupper
    have hsmall : c.val.toNat ≤ 32 := of_decide_eq_true hle
    rcases hupper with ⟨hge, -⟩ | ⟨hge, -⟩
    · exact absurd (Nat.le_trans hge hsmall) (by decide)
    · exact absurd (Nat.le_trans hge hsmall) (by decide)

theorem splitScheme_joined (h : Front u spaces scheme netloc) (rest : Text) :
    splitScheme (scheme ++ ':' :: '/' :: '/' :: (netloc ++ rest)) =
      (scheme.map Char.toLower, '/' :: '/' :: (netloc ++ rest)) := by
  have hcolon : ':' ∈ scheme ++ ':' :: '/' :: '/' :: (netloc ++ rest) := List.mem_append_right _ List.mem_cons_self
  simp only [splitScheme, before_append_cons h.no_colon, after_append_cons h.no_colon]
  rw [if_pos ⟨hcolon, h.alpha, h.scheme_chars⟩]

/-- The front of a URL decides its scheme and its network location. -/
theorem urlsplit_joined {rest : Text} (h : Front u spaces scheme netloc) (hrest : Follows rest)
    (hplain : hasControl (joined spaces scheme netloc rest) = false) :
    ∃ parsed, urlsplit u (joined spaces scheme netloc rest) = some parsed ∧ parsed.scheme = scheme.map Char.toLower ∧
      parsed.netloc = netloc := by
  unfold urlsplit
  rw [clean_eq hplain, dropWhile_joined h, splitScheme_joined h]
  dsimp only
  rw [splitNetloc_joined h.no_delimiter hrest]
  dsimp only
  rw [if_pos ⟨h.brackets, h.normal⟩]
  exact ⟨_, rfl, rfl, rfl⟩

theorem before_cons_after {d : Char} {s : Text} (h : d ∈ s) : before d s ++ d :: after d s = s := by
  have hwhole := before_append_rest d s
  cases hrest : s.dropWhile (· ≠ d) with
  | nil =>
    rw [hrest, List.append_nil] at hwhole
    have hno := List.takeWhile_eq_self_iff.mp hwhole d h
    simp at hno
  | cons c rest =>
    have hhead : ¬ decide (c ≠ d) = true := by
      have hne : s.dropWhile (fun x => decide (x ≠ d)) ≠ [] := by
        rw [hrest]
        exact List.cons_ne_nil _ _
      have hhead := List.head_dropWhile_not (fun x => decide (x ≠ d)) hne
      simp only [hrest, List.head_cons] at hhead
      rw [hhead]
      exact Bool.false_ne_true
    have hc : c = d := by simpa using hhead
    rw [after, hrest, List.tail_cons, ← hc]
    rwa [hrest, ← hc] at hwhole

/-- What follows the scheme has a network location only after two slashes. -/
theorem splitNetloc_cases {rest : Text} (h : (splitNetloc rest).1 ≠ []) :
    ∃ tail, rest = '/' :: '/' :: ((splitNetloc rest).1 ++ tail) ∧ (∀ c ∈ (splitNetloc rest).1, ¬ isDelimiter c) ∧ Follows tail := by
  unfold splitNetloc at h ⊢
  split
  · rename_i text
    refine ⟨text.dropWhile fun c => decide (c ≠ '/' ∧ c ≠ '?' ∧ c ≠ '#'), ?_, fun c hc => ?_, fun c hc => ?_⟩
    · rw [List.takeWhile_append_dropWhile]
    · exact (stop_iff c).mp (List.all_eq_true.mp List.all_takeWhile c hc)
    · by_contra hno
      have hne : text.dropWhile (fun c => decide (c ≠ '/' ∧ c ≠ '?' ∧ c ≠ '#')) ≠ [] := by
        intro hnil
        rw [hnil] at hc
        cases hc
      have hstop := List.head_dropWhile_not (fun c => decide (c ≠ '/' ∧ c ≠ '?' ∧ c ≠ '#')) hne
      rw [List.head?_eq_some_head hne] at hc
      rw [Option.some.inj hc, (stop_iff c).mpr hno] at hstop
      cases hstop
  · rename_i hno
    split at h
    · rename_i text
      exact absurd rfl (hno text)
    exact absurd rfl h

/-- A URL with a scheme and a network location begins with them. -/
theorem front_of_urlsplit (h : urlsplit u value = some parsed) (hplain : hasControl value = false) (hscheme : parsed.scheme ≠ [])
    (hnetloc : parsed.netloc ≠ []) :
    ∃ spaces scheme rest, value = joined spaces scheme parsed.netloc rest ∧ Front u spaces scheme parsed.netloc ∧ Follows rest ∧
      parsed.scheme = scheme.map Char.toLower := by
  unfold urlsplit at h
  rw [clean_eq hplain] at h
  have hvalue := List.takeWhile_append_dropWhile (p := fun c : Char => decide (c.toNat ≤ 32)) (l := value)
  have hspaces : ∀ c ∈ value.takeWhile (fun c => decide (c.toNat ≤ 32)), c.toNat ≤ 32 :=
    fun c hc => of_decide_eq_true (List.all_eq_true.mp List.all_takeWhile c hc)
  generalize value.takeWhile (fun c => decide (c.toNat ≤ 32)) = spaces at hvalue hspaces
  generalize value.dropWhile (fun c => decide (c.toNat ≤ 32)) = body at hvalue h
  unfold splitScheme at h
  dsimp only at h
  split at h
  · rename_i hcond
    obtain ⟨hcolon, halpha, hchars⟩ := hcond
    dsimp only at h
    split at h
    · rename_i hchecks
      cases h
      obtain ⟨tail, htail, hno, hfollows⟩ := splitNetloc_cases hnetloc
      refine ⟨spaces, before ':' body, tail, ?_, ⟨hspaces, halpha, hchars, fun hc => ?_, hno, hchecks.1, hchecks.2⟩, hfollows, rfl⟩
      · rw [joined, ← htail, before_cons_after hcolon, hvalue]
      · have hne := List.all_eq_true.mp List.all_takeWhile ':' hc
        simp at hne
    · cases h
  · dsimp only at h
    split at h
    · cases h
      exact absurd rfl hscheme
    cases h

/-! ## A path on an asset -/

/-- Dropping slashes at the end of a URL leaves its front. -/
theorem rdropWhile_joined (h : Front u spaces scheme netloc) (hne : netloc ≠ []) (rest : Text) :
    (joined spaces scheme netloc rest).rdropWhile (· = '/') = joined spaces scheme netloc (rest.rdropWhile (· = '/')) := by
  have hkeep : ∀ tail : Text, (netloc ++ tail).rdropWhile (· = '/') = netloc ++ tail.rdropWhile (· = '/') ∧
      netloc ++ tail.rdropWhile (· = '/') ≠ [] := by
    intro tail
    refine ⟨?_, fun hnil => hne (List.append_eq_nil_iff.mp hnil).1⟩
    induction tail using List.reverseRecOn with
    | nil =>
      rw [List.append_nil, List.rdropWhile_nil, List.append_nil, List.rdropWhile_eq_self_iff]
      intro hl hslash
      exact h.no_delimiter _ (List.getLast_mem hl) (.inl (of_decide_eq_true hslash))
    | append_singleton tail c ih =>
      rw [← List.append_assoc, List.rdropWhile_concat, List.rdropWhile_concat, ih]
      split
      · rfl
      · rw [List.append_assoc]
  have hfront : ∀ (front tail : Text), tail.rdropWhile (· = '/') ≠ [] →
      (front ++ tail).rdropWhile (· = '/') = front ++ tail.rdropWhile (· = '/') := by
    intro front tail
    induction tail using List.reverseRecOn with
    | nil => exact fun hnil => absurd (List.rdropWhile_nil _) hnil
    | append_singleton tail c ih =>
      intro hnonempty
      rw [← List.append_assoc, List.rdropWhile_concat, List.rdropWhile_concat]
      rw [List.rdropWhile_concat] at hnonempty
      split
      · rename_i hslash
        rw [if_pos hslash] at hnonempty
        exact ih hnonempty
      · rw [List.append_assoc]
  obtain ⟨heq, hnonempty⟩ := hkeep rest
  have hshape : ∀ tail : Text, joined spaces scheme netloc tail = (spaces ++ (scheme ++ [':', '/', '/'])) ++ (netloc ++ tail) := by
    intro tail
    simp [joined]
  rw [hshape, hfront _ _ (by rw [heq]; exact hnonempty), heq, hshape]

/-! ## Web URLs -/

theorem lower_nil : u.lower [] = [] := u.lower_ascii fun _ hc => absurd hc List.not_mem_nil

theorem scheme_ne_nil (h : u.lower parsed.scheme ∈ webSchemes) : parsed.scheme ≠ [] := by
  intro hnil
  rw [hnil, lower_nil] at h
  exact absurd h (by decide)

theorem netloc_ne_nil (h : hostOf u parsed ≠ []) : parsed.netloc ≠ [] := by
  intro hnil
  refine h ?_
  have hname : parsed.hostname u = none := by
    rw [SplitResult.hostname, hnil]
    rfl
  rw [hostOf, hname, Option.getD_none, lower_nil]
  rfl

theorem hostOf_congr {other : SplitResult} (h : other.netloc = parsed.netloc) : hostOf u other = hostOf u parsed := by
  unfold hostOf SplitResult.hostname
  rw [h]

theorem port_congr {other : SplitResult} (h : other.netloc = parsed.netloc) : other.port = parsed.port := by
  unfold SplitResult.port
  rw [h]

/-- A path on an asset that is a URL is a URL on the same host. -/
theorem webUrl_path {asset endpoint : String} {host : Text} (h : WebUrl u asset host) (hslash : endpoint.toList.head? = some '/')
    (hplain : hasControl endpoint.toList = false) :
    WebUrl u (String.ofList (asset.toList.rdropWhile (· = '/')) ++ endpoint) host := by
  obtain ⟨parsed, hparsed, hscheme, huser, ⟨port, hport, hzero⟩, hhost⟩ := h.split
  have hnetloc : parsed.netloc ≠ [] := netloc_ne_nil (by rw [hhost]; exact h.host_ne)
  obtain ⟨spaces, scheme, rest, hvalue, hfront, hfollows, hlower⟩ :=
    front_of_urlsplit hparsed h.plain (scheme_ne_nil hscheme) hnetloc
  have htext : (String.ofList (asset.toList.rdropWhile (· = '/')) ++ endpoint).toList =
      joined spaces scheme parsed.netloc (rest.rdropWhile (· = '/') ++ endpoint.toList) := by
    rw [String.toList_append, String.toList_ofList, hvalue, rdropWhile_joined hfront hnetloc]
    simp [joined]
  have hrest : Follows (rest.rdropWhile (· = '/') ++ endpoint.toList) := by
    obtain ⟨dropped, hdropped⟩ := List.rdropWhile_prefix (fun c => decide (c = '/')) rest
    cases hkept : rest.rdropWhile (· = '/') with
    | nil =>
      intro c hc
      rw [List.nil_append, hslash] at hc
      exact .inl (Option.some.inj hc).symm
    | cons d kept =>
      intro c hc
      refine hfollows c ?_
      rw [← hdropped, hkept]
      exact hc
  have hclear : hasControl (joined spaces scheme parsed.netloc (rest.rdropWhile (· = '/') ++ endpoint.toList)) = false := by
    have hkept : hasControl (asset.toList.rdropWhile (· = '/')) = false :=
      List.any_eq_false.mpr fun c hc => List.any_eq_false.mp h.plain c ((List.rdropWhile_prefix _ _).subset hc)
    rw [← htext, String.toList_append, String.toList_ofList, hasControl_append, hkept, hplain]
    rfl
  obtain ⟨parsed', hparsed', hscheme', hnetloc'⟩ := urlsplit_joined hfront hrest hclear
  refine ⟨by rw [htext]; exact hclear, ⟨parsed', by rw [htext]; exact hparsed', ?_, ?_, ⟨port, ?_, hzero⟩, ?_⟩, h.host_ne⟩
  · rw [hscheme', ← hlower]
    exact hscheme
  · rw [hnetloc']
    exact huser
  · rw [port_congr hnetloc', hport]
  · rw [hostOf_congr hnetloc', hhost]

/-- The valid endpoints are the web URLs. -/
theorem webUrl_iff {value : String} {host : Text} :
    WebUrl u value host ↔ (canonicalEndpoint u value).valid = true ∧ (canonicalEndpoint u value).host = host := by
  unfold canonicalEndpoint CanonicalEndpoint.valid
  constructor
  · rintro ⟨hplain, ⟨parsed, hparsed, hscheme, huser, ⟨port, hport, hzero⟩, hhost⟩, hne⟩
    rw [hplain, if_neg Bool.false_ne_true, hparsed]
    dsimp only
    refine ⟨?_, hhost⟩
    rw [endpointError, hport, hasUser]
    dsimp only
    rw [if_neg (not_not.mpr hscheme), hhost, if_neg hne, decide_eq_false huser, if_neg Bool.false_ne_true, if_neg hzero]
    rfl
  · rintro ⟨hvalid, hhost⟩
    split at hvalid
    · cases hvalid
    rename_i hcontrol
    rw [if_neg hcontrol] at hhost
    split at hvalid
    · cases hvalid
    rename_i parsed hparsed
    rw [hparsed] at hhost
    dsimp only at hvalid hhost
    unfold endpointError at hvalid
    split at hvalid
    · cases hvalid
    rename_i port hport
    split at hvalid
    · cases hvalid
    rename_i hscheme
    split at hvalid
    · cases hvalid
    rename_i hne
    split at hvalid
    · cases hvalid
    rename_i huser
    split at hvalid
    · cases hvalid
    rename_i hzero
    have huser' : '@' ∉ parsed.netloc := fun hmem => huser (decide_eq_true hmem)
    exact ⟨(Bool.not_eq_true _).mp hcontrol, ⟨parsed, hparsed, not_not.mp hscheme, huser', ⟨port, hport, hzero⟩, hhost⟩, hhost ▸ hne⟩

/-! ## The rows that results leave -/

variable {target : ScopedTarget u} {cfg : ObservationSettings} {rows rows' : Observations} {o asset : Observation} {env : JobEnv}

/-- An endpoint is a URL on the host of an asset, which the campaign allows. -/
def Good (target : ScopedTarget u) (asset value : String) : Prop :=
  OnAsset u asset value ∧ target.scopeChecker (canonicalHost u asset) = some true

/-- Rows that can be rebuilt into a graph, and whose endpoints are below their assets. -/
structure Sound (target : ScopedTarget u) (rows : Observations) : Prop where
  valid : rows.Valid
  endpoints : ∀ row ∈ rows, row.kind = .endpoint →
    ∃ parent ∈ rows, row.parentIds = [parent.id] ∧ parent.kind = .asset ∧ Good target parent.value row.value

/-- An asset is stored. -/
def AssetIn (rows : Observations) (asset : Observation) : Prop :=
  ∃ row ∈ rows, row.id.text = PyText.strip asset.id ∧ row.kind = .asset ∧ row.value = asset.value

/-- An observation below an asset: as an endpoint it is a good one. -/
def Below (target : ScopedTarget u) (asset o : Observation) : Prop :=
  o.kind = "endpoint" → o.parentIds = [asset.id] ∧ Good target asset.value o.value

theorem sound_nil : Sound target [] := ⟨.nil, fun _ h => absurd h List.not_mem_nil⟩

/-- What the checks keep of an observation. -/
theorem prepare_spec {row : ObservationRow} (h : o.prepare cfg = .ok row) :
    row.kind.word = o.kind ∧ row.value = o.value ∧ row.id.text = PyText.strip o.id ∧
      ∀ p, o.parentIds = [p] → ∃ parent : Ident, row.parentIds = [parent] ∧ parent.text = PyText.strip p := by
  have hid := (FindingHistory.ids_of_prepare h).1
  unfold Observation.prepare at h
  split at h
  · cases h
  rename_i kind hkind
  split at h
  · cases h
  split at h
  · cases h
  rename_i parents hparents
  split at h
  · cases h
  dsimp only at h
  split at h
  · cases h
  cases h
  have hword : kind.word = o.kind := by simpa using List.find?_some hkind
  refine ⟨hword, rfl, hid, fun p hp => ?_⟩
  rw [hp, List.mapM_cons, List.mapM_nil] at hparents
  cases hident : storageIdentifier p "parent_id" with
  | error e =>
    rw [hident] at hparents
    cases hparents
  | ok parent =>
    rw [hident] at hparents
    cases hparents
    exact ⟨parent, rfl, text_of_identifierOf hident⟩

theorem AssetIn.mono (h : AssetIn rows asset) (hsub : rows <+: rows') : AssetIn rows' asset := by
  obtain ⟨row, hrow, hfacts⟩ := h
  exact ⟨row, hsub.subset hrow, hfacts⟩

/-- An asset that was put is stored. -/
theorem assetIn_put (h : Observations.put cfg rows asset = .ok rows') (hkind : asset.kind = "asset") : AssetIn rows' asset := by
  obtain ⟨row, hprepare, -, ⟨stored, hstored, hsame, rfl⟩ | ⟨-, rfl⟩⟩ := putObservation_cases h
  · obtain ⟨hword, hvalue, hid, -⟩ := prepare_spec hprepare
    obtain ⟨hmem, hstoredId⟩ := FindingHistory.mem_of_find? hstored
    unfold ObservationRow.sameContent at hsame
    simp only [Bool.and_eq_true, decide_eq_true_eq] at hsame
    refine ⟨stored, hmem, by rw [hstoredId, hid], FindingResolution.word_injective ?_, hsame.1.1.1.2.trans hvalue⟩
    rw [hsame.1.1.1.1, hword, hkind]
    rfl
  · obtain ⟨hword, hvalue, hid, -⟩ := prepare_spec hprepare
    refine ⟨row, List.mem_append_right _ (List.mem_singleton.mpr rfl), hid, FindingResolution.word_injective ?_, hvalue⟩
    rw [hword, hkind]
    rfl

/-- A put below a stored asset keeps the rows sound. -/
theorem Sound.put (h : Sound target rows) (hput : Observations.put cfg rows o = .ok rows')
    (hbelow : o.kind = "endpoint" → AssetIn rows asset ∧ o.parentIds = [asset.id] ∧ Good target asset.value o.value) :
    Sound target rows' := by
  obtain ⟨row, hprepare, hparents, ⟨-, -, -, rfl⟩ | ⟨hnew, rfl⟩⟩ := putObservation_cases hput
  · exact h
  obtain ⟨hword, hvalue, -, hsingle⟩ := prepare_spec hprepare
  constructor
  · refine h.valid.concat (fun hmem => ?_) fun p hp => ?_
    · obtain ⟨other, hother, hid⟩ := List.mem_map.mp hmem
      exact absurd (decide_eq_true hid) (List.find?_eq_none.mp hnew other hother)
    · have hfound := List.any_eq_false.mp hparents p hp
      cases hfind : Observations.find? rows p with
      | none =>
        rw [hfind] at hfound
        exact absurd rfl hfound
      | some parent =>
        obtain ⟨hmem, hid⟩ := FindingHistory.mem_of_find? hfind
        exact List.mem_map.mpr ⟨parent, hmem, hid⟩
  · intro other hother hendpoint
    rcases List.mem_append.mp hother with hother | hother
    · obtain ⟨parent, hparent, hfacts⟩ := h.endpoints other hother hendpoint
      exact ⟨parent, List.mem_append_left _ hparent, hfacts⟩
    · rw [List.mem_singleton.mp hother] at hendpoint ⊢
      obtain ⟨⟨stored, hstored, hid, hkind, hstoredValue⟩, hparent, hgood⟩ := hbelow (by rw [← hword, hendpoint]; rfl)
      obtain ⟨parent, hrowParents, htext⟩ := hsingle asset.id hparent
      have hsame : parent = stored.id := Ident.text_injective (htext.trans hid.symm)
      refine ⟨stored, List.mem_append_left _ hstored, by rw [hrowParents, hsame], hkind, ?_⟩
      rw [hstoredValue, hvalue]
      exact hgood

/-! ## Attempts below an asset -/

/-- Everything that an attempt records meets a condition. -/
def Observes (p : Observation → Prop) : Attempt → Prop
  | .done => True
  | .artifact _ next => ∀ row, Observes p (next row)
  | .observe o next => p o ∧ Observes p next

theorem observes_done {p : Observation → Prop} : Observes p .done := trivial

theorem observes_observeAll {p : Observation → Prop} {observations : List Observation} {next : Attempt}
    (h : ∀ o ∈ observations, p o) (hnext : Observes p next) : Observes p (observeAll observations next) := by
  induction observations with
  | nil => exact hnext
  | cons o observations ih => exact ⟨h o List.mem_cons_self, ih fun x hx => h x (List.mem_cons_of_mem _ hx)⟩

theorem observes_persistScreenshots {p : Observation → Prop} {job : String} {contents : List (List UInt8)}
    {next : List JobAttempt.ArtifactRow → Attempt} (h : ∀ artifacts, Observes p (next artifacts)) (index : Nat)
    (artifacts : List JobAttempt.ArtifactRow) : Observes p (JobAttempt.persistScreenshots job index contents artifacts next) := by
  induction contents generalizing index artifacts with
  | nil => exact h artifacts
  | cons content contents ih => exact fun row => ih (index + 1) (artifacts ++ [row])

variable {store : JobAttempt.JobStore}

/-- What an attempt records below a stored asset keeps the rows sound, wherever it stops. -/
theorem sound_stopped {a : Attempt} (h : Sound target store.observations)
    (hasset : AssetIn store.observations asset) (hbelow : Observes (Below target asset) a) (writes : Nat) :
    Sound target (stopped env writes store a).observations := by
  induction a generalizing store writes with
  | done =>
    cases writes with
    | zero => exact h
    | succ writes => exact h
  | artifact put next ih =>
    cases writes with
    | zero => exact h
    | succ writes =>
      unfold stopped
      split
      · exact h
      rename_i artifacts row hput
      have hkept : Sound target (JobAttempt.JobStore.mk artifacts store.observations).observations := h
      exact ih row hkept hasset (hbelow row) writes
  | observe o next ih =>
    cases writes with
    | zero => exact h
    | succ writes =>
      unfold stopped
      split
      · exact h
      rename_i observations hput
      exact ih (h.put hput fun hkind => ⟨hasset, hbelow.1 hkind⟩)
        (hasset.mono (Observations.prefix_put hput)) hbelow.2 writes

/-- An attempt that begins with its asset keeps the rows sound. -/
theorem sound_stopped_asset {a : Attempt} (h : Sound target store.observations) (hkind : asset.kind = "asset")
    (hbelow : Observes (Below target asset) a) (writes : Nat) :
    Sound target (stopped env writes store (.observe asset a)).observations := by
  cases writes with
  | zero => exact h
  | succ writes =>
    unfold stopped
    split
    · exact h
    rename_i observations hput
    have hnot : asset.kind = "endpoint" →
        AssetIn store.observations asset ∧ asset.parentIds = [asset.id] ∧ Good target asset.value asset.value := by
      rw [hkind]
      exact fun hend => absurd hend (by decide)
    exact sound_stopped (h.put hput hnot) (assetIn_put hput hkind) hbelow writes

/-! ## What a result leaves -/

/-- An observation of another kind is below every asset. -/
theorem below_of_kind (kind : String) (hkind : o.kind = kind) (hne : kind ≠ "endpoint") : Below target asset o :=
  fun hendpoint => absurd (hkind.symm.trans hendpoint) hne

/-- An endpoint of an admitted result on its asset is a good one. -/
theorem good_of_onAsset {result : Result} {assetValue endpoint value : String} (hadmitted : Admitted target result)
    (hmem : (assetValue, endpoint) ∈ result.endpoints target.primaryUrl) (hon : OnAsset u assetValue value) :
    Good target assetValue value :=
  ⟨hon, (hadmitted _ hmem).1 hon.host_ne⟩

theorem below_recon {kind : String} {result : ReconResult} (hadmitted : Admitted target (.recon kind result))
    (hon : OnItsAssets u target.primaryUrl (.recon kind result)) (o : Observation)
    (ho : o ∈ reconObservations env kind target.primaryUrl result) :
    Below target (recordAsset env target.primaryUrl ("recon:" ++ kind)) o := by
  have hgood : ∀ endpoint ∈ result.probed ++ result.endpoints, Good target target.primaryUrl endpoint := by
    intro endpoint hendpoint
    have hmem : (target.primaryUrl, endpoint) ∈ (Result.recon kind result).endpoints target.primaryUrl :=
      List.mem_map.mpr ⟨endpoint, hendpoint, rfl⟩
    exact good_of_onAsset hadmitted hmem (hon _ hmem)
  simp only [reconObservations, List.mem_append, List.mem_cons, List.mem_map] at ho
  rcases ho with (((((rfl | ⟨discovered, -, rfl⟩) | ⟨endpoint, hendpoint, rfl⟩) | ⟨endpoint, hendpoint, rfl⟩) | ⟨form, -, rfl⟩) |
    ⟨technology, -, rfl⟩) | ⟨waf, -, rfl⟩
  · exact below_of_kind "asset" rfl (by decide)
  · exact below_of_kind "asset" rfl (by decide)
  · exact fun _ => ⟨rfl, hgood endpoint (List.mem_append_left _ hendpoint)⟩
  · exact fun _ => ⟨rfl, hgood endpoint (List.mem_append_right _ hendpoint)⟩
  · exact below_of_kind "form" rfl (by decide)
  · exact below_of_kind "technology" rfl (by decide)
  · exact below_of_kind "waf" rfl (by decide)

theorem below_browser {job : String} {result : JobAttempt.BrowserResult} (hadmitted : Admitted target (.browser job result))
    (hon : OnItsAssets u target.primaryUrl (.browser job result)) (o : Observation)
    (ho : o ∈ result.observations.flatMap (JobAttempt.browserObservations env result.identityLabel
      (recordAsset env target.primaryUrl "browser").id)) :
    Below target (recordAsset env target.primaryUrl "browser") o := by
  obtain ⟨observed, hobserved, ho⟩ := List.mem_flatMap.mp ho
  have hgood : ∀ url ∈ browserUrls observed, Good target target.primaryUrl url := by
    intro url hurl
    have hmem : (target.primaryUrl, url) ∈ (Result.browser job result).endpoints target.primaryUrl :=
      List.mem_map.mpr ⟨url, List.mem_flatMap.mpr ⟨observed, hobserved, hurl⟩, rfl⟩
    exact good_of_onAsset hadmitted hmem (hon _ hmem)
  cases observed with
  | navigate url metadata =>
    simp only [JobAttempt.browserObservations] at ho
    split at ho
    · cases ho
    rename_i hne
    rcases List.mem_cons.mp ho with rfl | ho
    · refine fun _ => ⟨rfl, hgood url ?_⟩
      rw [browserUrls, if_neg hne]
      exact List.mem_singleton.mpr rfl
    · split at ho
      · cases ho
      rw [List.mem_singleton.mp ho]
      exact below_of_kind "access_surface" rfl (by decide)
  | surfaceLinks urls =>
    obtain ⟨url, hurl, rfl⟩ := List.mem_map.mp ho
    exact fun _ => ⟨rfl, hgood url hurl⟩
  | surfaceForms forms =>
    obtain ⟨form, -, rfl⟩ := List.mem_map.mp ho
    exact below_of_kind "form" rfl (by decide)
  | surfaceTechnologies technologies =>
    obtain ⟨technology, -, rfl⟩ := List.mem_map.mp ho
    exact below_of_kind "technology" rfl (by decide)
  | other => cases ho

/-- The endpoint of a finding, as it is recorded, is on its asset. -/
theorem onAsset_endpointValue {f : Finding} {endpoint : String}
    (h : if endpoint.toList.head? = some '/' then hasControl endpoint.toList = false ∧ OnAsset u f.asset f.asset
      else OnAsset u f.asset endpoint) : OnAsset u f.asset (f.endpointValue endpoint) := by
  unfold JobAttempt.Finding.endpointValue
  split at h
  · rename_i hslash
    rw [if_pos hslash]
    exact webUrl_path h.2 hslash h.1
  · rename_i hslash
    rw [if_neg hslash]
    exact h

theorem below_finding {f : Finding} (hadmitted : Admitted target (.finding f)) (hon : OnItsAssets u target.primaryUrl (.finding f))
    (o : Observation) (ho : o ∈ recordFindingChain env f) : Below target (recordAsset env f.asset f.discoveredBy) o := by
  unfold recordFindingChain at ho
  dsimp only at ho
  rcases List.mem_cons.mp ho with rfl | ho
  · exact below_of_kind "asset" rfl (by decide)
  rcases List.mem_append.mp ho with ho | ho
  · cases hendpoint : f.endpoint with
    | none =>
      rw [hendpoint] at ho
      cases ho
    | some endpoint =>
      rw [hendpoint] at ho
      dsimp only at ho
      split at ho
      · cases ho
      rename_i hne
      rw [Option.toList_some, List.mem_singleton] at ho
      have hmem : (f.asset, endpoint) ∈ (Result.finding f).endpoints target.primaryUrl := by
        refine List.mem_map.mpr ⟨endpoint, List.mem_filter.mpr ⟨?_, decide_eq_true hne⟩, rfl⟩
        rw [hendpoint]
        exact List.mem_singleton.mpr rfl
      rw [ho]
      exact fun _ => ⟨rfl, good_of_onAsset hadmitted hmem (onAsset_endpointValue (hon _ hmem))⟩
  · rcases List.mem_cons.mp ho with rfl | ho
    · exact below_of_kind "finding" rfl (by decide)
    · obtain ⟨⟨text, index⟩, -, rfl⟩ := List.mem_map.mp ho
      exact below_of_kind "evidence" rfl (by decide)

/-- A result that is admitted and on its assets keeps the rows sound, wherever its attempt stops. -/
theorem sound_attempt (h : Sound target store.observations) {result : Result}
    (hadmitted : Admitted target result) (hon : OnItsAssets u target.primaryUrl result) (writes : Nat) :
    Sound target (stopped env writes store (attempt env target.primaryUrl result)).observations := by
  cases result with
  | recon kind result =>
    have hshape : reconObservations env kind target.primaryUrl result =
      recordAsset env target.primaryUrl ("recon:" ++ kind) :: (reconObservations env kind target.primaryUrl result).tail := rfl
    rw [attempt, hshape]
    refine sound_stopped_asset h rfl (observes_observeAll (fun o ho => ?_) observes_done) writes
    exact below_recon hadmitted hon o (List.mem_of_mem_tail ho)
  | browser job result =>
    rw [attempt, processBrowserFlow]
    refine sound_stopped_asset h rfl ?_ writes
    intro evidence
    refine observes_persistScreenshots (fun artifacts => ?_) 1 [evidence]
    refine observes_observeAll (below_browser hadmitted hon) (observes_observeAll (fun o ho => ?_) trivial)
    obtain ⟨artifact, -, rfl⟩ := List.mem_map.mp ho
    exact below_of_kind "evidence" rfl (by decide)
  | finding f =>
    have hshape : recordFindingChain env f = recordAsset env f.asset f.discoveredBy :: (recordFindingChain env f).tail := rfl
    rw [attempt, hshape]
    refine sound_stopped_asset h rfl (observes_observeAll (fun o ho => ?_) observes_done) writes
    exact below_finding hadmitted hon o (List.mem_of_mem_tail ho)

theorem sound_run (h : Sound target store.observations) {results : List (Result × Nat)}
    (hadmitted : ∀ entry ∈ results, Admitted target entry.1) (hon : ∀ entry ∈ results, OnItsAssets u target.primaryUrl entry.1) :
    Sound target (run env target.primaryUrl store results).observations := by
  induction results generalizing store with
  | nil => exact h
  | cons entry results ih =>
    refine ih (sound_attempt h (hadmitted entry List.mem_cons_self) (hon entry List.mem_cons_self) entry.2) ?_ ?_
    · exact fun other hother => hadmitted other (List.mem_cons_of_mem _ hother)
    · exact fun other hother => hon other (List.mem_cons_of_mem _ hother)

/-! ## The surface of sound rows -/

theorem mapM_some {α β : Type} {f : α → Option β} {l : List α} (h : ∀ a ∈ l, ∃ b, f a = some b) :
    ∃ l', l.mapM f = some l' ∧ ∀ b ∈ l', ∃ a ∈ l, f a = some b := by
  induction l with
  | nil => exact ⟨[], rfl, fun b hb => absurd hb List.not_mem_nil⟩
  | cons a l ih =>
    obtain ⟨b, hb⟩ := h a List.mem_cons_self
    obtain ⟨l', hl', hmem⟩ := ih fun x hx => h x (List.mem_cons_of_mem _ hx)
    refine ⟨b :: l', by rw [List.mapM_cons, hb, hl']; rfl, fun x hx => ?_⟩
    rcases List.mem_cons.mp hx with rfl | hx
    · exact ⟨a, List.mem_cons_self, hb⟩
    · obtain ⟨y, hy, hfy⟩ := hmem x hx
      exact ⟨y, List.mem_cons_of_mem _ hy, hfy⟩

/-- The patterns of a campaign whose primary URL is in scope judge every host. -/
theorem scopeChecker_isSome (target : ScopedTarget u) (host : Text) : ∃ answer, target.scopeChecker host = some answer := by
  obtain ⟨parsed, name, -, -, hallowed⟩ := target.primary_in_scope
  unfold isHostAllowed at hallowed
  unfold ScopedTarget.scopeChecker isHostAllowed
  split at hallowed
  · cases hallowed
  split at hallowed
  · cases hallowed
  split at hallowed
  · cases hallowed
  split
  · exact ⟨_, rfl⟩
  · exact ⟨_, rfl⟩

theorem judged_isSome (target : ScopedTarget u) (applies : Bool) (host : Text) :
    ∃ inScope, judged target.scopeChecker applies host = some inScope := by
  unfold judged
  split
  · obtain ⟨answer, hanswer⟩ := scopeChecker_isSome target host
    exact ⟨some answer, by rw [hanswer]; rfl⟩
  · exact ⟨none, rfl⟩

variable {graph : ObservationGraph}

/-- The hosts of the only parent of an endpoint. -/
theorem parentHosts_singleton {endpoint parent : Observation} (hparents : endpoint.parentIds = [parent.id])
    (hmem : parent ∈ graph.byKind .asset) : parentHosts u graph endpoint = [canonicalHost u parent.value] := by
  have hentry : (assetHosts u graph).find? (fun entry => decide (entry.1 = parent.id)) =
      some (parent.id, canonicalHost u parent.value) := by
    cases hfind : (assetHosts u graph).find? fun entry => decide (entry.1 = parent.id) with
    | none =>
      have hnone := List.find?_eq_none.mp hfind _ (List.mem_map.mpr ⟨parent, hmem, rfl⟩)
      exact absurd (decide_eq_true rfl) hnone
    | some entry =>
      obtain ⟨other, hother, rfl⟩ := List.mem_map.mp (List.mem_of_find?_eq_some hfind)
      have hid : other.id = parent.id := by simpa using List.find?_some hfind
      have hsame := ObservationGraph.mem_values.mp (List.mem_filter.mp hother).1
      rw [hid, ObservationGraph.mem_values.mp (List.mem_filter.mp hmem).1] at hsame
      rw [Option.some.inj hsame]
  rw [parentHosts, hparents, List.filterMap_cons, hentry]
  rfl

/-- The endpoints of a graph are below assets of the graph. -/
def Whole (target : ScopedTarget u) (graph : ObservationGraph) : Prop :=
  ∀ o ∈ graph.byKind .endpoint, ∃ parent ∈ graph.byKind .asset, o.parentIds = [parent.id] ∧ Good target parent.value o.value

/-- Below an asset whose host is allowed, an endpoint is valid, in scope and no mismatch exactly when it is a URL on this host. -/
theorem endpointItem_iff {endpoint parent : Observation} (hparents : endpoint.parentIds = [parent.id])
    (hparent : parent ∈ graph.byKind .asset) (hallowed : target.scopeChecker (canonicalHost u parent.value) = some true)
    {item : EndpointItem} (hitem : endpointItem u target.scopeChecker graph endpoint = some item) :
    (item.endpoint.valid = true ∧ item.inScope = some true ∧ item.hostAssetMismatch = false) ↔ OnAsset u parent.value endpoint.value := by
  unfold endpointItem at hitem
  dsimp only at hitem
  rw [parentHosts_singleton hparents hparent] at hitem
  obtain ⟨inScope, hinScope, rfl⟩ := Option.map_eq_some_iff.mp hitem
  constructor
  · rintro ⟨hvalid, -, hmatch⟩
    have hhost : ¬ ([canonicalHost u parent.value] ≠ [] ∧
        ∀ host ∈ [canonicalHost u parent.value], host ≠ (canonicalEndpoint u endpoint.value).host) := of_decide_eq_false hmatch
    refine webUrl_iff.mpr ⟨hvalid, ?_⟩
    by_contra hne
    refine hhost ⟨List.cons_ne_nil _ _, fun host hmem heq => hne ?_⟩
    rw [← heq, List.mem_singleton.mp hmem]
  · intro hon
    obtain ⟨hvalid, hhost⟩ := webUrl_iff.mp hon
    unfold judged at hinScope
    rw [hvalid, if_pos rfl, hhost, hallowed] at hinScope
    cases hinScope
    exact ⟨hvalid, rfl, decide_eq_false fun hmismatch => hmismatch.2 _ (List.mem_singleton.mpr rfl) hhost.symm⟩

/-- An endpoint of a whole graph is valid, in scope, and on the host of its asset. -/
theorem endpointItem_good (h : Whole target graph) {endpoint : Observation} (hmem : endpoint ∈ graph.byKind .endpoint) {item : EndpointItem}
    (hitem : endpointItem u target.scopeChecker graph endpoint = some item) :
    item.endpoint.valid = true ∧ item.inScope = some true ∧ item.hostAssetMismatch = false := by
  obtain ⟨parent, hparent, hparents, hon, hallowed⟩ := h endpoint hmem
  exact (endpointItem_iff hparents hparent hallowed hitem).mpr hon

/-- A whole graph has a surface, and its integrity is not in question. -/
theorem surface_of_whole (h : Whole target graph) :
    ∃ surface, buildAttackSurface u target.scopeChecker graph = some surface ∧ surface.integrityCount = 0 := by
  have hassets : ∀ o ∈ graph.byKind .asset, ∃ item, assetItem u target.scopeChecker o = some item := by
    intro o _
    obtain ⟨inScope, hinScope⟩ := judged_isSome target (decide (canonicalHost u o.value ≠ [])) (canonicalHost u o.value)
    exact ⟨_, by rw [assetItem, hinScope]; rfl⟩
  have hendpoints : ∀ o ∈ graph.byKind .endpoint, ∃ item, endpointItem u target.scopeChecker graph o = some item := by
    intro o _
    obtain ⟨inScope, hinScope⟩ := judged_isSome target (canonicalEndpoint u o.value).valid (canonicalEndpoint u o.value).host
    exact ⟨_, by rw [endpointItem, hinScope]; rfl⟩
  have hforms : ∀ o ∈ graph.byKind .form, ∃ item, safeForm u target.scopeChecker o = some item := by
    intro o _
    obtain ⟨inScope, hinScope⟩ := judged_isSome target (canonicalEndpoint u o.value).valid (canonicalEndpoint u o.value).host
    exact ⟨_, by rw [safeForm, hinScope]; rfl⟩
  obtain ⟨assets, hassets, -⟩ := mapM_some hassets
  obtain ⟨endpoints, hendpoints, hitems⟩ := mapM_some hendpoints
  obtain ⟨forms, hforms, -⟩ := mapM_some hforms
  have hgood : ∀ item ∈ endpoints, item.endpoint.valid = true ∧ item.inScope = some true ∧ item.hostAssetMismatch = false := by
    intro item hitem
    obtain ⟨endpoint, hmem, heq⟩ := hitems item hitem
    exact endpointItem_good h hmem heq
  refine ⟨⟨assets, endpoints, forms⟩, ?_, ?_⟩
  · rw [buildAttackSurface, hassets, hendpoints, hforms]
  · have hvalid : endpoints.filter (fun item => item.endpoint.valid) = endpoints :=
      List.filter_eq_self.mpr fun item hitem => (hgood item hitem).1
    have hscope : endpoints.countP (fun item => decide (item.inScope = some false)) = 0 := by
      refine List.countP_eq_zero.mpr fun item hitem => ?_
      rw [(hgood item hitem).2.1]
      decide
    have hmismatch : endpoints.countP EndpointItem.hostAssetMismatch = 0 := by
      refine List.countP_eq_zero.mpr fun item hitem => ?_
      rw [(hgood item hitem).2.2]
      exact Bool.false_ne_true
    unfold Surface.integrityCount Surface.invalidEndpointCount Surface.outOfScopeEndpointCount Surface.hostAssetMismatchCount
      Surface.validEndpoints
    rw [hvalid, hscope, hmismatch, Nat.sub_self]

/-- Sound rows, in whatever order, make a whole graph. -/
theorem whole_of_sound (h : Sound target rows) {records : Observations} (hperm : List.Perm records rows) :
    ∃ graph, ObservationGraph.fromRecords (records.map ObservationRow.toObservation) = .ok graph ∧ Whole target graph := by
  obtain ⟨graph, hgraph, hget⟩ := ObservationStore.fromRecords_of_valid h.valid (hperm.map ObservationRow.toObservation)
  refine ⟨graph, hgraph, fun o ho => ?_⟩
  obtain ⟨row, hrow, hkind, rfl⟩ := FindingResolution.row_of_byKind hperm hgraph ho
  obtain ⟨parent, hparent, hparents, hasset, hgood⟩ := h.endpoints row hrow hkind
  refine ⟨parent.toObservation, List.mem_filter.mpr ⟨?_, decide_eq_true (congrArg ObservationKind.word hasset)⟩, ?_, hgood⟩
  · exact ObservationGraph.mem_values.mpr ((hget _ _).mpr ⟨List.mem_map.mpr ⟨parent, hparent, rfl⟩, rfl⟩)
  · show row.parentIds.map Ident.text = [parent.id.text]
    rw [hparents, List.map_singleton]

/-! ## Decisions without a question of integrity -/

variable {surface : Surface} {signals : Signals} {decisions : List RedTeamDecision}

theorem drafted_eq (h : surface.integrityCount = 0) : drafted signals surface = drafted signals .empty := by
  unfold drafted
  rw [h]
  rfl

theorem kind_of_mem_drafted (h : surface.integrityCount = 0) {decision : RedTeamDecision} (hmem : decision ∈ drafted signals surface) :
    decision.kind ≠ .scopeIntegrity := by
  unfold drafted at hmem
  rw [if_neg (not_not.mpr h)] at hmem
  simp only [List.mem_append, List.mem_ite_nil_right, List.mem_cons, List.not_mem_nil, or_false, false_or, List.mem_map] at hmem
  rcases hmem with (((⟨-, rfl⟩ | ⟨-, rfl⟩) | ⟨-, rfl⟩) | ⟨evidence, -, rfl⟩) | ⟨-, rfl⟩
  all_goals exact fun hkind => (by cases hkind)

theorem kind_adjust (decision : RedTeamDecision) : (adjust signals decision).kind = decision.kind := by
  unfold adjust
  split
  · rfl
  · rfl

/-- Without a question of integrity, none is asked. -/
theorem kind_of_mem_decisions (h : surface.integrityCount = 0) {limit : Nat}
    (hdecisions : buildRedTeamDecisions signals surface limit = .ok decisions) {decision : RedTeamDecision} (hmem : decision ∈ decisions) :
    decision.kind ≠ .scopeIntegrity := by
  unfold buildRedTeamDecisions at hdecisions
  split at hdecisions
  · cases hdecisions
  cases hdecisions
  obtain ⟨drafted, hdrafted, rfl⟩ := List.mem_map.mp (List.mem_mergeSort.mp (List.mem_of_mem_take hmem))
  rw [kind_adjust]
  split at hdrafted
  · rw [List.mem_singleton.mp hdrafted]
    exact fun hkind => (by cases hkind)
  · exact kind_of_mem_drafted h hdrafted

theorem nextFocus_ne (near : Nat → Nat → Bool) (h : ∀ decision ∈ decisions, decision.kind ≠ .scopeIntegrity) :
    (buildDecisionConsensus near decisions).nextFocus ≠ .scopeIntegrity := by
  unfold buildDecisionConsensus
  split
  · exact fun hkind => (by cases hkind)
  · rename_i top rest hblocking _
    have hmem : top ∈ ranked (decisions.filter fun item => decide (item.kind ∈ blockingKinds)) := hblocking ▸ List.mem_cons_self
    exact h top (List.mem_filter.mp (List.mem_mergeSort.mp hmem)).1
  · rename_i top rest _ hranked
    have hmem : top ∈ ranked decisions := hranked ▸ List.mem_cons_self
    exact h top (List.mem_mergeSort.mp hmem)

/-- Without a question of integrity, the gate is what it is without any endpoint. -/
theorem campaignAutonomyGate_eq (h : surface.integrityCount = 0) (near : Nat → Nat → Bool) (signals : Signals) (flags : GateFlags) :
    campaignAutonomyGate near signals flags surface = campaignAutonomyGate near signals flags .empty := by
  have hrisk : ∀ consensus, riskBlocked surface consensus = riskBlocked .empty consensus := by
    intro consensus
    unfold riskBlocked
    rw [h]
    rfl
  unfold campaignAutonomyGate buildRedTeamDecisions
  rw [drafted_eq h]
  simp only [hrisk]

/-- Results that are admitted, of which every endpoint is a URL on the host of its asset, leave a surface whose integrity is not in
question: no decision asks for it, and the gate is what it is without any endpoint. -/
theorem integrity_of_results (env : JobEnv) (u : Unicode) (target : ScopedTarget u) (results : List (Result × Nat))
    (hadmitted : ∀ entry ∈ results, Admitted target entry.1) (hon : ∀ entry ∈ results, OnItsAssets u target.primaryUrl entry.1)
    (records : Observations) (hperm : List.Perm records (run env target.primaryUrl ⟨[], []⟩ results).observations) :
    ∃ graph surface, ObservationGraph.fromRecords (records.map ObservationRow.toObservation) = .ok graph ∧
      buildAttackSurface u target.scopeChecker graph = some surface ∧ surface.integrityCount = 0 ∧
      (∀ signals limit decisions, buildRedTeamDecisions signals surface limit = .ok decisions →
        (∀ decision ∈ decisions, decision.kind ≠ .scopeIntegrity) ∧
          ∀ near, (buildDecisionConsensus near decisions).nextFocus ≠ .scopeIntegrity) ∧
      ∀ near signals flags, campaignAutonomyGate near signals flags surface = campaignAutonomyGate near signals flags .empty := by
  have hsound : Sound target (run env target.primaryUrl ⟨[], []⟩ results).observations := sound_run sound_nil hadmitted hon
  obtain ⟨graph, hgraph, hwhole⟩ := whole_of_sound hsound hperm
  obtain ⟨surface, hsurface, hzero⟩ := surface_of_whole hwhole
  refine ⟨graph, surface, hgraph, hsurface, hzero, fun signals limit decisions hdecisions => ?_, campaignAutonomyGate_eq hzero⟩
  have hkinds : ∀ decision ∈ decisions, decision.kind ≠ .scopeIntegrity :=
    fun decision hmem => kind_of_mem_decisions hzero hdecisions hmem
  exact ⟨hkinds, fun near => nextFocus_ne near hkinds⟩

/-! ## A wildcard scope -/

open ExecutionContract (sampleUnicode)
open JobAttempt (sampleJobs)

theorem sampleTarget_facts :
    ((urlsplit sampleUnicode "https://app.example.com/".toList).bind fun parsed => parsed.hostname sampleUnicode) =
        some "app.example.com".toList ∧
      isHostAllowed sampleUnicode (String.ofList (sampleUnicode.lower "app.example.com".toList)) ["*.example.com"] [] = some true := by
  decide +kernel

theorem sampleTarget_in_scope : ∃ parsed host, urlsplit sampleUnicode "https://app.example.com/".toList = some parsed ∧
    parsed.hostname sampleUnicode = some host ∧
    isHostAllowed sampleUnicode (String.ofList (sampleUnicode.lower host)) ["*.example.com"] [] = some true := by
  obtain ⟨hhost, hallowed⟩ := sampleTarget_facts
  obtain ⟨parsed, hparsed, hname⟩ := Option.bind_eq_some_iff.mp hhost
  exact ⟨parsed, _, hparsed, hname, hallowed⟩

/-- A campaign for all subdomains of a domain. -/
def sampleTarget : ScopedTarget sampleUnicode := ⟨"https://app.example.com/", ["*.example.com"], [], sampleTarget_in_scope⟩

/-- A flow that found these links. -/
def linkFlow (urls : List String) : Result := .browser "job-1" ⟨"completed", none, [.surfaceLinks urls], [], []⟩

/-- A finding at a path of its asset. -/
def pathFinding : Result := .finding ⟨"f1", "https://api.example.com", "strix", some "/login", "XSS", "high", .null, .null, []⟩

def sampleResults : List (Result × Nat) := [(linkFlow ["https://app.example.com/login"], 10), (pathFinding, 10)]

theorem sampleResults_admitted : ∀ entry ∈ sampleResults, Admitted sampleTarget entry.1 := by
  unfold Admitted
  decide +kernel

theorem sampleResults_on : ∀ entry ∈ sampleResults, OnItsAssets sampleUnicode sampleTarget.primaryUrl entry.1 := by
  have hlink : OnAsset sampleUnicode "https://app.example.com/" "https://app.example.com/login" := webUrl_iff.mpr (by decide +kernel)
  have hasset : OnAsset sampleUnicode "https://api.example.com" "https://api.example.com" := webUrl_iff.mpr (by decide +kernel)
  intro entry hentry
  simp only [sampleResults, List.mem_cons, List.not_mem_nil, or_false] at hentry
  rcases hentry with rfl | rfl
  · intro pair hpair
    rw [List.mem_singleton.mp hpair]
    exact hlink
  · intro pair hpair
    rw [List.mem_singleton.mp hpair]
    exact ⟨by decide, hasset⟩

theorem integrity_of_results_sample : ∃ graph surface,
    ObservationGraph.fromRecords ((run sampleJobs sampleTarget.primaryUrl ⟨[], []⟩ sampleResults).observations.map
      ObservationRow.toObservation) = .ok graph ∧
    buildAttackSurface sampleUnicode sampleTarget.scopeChecker graph = some surface ∧ surface.integrityCount = 0 := by
  obtain ⟨graph, surface, hgraph, hsurface, hzero, -⟩ := integrity_of_results sampleJobs sampleUnicode sampleTarget sampleResults
    sampleResults_admitted sampleResults_on _ (List.Perm.refl _)
  exact ⟨graph, surface, hgraph, hsurface, hzero⟩

/-- A flow on the primary host that found a link to another host of the scope, up to the record of the link. -/
def siblingResults : List (Result × Nat) := [(linkFlow ["https://api.example.com/v1"], 3)]

theorem siblingResults_count :
    ((ObservationGraph.fromRecords ((run sampleJobs sampleTarget.primaryUrl ⟨[], []⟩ siblingResults).observations.map
      ObservationRow.toObservation)).toOption.bind fun graph =>
        (buildAttackSurface sampleUnicode sampleTarget.scopeChecker graph).map Surface.integrityCount) = some 1 := by
  decide +kernel

/-- The link is not the target. -/
example : "https://api.example.com/v1" ≠ sampleTarget.primaryUrl := by decide +kernel

/-- The flags of a gate that has nothing against the campaign. -/
def openFlags : GateFlags := ⟨true, false, false, false, false, false, false, 0⟩

/-- No signal but that of the surface. -/
def noSignals : Signals := ⟨[], [], [], none, [], id⟩

/-- The campaign allows the host of the link, and with it alone the decision is to review the scope, and the consensus blocks the gate. -/
theorem sibling_link_blocks : (∀ entry ∈ siblingResults, Admitted sampleTarget entry.1) ∧ ∃ graph surface,
    ObservationGraph.fromRecords ((run sampleJobs sampleTarget.primaryUrl ⟨[], []⟩ siblingResults).observations.map
      ObservationRow.toObservation) = .ok graph ∧
    buildAttackSurface sampleUnicode sampleTarget.scopeChecker graph = some surface ∧ surface.integrityCount = 1 ∧
    buildRedTeamDecisions noSignals surface 10 = .ok [⟨.scopeIntegrity, 10000, [], []⟩] ∧
    ∃ blockers, campaignAutonomyGate (fun _ _ => false) noSignals openFlags surface = .ok blockers ∧
      "decision_consensus_blocked" ∈ blockers := by
  refine ⟨by unfold Admitted; decide +kernel, ?_⟩
  obtain ⟨graph, hgraph, hcount⟩ := Option.bind_eq_some_iff.mp siblingResults_count
  obtain ⟨surface, hsurface, hone⟩ := Option.map_eq_some_iff.mp hcount
  have hdecisions : buildRedTeamDecisions noSignals surface 10 = .ok [⟨.scopeIntegrity, 10000, [], []⟩] := by
    have hdrafted : drafted noSignals surface = [⟨.scopeIntegrity, 10000, [], []⟩] := by
      unfold drafted
      rw [hone]
      rfl
    unfold buildRedTeamDecisions
    rw [hdrafted]
    simp [ranked, adjust]
  refine ⟨graph, surface, ?_, hsurface, hone, hdecisions, ?_⟩
  · cases hload : ObservationGraph.fromRecords ((run sampleJobs sampleTarget.primaryUrl ⟨[], []⟩ siblingResults).observations.map
      ObservationRow.toObservation) with
    | error e =>
      rw [hload] at hgraph
      cases hgraph
    | ok loaded =>
      rw [hload] at hgraph
      cases hgraph
      rfl
  · unfold campaignAutonomyGate
    rw [hdecisions]
    refine ⟨_, rfl, ?_⟩
    have hconsensus : buildDecisionConsensus (fun _ _ => false) [⟨.scopeIntegrity, 10000, [], []⟩] = ⟨.scopeIntegrity, true, false⟩ := by
      simp [buildDecisionConsensus, ranked, blockingKinds, actionableKinds]
    rw [hconsensus]
    unfold blockers
    rw [List.mem_mergeSort]
    simp

end AttackSurface

end XbowPerso
