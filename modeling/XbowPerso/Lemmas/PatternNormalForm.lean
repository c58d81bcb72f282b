import XbowPerso.Lemmas.ScopePolicy

/-!
# The normal form of a normal form

A normal form is its own normal form exactly when no white space stands at its ends. For a pattern without a scheme this is the
definition; a host has no slash, so it has no scheme; and when a text with a scheme has no host, it has none without the full stops
at its end.
-/

namespace XbowPerso

open PyUrl

/-! ## Partitions of a longer text -/

variable {c : Char} {s : List Char}

theorem before_append_of_mem (h : c ∈ s) (t : List Char) : before c (s ++ t) = before c s := by
  unfold before
  induction s with
  | nil => cases h
  | cons a s ih =>
    by_cases ha : a = c
    · rw [List.cons_append, List.takeWhile_cons_of_neg (by simp [ha]), List.takeWhile_cons_of_neg (by simp [ha])]
    · have hs : c ∈ s := (List.mem_cons.mp h).resolve_left (Ne.symm ha)
      rw [List.cons_append, List.takeWhile_cons_of_pos (by simp [ha]), List.takeWhile_cons_of_pos (by simp [ha]), ih hs]

theorem before_append_of_not_mem (h : c ∉ s) (t : List Char) : before c (s ++ t) = s ++ before c t :=
  List.takeWhile_append_of_pos fun _ ha => decide_eq_true fun heq => h (heq ▸ ha)

theorem after_append_of_mem (h : c ∈ s) (t : List Char) : after c (s ++ t) = after c s ++ t := by
  unfold after
  induction s with
  | nil => cases h
  | cons a s ih =>
    by_cases ha : a = c
    · rw [List.cons_append, List.dropWhile_cons_of_neg (by simp [ha]), List.dropWhile_cons_of_neg (by simp [ha])]
      rfl
    · have hs : c ∈ s := (List.mem_cons.mp h).resolve_left (Ne.symm ha)
      rw [List.cons_append, List.dropWhile_cons_of_pos (by simp [ha]), List.dropWhile_cons_of_pos (by simp [ha]), ih hs]

theorem after_append_of_not_mem (h : c ∉ s) (t : List Char) : after c (s ++ t) = after c t := by
  have hdrop : (s ++ t).dropWhile (· ≠ c) = t.dropWhile (· ≠ c) :=
    List.dropWhile_append_of_pos fun _ ha => decide_eq_true fun heq => h (heq ▸ ha)
  exact congrArg List.tail hdrop

theorem afterLast_append_dot (s : List Char) : afterLast '@' (s ++ ['.']) = afterLast '@' s ++ ['.'] :=
  List.rtakeWhile_concat_pos _ _ _ (by decide)

theorem before_eq_nil_of_append {t : List Char} (h : before c (s ++ t) = []) : before c s = [] := by
  by_cases hc : c ∈ s
  · rwa [before_append_of_mem hc] at h
  · rw [before_append_of_not_mem hc, List.append_eq_nil_iff] at h
    rw [h.1]
    rfl

/-! ## A full stop at the end of a URL -/

theorem clean_append_dot (s : List Char) : clean (s ++ ['.']) = clean s ++ ['.'] := by
  have hdrop : ∀ l : List Char, (l ++ ['.']).dropWhile (fun c => decide (c.toNat ≤ 32)) =
      l.dropWhile (fun c => decide (c.toNat ≤ 32)) ++ ['.'] := by
    intro l
    rw [List.dropWhile_append]
    split
    · rename_i hempty
      rw [List.isEmpty_iff.mp hempty]
      rfl
    · rfl
  rw [clean, clean, hdrop, List.filter_append]
  rfl

theorem splitScheme_append_dot (s : List Char) : splitScheme (s ++ ['.']) = ((splitScheme s).1, (splitScheme s).2 ++ ['.']) := by
  by_cases hc : ':' ∈ s
  · unfold splitScheme
    dsimp only
    rw [before_append_of_mem hc, after_append_of_mem hc]
    by_cases h : ((before ':' s).head?.map Char.isAlpha).getD false = true ∧ (before ':' s).all isSchemeChar = true
    · rw [if_pos ⟨List.mem_append_left _ hc, h⟩, if_pos ⟨hc, h⟩]
    · rw [if_neg fun hall => h hall.2, if_neg fun hall => h hall.2]
  · have hc' : ':' ∉ s ++ ['.'] := by
      rw [List.mem_append, not_or]
      exact ⟨hc, by decide⟩
    unfold splitScheme
    dsimp only
    rw [if_neg fun hall => hc' hall.1, if_neg fun hall => hc hall.1]

/-- The full stop stays outside the network location, or comes at its end. -/
theorem splitNetloc_append_dot (s : List Char) :
    (splitNetloc (s ++ ['.'])).1 = (splitNetloc s).1 ∨ (splitNetloc (s ++ ['.'])).1 = (splitNetloc s).1 ++ ['.'] := by
  unfold splitNetloc
  split
  · rename_i rest heq
    have hs : ∃ t, s = '/' :: '/' :: t ∧ rest = t ++ ['.'] := by
      match s with
      | [] => cases heq
      | [_] => simp at heq
      | a :: b :: t =>
        have ha := (List.cons.inj heq).1
        have hb := (List.cons.inj (List.cons.inj heq).2).1
        exact ⟨t, by rw [ha, hb], (List.cons.inj (List.cons.inj heq).2).2.symm⟩
    obtain ⟨t, rfl, rfl⟩ := hs
    dsimp only
    rw [List.takeWhile_append]
    split
    · rename_i hall
      right
      show t ++ _ = t.takeWhile _ ++ ['.']
      rw [(List.takeWhile_prefix _).eq_of_length hall]
      rfl
    · exact .inl rfl
  · rename_i hnot
    left
    split
    · rename_i rest
      exact absurd rfl (hnot (rest ++ ['.']))
    rfl

/-! ## A network location without a host -/

variable {n : List Char}

/-- The host part of a network location. -/
theorem host_append_dot (h : (hostinfo (n ++ ['.'])).1 = []) : (hostinfo n).1 = [] := by
  unfold hostinfo at h ⊢
  rw [afterLast_append_dot] at h
  dsimp only at h ⊢
  by_cases hb : '[' ∈ afterLast '@' n
  · rw [if_pos (List.mem_append_left _ hb), after_append_of_mem hb] at h
    rw [if_pos hb]
    exact before_eq_nil_of_append h
  · rw [if_neg (by simp [hb])] at h
    rw [if_neg hb]
    exact before_eq_nil_of_append h

/-- Brackets around nothing are refused. -/
theorem no_brackets_of_host_nil (hhost : (hostinfo n).1 = []) (hcheck : checkBrackets n = true) :
    '[' ∉ n ∧ ']' ∉ n := by
  unfold checkBrackets at hcheck
  split at hcheck
  · exfalso
    unfold checkBracketedNetloc at hcheck
    unfold hostinfo at hhost
    dsimp only at hcheck hhost
    have hempty : checkBracketedHost [] = false := by decide
    by_cases hb : '[' ∈ afterLast '@' n
    · rw [if_pos hb] at hcheck hhost
      dsimp only at hhost
      rw [hhost, hempty, Bool.and_false] at hcheck
      cases hcheck
    · rw [if_neg hb] at hcheck hhost
      dsimp only at hhost
      rw [hhost, hempty] at hcheck
      cases hcheck
  · exact of_decide_eq_true hcheck

theorem checkBrackets_append_dot (hhost : (hostinfo (n ++ ['.'])).1 = [])
    (hcheck : checkBrackets (n ++ ['.']) = true) : checkBrackets n = true := by
  obtain ⟨hopen, hclose⟩ := no_brackets_of_host_nil hhost hcheck
  have hopen' : '[' ∉ n := fun h => hopen (List.mem_append_left _ h)
  have hclose' : ']' ∉ n := fun h => hclose (List.mem_append_left _ h)
  rw [checkBrackets, if_neg fun h => hopen' h.1]
  exact decide_eq_true ⟨hopen', hclose'⟩

theorem checkNetloc_append_dot {u : Unicode} (hcheck : checkNetloc u (n ++ ['.']) = true) :
    checkNetloc u n = true := by
  by_cases hn : n = [] ∨ isAscii n = true
  · rw [checkNetloc, if_pos hn]
  · have hn' : ¬ (n ++ ['.'] = [] ∨ isAscii (n ++ ['.']) = true) := by
      rintro (h | h)
      · exact absurd (List.append_eq_nil_iff.mp h).2 (by decide)
      · rw [isAscii, List.all_append, Bool.and_eq_true] at h
        exact hn (.inr h.1)
    have hfilter : (n ++ ['.']).filter (fun c => decide (c ≠ '@' ∧ c ≠ ':' ∧ c ≠ '#' ∧ c ≠ '?')) =
        n.filter (fun c => decide (c ≠ '@' ∧ c ≠ ':' ∧ c ≠ '#' ∧ c ≠ '?')) ++ ['.'] := by
      rw [List.filter_append]
      rfl
    rw [checkNetloc, if_neg hn'] at hcheck
    rw [checkNetloc, if_neg hn]
    dsimp only at hcheck ⊢
    rw [hfilter, u.nfkc_dot, Bool.or_eq_true, decide_eq_true_iff, List.append_left_inj, List.all_append,
      Bool.and_eq_true] at hcheck
    rw [Bool.or_eq_true, decide_eq_true_iff]
    exact hcheck.imp_right And.left

variable {r : SplitResult}

theorem hostname_eq_none_iff {u : Unicode} : r.hostname u = none ↔ (hostinfo r.netloc).1 = [] := by
  unfold SplitResult.hostname
  dsimp only
  split
  · simp [*]
  · simp [*]

/-- A URL without a host has none without a full stop at its end. -/
theorem urlsplit_append_dot {u : Unicode} (h : urlsplit u (s ++ ['.']) = some r)
    (hnone : r.hostname u = none) : ∃ r', urlsplit u s = some r' ∧ r'.hostname u = none := by
  unfold urlsplit at h
  rw [clean_append_dot, splitScheme_append_dot] at h
  dsimp only at h
  split at h
  · rename_i hchecks
    obtain ⟨hbrackets, hnetloc⟩ := hchecks
    have hr := Option.some.inj h
    subst hr
    have hhost := hostname_eq_none_iff.mp hnone
    dsimp only at hhost
    have hsame : checkBrackets (splitNetloc (splitScheme (clean s)).2).1 = true ∧
        checkNetloc u (splitNetloc (splitScheme (clean s)).2).1 = true ∧ (hostinfo (splitNetloc (splitScheme (clean s)).2).1).1 = [] := by
      rcases splitNetloc_append_dot (splitScheme (clean s)).2 with heq | heq
      · rw [heq] at hbrackets hnetloc hhost
        exact ⟨hbrackets, hnetloc, hhost⟩
      · rw [heq] at hbrackets hnetloc hhost
        exact ⟨checkBrackets_append_dot hhost hbrackets, checkNetloc_append_dot hnetloc, host_append_dot hhost⟩
    refine ⟨_, if_pos ⟨hsame.1, hsame.2.1⟩, hostname_eq_none_iff.mpr hsame.2.2⟩
  · cases h

/-- A URL without a host has none without the full stops at its end. -/
theorem urlsplit_dots {u : Unicode} (k : Nat)
    (h : urlsplit u (s ++ List.replicate k '.') = some r) (hnone : r.hostname u = none) :
    ∃ r', urlsplit u s = some r' ∧ r'.hostname u = none := by
  induction k generalizing r with
  | zero => exact ⟨r, by rwa [List.replicate_zero, List.append_nil] at h, hnone⟩
  | succ k ih =>
    rw [List.replicate_succ', ← List.append_assoc] at h
    obtain ⟨r', h', hnone'⟩ := urlsplit_append_dot h hnone
    exact ih h' hnone'

/-! ## The host of a URL in lower case -/

theorem mem_clean (h : c ∈ clean s) : c ∈ s :=
  (List.dropWhile_suffix _).subset (List.mem_filter.mp h).1

theorem mem_before {d : Char} (h : c ∈ before d s) : c ∈ s := (List.takeWhile_prefix _).subset h

theorem mem_after {d : Char} (h : c ∈ after d s) : c ∈ s :=
  (List.dropWhile_suffix _).subset (List.mem_of_mem_tail h)

theorem mem_splitScheme (h : c ∈ (splitScheme s).2) : c ∈ s := by
  unfold splitScheme at h
  dsimp only at h
  split at h
  · exact mem_after h
  · exact h

theorem mem_splitNetloc (h : c ∈ (splitNetloc s).1) : c ∈ s ∧ c ≠ '/' := by
  unfold splitNetloc at h
  split at h
  · dsimp only at h
    have hp := List.mem_takeWhile_imp h
    exact ⟨List.mem_cons_of_mem _ (List.mem_cons_of_mem _ ((List.takeWhile_prefix _).subset h)), (of_decide_eq_true hp).1⟩
  · cases h

theorem mem_host (h : c ∈ (hostinfo n).1) : c ∈ n := by
  have hlast : ∀ {c : Char}, c ∈ afterLast '@' n → c ∈ n := fun h => (List.rtakeWhile_suffix _ _).subset h
  unfold hostinfo at h
  dsimp only at h
  split at h
  · exact hlast (mem_after (mem_before h))
  · exact hlast (mem_before h)

/-- The characters of the host are characters of the URL, and no slashes. -/
theorem mem_host_of_urlsplit {u : Unicode} (h : urlsplit u s = some r)
    (hc : c ∈ (hostinfo r.netloc).1) : c ∈ s ∧ c ≠ '/' := by
  unfold urlsplit at h
  dsimp only at h
  split at h
  · have hr := Option.some.inj h
    subst hr
    obtain ⟨hmem, hslash⟩ := mem_splitNetloc (mem_host hc)
    exact ⟨mem_clean (mem_splitScheme hmem), hslash⟩
  · cases h

theorem before_append_rest (d : Char) (s : List Char) : before d s ++ s.dropWhile (· ≠ d) = s := List.takeWhile_append_dropWhile

/-- The host of a URL in lower case is in lower case. -/
theorem hostnameOr_eq {u : Unicode} (hlower : ∀ c ∈ s, u.Lowered c)
    (h : urlsplit u s = some r) :
    ScopePolicy.hostnameOr u r s = if (hostinfo r.netloc).1 = [] then s else (hostinfo r.netloc).1 := by
  unfold ScopePolicy.hostnameOr SplitResult.hostname
  dsimp only
  by_cases hnil : (hostinfo r.netloc).1 = []
  · rw [if_pos hnil, if_pos hnil]
  · have hhost : u.lower (before '%' (hostinfo r.netloc).1) = before '%' (hostinfo r.netloc).1 :=
      u.lower_of_lowered fun c hc => hlower c (mem_host_of_urlsplit h (mem_before hc)).1
    rw [if_neg hnil, if_neg hnil, hhost, before_append_rest]
    dsimp only
    rw [if_neg hnil]

/-! ## Normal forms -/

namespace ScopePolicy

variable {u : Unicode}

/-- What a normal form is: without a scheme, or without a host in a URL. -/
inductive Normal (u : Unicode) (n : List Char) : Prop
  | plain (h : ¬ HasScheme n)
  | url {r : SplitResult} (hsplit : urlsplit u n = some r) (hnone : r.hostname u = none)

theorem exists_dots (value : List Char) : ∃ k, value = rstripDots value ++ List.replicate k '.' := by
  induction value using List.reverseRecOn with
  | nil => exact ⟨0, rfl⟩
  | append_singleton value c ih =>
    by_cases hc : c = '.'
    · obtain ⟨k, hk⟩ := ih
      have hdrop : rstripDots (value ++ [c]) = rstripDots value := List.rdropWhile_concat_pos _ _ _ (decide_eq_true hc)
      refine ⟨k + 1, ?_⟩
      rw [hdrop, List.replicate_succ', ← List.append_assoc, ← hk, hc]
    · refine ⟨0, ?_⟩
      rw [rstripDots, List.rdropWhile_concat_neg _ _ _ (by simp [hc]), List.replicate_zero, List.append_nil]

/-- Where a normal form comes from: a text without a scheme or without a host, or the host of a URL. -/
theorem normalizePattern_cases {p n : String} (h : normalizePattern u p = some n) {value : List Char}
    (hvalue : u.lower (PyText.stripChars p.toList) = value) :
    (n.toList = rstripDots value ∧ (¬ HasScheme value ∨ ∃ r, urlsplit u value = some r ∧ r.hostname u = none)) ∨
      HasScheme value ∧ ∃ r, urlsplit u value = some r ∧ n.toList = rstripDots (hostinfo r.netloc).1 := by
  have hlower : ∀ c ∈ value, u.Lowered c := fun c hc => u.lowered_of_mem_lower (hvalue ▸ hc)
  unfold normalizePattern at h
  dsimp only at h
  rw [hvalue] at h
  split at h
  · rename_i hscheme
    split at h
    · cases h
    rename_i r hsplit
    rw [← Option.some.inj h, String.toList_ofList, hostnameOr_eq hlower hsplit]
    split
    · rename_i hnil
      rw [u.lower_of_lowered hlower]
      exact .inl ⟨rfl, .inr ⟨r, hsplit, hostname_eq_none_iff.mpr hnil⟩⟩
    · have hhost : ∀ c ∈ (hostinfo r.netloc).1, u.Lowered c := fun c hc => hlower c (mem_host_of_urlsplit hsplit hc).1
      rw [u.lower_of_lowered hhost]
      exact .inr ⟨hscheme, r, hsplit, rfl⟩
  · rename_i hscheme
    rw [← Option.some.inj h, String.toList_ofList]
    exact .inl ⟨rfl, .inl hscheme⟩

/-- A normal form is in lower case and ends without a full stop, and it has no host that another normalisation would find. -/
theorem normalizePattern_eq_some {p n : String} (h : normalizePattern u p = some n) :
    (∀ c ∈ n.toList, u.Lowered c) ∧ rstripDots n.toList = n.toList ∧ Normal u n.toList := by
  obtain ⟨value, hvalue⟩ : ∃ value, u.lower (PyText.stripChars p.toList) = value := ⟨_, rfl⟩
  have hlower : ∀ c ∈ value, u.Lowered c := fun c hc => u.lowered_of_mem_lower (hvalue ▸ hc)
  rcases normalizePattern_cases h hvalue with ⟨hn, hno⟩ | ⟨-, r, hsplit, hn⟩
  · rw [hn]
    refine ⟨fun c hc => hlower c (mem_of_mem_rstripDots hc), rstripDots_rstripDots _, ?_⟩
    rcases hno with hscheme | ⟨r, hsplit, hnone⟩
    · exact .plain fun h => hscheme (h.trans (isPrefix_rstripDots value).isInfix)
    · obtain ⟨k, hk⟩ := exists_dots value
      rw [hk] at hsplit
      obtain ⟨r', hsplit', hnone'⟩ := urlsplit_dots k hsplit hnone
      exact .url hsplit' hnone'
  · rw [hn]
    have hhost : ∀ c ∈ rstripDots (hostinfo r.netloc).1, c ∈ value ∧ c ≠ '/' := fun c hc =>
      mem_host_of_urlsplit hsplit (mem_of_mem_rstripDots hc)
    refine ⟨fun c hc => hlower c (hhost c hc).1, rstripDots_rstripDots _, .plain fun hscheme => ?_⟩
    have hslash : '/' ∈ rstripDots (hostinfo r.netloc).1 := hscheme.subset (by decide)
    exact (hhost _ hslash).2 rfl

theorem isInfix_stripChars (s : List Char) : PyText.stripChars s <:+: s :=
  (List.rdropWhile_prefix _ _).isInfix.trans (List.dropWhile_suffix _).isInfix

/-- A normal form is its own normal form exactly when no white space stands at its ends. -/
theorem normalizePattern_normal {p n : String} (h : normalizePattern u p = some n) :
    normalizePattern u n = some n ↔ PyText.strip n = n := by
  obtain ⟨hlower, hdots, hnormal⟩ := normalizePattern_eq_some h
  constructor
  · intro hagain
    have hpart := isInfix_stripChars n.toList
    have hstripped : u.lower (PyText.stripChars n.toList) = PyText.stripChars n.toList :=
      u.lower_of_lowered fun c hc => hlower c (hpart.subset hc)
    have hlen : n.toList.length ≤ (PyText.stripChars n.toList).length := by
      rcases normalizePattern_cases hagain hstripped with ⟨hn, -⟩ | ⟨hscheme, r, hsplit, hn⟩
      · calc n.toList.length = (rstripDots (PyText.stripChars n.toList)).length := congrArg List.length hn
          _ ≤ (PyText.stripChars n.toList).length := (isPrefix_rstripDots _).length_le
      -- a host has no slash, so it is not a text with a scheme
      · have hslash : '/' ∈ n.toList := hpart.subset (hscheme.subset (by decide))
        rw [hn] at hslash
        exact absurd rfl (mem_host_of_urlsplit hsplit (mem_of_mem_rstripDots hslash)).2
    have heq := hpart.eq_of_length (le_antisymm hpart.length_le hlen)
    rw [PyText.strip, heq, String.ofList_toList]
  · intro hstrip
    have heq : PyText.stripChars n.toList = n.toList := by
      have hlist := congrArg String.toList hstrip
      rwa [PyText.strip, String.toList_ofList] at hlist
    unfold normalizePattern
    dsimp only
    rw [heq, u.lower_of_lowered hlower]
    by_cases hscheme : HasScheme n.toList
    · rw [if_pos hscheme]
      rcases hnormal with hplain | ⟨hsplit, hnone⟩
      · exact absurd hscheme hplain
      · rw [hsplit]
        dsimp only
        rw [hostnameOr_eq hlower hsplit, if_pos (hostname_eq_none_iff.mp hnone), u.lower_of_lowered hlower, hdots,
          String.ofList_toList]
    · rw [if_neg hscheme, hdots, String.ofList_toList]

end ScopePolicy

end XbowPerso
