import XbowPerso.Theorems.ContractRate

/-!
# The spelling of a host

The patterns of a contract are matched with the host as the target spells it, and its ASCII form is contacted. Every contract that
accepts the host has the contacted name in scope exactly when the two are the same text: when the host is in ASCII and, as an IP
address, written as `ipaddress` writes it.
-/

namespace XbowPerso

namespace Egress

open ExecutionContract (Contract authorizeTarget parseTarget ParsedTarget contractFor sampleUnicode)
open PyUrl (isAscii)
open ScopePolicy

variable {net : Network} {u : Unicode}

/-! ## The contacted name is in ASCII -/

variable {cs : List Char}

theorem mem_toDigitsCore {b fuel n : Nat} {c : Char} (h : c ∈ Nat.toDigitsCore b fuel n cs) :
    (∃ d, c = Nat.digitChar d) ∨ c ∈ cs := by
  induction fuel generalizing n cs with
  | zero => exact .inr h
  | succ fuel ih =>
    rw [Nat.toDigitsCore] at h
    split at h
    · rcases List.mem_cons.mp h with rfl | h
      · exact .inl ⟨_, rfl⟩
      · exact .inr h
    · rcases ih h with hd | h
      · exact .inl hd
      · rcases List.mem_cons.mp h with rfl | h
        · exact .inl ⟨_, rfl⟩
        · exact .inr h

theorem digitChar_lt (d : Nat) : (Nat.digitChar d).toNat < 128 := by
  by_cases h : d < 16
  · have hall : ∀ d < 16, (Nat.digitChar d).toNat < 128 := by decide
    exact hall d h
  · have hstar : Nat.digitChar d = '*' := by
      unfold Nat.digitChar
      repeat rw [if_neg (by omega)]
    rw [hstar]
    decide

variable {s : List Char}

theorem isAscii_append {t : List Char} : isAscii (s ++ t) = true ↔ isAscii s = true ∧ isAscii t = true := by
  rw [isAscii, isAscii, isAscii, List.all_append, Bool.and_eq_true]

theorem isAscii_toDigits (b n : Nat) : isAscii (Nat.toDigits b n) = true := by
  refine List.all_eq_true.mpr fun c hc => ?_
  rcases mem_toDigitsCore hc with ⟨d, rfl⟩ | h
  · exact decide_eq_true (digitChar_lt d)
  · cases h

/-- Texts in ASCII between which an ASCII character stands. -/
theorem isAscii_intercalate {sep : Char} (hsep : sep.toNat < 128) {texts : List (List Char)}
    (h : ∀ s ∈ texts, isAscii s = true) : isAscii ([sep].intercalate texts) = true := by
  induction texts with
  | nil => rfl
  | cons s texts ih =>
    have hs := h s List.mem_cons_self
    have hrest := ih fun t ht => h t (List.mem_cons_of_mem _ ht)
    cases texts with
    | nil =>
      rw [List.intercalate_singleton]
      exact hs
    | cons t texts =>
      rw [List.intercalate_cons_cons, isAscii_append, isAscii_append]
      exact ⟨⟨hs, List.all_eq_true.mpr (by simpa using hsep)⟩, hrest⟩

theorem isAscii_compress (groups : List Nat) : isAscii (IpAddress.compress groups) = true := by
  have htexts : ∀ s ∈ groups.map (Nat.toDigits 16), isAscii s = true := by
    intro s hs
    obtain ⟨n, -, rfl⟩ := List.mem_map.mp hs
    exact isAscii_toDigits 16 n
  have hcolon : (':' : Char).toNat < 128 := by decide
  unfold IpAddress.compress IpAddress.joinColons
  dsimp only
  split
  · rw [isAscii_append, isAscii_append]
    exact ⟨⟨isAscii_intercalate hcolon fun s hs => htexts s (List.mem_of_mem_take hs), rfl⟩,
      isAscii_intercalate hcolon fun s hs => htexts s (List.mem_of_mem_drop hs)⟩
  · exact isAscii_intercalate hcolon htexts

/-- A scope of an address is a part of its text. -/
theorem mem_scope {scope : List Char} {groups : List Nat} (h : IpAddress.address? cs = some (.v6 groups (some scope))) {c : Char}
    (hc : c ∈ scope) : c ∈ cs := by
  unfold IpAddress.address? at h
  split at h
  · cases h
  unfold IpAddress.v6? at h
  split at h
  · cases h
  split at h
  · dsimp only at h
    split at h
    · cases h
    obtain ⟨groups', -, heq⟩ := Option.map_eq_some_iff.mp h
    have hscope : (cs.dropWhile (· ≠ '%')).tail = scope := by
      injection heq with _ hs
      exact Option.some.inj hs
    rw [← hscope] at hc
    exact (List.dropWhile_suffix _).subset (List.mem_of_mem_tail hc)
  · obtain ⟨groups', -, heq⟩ := Option.map_eq_some_iff.mp h
    injection heq with _ hs
    cases hs

/-- The text of an address is in ASCII when the text that was read is. -/
theorem isAscii_text {a : IpAddress.Address} (h : IpAddress.address? cs = some a) (hcs : isAscii cs = true) :
    isAscii a.text = true := by
  rcases a with octets | ⟨groups, _ | scope⟩
  · refine isAscii_intercalate (by decide) fun s hs => ?_
    obtain ⟨n, -, rfl⟩ := List.mem_map.mp hs
    exact isAscii_toDigits 10 n
  · exact isAscii_compress groups
  · show isAscii (IpAddress.compress groups ++ '%' :: scope) = true
    rw [isAscii_append]
    refine ⟨isAscii_compress groups, List.all_eq_true.mpr fun c hc => ?_⟩
    rcases List.mem_cons.mp hc with rfl | hc
    · rfl
    · exact List.all_eq_true.mp hcs c (mem_scope h hc)

theorem isAscii_toASCII {label ascii : List Char} (h : toASCII net label = some ascii) : isAscii ascii = true := by
  unfold toASCII at h
  split at h
  · rename_i hascii
    split at h
    · rw [← Option.some.inj h]
      exact hascii
    · cases h
  · exact net.isAscii_toAscii h

theorem isAscii_asciiLabels {labels ascii : List (List Char)} (h : asciiLabels net labels = some ascii) :
    ∀ label ∈ ascii, isAscii label = true := by
  induction labels generalizing ascii with
  | nil =>
    rw [← Option.some.inj h]
    exact fun label hlabel => absurd hlabel List.not_mem_nil
  | cons label labels ih =>
    unfold asciiLabels at h
    split at h
    · rename_i heq
      cases heq
    · rw [← Option.some.inj h]
      intro s hs
      rw [List.mem_singleton.mp hs]
      rfl
    · rename_i heq
      obtain ⟨rfl, rfl⟩ := List.cons.inj heq
      split at h
      · cases h
      rename_i first hfirst
      obtain ⟨rest, hrest, heq⟩ := Option.map_eq_some_iff.mp h
      rw [← heq]
      intro s hs
      rcases List.mem_cons.mp hs with rfl | hs
      · exact isAscii_toASCII hfirst
      · exact ih hrest s hs

variable {name : List Char}

theorem isAscii_idnaEncode {encoded : List Char} (h : idnaEncode net name = some encoded) : isAscii encoded = true := by
  unfold idnaEncode at h
  split at h
  · rw [← Option.some.inj h]
    rfl
  · split at h
    · rename_i hascii
      dsimp only at h
      split at h
      · rw [← Option.some.inj h]
        exact hascii
      · cases h
    · obtain ⟨labels, hlabels, heq⟩ := Option.map_eq_some_iff.mp h
      rw [← heq]
      exact isAscii_intercalate (by decide) (isAscii_asciiLabels hlabels)

/-- The encoding keeps a name in ASCII. -/
theorem idnaEncode_ascii {encoded : List Char} (h : idnaEncode net name = some encoded) (hascii : isAscii name = true) :
    encoded = name := by
  unfold idnaEncode at h
  split at h
  · rename_i hnil
    rw [hnil]
    exact (Option.some.inj h).symm
  · dsimp only at h
    split at h
    · exact (Option.some.inj h).symm
    · cases h

/-- A host that is contacted as it is spelled: in ASCII and, as an IP address, in the text that is written for it. -/
def Canonical (host : String) : Prop :=
  isAscii host.toList = true ∧ ∀ a, IpAddress.address? host.toList = some a → a.text = host.toList

variable {host : String}

/-- The name that is contacted is the host exactly when the host is canonical. -/
theorem resolvedName_eq_iff (h : resolvedName net host = some name) :
    name = host.toList ↔ Canonical host := by
  unfold resolvedName at h
  split at h
  · rename_i a ha
    split at h
    · unfold connectName at h
      split at h
      · have hname : name = a.text := (Option.some.inj h).symm
        rename_i hascii
        constructor
        · intro heq
          rw [← hname, heq] at hascii
          refine ⟨hascii, fun b hb => ?_⟩
          rw [← Option.some.inj (ha.symm.trans hb), ← hname, heq]
        · intro hcanonical
          rw [hname, hcanonical.2 a ha]
      · rename_i hascii
        constructor
        · intro heq
          have hhost := isAscii_idnaEncode h
          rw [heq] at hhost
          exact absurd (isAscii_text ha hhost) hascii
        · intro hcanonical
          exact absurd (isAscii_text ha hcanonical.1) hascii
    · cases h
  · rename_i hnone
    constructor
    · intro heq
      have hhost := isAscii_idnaEncode h
      rw [heq] at hhost
      refine ⟨hhost, fun a ha => ?_⟩
      rw [hnone] at ha
      cases ha
    · intro hcanonical
      exact idnaEncode_ascii h hcanonical.1

/-! ## A pattern that tells two names apart -/

/-- A pattern without white space at its ends, slashes or full stops, in lower case, is its own normal form. -/
theorem normalizePattern_self {pattern : List Char} (hlower : ∀ c ∈ pattern, u.Lowered c) (hscheme : ¬ HasScheme pattern)
    (hstrip : PyText.stripChars pattern = pattern) (hdots : rstripDots pattern = pattern) :
    normalizePattern u (String.ofList pattern) = some (String.ofList pattern) := by
  unfold normalizePattern
  dsimp only
  rw [String.toList_ofList, hstrip, u.lower_of_lowered hlower, if_neg hscheme, hdots]

theorem stripChars_eq {first last : Char} (hfirst : s.head? = some first) (hlast : s.getLast? = some last)
    (hspace : PyText.isPySpace first = false ∧ PyText.isPySpace last = false) : PyText.stripChars s = s := by
  have hdrop : s.dropWhile PyText.isPySpace = s := by
    cases s with
    | nil => rfl
    | cons c s =>
      rw [Option.some.inj hfirst]
      exact List.dropWhile_cons_of_neg (Bool.eq_false_iff.mp hspace.1)
  rw [PyText.stripChars, hdrop, List.rdropWhile_eq_self_iff]
  intro hne
  rw [Option.some.inj ((List.getLast?_eq_some_getLast hne).symm.trans hlast), hspace.2]
  exact Bool.false_ne_true

theorem rstripDots_eq {last : Char} (hlast : s.getLast? = some last) (hdot : last ≠ '.') : rstripDots s = s := by
  rw [rstripDots, List.rdropWhile_eq_self_iff]
  intro hne
  rw [Option.some.inj ((List.getLast?_eq_some_getLast hne).symm.trans hlast)]
  simpa using hdot

theorem mem_oneAt {i j : Nat} {c d : Char} (h : d ∈ Glob.oneAt i c j) : d = c ∨ d ∈ ['?', '[', ']'] := by
  rcases List.mem_append.mp h with h | h
  · rw [(List.mem_replicate.mp h).2]
    exact .inr (by decide)
  rcases List.mem_append.mp h with h | h
  · unfold Glob.literal at h
    split at h
    · exact .inl (List.mem_singleton.mp h)
    · simp only [List.mem_cons, List.not_mem_nil, or_false] at h ⊢
      rcases h with rfl | rfl | rfl
      · exact .inr (.inr (.inl rfl))
      · exact .inl rfl
      · exact .inr (.inr (.inr rfl))
  · rw [(List.mem_replicate.mp h).2]
    exact .inr (by decide)

theorem head?_literal_append (c : Char) (t : List Char) : ∃ d ∈ ['[', '!'], (Glob.literal c ++ t).head? = some d := by
  unfold Glob.literal
  split
  · rename_i h
    exact ⟨'!', by decide, by rw [h]; rfl⟩
  · exact ⟨'[', by decide, rfl⟩

theorem getLast?_append_literal (c : Char) (t : List Char) : ∃ d ∈ [']', '!'], (t ++ Glob.literal c).getLast? = some d := by
  unfold Glob.literal
  split
  · rename_i h
    exact ⟨'!', by decide, by rw [h, List.getLast?_concat]⟩
  · refine ⟨']', by decide, ?_⟩
    rw [show ['[', c, ']'] = ['[', c] ++ [']'] from rfl, ← List.append_assoc, List.getLast?_concat]

theorem head?_oneAt (i : Nat) (c : Char) (j : Nat) : ∃ d ∈ ['?', '[', '!'], (Glob.oneAt i c j).head? = some d := by
  cases i with
  | zero =>
    obtain ⟨d, hd, heq⟩ := head?_literal_append c (List.replicate j '?')
    exact ⟨d, List.mem_cons_of_mem _ hd, heq⟩
  | succ i => exact ⟨'?', by decide, rfl⟩

theorem getLast?_oneAt (i : Nat) (c : Char) (j : Nat) : ∃ d ∈ ['?', ']', '!'], (Glob.oneAt i c j).getLast? = some d := by
  unfold Glob.oneAt
  cases j with
  | zero =>
    rw [List.replicate_zero, List.append_nil]
    obtain ⟨d, hd, heq⟩ := getLast?_append_literal c (List.replicate i '?')
    exact ⟨d, List.mem_cons_of_mem _ hd, heq⟩
  | succ j =>
    rw [List.replicate_succ', ← List.append_assoc, ← List.append_assoc, List.getLast?_concat]
    exact ⟨'?', by decide, rfl⟩

theorem normalizePattern_oneAt {c : Char} (hc : u.Lowered c) (i j : Nat) :
    normalizePattern u (String.ofList (Glob.oneAt i c j)) = some (String.ofList (Glob.oneAt i c j)) := by
  have hmarks : ∀ d ∈ ['?', '[', ']'], u.Lowered d := by
    intro d hd
    simp only [List.mem_cons, List.not_mem_nil, or_false] at hd
    rcases hd with rfl | rfl | rfl
    all_goals exact u.lowered_ascii (by decide) (by decide)
  have hlower : ∀ d ∈ Glob.oneAt i c j, u.Lowered d := by
    intro d hd
    rcases mem_oneAt hd with rfl | hd
    · exact hc
    · exact hmarks d hd
  have hscheme : ¬ HasScheme (Glob.oneAt i c j) := by
    intro h
    have hcolon := (mem_oneAt (h.subset (show ':' ∈ [':', '/', '/'] by decide))).resolve_right (by decide)
    have hslash := (mem_oneAt (h.subset (show '/' ∈ [':', '/', '/'] by decide))).resolve_right (by decide)
    exact absurd (hcolon.trans hslash.symm) (by decide)
  obtain ⟨first, hfirst, hhead⟩ := head?_oneAt i c j
  obtain ⟨last, hlast, hget⟩ := getLast?_oneAt i c j
  have hends : (PyText.isPySpace first = false ∧ PyText.isPySpace last = false) ∧ last ≠ '.' := by
    simp only [List.mem_cons, List.not_mem_nil, or_false] at hfirst hlast
    rcases hfirst with rfl | rfl | rfl
    all_goals
      rcases hlast with rfl | rfl | rfl
      all_goals decide
  exact normalizePattern_self hlower hscheme (stripChars_eq hhead hget hends.1) (rstripDots_eq hget hends.2)

theorem normalizePattern_replicate (n : Nat) :
    normalizePattern u (String.ofList (List.replicate n '?')) = some (String.ofList (List.replicate n '?')) := by
  have hmark : u.Lowered '?' := u.lowered_ascii (by decide) (by decide)
  have hscheme : ¬ HasScheme (List.replicate n '?') := by
    intro h
    have hcolon := (List.mem_replicate.mp (h.subset (show ':' ∈ [':', '/', '/'] by decide))).2
    exact absurd hcolon (by decide)
  have hends : PyText.stripChars (List.replicate n '?') = List.replicate n '?' ∧
      rstripDots (List.replicate n '?') = List.replicate n '?' := by
    cases n with
    | zero => exact ⟨rfl, rfl⟩
    | succ n =>
      have hget : (List.replicate (n + 1) '?').getLast? = some '?' := by
        rw [List.replicate_succ', List.getLast?_concat]
      exact ⟨stripChars_eq rfl hget (by decide), rstripDots_eq hget (by decide)⟩
  refine normalizePattern_self (fun c hc => ?_) hscheme hends.1 hends.2
  rw [(List.mem_replicate.mp hc).2]
  exact hmark

/-- Where two texts of one length differ. -/
theorem exists_difference {t : List Char} (hlen : s.length = t.length) (hne : s ≠ t) :
    ∃ a c b, s = a ++ c :: b ∧ ∀ a' b', a'.length = a.length → b'.length = b.length → t ≠ a' ++ c :: b' := by
  induction s generalizing t with
  | nil => exact absurd (List.length_eq_zero_iff.mp hlen.symm).symm hne
  | cons d s ih =>
    cases t with
    | nil => cases hlen
    | cons e t =>
      by_cases hd : d = e
      · have hst : s ≠ t := fun h => hne (by rw [hd, h])
        obtain ⟨a, c, b, hs, ht⟩ := ih (Nat.succ.inj hlen) hst
        refine ⟨d :: a, c, b, by rw [hs]; rfl, fun a' b' ha hb heq => ?_⟩
        cases a' with
        | nil => cases ha
        | cons f a' => exact ht a' b' (Nat.succ.inj ha) hb (List.cons.inj heq).2
      · refine ⟨[], d, s, rfl, fun a' b' ha _ heq => ?_⟩
        rw [List.length_eq_zero_iff.mp ha] at heq
        exact hd (List.cons.inj heq).1.symm

/-- Two different names are told apart by a pattern that is its own normal form. -/
theorem exists_separating {name : String} (hlower : ∀ c ∈ host.toList, u.Lowered c) (hne : name.toList ≠ host.toList) :
    ∃ pattern, normalizePattern u pattern = some pattern ∧ hostMatches host pattern = true ∧ hostMatches name pattern = false := by
  by_cases hlen : host.toList.length = name.toList.length
  · obtain ⟨a, c, b, hhost, hname⟩ := exists_difference hlen hne.symm
    have hc : u.Lowered c := hlower c (by rw [hhost]; exact List.mem_append_right _ List.mem_cons_self)
    refine ⟨_, normalizePattern_oneAt hc a.length b.length, ?_, ?_⟩
    · rw [hostMatches, String.toList_ofList, Glob.fnmatch_oneAt]
      exact ⟨a, b, hhost, rfl, rfl⟩
    · rw [hostMatches, String.toList_ofList, Bool.eq_false_iff, Ne, Glob.fnmatch_oneAt]
      intro ⟨a', b', heq, ha, hb⟩
      exact hname a' b' ha hb heq
  · refine ⟨_, normalizePattern_replicate host.toList.length, ?_, ?_⟩
    · rw [hostMatches, String.toList_ofList, Glob.fnmatch_replicate]
    · rw [hostMatches, String.toList_ofList, Bool.eq_false_iff, Ne, Glob.fnmatch_replicate]
      exact fun h => hlen h.symm

/-! ## Deny rules and spelling -/

variable {c : Contract} {target : String}

/-- What is contacted comes from the host that is authorised, whatever the contract. -/
theorem contacted_cases {name : String} (h : contacted net u c target = some (host, name)) :
    authorizeTarget u c target = .ok host ∧ isPlainTarget target = true ∧ resolvedName net host = some name.toList := by
  unfold contacted at h
  split at h
  · cases h
  rename_i host' hhost
  split at h
  · cases h
  rename_i hplain
  obtain ⟨encoded, hencoded, heq⟩ := Option.map_eq_some_iff.mp h
  obtain ⟨h₁, h₂⟩ := Prod.mk.inj heq
  subst h₁ h₂
  rw [String.toList_ofList]
  exact ⟨hhost, Bool.eq_true_of_not_eq_false hplain, hencoded⟩

theorem contacted_eq_some {name : String} (hauthorized : authorizeTarget u c target = .ok host)
    (hplain : isPlainTarget target = true) (hname : resolvedName net host = some name.toList) :
    contacted net u c target = some (host, name) := by
  rw [contacted, hauthorized]
  dsimp only
  rw [if_neg (by rw [hplain]; exact Bool.noConfusion), hname, Option.map_some, String.ofList_toList]

/-- The host of an authorised target does not depend on the contract. -/
theorem authorizeTarget_other {c' : Contract} (h : authorizeTarget u c target = .ok host)
    (hallowed : isHostAllowed u host c'.allowedTargets c'.deniedTargets = some true) : authorizeTarget u c' target = .ok host := by
  obtain ⟨t, hparse, hwell, hhost, -⟩ := ExecutionContract.authorizeTarget_inScope h
  refine ExecutionContract.authorizeTarget_eq_ok ?_ hallowed
  rw [hparse]
  simp [hwell, hhost]

theorem lowered_host (h : authorizeTarget u c target = .ok host) :
    ∀ d ∈ host.toList, u.Lowered d := by
  obtain ⟨t, hparse, -, hhost, -⟩ := ExecutionContract.authorizeTarget_inScope h
  obtain ⟨parsed, -, hparse⟩ := Option.bind_eq_some_iff.mp hparse
  obtain ⟨port, -, hparse⟩ := Option.map_eq_some_iff.mp hparse
  rw [← hhost, ← hparse, ExecutionContract.withoutDots, String.toList_ofList, String.toList_ofList]
  exact fun d hd => u.lowered_of_mem_lower (mem_of_mem_rstripDots hd)

theorem normalizedHost_of_authorized (h : authorizeTarget u c target = .ok host) :
    normalizedHost u host = host := by
  obtain ⟨t, hparse, -, hhost, -⟩ := ExecutionContract.authorizeTarget_inScope h
  rw [← hhost]
  exact ExecutionContract.parseTarget_normal hparse

/-- For a target that is contacted, every contract that lets it be contacted has the contacted name in scope exactly when the host
is spelled as it is contacted. -/
theorem host_spelling (net : Network) (u : Unicode) (c : Contract) (target host name : String)
    (h : contacted net u c target = some (host, name)) :
    (∀ (c' : Contract) (host' name' : String), contacted net u c' target = some (host', name') →
        InScope u name' c'.allowedTargets c'.deniedTargets) ↔ Canonical host := by
  obtain ⟨hauthorized, hplain, hname⟩ := contacted_cases h
  rw [← resolvedName_eq_iff hname]
  constructor
  · intro hall
    by_contra hne
    obtain ⟨pattern, hnormal, hhost, hother⟩ := exists_separating (lowered_host hauthorized) hne
    have hallowed : isHostAllowed u host [pattern] [] = some true := by
      rw [isHostAllowed_eq_decision (mapM_eq_some_iff.mpr (.cons hnormal .nil)) (mapM_eq_some_iff.mpr .nil),
        normalizedHost_of_authorized hauthorized, decision, List.any_cons, hhost]
      rfl
    obtain ⟨c', hca, hcd⟩ : ∃ c' : Contract, c'.allowedTargets = [pattern] ∧ c'.deniedTargets = [] :=
      ⟨contractFor [pattern] [] .zero, rfl, rfl⟩
    have hc' : authorizeTarget u c' target = .ok host := authorizeTarget_other hauthorized (by rw [hca, hcd]; exact hallowed)
    obtain ⟨⟨p, hp, n, hn, hmatch⟩, -⟩ := hall c' host name (contacted_eq_some hc' hplain hname)
    rw [hca, List.mem_singleton] at hp
    rw [hp, hnormal] at hn
    rw [← Option.some.inj hn, hother] at hmatch
    cases hmatch
  · intro heq c' host' name' h'
    obtain ⟨hauthorized', -, hname'⟩ := contacted_cases h'
    obtain ⟨t, hparse, -, hhost, -⟩ := ExecutionContract.authorizeTarget_inScope hauthorized
    obtain ⟨t', hparse', -, hhost', hscope⟩ := ExecutionContract.authorizeTarget_inScope hauthorized'
    have hsame : host' = host := by
      rw [← hhost, ← hhost', Option.some.inj (hparse.symm.trans hparse')]
    rw [hsame] at hscope hname'
    have hcontacted : name' = host :=
      String.toList_inj.mp ((Option.some.inj (hname'.symm.trans hname)).trans heq)
    rw [hcontacted]
    exact hscope

/-! ## A host with an ideographic full stop -/

/-- All addresses are public, and no label is outside ASCII. -/
def sampleNetwork : Network where
  isGlobal _ := true
  toAscii _ := none
  isAscii_toAscii := by
    intro _ _ h
    cases h

/-- What the functions compute on two targets, one with an ideographic full stop. -/
theorem sample_targets :
    ((parseTarget sampleUnicode "http://admin。example.com/").any
        (fun t => t.isWellFormed && decide (t.host = "admin。example.com")) = true ∧
      isHostAllowed sampleUnicode "admin。example.com" ["*.com"] ["admin.example.com"] = some true ∧
      isPlainTarget "http://admin。example.com/" = true ∧
      resolvedName sampleNetwork "admin。example.com" = some "admin.example.com".toList ∧
      normalizePattern sampleUnicode "admin.example.com" = some "admin.example.com" ∧
      ¬ hostMatches "admin.example.com" "admin.example.com" = false) ∧
    (parseTarget sampleUnicode "http://api.example.com/").any
        (fun t => t.isWellFormed && decide (t.host = "api.example.com")) = true ∧
      isHostAllowed sampleUnicode "api.example.com" ["*.com"] ["admin.example.com"] = some true ∧
      isPlainTarget "http://api.example.com/" = true ∧
      resolvedName sampleNetwork "api.example.com" = some "api.example.com".toList ∧
      IpAddress.address? "api.example.com".toList = none ∧ isAscii "api.example.com".toList = true := by decide +kernel

example : isPlainTarget "http://admin。example.com/" = true := by decide +kernel

theorem contacted_plain : contacted sampleNetwork sampleUnicode (contractFor ["*.com"] ["admin.example.com"] .zero)
    "http://api.example.com/" = some ("api.example.com", "api.example.com") := by
  obtain ⟨-, hparse, hallowed, hplain, hname, -⟩ := sample_targets
  exact contacted_eq_some (ExecutionContract.authorizeTarget_eq_ok hparse hallowed) hplain hname

theorem canonical_sample : Canonical "api.example.com" := by
  obtain ⟨-, -, -, -, -, hname, hascii⟩ := sample_targets
  refine ⟨hascii, fun a ha => ?_⟩
  rw [hname] at ha
  cases ha

theorem host_spelling_sample : InScope sampleUnicode "api.example.com" ["*.com"] ["admin.example.com"] :=
  (host_spelling sampleNetwork sampleUnicode (contractFor ["*.com"] ["admin.example.com"] .zero) "http://api.example.com/"
    "api.example.com" "api.example.com" contacted_plain).mpr canonical_sample
      (contractFor ["*.com"] ["admin.example.com"] .zero) "api.example.com" "api.example.com" contacted_plain

/-- A denied host is contacted: its name is spelled with an ideographic full stop, which the pattern does not match. -/
theorem denied_host_contacted :
    contacted sampleNetwork sampleUnicode (contractFor ["*.com"] ["admin.example.com"] .zero) "http://admin。example.com/" =
        some ("admin。example.com", "admin.example.com") ∧
      ¬ InScope sampleUnicode "admin.example.com" ["*.com"] ["admin.example.com"] := by
  obtain ⟨⟨hparse, hallowed, hplain, hname, hnormal, hmatch⟩, -⟩ := sample_targets
  refine ⟨contacted_eq_some (ExecutionContract.authorizeTarget_eq_ok hparse hallowed) hplain hname, ?_⟩
  rintro ⟨-, hdenied⟩
  exact hmatch (hdenied "admin.example.com" List.mem_cons_self "admin.example.com" hnormal)

end Egress

end XbowPerso
