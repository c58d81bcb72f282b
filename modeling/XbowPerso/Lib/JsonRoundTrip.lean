import XbowPerso.Lib.Json
import Mathlib.Tactic.IntervalCases

/-!
# The decoder reads back what the encoder writes

`Json.loads (Json.dumps v) = some v` for every value whose dictionaries have each key once. A token is followed by a character that
cannot continue it, so each reader stops where its writer stopped. The last part is about sorted keys: a value that was written with
sorted keys and read back is written again as the same text.
-/

namespace Json

/-! ## Strings -/

/-- A hexadecimal digit is read back. -/
theorem hexValue_digitChar : ∀ n < 16, hexValue (Nat.digitChar n) = some n := by decide

/-- A one-letter escape is read back. -/
theorem parseChars_escape {e x : Char} (he : e ≠ 'u') (hx : unescape e = some x) (cs : List Char) :
    parseChars ('\\' :: e :: cs) = (parseChars cs).map (fun r => (x :: r.1, r.2)) := by
  rw [parseChars.eq_def]
  simp [he, hx]

/-- One character of a string literal is read back. -/
theorem parseChars_escapeChar (c : Char) (cs : List Char) :
    parseChars (escapeChar c ++ cs) = (parseChars cs).map (fun r => (c :: r.1, r.2)) := by
  unfold escapeChar
  split_ifs with hquote hback hn hr ht hb hf hctl
  · subst hquote; exact parseChars_escape (by decide) rfl cs
  · subst hback; exact parseChars_escape (by decide) rfl cs
  · subst hn; exact parseChars_escape (by decide) rfl cs
  · subst hr; exact parseChars_escape (by decide) rfl cs
  · subst ht; exact parseChars_escape (by decide) rfl cs
  · subst hb; exact parseChars_escape (by decide) rfl cs
  · subst hf; exact parseChars_escape (by decide) rfl cs
  · have hhi : hexValue (Nat.digitChar (c.toNat / 16)) = some (c.toNat / 16) := hexValue_digitChar _ (by omega)
    have hlo : hexValue (Nat.digitChar (c.toNat % 16)) = some (c.toNat % 16) := hexValue_digitChar _ (by omega)
    have hzero : hexValue '0' = some 0 := by decide
    have hval : ((0 * 16 + 0) * 16 + c.toNat / 16) * 16 + c.toNat % 16 = c.toNat := by omega
    have hhex : hex4 '0' '0' (Nat.digitChar (c.toNat / 16)) (Nat.digitChar (c.toNat % 16)) = some c.toNat := by
      simp only [hex4, hhi, hlo, hzero, hval]
    have hsur : ¬(0xD800 ≤ c.toNat ∧ c.toNat < 0xDC00) := by omega
    have hsur' : ¬(0xDC00 ≤ c.toNat ∧ c.toNat < 0xE000) := by omega
    rw [List.cons_append, parseChars.eq_def]
    simp [hhex, hsur, hsur', Char.ofNat_toNat]
  · rw [List.cons_append, parseChars.eq_def]
    simp [hquote, hback, hctl]

/-- A string literal is read back, up to its closing quote. -/
theorem parseChars_quote (s rest : List Char) :
    parseChars (s.flatMap escapeChar ++ '"' :: rest) = some (s, rest) := by
  induction s with
  | nil =>
    rw [List.flatMap_nil, List.nil_append, parseChars.eq_def]
    rfl
  | cons c s ih =>
    rw [List.flatMap_cons, List.append_assoc, parseChars_escapeChar, ih]
    rfl

/-! ## Numbers -/

/-- A text that does not go on with a digit. -/
def NoDigit (cs : List Char) : Prop := ∀ c ∈ cs.head?, c.isDigit = false

/-- A run of digits ends where a text without a leading digit begins. -/
theorem span_digits {ds rest : List Char} (hds : ∀ c ∈ ds, c.isDigit = true) (hrest : NoDigit rest) :
    (ds ++ rest).takeWhile Char.isDigit = ds ∧ (ds ++ rest).dropWhile Char.isDigit = rest := by
  have hstop : rest.takeWhile Char.isDigit = [] ∧ rest.dropWhile Char.isDigit = rest := by
    cases rest with
    | nil => exact ⟨rfl, rfl⟩
    | cons c cs =>
      have hc : c.isDigit = false := hrest c rfl
      exact ⟨List.takeWhile_cons_of_neg (by simp [hc]), List.dropWhile_cons_of_neg (by simp [hc])⟩
  rw [List.takeWhile_append_of_pos hds, List.dropWhile_append_of_pos hds, hstop.1, hstop.2]
  exact ⟨List.append_nil ds, rfl⟩

/-- The decimal digits of a positive number do not begin with a zero. -/
theorem head_toDigits {n : Nat} (hn : 0 < n) : ∃ c cs, Nat.toDigits 10 n = c :: cs ∧ c ≠ '0' := by
  induction n using Nat.strongRecOn with
  | ind n ih =>
    by_cases h : n < 10
    · refine ⟨n.digitChar, [], Nat.toDigits_of_lt_base h, ?_⟩
      interval_cases n <;> decide
    · have hdiv : 0 < n / 10 := by omega
      obtain ⟨c, cs, heq, hc⟩ := ih (n / 10) (by omega) hdiv
      refine ⟨c, cs ++ [Nat.digitChar (n % 10)], ?_, hc⟩
      rw [Nat.toDigits_of_base_le (by omega) (by omega), heq]
      rfl

/-- The whole part of a number is read back. -/
theorem parseWhole_toDigits (w : Nat) {rest : List Char} (hrest : NoDigit rest) :
    parseWhole (Nat.toDigits 10 w ++ rest) = some (w, rest) := by
  have hdigits : ∀ c ∈ Nat.toDigits 10 w, c.isDigit = true :=
    fun c hc => Nat.isDigit_of_mem_toDigits (by omega) (by omega) hc
  obtain ⟨htake, hdrop⟩ := span_digits hdigits hrest
  rcases Nat.eq_zero_or_pos w with rfl | hw
  · simp [parseWhole]
  · obtain ⟨c, cs, heq, hc⟩ := head_toDigits hw
    have hdig : c.isDigit = true := hdigits c (by rw [heq]; exact List.mem_cons_self)
    have hval : Nat.ofDigitChars 10 (Nat.toDigits 10 w) 0 = w := Nat.ofDigitChars_ten_toDigits
    rw [heq] at htake hdrop hval ⊢
    rw [List.cons_append] at htake hdrop ⊢
    simp only [parseWhole, if_neg hc, if_pos hdig, htake, hdrop, hval]

/-- Digit characters are read back as the digits they were written for. -/
theorem map_digitOf (ds : List (Fin 10)) : (digitChars ds).map digitOf = ds := by
  have hd : ∀ d : Fin 10, digitOf (Nat.digitChar d.val) = d := by decide
  rw [digitChars, List.map_map]
  exact (List.map_congr_left fun d _ => hd d).trans (List.map_id ds)

theorem isDigit_digitChars (ds : List (Fin 10)) : ∀ c ∈ digitChars ds, c.isDigit = true := by
  intro c hc
  obtain ⟨d, -, rfl⟩ := List.mem_map.mp hc
  have hd : ∀ d : Fin 10, (Nat.digitChar d.val).isDigit = true := by decide
  exact hd d

theorem digitChars_ne_nil {ds : List (Fin 10)} (h : ds ≠ []) : digitChars ds ≠ [] := by
  simpa [digitChars] using h

/-- The characters that may follow a value: the comma and the two closing brackets. -/
def Delimited (rest : List Char) : Prop := ∀ c ∈ rest.head?, c = ',' ∨ c = ']' ∨ c = '}'

theorem Delimited.noDigit {rest : List Char} (h : Delimited rest) : NoDigit rest := by
  intro c hc
  rcases h c hc with rfl | rfl | rfl <;> decide

/-- The fraction is read back, and where there is none nothing is read. -/
theorem parseFraction_fractionChars (ds : List (Fin 10)) {rest : List Char} (hrest : NoDigit rest)
    (hpoint : ∀ c ∈ rest.head?, c ≠ '.') : parseFraction (fractionChars ds ++ rest) = (ds, rest) := by
  by_cases hds : ds = []
  · subst hds
    cases rest with
    | nil => rfl
    | cons c cs => simp [fractionChars, parseFraction, hpoint c rfl]
  · obtain ⟨htake, hdrop⟩ := span_digits (isDigit_digitChars ds) hrest
    have hne : digitChars ds ≠ [] := digitChars_ne_nil hds
    simp only [fractionChars, if_neg hds, List.cons_append, parseFraction, htake, hdrop, ne_eq, hne,
      not_false_eq_true, and_self, if_true, map_digitOf]

/-- The exponent is read back, and where there is none nothing is read. -/
theorem parseExponent_exponentChars (e : Option (Bool × List (Fin 10))) (he : ∀ x, e = some x → x.2 ≠ [])
    {rest : List Char} (hrest : Delimited rest) :
    parseExponent (exponentChars e ++ rest) = (⟨e, he⟩, rest) := by
  cases e with
  | none =>
    cases rest with
    | nil => rfl
    | cons c cs =>
      have hc : ¬(c = 'e' ∨ c = 'E') := by rcases hrest c rfl with rfl | rfl | rfl <;> decide
      simp only [exponentChars, List.nil_append, parseExponent, if_neg hc]
  | some x =>
    obtain ⟨neg, ds⟩ := x
    obtain ⟨htake, hdrop⟩ := span_digits (isDigit_digitChars ds) hrest.noDigit
    have hne : ds ≠ [] := he _ rfl
    have hsign : parseExponentSign ((if neg then '-' else '+') :: (digitChars ds ++ rest)) =
        (neg, digitChars ds ++ rest) := by
      cases neg <;> simp [parseExponentSign]
    simp only [exponentChars, List.cons_append, parseExponent, true_or, if_true, hsign, htake, hdrop, ne_eq,
      map_digitOf, hne, not_false_eq_true, dite_true]

/-- An integer or a float after its sign is read back. -/
theorem parseNumber_int (neg : Bool) (w : Nat) {rest : List Char} (hrest : Delimited rest) :
    parseNumber neg (Nat.toDigits 10 w ++ rest) = some (.int (if neg then -(w : Int) else w), rest) := by
  have hpoint : ∀ c ∈ rest.head?, c ≠ '.' := by
    intro c hc
    rcases hrest c hc with rfl | rfl | rfl <;> decide
  have hf : parseFraction rest = ([], rest) := parseFraction_fractionChars [] hrest.noDigit hpoint
  have he : parseExponent rest = (⟨none, by simp⟩, rest) := parseExponent_exponentChars none (by simp) hrest
  simp [parseNumber, parseWhole_toDigits w hrest.noDigit, hf, he]

theorem parseNumber_float (x : FloatLiteral) {rest : List Char} (hrest : Delimited rest) :
    parseNumber x.neg (Nat.toDigits 10 x.whole ++ (fractionChars x.fraction ++ exponentChars x.exponent) ++ rest) =
      some (.float x, rest) := by
  -- what follows the whole part begins with the point, with the letter of the exponent, or with a delimiter
  have hexp : NoDigit (exponentChars x.exponent ++ rest) ∧ ∀ c ∈ (exponentChars x.exponent ++ rest).head?, c ≠ '.' := by
    cases hx : x.exponent with
    | none =>
      refine ⟨hrest.noDigit, fun c hc => ?_⟩
      rcases hrest c hc with rfl | rfl | rfl <;> decide
    | some e =>
      constructor <;> · rintro c ⟨⟩; decide
  have hfrac : NoDigit (fractionChars x.fraction ++ (exponentChars x.exponent ++ rest)) := by
    unfold fractionChars
    split_ifs with hx
    · exact hexp.1
    · rintro c ⟨⟩
      decide
  have hw := parseWhole_toDigits x.whole hfrac
  have hf := parseFraction_fractionChars x.fraction hexp.1 hexp.2
  have he := parseExponent_exponentChars x.exponent x.exponentDigits hrest
  simp only [List.append_assoc, parseNumber, hw, hf, he, x.isFloat, dite_true]

/-! ## Values -/

/-- A character that is neither white space nor a closing bracket: what a value begins with. -/
def Opens (c : Char) : Prop := isSpace c = false ∧ c ≠ ']' ∧ c ≠ '}'

theorem Opens.of_isDigit {c : Char} (h : c.isDigit = true) : Opens c := by
  refine ⟨?_, ?_, ?_⟩
  · have hne : c ≠ ' ' ∧ c ≠ '\t' ∧ c ≠ '\n' ∧ c ≠ '\r' := by
      refine ⟨?_, ?_, ?_, ?_⟩ <;> · rintro rfl; exact absurd h (by decide)
    simp [isSpace, hne]
  · rintro rfl
    exact absurd h (by decide)
  · rintro rfl
    exact absurd h (by decide)

/-- A number begins with its sign or with a digit. -/
theorem signChars_opens (neg : Bool) (n : Nat) (cs : List Char) :
    ∃ c t, signChars neg ++ (Nat.toDigits 10 n ++ cs) = c :: t ∧ Opens c := by
  cases neg with
  | true => exact ⟨'-', _, rfl, by decide, by decide, by decide⟩
  | false =>
    cases h : Nat.toDigits 10 n with
    | nil => exact absurd h Nat.toDigits_ne_nil
    | cons c t =>
      have hc : c ∈ Nat.toDigits 10 n := by
        rw [h]
        exact List.mem_cons_self
      exact ⟨c, t ++ cs, rfl, Opens.of_isDigit (Nat.isDigit_of_mem_toDigits (by omega) (by omega) hc)⟩

/-- What the encoder writes for a value is not empty, and does not begin with white space or a closing bracket. -/
theorem chars_opens (v : Json) : ∃ c t, v.chars = c :: t ∧ Opens c := by
  cases v with
  | null => exact ⟨_, _, rfl, by decide, by decide, by decide⟩
  | bool b => cases b <;> exact ⟨_, _, rfl, by decide, by decide, by decide⟩
  | int n =>
    have h := signChars_opens (decide (n < 0)) n.natAbs []
    rwa [List.append_nil] at h
  | float x => exact signChars_opens x.neg x.whole _
  | nan => exact ⟨_, _, rfl, by decide, by decide, by decide⟩
  | infinity neg => cases neg <;> exact ⟨_, _, rfl, by decide, by decide, by decide⟩
  | str s => exact ⟨_, _, rfl, by decide, by decide, by decide⟩
  | arr vs => cases vs <;> exact ⟨_, _, rfl, by decide, by decide, by decide⟩
  | obj fs => cases fs <;> exact ⟨_, _, rfl, by decide, by decide, by decide⟩

/-- Nothing is skipped before a character that is not white space. -/
theorem skip_cons {c : Char} (h : isSpace c = false) (cs : List Char) : skip (c :: cs) = c :: cs :=
  List.dropWhile_cons_of_neg (by simp [h])

theorem skip_chars (v : Json) (rest : List Char) : skip (v.chars ++ rest) = v.chars ++ rest := by
  obtain ⟨c, t, h, ho⟩ := v.chars_opens
  rw [h, List.cons_append, skip_cons ho.1]

/-- Where the first character is a digit, a number is read. -/
theorem parseValue_digit {c : Char} (h : c.isDigit = true) (n : Nat) (cs : List Char) :
    parseValue (n + 1) (c :: cs) = parseNumber false (c :: cs) := by
  have hne : ∀ x : Char, x.isDigit = false → c ≠ x := by
    rintro x hx rfl
    rw [h] at hx
    cases hx
  rw [parseValue]
  simp only [hne '"' (by decide), hne '{' (by decide), hne '[' (by decide), hne 'n' (by decide), hne 't' (by decide),
    hne 'f' (by decide), hne 'N' (by decide), hne 'I' (by decide), hne '-' (by decide), if_false]

/-- A number with its sign is read as the number that follows the sign. -/
theorem parseValue_number (neg : Bool) (w n : Nat) (cs : List Char) :
    parseValue (n + 1) (signChars neg ++ (Nat.toDigits 10 w ++ cs)) = parseNumber neg (Nat.toDigits 10 w ++ cs) := by
  cases h : Nat.toDigits 10 w with
  | nil => exact absurd h Nat.toDigits_ne_nil
  | cons c t =>
    have hc : c ∈ Nat.toDigits 10 w := by
      rw [h]
      exact List.mem_cons_self
    have hdig : c.isDigit = true := Nat.isDigit_of_mem_toDigits (by omega) (by omega) hc
    cases neg with
    | false => exact parseValue_digit hdig n (t ++ cs)
    | true =>
      have hI : 'I' ≠ c := by
        rintro rfl
        exact absurd hdig (by decide)
      have hdrop : dropWord ['I', 'n', 'f', 'i', 'n', 'i', 't', 'y'] (c :: (t ++ cs)) = none := by
        simp only [dropWord, if_neg hI]
      change parseValue (n + 1) ('-' :: (c :: (t ++ cs))) = _
      rw [parseValue]
      simp [hdrop]

/-- A list that is not empty is read element by element. -/
theorem parseValue_arr {c : Char} (h : Opens c) (n : Nat) (cs : List Char) :
    parseValue (n + 1) ('[' :: c :: cs) = (parseElems n (c :: cs)).map (fun r => (.arr r.1, r.2)) := by
  rw [parseValue]
  simp only [skip_cons h.1]
  simp [h.2.1]

/-- A dictionary that is not empty is read field by field. -/
theorem parseValue_obj {c : Char} (h : Opens c) (n : Nat) (cs : List Char) :
    parseValue (n + 1) ('{' :: c :: cs) = (parseFields n (c :: cs)).map (fun r => (.obj (dictOf r.1), r.2)) := by
  rw [parseValue]
  simp only [skip_cons h.1]
  simp [h.2.2]

/-- A dictionary that has each key once is the dictionary of its fields. -/
theorem dictOf_of_nodup {fs : List (String × Json)} (h : (fs.map (·.1)).Nodup) : dictOf fs = fs := by
  have hgen : ∀ acc : List (String × Json), ((acc ++ fs).map (·.1)).Nodup →
      fs.foldl (fun acc f => if acc.any (fun g => g.1 = f.1) then acc.map (fun g => if g.1 = f.1 then f else g)
        else acc ++ [f]) acc = acc ++ fs := by
    clear h
    induction fs with
    | nil => exact fun acc _ => (List.append_nil acc).symm
    | cons f fs ih =>
      intro acc hnd
      have hnew : acc.any (fun g => g.1 = f.1) = false := by
        rw [List.map_append, List.nodup_append] at hnd
        simp only [List.any_eq_false, decide_eq_true_eq]
        exact fun g hg => hnd.2.2 _ (List.mem_map_of_mem hg) _ (by simp)
      have hnd' : (((acc ++ [f]) ++ fs).map (·.1)).Nodup := by simpa using hnd
      simpa [hnew] using ih (acc ++ [f]) hnd'
  simpa [dictOf] using hgen [] h

/-- What the three readers do with so much depth: each reads back what was written, if that is shorter than the depth. -/
structure ReadsBack (n : Nat) : Prop where
  value (v : Json) (rest : List Char) : v.Distinct → v.chars.length < n → Delimited rest →
    parseValue n (v.chars ++ rest) = some (v, rest)
  elems (v : Json) (vs : List Json) (rest : List Char) : DistinctElems (v :: vs) →
    v.chars.length + (elemsChars vs).length + 1 < n →
    parseElems n (v.chars ++ (elemsChars vs ++ ']' :: rest)) = some (v :: vs, rest)
  fields (k : String) (v : Json) (fs : List (String × Json)) (rest : List Char) : DistinctFields ((k, v) :: fs) →
    (quote k.toList).length + v.chars.length + (fieldsChars fs).length + 2 < n →
    parseFields n (quote k.toList ++ ':' :: (v.chars ++ (fieldsChars fs ++ '}' :: rest))) = some ((k, v) :: fs, rest)

/-- One level of depth more: a value. -/
theorem ReadsBack.value_succ {n : Nat} (ih : ReadsBack n) (v : Json) (rest : List Char) (hv : v.Distinct)
    (hlen : v.chars.length < n + 1) (hrest : Delimited rest) : parseValue (n + 1) (v.chars ++ rest) = some (v, rest) := by
  cases v with
  | null => rw [parseValue.eq_def]; simp [chars, dropWord]
  | bool b => cases b <;> rw [parseValue.eq_def] <;> simp [chars, dropWord]
  | int i =>
    have hnum := parseNumber_int (decide (i < 0)) i.natAbs hrest
    have hval : (if decide (i < 0) then -(i.natAbs : Int) else i.natAbs) = i := by
      by_cases hi : i < 0
      · simp only [hi, decide_true, if_true]
        omega
      · simp only [hi, decide_false, Bool.false_eq_true, if_false]
        omega
    simp only [chars, intChars, List.append_assoc, parseValue_number, hnum, hval]
  | float x =>
    have hnum := parseNumber_float x hrest
    simp only [chars, floatChars, List.append_assoc, parseValue_number] at hnum ⊢
    exact hnum
  | nan => rw [parseValue.eq_def]; simp [chars, dropWord]
  | infinity neg => cases neg <;> rw [parseValue.eq_def] <;> simp [chars, signChars, dropWord]
  | str s =>
    have hstr : parseChars (s.toList.flatMap escapeChar ++ '"' :: rest) = some (s.toList, rest) := parseChars_quote _ _
    rw [parseValue.eq_def]
    simp [chars, quote, hstr]
  | arr vs =>
    cases vs with
    | nil => rw [parseValue.eq_def]; simp [chars, skip, isSpace]
    | cons w ws =>
      have hfit : w.chars.length + (elemsChars ws).length + 1 < n := by
        simp only [chars, List.length_cons, List.length_append, List.length_nil] at hlen
        omega
      have helems := ih.elems w ws rest hv hfit
      obtain ⟨c, t, hw, ho⟩ := w.chars_opens
      simp only [chars, List.cons_append, List.append_assoc, List.nil_append]
      rw [hw] at helems ⊢
      rw [List.cons_append] at helems ⊢
      rw [parseValue_arr ho, helems]
      rfl
  | obj fs =>
    cases fs with
    | nil => rw [parseValue.eq_def]; simp [chars, skip, isSpace]
    | cons f fs =>
      obtain ⟨k, w⟩ := f
      have hfit : (quote k.toList).length + w.chars.length + (fieldsChars fs).length + 2 < n := by
        simp only [chars, List.length_cons, List.length_append, List.length_nil] at hlen
        omega
      have hfields := ih.fields k w fs rest hv.2 hfit
      have hopen : Opens '"' := ⟨by decide, by decide, by decide⟩
      simp only [chars, quote, List.cons_append, List.append_assoc, List.nil_append] at hfields ⊢
      rw [parseValue_obj hopen, hfields, Option.map_some, dictOf_of_nodup hv.1]

/-- One level of depth more: the elements of a list. -/
theorem ReadsBack.elems_succ {n : Nat} (ih : ReadsBack n) (v : Json) (vs : List Json) (rest : List Char)
    (hv : DistinctElems (v :: vs)) (hlen : v.chars.length + (elemsChars vs).length + 1 < n + 1) :
    parseElems (n + 1) (v.chars ++ (elemsChars vs ++ ']' :: rest)) = some (v :: vs, rest) := by
  rw [parseElems]
  cases vs with
  | nil =>
    have hdelim : Delimited (']' :: rest) := by
      rintro c ⟨⟩
      exact .inr (.inl rfl)
    have hvalue := ih.value v (']' :: rest) hv.1 (by omega) hdelim
    simp only [elemsChars, List.nil_append, hvalue, skip_cons (show isSpace ']' = false from rfl), if_true]
  | cons w ws =>
    have hdelim : Delimited (elemsChars (w :: ws) ++ ']' :: rest) := by
      rintro c ⟨⟩
      exact .inl rfl
    have hvalue := ih.value v _ hv.1 (by omega) hdelim
    have hpos : 0 < v.chars.length := by
      obtain ⟨c, t, h, -⟩ := v.chars_opens
      rw [h]
      exact Nat.succ_pos _
    have hfit : w.chars.length + (elemsChars ws).length + 1 < n := by
      simp only [elemsChars, List.length_cons, List.length_append] at hlen
      omega
    have helems := ih.elems w ws rest hv.2 hfit
    simp only [hvalue]
    simp only [elemsChars, List.cons_append, List.append_assoc, skip_cons (show isSpace ',' = false from rfl),
      skip_chars, helems]
    simp

/-- One level of depth more: the fields of a dictionary. -/
theorem ReadsBack.fields_succ {n : Nat} (ih : ReadsBack n) (k : String) (v : Json) (fs : List (String × Json))
    (rest : List Char) (hv : DistinctFields ((k, v) :: fs))
    (hlen : (quote k.toList).length + v.chars.length + (fieldsChars fs).length + 2 < n + 1) :
    parseFields (n + 1) (quote k.toList ++ ':' :: (v.chars ++ (fieldsChars fs ++ '}' :: rest))) =
      some ((k, v) :: fs, rest) := by
  have hkey : ∀ cs, parseChars (k.toList.flatMap escapeChar ++ '"' :: cs) = some (k.toList, cs) :=
    fun cs => parseChars_quote _ _
  simp only [quote, List.cons_append, List.append_assoc, List.nil_append]
  rw [parseFields]
  cases fs with
  | nil =>
    have hdelim : Delimited ('}' :: rest) := by
      rintro c ⟨⟩
      exact .inr (.inr rfl)
    have hvalue := ih.value v ('}' :: rest) hv.1 (by omega) hdelim
    simp only [fieldsChars, List.nil_append, hkey, skip_cons (show isSpace ':' = false from rfl), skip_chars, hvalue,
      skip_cons (show isSpace '}' = false from rfl), if_true, String.ofList_toList]
  | cons f fs =>
    obtain ⟨k', w⟩ := f
    have hdelim : Delimited (fieldsChars ((k', w) :: fs) ++ '}' :: rest) := by
      rintro c ⟨⟩
      exact .inl rfl
    have hvalue := ih.value v _ hv.1 (by omega) hdelim
    have hfit : (quote k'.toList).length + w.chars.length + (fieldsChars fs).length + 2 < n := by
      simp only [fieldsChars, List.length_cons, List.length_append] at hlen
      have : 0 < (quote k.toList).length := Nat.succ_pos _
      omega
    have hfields := ih.fields k' w fs rest hv.2 hfit
    simp only [hkey, skip_cons (show isSpace ':' = false from rfl), skip_chars, hvalue, if_true]
    simp only [fieldsChars, quote, List.cons_append, List.append_assoc, List.nil_append] at hfields ⊢
    simp [skip_cons (show isSpace ',' = false from rfl), skip_cons (show isSpace '"' = false from rfl), hfields]

/-- The induction is on the depth, for the three readers at once. -/
theorem readsBack (n : Nat) : ReadsBack n := by
  induction n with
  | zero => exact ⟨fun _ _ _ h => absurd h (Nat.not_lt_zero _), fun _ _ _ _ h => absurd h (Nat.not_lt_zero _),
      fun _ _ _ _ _ h => absurd h (Nat.not_lt_zero _)⟩
  | succ n ih => exact ⟨ih.value_succ, ih.elems_succ, ih.fields_succ⟩

/-- The decoder reads back what the encoder writes. -/
theorem loads_dumps {v : Json} (hv : v.Distinct) : loads v.dumps = some v := by
  have hread : parseValue (v.chars.length + 1) (v.chars ++ []) = some (v, []) :=
    (readsBack _).value v [] hv (Nat.lt_succ_self _) nofun
  have hskip := v.skip_chars []
  rw [List.append_nil] at hread hskip
  simp only [loads, dumps, String.toList_ofList, hskip, hread]
  simp [skip]

/-! ## Sorted keys -/

theorem sortKeysFields_eq (fs : List (String × Json)) : sortKeysFields fs = fs.map (fun f => (f.1, f.2.sortKeys)) := by
  induction fs with
  | nil => rfl
  | cons f fs ih => rw [sortKeysFields, ih, List.map_cons]

theorem distinctFields_iff (fs : List (String × Json)) : DistinctFields fs ↔ ∀ f ∈ fs, f.2.Distinct := by
  induction fs with
  | nil => exact ⟨fun _ _ h => absurd h List.not_mem_nil, fun _ => trivial⟩
  | cons f fs ih => simp only [DistinctFields, ih, List.forall_mem_cons]

/-- Sorting keeps the fields. -/
theorem sortFields_perm (fs : List (String × Json)) : (sortFields fs).Perm fs := List.perm_insertionSort _ fs

theorem sortFields_sorted (fs : List (String × Json)) : (sortFields fs).Pairwise (fun a b => a.1 ≤ b.1) := by
  have htotal : Std.Total (fun a b : String × Json => a.1 ≤ b.1) := ⟨fun a b => le_total a.1 b.1⟩
  have htrans : IsTrans (String × Json) (fun a b => a.1 ≤ b.1) := ⟨fun _ _ _ h h' => le_trans h h'⟩
  exact List.pairwise_insertionSort _ fs

mutual

/-- Sorting the keys a second time changes nothing. -/
theorem sortKeys_sortKeys : ∀ v : Json, v.sortKeys.sortKeys = v.sortKeys
  | .arr vs => by rw [sortKeys, sortKeys, sortKeysElems_sortKeysElems vs]
  | .obj fs => by
    have hfields : sortKeysFields (sortFields (sortKeysFields fs)) = sortFields (sortKeysFields fs) := by
      rw [sortKeysFields_eq]
      refine (List.map_congr_left fun f hf => ?_).trans (List.map_id _)
      have hmem : f ∈ sortKeysFields fs := (sortFields_perm _).mem_iff.mp hf
      exact Prod.ext rfl (sortKeys_of_mem fs f hmem)
    rw [sortKeys, sortKeys, hfields]
    exact congrArg Json.obj (sortFields_sorted _).insertionSort_eq
  | .null | .bool _ | .int _ | .float _ | .nan | .infinity _ | .str _ => rfl

theorem sortKeysElems_sortKeysElems : ∀ vs : List Json, sortKeysElems (sortKeysElems vs) = sortKeysElems vs
  | [] => rfl
  | v :: vs => by rw [sortKeysElems, sortKeysElems, sortKeys_sortKeys v, sortKeysElems_sortKeysElems vs]

theorem sortKeys_of_mem : ∀ (fs : List (String × Json)), ∀ f ∈ sortKeysFields fs, f.2.sortKeys = f.2
  | [], _, h => absurd h List.not_mem_nil
  | (_, v) :: fs, f, h => by
    rcases List.mem_cons.mp h with rfl | h
    · exact sortKeys_sortKeys v
    · exact sortKeys_of_mem fs f h

end

mutual

/-- Sorting the keys leaves each of them once. -/
theorem Distinct.sortKeys : ∀ {v : Json}, v.Distinct → v.sortKeys.Distinct
  | .arr _, h => DistinctElems.sortKeys h
  | .obj fs, h => by
    have hperm := sortFields_perm (sortKeysFields fs)
    have hkeys : (sortKeysFields fs).map (·.1) = fs.map (·.1) := by
      rw [sortKeysFields_eq, List.map_map]
      rfl
    refine ⟨(hperm.map _).nodup_iff.mpr (hkeys ▸ h.1), (distinctFields_iff _).mpr fun f hf => ?_⟩
    exact (distinctFields_iff _).mp (DistinctFields.sortKeys h.2) f (hperm.mem_iff.mp hf)
  | .null, _ | .bool _, _ | .int _, _ | .float _, _ | .nan, _ | .infinity _, _ | .str _, _ => trivial

theorem DistinctElems.sortKeys : ∀ {vs : List Json}, DistinctElems vs → DistinctElems (sortKeysElems vs)
  | [], _ => trivial
  | _ :: _, h => ⟨Distinct.sortKeys h.1, DistinctElems.sortKeys h.2⟩

theorem DistinctFields.sortKeys : ∀ {fs : List (String × Json)}, DistinctFields fs → DistinctFields (sortKeysFields fs)
  | [], _ => trivial
  | (_, _) :: _, h => ⟨Distinct.sortKeys h.1, DistinctFields.sortKeys h.2⟩

end

theorem sortKeys_obj (fs : List (String × Json)) : (Json.obj fs).sortKeys = .obj (sortFields (sortKeysFields fs)) := rfl

/-- A value written with sorted keys is read back with its keys sorted. -/
theorem loads_dumpsSorted {v : Json} (hv : v.Distinct) : loads v.dumpsSorted = some v.sortKeys :=
  loads_dumps hv.sortKeys

/-- Reading a value back and writing it again gives the same text. -/
theorem dumpsSorted_sortKeys (v : Json) : v.sortKeys.dumpsSorted = v.dumpsSorted :=
  congrArg dumps v.sortKeys_sortKeys

/-! ## Values equal up to the order of their keys -/

/-- The second value is the first with the fields of some of its dictionaries in another order. -/
inductive Reordered : Json → Json → Prop
  | refl (v : Json) : Reordered v v
  | perm {fs gs : List (String × Json)} (h : fs.Perm gs) : Reordered (.obj fs) (.obj gs)
  | elem {v w : Json} (vs ws : List Json) (h : Reordered v w) : Reordered (.arr (vs ++ v :: ws)) (.arr (vs ++ w :: ws))
  | field {v w : Json} (fs gs : List (String × Json)) (k : String) (h : Reordered v w) :
      Reordered (.obj (fs ++ (k, v) :: gs)) (.obj (fs ++ (k, w) :: gs))
  | trans {u v w : Json} (h : Reordered u v) (h' : Reordered v w) : Reordered u w

theorem Reordered.symm {v w : Json} (h : Reordered v w) : Reordered w v := by
  induction h with
  | refl v => exact .refl v
  | perm h => exact .perm h.symm
  | elem vs ws _ ih => exact .elem vs ws ih
  | field fs gs k _ ih => exact .field fs gs k ih
  | trans _ _ ih ih' => exact ih'.trans ih

/-- The elements of a list may be reordered one after the other. -/
theorem Reordered.arr_append (us : List Json) {vs ws : List Json} (h : List.Forall₂ Reordered vs ws) :
    Reordered (.arr (us ++ vs)) (.arr (us ++ ws)) := by
  induction h generalizing us with
  | nil => exact .refl _
  | @cons v w vs ws hvw _ ih =>
    have hrest := ih (us ++ [w])
    rw [List.append_assoc, List.append_assoc] at hrest
    exact (Reordered.elem us vs hvw).trans hrest

/-- So may the values of a dictionary. -/
theorem Reordered.obj_append (es : List (String × Json)) {fs gs : List (String × Json)}
    (h : List.Forall₂ (fun f g => f.1 = g.1 ∧ Reordered f.2 g.2) fs gs) :
    Reordered (.obj (es ++ fs)) (.obj (es ++ gs)) := by
  induction h generalizing es with
  | nil => exact .refl _
  | @cons f g fs gs hfg _ ih =>
    obtain ⟨k, v⟩ := f
    obtain ⟨k', w⟩ := g
    obtain ⟨rfl, hvw⟩ : k = k' ∧ Reordered v w := hfg
    have hrest := ih (es ++ [(k, w)])
    rw [List.append_assoc, List.append_assoc] at hrest
    exact (Reordered.field es fs k hvw).trans hrest

mutual

/-- Sorting the keys reorders the fields of dictionaries, and does nothing else. -/
theorem reordered_sortKeys : ∀ v : Json, v.Reordered v.sortKeys
  | .arr vs => Reordered.arr_append [] (reordered_sortKeysElems vs)
  | .obj fs => (Reordered.obj_append [] (reordered_sortKeysFields fs)).trans (.perm (sortFields_perm _).symm)
  | .null | .bool _ | .int _ | .float _ | .nan | .infinity _ | .str _ => .refl _

theorem reordered_sortKeysElems : ∀ vs : List Json, List.Forall₂ Reordered vs (sortKeysElems vs)
  | [] => .nil
  | v :: vs => .cons (reordered_sortKeys v) (reordered_sortKeysElems vs)

theorem reordered_sortKeysFields : ∀ fs : List (String × Json),
    List.Forall₂ (fun f g => f.1 = g.1 ∧ Reordered f.2 g.2) fs (sortKeysFields fs)
  | [] => .nil
  | (_, v) :: fs => .cons ⟨rfl, reordered_sortKeys v⟩ (reordered_sortKeysFields fs)

end

theorem sortKeysElems_eq (vs : List Json) : sortKeysElems vs = vs.map sortKeys := by
  induction vs with
  | nil => rfl
  | cons v vs ih => rw [sortKeysElems, ih, List.map_cons]

theorem distinctElems_iff (vs : List Json) : DistinctElems vs ↔ ∀ v ∈ vs, v.Distinct := by
  induction vs with
  | nil => exact ⟨fun _ _ h => absurd h List.not_mem_nil, fun _ => trivial⟩
  | cons v vs ih => simp only [DistinctElems, ih, List.forall_mem_cons]

/-- The order of fields with different keys is lost when they are sorted. -/
theorem sortFields_eq_of_perm {fs gs : List (String × Json)} (h : fs.Perm gs) (hfs : (fs.map (·.1)).Nodup) :
    sortFields fs = sortFields gs := by
  have hperm : (sortFields fs).Perm (sortFields gs) := ((sortFields_perm fs).trans h).trans (sortFields_perm gs).symm
  refine hperm.eq_of_pairwise (fun f g hf hg hle hge => ?_) (sortFields_sorted fs) (sortFields_sorted gs)
  have hf' : f ∈ fs := (sortFields_perm fs).mem_iff.mp hf
  have hg' : g ∈ fs := h.mem_iff.mpr ((sortFields_perm gs).mem_iff.mp hg)
  exact List.inj_on_of_nodup_map hfs hf' hg' (le_antisymm hle hge)

/-- A reordered value has each key once still, and the same value with sorted keys. -/
theorem Reordered.sortKeys_eq {v w : Json} (h : Reordered v w) (hv : v.Distinct) : w.Distinct ∧ v.sortKeys = w.sortKeys := by
  induction h with
  | refl v => exact ⟨hv, rfl⟩
  | @perm fs gs h =>
    have hkeys : ((sortKeysFields fs).map (·.1)).Nodup := by
      rw [sortKeysFields_eq, List.map_map]
      exact hv.1
    have hperm : (sortKeysFields fs).Perm (sortKeysFields gs) := by
      rw [sortKeysFields_eq, sortKeysFields_eq]
      exact h.map _
    refine ⟨⟨(h.map _).nodup_iff.mp hv.1, (distinctFields_iff gs).mpr fun g hg => ?_⟩, ?_⟩
    · exact (distinctFields_iff fs).mp hv.2 g (h.mem_iff.mpr hg)
    · exact congrArg Json.obj (sortFields_eq_of_perm hperm hkeys)
  | @elem v w vs ws _ ih =>
    have hall := (distinctElems_iff _).mp hv
    obtain ⟨hw, heq⟩ := ih (hall v (by simp))
    refine ⟨(distinctElems_iff _).mpr fun u hu => ?_, ?_⟩
    · rcases List.mem_append.mp hu with hu | hu
      · exact hall u (by simp [hu])
      · rcases List.mem_cons.mp hu with rfl | hu
        · exact hw
        · exact hall u (by simp [hu])
    · simp only [sortKeys, sortKeysElems_eq, List.map_append, List.map_cons, heq]
  | @field v w fs gs k _ ih =>
    have hall := (distinctFields_iff _).mp hv.2
    obtain ⟨hw, heq⟩ := ih (hall (k, v) (by simp))
    refine ⟨⟨by simpa using hv.1, (distinctFields_iff _).mpr fun f hf => ?_⟩, ?_⟩
    · rcases List.mem_append.mp hf with hf | hf
      · exact hall f (by simp [hf])
      · rcases List.mem_cons.mp hf with rfl | hf
        · exact hw
        · exact hall f (by simp [hf])
    · simp only [sortKeys, sortKeysFields_eq, List.map_append, List.map_cons, heq]
  | trans _ _ ih ih' =>
    obtain ⟨hd, heq⟩ := ih hv
    obtain ⟨hd', heq'⟩ := ih' hd
    exact ⟨hd', heq.trans heq'⟩

/-- Texts with sorted keys are equal for the values that are equal up to the order of their keys, and only for them. -/
theorem dumpsSorted_inj {v w : Json} (hv : v.Distinct) (hw : w.Distinct) :
    v.dumpsSorted = w.dumpsSorted ↔ v.Reordered w := by
  constructor
  · intro h
    have hread := loads_dumpsSorted hv
    rw [h, loads_dumpsSorted hw] at hread
    have heq : w.sortKeys = v.sortKeys := Option.some.inj hread
    exact (heq ▸ reordered_sortKeys v).trans (reordered_sortKeys w).symm
  · exact fun h => congrArg dumps (h.sortKeys_eq hv).2

end Json
