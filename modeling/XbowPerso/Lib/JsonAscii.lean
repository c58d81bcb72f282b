import XbowPerso.Lib.JsonRoundTrip

/-!
# The encoder that writes ASCII

`json.dumps` with `ensure_ascii=True` writes every character outside the printable ASCII range by its code, in two surrogates where one
does not do. Nothing is lost: the text that keeps these characters can be read off, so equal texts come from equal values here as well.
-/

namespace Json

/-! ## The encoder -/

/-- The four hexadecimal digits of a code. -/
def hexDigits (n : Nat) : List Char :=
  [Nat.digitChar (n / 4096 % 16), Nat.digitChar (n / 256 % 16), Nat.digitChar (n / 16 % 16), Nat.digitChar (n % 16)]

/-- A character of a text in ASCII. -/
def asciiChar (c : Char) : List Char :=
  if c.toNat < 127 then [c]
  else if c.toNat < 0x10000 then '\\' :: 'u' :: hexDigits c.toNat
  else
    '\\' :: 'u' :: (hexDigits (0xD800 + (c.toNat - 0x10000) / 0x400) ++
      '\\' :: 'u' :: hexDigits (0xDC00 + (c.toNat - 0x10000) % 0x400))

/-- A text in ASCII. -/
def ascii (cs : List Char) : List Char := cs.flatMap asciiChar

/-- `json.dumps(v, sort_keys=True, separators=(",", ":"), ensure_ascii=True)`. -/
def dumpsAscii (v : Json) : String := String.ofList (ascii v.sortKeys.chars)

/-! ## Reading the characters off -/

/-- The text with its characters in place of their codes; an escape that was there before stays. -/
def unascii : List Char → List Char
  | '\\' :: 'u' :: a :: b :: c :: d :: cs =>
    match hex4 a b c d with
    | none => '\\' :: 'u' :: unascii (a :: b :: c :: d :: cs)
    | some u =>
      if u < 127 then '\\' :: 'u' :: unascii (a :: b :: c :: d :: cs)
      else if 0xD800 ≤ u ∧ u < 0xDC00 then
        match cs with
        | '\\' :: 'u' :: a' :: b' :: c' :: d' :: cs =>
          Char.ofNat (0x10000 + (u - 0xD800) * 0x400 + ((hex4 a' b' c' d').getD 0 - 0xDC00)) :: unascii cs
        | cs => unascii cs
      else Char.ofNat u :: unascii cs
  | '\\' :: c :: cs => '\\' :: c :: unascii cs
  | c :: cs => c :: unascii cs
  | [] => []

theorem hex4_hexDigits {n : Nat} (h : n < 0x10000) :
    hex4 (Nat.digitChar (n / 4096 % 16)) (Nat.digitChar (n / 256 % 16)) (Nat.digitChar (n / 16 % 16)) (Nat.digitChar (n % 16)) =
      some n := by
  have hdigit : ∀ m, hexValue (Nat.digitChar (m % 16)) = some (m % 16) := fun m =>
    hexValue_digitChar _ (Nat.mod_lt m (by decide))
  simp only [hex4, hdigit]
  refine congrArg some ?_
  omega

theorem unascii_cons {c : Char} (h : c ≠ '\\') (cs : List Char) : unascii (c :: cs) = c :: unascii cs := by
  rw [unascii.eq_def]
  split
  · rename_i heq
    exact absurd (List.cons.inj heq).1 h
  · rename_i heq
    exact absurd (List.cons.inj heq).1 h
  · rename_i heq
    obtain ⟨rfl, rfl⟩ := List.cons.inj heq
    rfl
  · rename_i heq
    cases heq

theorem unascii_escape {c : Char} (h : c ≠ 'u') (cs : List Char) : unascii ('\\' :: c :: cs) = '\\' :: c :: unascii cs := by
  rw [unascii.eq_def]
  split
  · rename_i heq
    exact absurd (List.cons.inj (List.cons.inj heq).2).1 h
  · rename_i heq
    obtain ⟨rfl, rfl⟩ := List.cons.inj (List.cons.inj heq).2
    rfl
  · rename_i hnot heq
    obtain ⟨rfl, rfl⟩ := List.cons.inj heq
    exact absurd rfl (hnot _ _ rfl)
  · rename_i heq
    cases heq

/-- A character that is written by its code is read off. -/
theorem unascii_asciiChar {c : Char} (h : c ≠ '\\') (cs : List Char) : unascii (asciiChar c ++ cs) = c :: unascii cs := by
  unfold asciiChar
  split
  · exact unascii_cons h cs
  rename_i hascii
  split
  · rename_i hshort
    have hhex := hex4_hexDigits hshort
    have hvalid := c.valid
    have hsurrogate : ¬ (0xD800 ≤ c.toNat ∧ c.toNat < 0xDC00) := by
      rcases hvalid with hlow | hhigh
      · exact fun hx => absurd hlow (by show ¬ c.toNat < 0xD800; omega)
      · exact fun hx => absurd hhigh.1 (by show ¬ 0xDFFF < c.toNat; omega)
    show unascii ('\\' :: 'u' :: _ :: _ :: _ :: _ :: cs) = _
    rw [unascii, hhex]
    dsimp only
    rw [if_neg hascii, if_neg hsurrogate, Char.ofNat_toNat]
  · rename_i hlong
    have hvalid : c.toNat < 0x110000 := by
      rcases c.valid with hlow | hhigh
      · have hlow : c.toNat < 0xD800 := hlow
        omega
      · exact hhigh.2
    have hhigh := @hex4_hexDigits (0xD800 + (c.toNat - 0x10000) / 0x400) (by omega)
    have hlow := @hex4_hexDigits (0xDC00 + (c.toNat - 0x10000) % 0x400) (by omega)
    show unascii ('\\' :: 'u' :: _ :: _ :: _ :: _ :: '\\' :: 'u' :: _ :: _ :: _ :: _ :: cs) = _
    rw [unascii, hhigh]
    dsimp only
    rw [if_neg (by omega), if_pos (by omega)]
    simp only [hlow]
    have hvalue : 0x10000 + (0xD800 + (c.toNat - 0x10000) / 0x400 - 0xD800) * 0x400 +
        (0xDC00 + (c.toNat - 0x10000) % 0x400 - 0xDC00) = c.toNat := by omega
    rw [Option.getD_some, hvalue, Char.ofNat_toNat]

/-- A text whose characters are read off, whatever follows. -/
def Readable (l : List Char) : Prop := ∀ rest, unascii (ascii l ++ rest) = l ++ unascii rest

theorem ascii_append (l m : List Char) : ascii (l ++ m) = ascii l ++ ascii m := List.flatMap_append

theorem readable_nil : Readable [] := fun _ => rfl

theorem Readable.append {l m : List Char} (hl : Readable l) (hm : Readable m) : Readable (l ++ m) := by
  intro rest
  rw [ascii_append, List.append_assoc, hl, hm, List.append_assoc]

theorem Readable.cons {c : Char} (h : c ≠ '\\') {l : List Char} (hl : Readable l) : Readable (c :: l) := by
  intro rest
  have hcons : ascii (c :: l) = asciiChar c ++ ascii l := List.flatMap_cons
  rw [hcons, List.append_assoc, unascii_asciiChar h, hl]
  rfl

theorem readable_of_forall {l : List Char} (h : ∀ c ∈ l, c ≠ '\\') : Readable l := by
  induction l with
  | nil => exact readable_nil
  | cons c l ih => exact .cons (h c List.mem_cons_self) (ih fun x hx => h x (List.mem_cons_of_mem _ hx))

theorem readable_of_all {l : List Char} (h : (l.all fun c => c != '\\') = true) : Readable l :=
  readable_of_forall fun c hc => by simpa using List.all_eq_true.mp h c hc

theorem readable_escape {c : Char} (hu : c ≠ 'u') (hc : c.toNat < 127) : Readable ['\\', c] := by
  intro rest
  have hascii : asciiChar c = [c] := if_pos hc
  show unascii ('\\' :: (asciiChar c ++ [] ++ rest)) = _
  rw [hascii]
  exact unascii_escape hu rest

theorem readable_escapeChar (c : Char) : Readable (escapeChar c) := by
  unfold escapeChar
  split_ifs with hquote hback hn hr ht hb hf hctl
  · exact readable_escape (by decide) (by decide)
  · exact readable_escape (by decide) (by decide)
  · exact readable_escape (by decide) (by decide)
  · exact readable_escape (by decide) (by decide)
  · exact readable_escape (by decide) (by decide)
  · exact readable_escape (by decide) (by decide)
  · exact readable_escape (by decide) (by decide)
  · intro rest
    have hcode : ∀ n < 16, asciiChar (Nat.digitChar n) = [Nat.digitChar n] ∧ Nat.digitChar n ≠ '\\' := by decide
    obtain ⟨hhigh, hhigh'⟩ := hcode (c.toNat / 16) (by omega)
    obtain ⟨hlow, hlow'⟩ := hcode (c.toNat % 16) (by omega)
    have hhi : hexValue (Nat.digitChar (c.toNat / 16)) = some (c.toNat / 16) := hexValue_digitChar _ (by omega)
    have hlo : hexValue (Nat.digitChar (c.toNat % 16)) = some (c.toNat % 16) := hexValue_digitChar _ (by omega)
    have hzero : hexValue '0' = some 0 := by decide
    have hhex : hex4 '0' '0' (Nat.digitChar (c.toNat / 16)) (Nat.digitChar (c.toNat % 16)) =
        some (((0 * 16 + 0) * 16 + c.toNat / 16) * 16 + c.toNat % 16) := by
      simp only [hex4, hhi, hlo, hzero]
    have hplain : ascii ['\\', 'u', '0', '0', Nat.digitChar (c.toNat / 16), Nat.digitChar (c.toNat % 16)] =
        ['\\', 'u', '0', '0', Nat.digitChar (c.toNat / 16), Nat.digitChar (c.toNat % 16)] := by
      show '\\' :: 'u' :: '0' :: '0' :: (asciiChar _ ++ (asciiChar _ ++ [])) = _
      rw [hhigh, hlow]
      rfl
    rw [hplain]
    show unascii ('\\' :: 'u' :: '0' :: '0' :: _ :: _ :: rest) = _
    rw [unascii, hhex]
    dsimp only
    rw [if_pos (by omega), unascii_cons (by decide), unascii_cons (by decide), unascii_cons hhigh', unascii_cons hlow']
    rfl
  · exact .cons hback readable_nil

theorem readable_quote (s : List Char) : Readable (quote s) := by
  have hinner : Readable (s.flatMap escapeChar) := by
    induction s with
    | nil => exact readable_nil
    | cons c s ih =>
      rw [List.flatMap_cons]
      exact (readable_escapeChar c).append ih
  exact .cons (by decide) (hinner.append (.cons (by decide) readable_nil))

theorem ne_backslash_of_isDigit {c : Char} (h : c.isDigit = true) : c ≠ '\\' := by
  rintro rfl
  exact absurd h (by decide)

theorem readable_digits (n : Nat) : Readable (Nat.toDigits 10 n) :=
  readable_of_forall fun _ hc => ne_backslash_of_isDigit (Nat.isDigit_of_mem_toDigits (by omega) (by omega) hc)

theorem readable_digitChars (ds : List (Fin 10)) : Readable (digitChars ds) :=
  readable_of_forall fun c hc => ne_backslash_of_isDigit (isDigit_digitChars ds c hc)

theorem readable_signChars (neg : Bool) : Readable (signChars neg) := by
  cases neg with
  | true => exact .cons (by decide) readable_nil
  | false => exact readable_nil

theorem readable_floatChars (x : FloatLiteral) : Readable (floatChars x) := by
  have hfraction : Readable (fractionChars x.fraction) := by
    unfold fractionChars
    split
    · exact readable_nil
    · exact .cons (by decide) (readable_digitChars _)
  have hexponent : Readable (exponentChars x.exponent) := by
    unfold exponentChars
    split
    · exact readable_nil
    · rename_i neg ds _
      refine .cons (by decide) (.cons ?_ (readable_digitChars ds))
      cases neg <;> decide
  exact (readable_signChars _).append ((readable_digits _).append (hfraction.append hexponent))

mutual

theorem readable_chars : ∀ v : Json, Readable v.chars
  | .null => readable_of_all rfl
  | .bool true => readable_of_all rfl
  | .bool false => readable_of_all rfl
  | .int n => (readable_signChars _).append (readable_digits _)
  | .float x => readable_floatChars x
  | .nan => readable_of_all rfl
  | .infinity neg => (readable_signChars neg).append (readable_of_all rfl)
  | .str s => readable_quote s.toList
  | .arr [] => readable_of_all rfl
  | .arr (v :: vs) =>
    .cons (by decide) ((readable_chars v).append ((readable_elemsChars vs).append (.cons (by decide) readable_nil)))
  | .obj [] => readable_of_all rfl
  | .obj ((k, v) :: fs) =>
    .cons (by decide) ((readable_quote k.toList).append (.cons (by decide) ((readable_chars v).append
      ((readable_fieldsChars fs).append (.cons (by decide) readable_nil)))))

theorem readable_elemsChars : ∀ vs : List Json, Readable (elemsChars vs)
  | [] => readable_nil
  | v :: vs => .cons (by decide) ((readable_chars v).append (readable_elemsChars vs))

theorem readable_fieldsChars : ∀ fs : List (String × Json), Readable (fieldsChars fs)
  | [] => readable_nil
  | (k, v) :: fs =>
    .cons (by decide) ((readable_quote k.toList).append (.cons (by decide) ((readable_chars v).append (readable_fieldsChars fs))))

end

/-- Equal texts in ASCII are equal texts. -/
theorem dumpsSorted_eq_of_dumpsAscii {v w : Json} (h : v.dumpsAscii = w.dumpsAscii) : v.dumpsSorted = w.dumpsSorted := by
  have hchars : ascii v.sortKeys.chars = ascii w.sortKeys.chars := String.ofList_injective h
  have hv := readable_chars v.sortKeys []
  have hw := readable_chars w.sortKeys []
  rw [hchars, hw] at hv
  exact congrArg String.ofList (List.append_cancel_right hv.symm)

end Json
