import Mathlib.Data.List.Basic

/-!
# Base64

The encoding with the standard alphabet and padding, and a decoder that takes groups of four characters and ignores the bits that
a last, padded group leaves over. What is encoded is decoded again; a text is canonical when it is the encoding of what it decodes
to.
-/

namespace Base64

/-- The digit of a value of six bits. -/
def digit (n : Nat) : Char :=
  if n < 26 then Char.ofNat (65 + n)
  else if n < 52 then Char.ofNat (71 + n)
  else if n < 62 then Char.ofNat (n - 4)
  else if n = 62 then '+'
  else '/'

/-- The value of a digit. -/
def value? (c : Char) : Option Nat :=
  if 'A' ≤ c ∧ c ≤ 'Z' then some (c.toNat - 65)
  else if 'a' ≤ c ∧ c ≤ 'z' then some (c.toNat - 71)
  else if '0' ≤ c ∧ c ≤ '9' then some (c.toNat + 4)
  else if c = '+' then some 62
  else if c = '/' then some 63
  else none

/-- `base64.b64encode(content).decode("ascii")`. -/
def encode : List UInt8 → List Char
  | [] => []
  | [a] => [digit (a.toNat / 4), digit (a.toNat % 4 * 16), '=', '=']
  | [a, b] => [digit (a.toNat / 4), digit (a.toNat % 4 * 16 + b.toNat / 16), digit (b.toNat % 16 * 4), '=']
  | a :: b :: c :: rest =>
    digit (a.toNat / 4) :: digit (a.toNat % 4 * 16 + b.toNat / 16) :: digit (b.toNat % 16 * 4 + c.toNat / 64) ::
      digit (c.toNat % 64) :: encode rest

/-- `base64.b64decode(text, validate=True)`: none where it raises. -/
def decode : List Char → Option (List UInt8)
  | [] => some []
  | a :: b :: c :: d :: rest =>
    match value? a, value? b with
    | some w, some x =>
      if d = '=' ∧ rest = [] then
        if c = '=' then some [UInt8.ofNat (w * 4 + x / 16)]
        else
          match value? c with
          | some y => some [UInt8.ofNat (w * 4 + x / 16), UInt8.ofNat (x % 16 * 16 + y / 4)]
          | none => none
      else
        match value? c, value? d with
        | some y, some z =>
          (decode rest).map fun bytes =>
            UInt8.ofNat (w * 4 + x / 16) :: UInt8.ofNat (x % 16 * 16 + y / 4) :: UInt8.ofNat (y % 4 * 64 + z) :: bytes
        | _, _ => none
    | _, _ => none
  | _ => none

/-- A digit is read back. -/
theorem value?_digit : ∀ n < 64, value? (digit n) = some n := by decide

/-- The padding is no digit. -/
theorem digit_ne_pad : ∀ n < 64, digit n ≠ '=' := by decide

theorem ofNat_eq_of_toNat {a : UInt8} {n : Nat} (h : n = a.toNat) : UInt8.ofNat n = a := by
  rw [h, UInt8.ofNat_toNat]

/-- What is encoded is decoded again. -/
theorem decode_encode (bytes : List UInt8) : decode (encode bytes) = some bytes := by
  fun_induction encode bytes with
  | case1 => rfl
  | case2 a =>
    have ha := a.toNat_lt
    rw [decode, value?_digit _ (by omega), value?_digit _ (by omega)]
    dsimp only
    rw [if_pos ⟨rfl, rfl⟩, if_pos rfl, ofNat_eq_of_toNat (a := a) (by omega)]
  | case3 a b =>
    have ha := a.toNat_lt
    have hb := b.toNat_lt
    rw [decode, value?_digit _ (by omega), value?_digit _ (by omega)]
    dsimp only
    rw [if_pos ⟨rfl, rfl⟩, if_neg (digit_ne_pad _ (by omega)), value?_digit _ (by omega)]
    dsimp only
    rw [ofNat_eq_of_toNat (a := a) (by omega), ofNat_eq_of_toNat (a := b) (by omega)]
  | case4 a b c rest ih =>
    have ha := a.toNat_lt
    have hb := b.toNat_lt
    have hc := c.toNat_lt
    rw [decode, value?_digit _ (by omega), value?_digit _ (by omega)]
    dsimp only
    rw [if_neg fun h => digit_ne_pad _ (by omega) h.1, value?_digit _ (by omega), value?_digit _ (by omega), ih]
    dsimp only [Option.map_some]
    rw [ofNat_eq_of_toNat (a := a) (by omega), ofNat_eq_of_toNat (a := b) (by omega),
      ofNat_eq_of_toNat (a := c) (by omega)]

/-- Four characters for every three bytes. -/
theorem length_encode (bytes : List UInt8) : (encode bytes).length = (bytes.length + 2) / 3 * 4 := by
  fun_induction encode bytes with
  | case1 => rfl
  | case2 => simp
  | case3 => simp
  | case4 a b c rest ih =>
    simp only [List.length_cons, ih]
    omega

end Base64
