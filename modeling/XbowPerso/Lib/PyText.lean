import Mathlib.Data.String.Basic
import Mathlib.Data.List.DropRight

/-!
# Texts as Python reads them

White space and `str.strip`, and the integer that `int` reads from a text.
-/

namespace PyText

/-! ## White space -/

/-- The characters that `str.isspace` accepts, and that `str.strip` removes. -/
def isPySpace (c : Char) : Bool :=
  (9 ≤ c.toNat && c.toNat ≤ 13) || (28 ≤ c.toNat && c.toNat ≤ 32) || c.toNat == 0x85 || c.toNat == 0xA0 ||
    c.toNat == 0x1680 || (0x2000 ≤ c.toNat && c.toNat ≤ 0x200A) || c.toNat == 0x2028 || c.toNat == 0x2029 ||
    c.toNat == 0x202F || c.toNat == 0x205F || c.toNat == 0x3000

/-- `str.strip` on the characters of a text. -/
def stripChars (cs : List Char) : List Char := (cs.dropWhile isPySpace).rdropWhile isPySpace

/-- `value.strip()`. -/
def strip (value : String) : String := String.ofList (stripChars value.toList)

/-- Dropping at the end keeps a front that has nothing to drop. -/
theorem dropWhile_rdropWhile {α : Type} (p : α → Bool) (l : List α) (h : l.dropWhile p = l) :
    (l.rdropWhile p).dropWhile p = l.rdropWhile p := by
  cases l with
  | nil => simp
  | cons a l =>
    have ha : ¬ p a = true := by
      intro ha
      have hl := congrArg List.length h
      rw [List.dropWhile_cons_of_pos ha] at hl
      have := (List.dropWhile_sublist (l := l) p).length_le
      simp only [List.length_cons] at hl
      omega
    have hne : (a :: l).rdropWhile p ≠ [] := by
      rw [Ne, List.rdropWhile_eq_nil_iff]
      exact fun hall => ha (hall a List.mem_cons_self)
    obtain ⟨t, ht⟩ := List.rdropWhile_prefix p (l := a :: l)
    cases hr : (a :: l).rdropWhile p with
    | nil => exact absurd hr hne
    | cons b r =>
      rw [hr] at ht
      have hb : b = a := by simpa using (List.cons.inj ht).1
      subst hb
      exact List.dropWhile_cons_of_neg ha

/-- Stripping a stripped text changes nothing. -/
theorem stripChars_stripChars (cs : List Char) : stripChars (stripChars cs) = stripChars cs := by
  unfold stripChars
  rw [dropWhile_rdropWhile _ _ (List.dropWhile_idempotent _ _), List.rdropWhile_idempotent]

theorem strip_strip (value : String) : strip (strip value) = strip value := by
  unfold strip
  rw [String.toList_ofList, stripChars_stripChars]

/-! ## Integers -/

/-- The zeros of the runs of ten decimal digits that Unicode has. -/
def decimalZeros : List Nat :=
  [0x30, 0x660, 0x6F0, 0x7C0, 0x966, 0x9E6, 0xA66, 0xAE6, 0xB66, 0xBE6, 0xC66, 0xCE6, 0xD66, 0xDE6, 0xE50, 0xED0,
   0xF20, 0x1040, 0x1090, 0x17E0, 0x1810, 0x1946, 0x19D0, 0x1A80, 0x1A90, 0x1B50, 0x1BB0, 0x1C40, 0x1C50, 0xA620,
   0xA8D0, 0xA900, 0xA9D0, 0xA9F0, 0xAA50, 0xABF0, 0xFF10, 0x104A0, 0x10D30, 0x11066, 0x110F0, 0x11136, 0x111D0,
   0x112F0, 0x11450, 0x114D0, 0x11650, 0x116C0, 0x11730, 0x118E0, 0x11950, 0x11C50, 0x11D50, 0x11DA0, 0x11F50,
   0x16A60, 0x16AC0, 0x16B50, 0x1D7CE, 0x1D7D8, 0x1D7E2, 0x1D7EC, 0x1D7F6, 0x1E140, 0x1E2F0, 0x1E4F0, 0x1E950,
   0x1FBF0]

/-- The value of a decimal digit. -/
def decimalValue? (c : Char) : Option Nat :=
  (decimalZeros.find? (fun z => z ≤ c.toNat && c.toNat < z + 10)).map (fun z => c.toNat - z)

/-- The most digits that `int` reads from a text. -/
def intDigitLimit : Nat := 4300

/-- Digits with single underscores between them, read after a digit: the number so far and the count of its digits. -/
def readDigits (value count : Nat) : List Char → Option (Nat × Nat)
  | [] => some (value, count)
  | '_' :: c :: cs => (decimalValue? c).bind fun d => readDigits (value * 10 + d) (count + 1) cs
  | c :: cs => (decimalValue? c).bind fun d => readDigits (value * 10 + d) (count + 1) cs

/-- A number without sign: a digit first. -/
def readNat : List Char → Option Nat
  | [] => none
  | c :: cs =>
    match decimalValue? c with
    | none => none
    | some d =>
      match readDigits d 1 cs with
      | none => none
      | some (value, count) => if count ≤ intDigitLimit then some value else none

/-- `int(text)`: none where it raises. -/
def pyInt (text : String) : Option Int :=
  match stripChars text.toList with
  | '-' :: cs => (readNat cs).map (fun n => -(n : Int))
  | '+' :: cs => (readNat cs).map Int.ofNat
  | cs => (readNat cs).map Int.ofNat

example : pyInt " 1_000\n" = some 1000 ∧ pyInt "-7" = some (-7) ∧ pyInt "1__0" = none ∧ pyInt "" = none := by decide

end PyText
