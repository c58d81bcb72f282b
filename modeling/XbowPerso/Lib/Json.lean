import Mathlib.Algebra.Group.Int.Defs
import Mathlib.Data.String.Basic
import Mathlib.Data.List.Sort

/-!
# JSON values, the compact encoder and the decoder

The encoder is the one of `json.dumps` with `separators=(",", ":")` and `ensure_ascii=False`, with or without `sort_keys`; the
decoder is that of `json.loads`. An object is the list of its fields in order of insertion; a dictionary has each key once
(`Json.Distinct`). A finite float is represented by the literal that `repr` writes for it, which reading gives back; the three
other floats are the constants the encoder writes for them. Lone surrogates are not characters here, so a text that escapes one
is not decoded.
-/

/-- The literal of a finite float: a fraction, an exponent, or both follow the whole part. -/
structure FloatLiteral where
  neg : Bool
  whole : Nat
  fraction : List (Fin 10)
  exponent : Option (Bool × List (Fin 10))
  isFloat : fraction ≠ [] ∨ exponent.isSome = true
  exponentDigits : ∀ e, exponent = some e → e.2 ≠ []
  deriving DecidableEq

/-- A JSON value. -/
inductive Json where
  | null
  | bool (b : Bool)
  | int (n : Int)
  | float (x : FloatLiteral)
  | nan
  | infinity (neg : Bool)
  | str (s : String)
  | arr (elems : List Json)
  | obj (fields : List (String × Json))

namespace Json

/-! ## The encoder -/

/-- The digit character of a digit. -/
def digitChars (ds : List (Fin 10)) : List Char := ds.map (fun d : Fin 10 => Nat.digitChar d.val)

def signChars (neg : Bool) : List Char := if neg then ['-'] else []

def intChars (n : Int) : List Char := signChars (decide (n < 0)) ++ Nat.toDigits 10 n.natAbs

def fractionChars (ds : List (Fin 10)) : List Char := if ds = [] then [] else '.' :: digitChars ds

def exponentChars : Option (Bool × List (Fin 10)) → List Char
  | none => []
  | some (neg, ds) => 'e' :: (if neg then '-' else '+') :: digitChars ds

def floatChars (x : FloatLiteral) : List Char :=
  signChars x.neg ++ (Nat.toDigits 10 x.whole ++ (fractionChars x.fraction ++ exponentChars x.exponent))

/-- A character inside a string literal: escaped when it is a quote, a backslash or a control character. -/
def escapeChar (c : Char) : List Char :=
  if c = '"' then ['\\', '"']
  else if c = '\\' then ['\\', '\\']
  else if c = '\n' then ['\\', 'n']
  else if c = '\r' then ['\\', 'r']
  else if c = '\t' then ['\\', 't']
  else if c = '\x08' then ['\\', 'b']
  else if c = '\x0c' then ['\\', 'f']
  else if c.toNat < 32 then ['\\', 'u', '0', '0', Nat.digitChar (c.toNat / 16), Nat.digitChar (c.toNat % 16)]
  else [c]

/-- A string literal, with its quotes. -/
def quote (s : List Char) : List Char := '"' :: (s.flatMap escapeChar ++ ['"'])

mutual

/-- The characters the encoder writes for a value. -/
def chars : Json → List Char
  | .null => ['n', 'u', 'l', 'l']
  | .bool true => ['t', 'r', 'u', 'e']
  | .bool false => ['f', 'a', 'l', 's', 'e']
  | .int n => intChars n
  | .float x => floatChars x
  | .nan => ['N', 'a', 'N']
  | .infinity neg => signChars neg ++ ['I', 'n', 'f', 'i', 'n', 'i', 't', 'y']
  | .str s => quote s.toList
  | .arr [] => ['[', ']']
  | .arr (v :: vs) => '[' :: (v.chars ++ (elemsChars vs ++ [']']))
  | .obj [] => ['{', '}']
  | .obj ((k, v) :: fs) => '{' :: (quote k.toList ++ ':' :: (v.chars ++ (fieldsChars fs ++ ['}'])))

/-- The elements after the first, each with its comma. -/
def elemsChars : List Json → List Char
  | [] => []
  | v :: vs => ',' :: (v.chars ++ elemsChars vs)

/-- The fields after the first, each with its comma. -/
def fieldsChars : List (String × Json) → List Char
  | [] => []
  | (k, v) :: fs => ',' :: (quote k.toList ++ ':' :: (v.chars ++ fieldsChars fs))

end

/-- Fields in the order of their keys. -/
def sortFields (fs : List (String × Json)) : List (String × Json) := fs.insertionSort (fun a b => a.1 ≤ b.1)

mutual

/-- The value with the fields of every object in the order of their keys. -/
def sortKeys : Json → Json
  | .arr vs => .arr (sortKeysElems vs)
  | .obj fs => .obj (sortFields (sortKeysFields fs))
  | .null => .null
  | .bool b => .bool b
  | .int n => .int n
  | .float x => .float x
  | .nan => .nan
  | .infinity neg => .infinity neg
  | .str s => .str s

def sortKeysElems : List Json → List Json
  | [] => []
  | v :: vs => v.sortKeys :: sortKeysElems vs

def sortKeysFields : List (String × Json) → List (String × Json)
  | [] => []
  | (k, v) :: fs => (k, v.sortKeys) :: sortKeysFields fs

end

/-- `json.dumps(v, separators=(",", ":"), ensure_ascii=False)`. -/
def dumps (v : Json) : String := String.ofList v.chars

/-- `json.dumps(v, sort_keys=True, separators=(",", ":"), ensure_ascii=False)`. -/
def dumpsSorted (v : Json) : String := v.sortKeys.dumps

mutual

/-- Every object has each key once: the value is one a dictionary can hold. -/
def Distinct : Json → Prop
  | .arr vs => DistinctElems vs
  | .obj fs => (fs.map (·.1)).Nodup ∧ DistinctFields fs
  | _ => True

def DistinctElems : List Json → Prop
  | [] => True
  | v :: vs => v.Distinct ∧ DistinctElems vs

def DistinctFields : List (String × Json) → Prop
  | [] => True
  | (_, v) :: fs => v.Distinct ∧ DistinctFields fs

end

/-! ## Equality -/

/-- The number that digits stand for. -/
def digitsValue (ds : List (Fin 10)) : Nat := ds.foldl (fun n d => 10 * n + d.val) 0

/-- A number as a mantissa and a power of ten, for the values that are numbers; a boolean counts as one. -/
def decimal? : Json → Option (Int × Int)
  | .bool b => some (if b then 1 else 0, 0)
  | .int n => some (n, 0)
  | .float x =>
    let mantissa : Int := x.whole * 10 ^ x.fraction.length + digitsValue x.fraction
    let power : Int := match x.exponent with
      | none => 0
      | some (neg, ds) => if neg then -(digitsValue ds) else digitsValue ds
    some (if x.neg then -mantissa else mantissa, power - x.fraction.length)
  | _ => none

/-- Two decimals of the same value. -/
def sameDecimal (a b : Int × Int) : Bool :=
  if a.2 ≤ b.2 then a.1 = b.1 * 10 ^ (b.2 - a.2).toNat else a.1 * 10 ^ (a.2 - b.2).toNat = b.1

mutual

/-- `a == b` of Python: numbers by their value, dictionaries whatever the order of their keys. -/
def pyEq : Json → Json → Bool
  | .arr vs, .arr ws => pyEqElems vs ws
  | .obj fs, .obj gs => decide (fs.length = gs.length) && pyEqFields fs gs
  | .null, .null => true
  | .str s, .str t => decide (s = t)
  | .infinity a, .infinity b => decide (a = b)
  | v, w =>
    match v.decimal?, w.decimal? with
    | some a, some b => sameDecimal a b
    | _, _ => false

def pyEqElems : List Json → List Json → Bool
  | [], [] => true
  | v :: vs, w :: ws => v.pyEq w && pyEqElems vs ws
  | _, _ => false

def pyEqFields : List (String × Json) → List (String × Json) → Bool
  | [], _ => true
  | (k, v) :: fs, gs =>
    (match gs.lookup k with
      | some w => v.pyEq w
      | none => false) && pyEqFields fs gs

end

/-! ## The decoder -/

/-- White space between tokens. -/
def isSpace (c : Char) : Bool := c = ' ' || c = '\t' || c = '\n' || c = '\r'

def skip (cs : List Char) : List Char := cs.dropWhile isSpace

/-- The value of a hexadecimal digit. -/
def hexValue (c : Char) : Option Nat :=
  if c.isDigit then some (c.toNat - 48)
  else if 'a' ≤ c ∧ c ≤ 'f' then some (c.toNat - 87)
  else if 'A' ≤ c ∧ c ≤ 'F' then some (c.toNat - 55)
  else none

def hex4 (a b c d : Char) : Option Nat :=
  match hexValue a, hexValue b, hexValue c, hexValue d with
  | some w, some x, some y, some z => some (((w * 16 + x) * 16 + y) * 16 + z)
  | _, _, _, _ => none

/-- The character of a one-letter escape. -/
def unescape (c : Char) : Option Char :=
  if c = '"' then some '"'
  else if c = '\\' then some '\\'
  else if c = '/' then some '/'
  else if c = 'b' then some '\x08'
  else if c = 'f' then some '\x0c'
  else if c = 'n' then some '\n'
  else if c = 'r' then some '\r'
  else if c = 't' then some '\t'
  else none

/-- The rest of a string literal after its opening quote: its characters and what follows the closing quote. -/
def parseChars : List Char → Option (List Char × List Char)
  | [] => none
  | c :: cs =>
    if c = '"' then some ([], cs)
    else if c = '\\' then
      match cs with
      | [] => none
      | e :: cs =>
        if e = 'u' then
          match cs with
          | a :: b :: c :: d :: cs =>
            match hex4 a b c d with
            | none => none
            | some u =>
              if 0xD800 ≤ u ∧ u < 0xDC00 then
                -- a high surrogate needs the low one that follows it
                match cs with
                | '\\' :: 'u' :: a' :: b' :: c' :: d' :: cs =>
                  match hex4 a' b' c' d' with
                  | none => none
                  | some l =>
                    if 0xDC00 ≤ l ∧ l < 0xE000 then
                      (parseChars cs).map
                        (fun r => (Char.ofNat (0x10000 + (u - 0xD800) * 0x400 + (l - 0xDC00)) :: r.1, r.2))
                    else none
                | _ => none
              else if 0xDC00 ≤ u ∧ u < 0xE000 then none
              else (parseChars cs).map (fun r => (Char.ofNat u :: r.1, r.2))
          | _ => none
        else
          match unescape e with
          | none => none
          | some x => (parseChars cs).map (fun r => (x :: r.1, r.2))
    else if c.toNat < 32 then none
    else (parseChars cs).map (fun r => (c :: r.1, r.2))

/-- The digit of a digit character. -/
def digitOf (c : Char) : Fin 10 := ⟨(c.toNat - 48) % 10, Nat.mod_lt _ (by decide)⟩

/-- The optional fraction after the whole part: the point counts only when a digit follows it. -/
def parseFraction (cs : List Char) : List (Fin 10) × List Char :=
  match cs with
  | [] => ([], [])
  | c :: t =>
    if c = '.' ∧ (t.takeWhile Char.isDigit) ≠ [] then ((t.takeWhile Char.isDigit).map digitOf, t.dropWhile Char.isDigit)
    else ([], c :: t)

/-- The sign of an exponent, a plus when none is written. -/
def parseExponentSign (cs : List Char) : Bool × List Char :=
  match cs with
  | [] => (false, [])
  | c :: t => if c = '-' then (true, t) else if c = '+' then (false, t) else (false, c :: t)

/-- The optional exponent: the letter counts only when digits follow it. -/
def parseExponent (cs : List Char) :
    {e : Option (Bool × List (Fin 10)) // ∀ x, e = some x → x.2 ≠ []} × List Char :=
  match cs with
  | [] => (⟨none, nofun⟩, [])
  | c :: t =>
    if c = 'e' ∨ c = 'E' then
      if h : ((parseExponentSign t).2.takeWhile Char.isDigit).map digitOf ≠ [] then
        (⟨some ((parseExponentSign t).1, ((parseExponentSign t).2.takeWhile Char.isDigit).map digitOf), by
            rintro x ⟨rfl⟩; exact h⟩,
          (parseExponentSign t).2.dropWhile Char.isDigit)
      else (⟨none, nofun⟩, c :: t)
    else (⟨none, nofun⟩, c :: t)

/-- The whole part of a number: a lone zero, or digits that do not begin with one. -/
def parseWhole (cs : List Char) : Option (Nat × List Char) :=
  match cs with
  | [] => none
  | c :: t =>
    if c = '0' then some (0, t)
    else if c.isDigit then
      some (Nat.ofDigitChars 10 ((c :: t).takeWhile Char.isDigit) 0, (c :: t).dropWhile Char.isDigit)
    else none

/-- A number after its sign: an integer, or a float when a fraction or an exponent follows. -/
def parseNumber (neg : Bool) (cs : List Char) : Option (Json × List Char) :=
  match parseWhole cs with
  | none => none
  | some (w, cs) =>
    let f := parseFraction cs
    let e := parseExponent f.2
    if h : f.1 ≠ [] ∨ e.1.1.isSome = true then
      some (.float ⟨neg, w, f.1, e.1.1, h, e.1.2⟩, e.2)
    else some (.int (if neg then -(w : Int) else w), cs)

/-- The dictionary of a list of fields: a later field replaces the value of an earlier one of the same key. -/
def dictOf (fs : List (String × Json)) : List (String × Json) :=
  fs.foldl (fun acc f => if acc.any (fun g => g.1 = f.1) then acc.map (fun g => if g.1 = f.1 then f else g)
    else acc ++ [f]) []

/-- What follows a literal word, if the text starts with it. -/
def dropWord : List Char → List Char → Option (List Char)
  | [], cs => some cs
  | _ :: _, [] => none
  | w :: ws, c :: cs => if w = c then dropWord ws cs else none

mutual

/-- A value at the start of a text, and what follows it. The first argument bounds the depth of the calls. -/
def parseValue : Nat → List Char → Option (Json × List Char)
  | 0, _ => none
  | n + 1, cs =>
    match cs with
    | [] => none
    | c :: t =>
      if c = '"' then (parseChars t).map (fun r => (.str (String.ofList r.1), r.2))
      else if c = '{' then
        match skip t with
        | '}' :: r => some (.obj [], r)
        | t => (parseFields n t).map (fun r => (.obj (dictOf r.1), r.2))
      else if c = '[' then
        match skip t with
        | ']' :: r => some (.arr [], r)
        | t => (parseElems n t).map (fun r => (.arr r.1, r.2))
      else if c = 'n' then (dropWord ['u', 'l', 'l'] t).map (fun r => (.null, r))
      else if c = 't' then (dropWord ['r', 'u', 'e'] t).map (fun r => (.bool true, r))
      else if c = 'f' then (dropWord ['a', 'l', 's', 'e'] t).map (fun r => (.bool false, r))
      else if c = 'N' then (dropWord ['a', 'N'] t).map (fun r => (.nan, r))
      else if c = 'I' then (dropWord ['n', 'f', 'i', 'n', 'i', 't', 'y'] t).map (fun r => (.infinity false, r))
      else if c = '-' then
        match dropWord ['I', 'n', 'f', 'i', 'n', 'i', 't', 'y'] t with
        | some r => some (.infinity true, r)
        | none => parseNumber true t
      else parseNumber false (c :: t)

/-- The elements of a list that is not empty, with the bracket that ends it. -/
def parseElems : Nat → List Char → Option (List Json × List Char)
  | 0, _ => none
  | n + 1, cs =>
    match parseValue n cs with
    | none => none
    | some (v, cs) =>
      match skip cs with
      | [] => none
      | c :: cs =>
        if c = ']' then some ([v], cs)
        else if c = ',' then (parseElems n (skip cs)).map (fun r => (v :: r.1, r.2))
        else none

/-- The fields of an object that is not empty, with the brace that ends it. -/
def parseFields : Nat → List Char → Option (List (String × Json) × List Char)
  | 0, _ => none
  | _ + 1, [] => none
  | n + 1, q :: cs =>
    if q = '"' then
      match parseChars cs with
      | none => none
      | some (k, cs) =>
        match skip cs with
        | [] => none
        | c :: cs =>
          if c = ':' then
            match parseValue n (skip cs) with
            | none => none
            | some (v, cs) =>
              match skip cs with
              | [] => none
              | c :: cs =>
                if c = '}' then some ([(String.ofList k, v)], cs)
                else if c = ',' then
                  (parseFields n (skip cs)).map (fun r => ((String.ofList k, v) :: r.1, r.2))
                else none
          else none
    else none

end

/-- `json.loads(text)`: one value and nothing but white space around it; none when the decoder raises. -/
def loads (text : String) : Option Json :=
  match parseValue (text.toList.length + 1) (skip text.toList) with
  | none => none
  | some (v, cs) => if skip cs = [] then some v else none

end Json
