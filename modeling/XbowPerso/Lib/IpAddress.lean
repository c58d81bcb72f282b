import Mathlib.Data.List.Basic
import Mathlib.Data.List.TakeWhile

/-!
# IP addresses

`ipaddress.ip_address` on a text: four decimal octets, or an IPv6 address with at most one run of zero groups left out and perhaps a
scope, and the text that it writes for an address.
-/

namespace IpAddress

inductive Address where
  | v4 (octets : List Nat)
  | v6 (hextets : List Nat) (scope : Option (List Char))
  deriving DecidableEq

/-! ## Reading -/

/-- The value of decimal or hexadecimal digits. -/
def digitValue (c : Char) : Nat :=
  if c.isDigit then c.toNat - '0'.toNat else if 'a' ≤ c then c.toNat - 'a'.toNat + 10 else c.toNat - 'A'.toNat + 10

def value (base : Nat) (cs : List Char) : Nat := cs.foldl (fun n c => n * base + digitValue c) 0

/-- `_parse_octet` -/
def octet? (cs : List Char) : Option Nat :=
  if cs = [] ∨ cs.all Char.isDigit = false ∨ 3 < cs.length then none
  else if cs ≠ ['0'] ∧ cs.head? = some '0' then none
  else if 255 < value 10 cs then none
  else some (value 10 cs)

/-- `IPv4Address._ip_int_from_string`, as octets. -/
def v4? (cs : List Char) : Option (List Nat) :=
  let octets := cs.splitOn '.'
  if octets.length = 4 then octets.mapM octet? else none

def isHexDigit (c : Char) : Bool := c.isDigit || ('a' ≤ c && c ≤ 'f') || ('A' ≤ c && c ≤ 'F')

/-- `_parse_hextet` -/
def hextet? (cs : List Char) : Option Nat :=
  if cs = [] ∨ cs.all isHexDigit = false ∨ 4 < cs.length then none else some (value 16 cs)

/-- An IPv4 address at the end stands for two groups. -/
inductive Part where
  | text (cs : List Char)
  | number (n : Nat)
  deriving DecidableEq

def Part.isEmpty : Part → Bool
  | .text [] => true
  | _ => false

def Part.hextet? : Part → Option Nat
  | .text cs => IpAddress.hextet? cs
  | .number n => some n

/-- The parts between the colons. -/
def parts? (cs : List Char) : Option (List Part) :=
  let texts := cs.splitOn ':'
  if texts.length < 3 then none
  else
    match texts.getLast? with
    | some last =>
      if '.' ∈ last then
        match v4? last with
        | some [a, b, c, d] => some (texts.dropLast.map .text ++ [.number (a * 256 + b), .number (c * 256 + d)])
        | _ => none
      else some (texts.map .text)
    | none => none

/-- The places of the empty parts between the first and the last. -/
def skips (parts : List Part) : List Nat :=
  (List.range (parts.length - 1)).filter fun i => decide (0 < i) && ((parts[i]?).map Part.isEmpty).getD false

/-- `IPv6Address._ip_int_from_string`, as groups. -/
def v6Groups? (cs : List Char) : Option (List Nat) :=
  match parts? cs with
  | none => none
  | some parts =>
    if 9 < parts.length then none
    else
      match skips parts with
      | [] => if parts.length = 8 then parts.mapM Part.hextet? else none
      | [skip] =>
        let first := parts.take skip
        let last := parts.drop (skip + 1)
        -- an empty part at an end must stand next to the empty part that is skipped
        let high := if (first.head?.map Part.isEmpty).getD false then first.tail else first
        let low := if (last.getLast?.map Part.isEmpty).getD false then last.dropLast else last
        if high.length ≠ first.length ∧ high ≠ [] then none
        else if low.length ≠ last.length ∧ low ≠ [] then none
        else if 8 ≤ high.length + low.length then none
        else
          match high.mapM Part.hextet?, low.mapM Part.hextet? with
          | some hi, some lo => some (hi ++ List.replicate (8 - (hi.length + lo.length)) 0 ++ lo)
          | _, _ => none
      | _ => none

/-- `IPv6Address(text)`: the address and its scope. -/
def v6? (cs : List Char) : Option Address :=
  if '/' ∈ cs then none
  else if '%' ∈ cs then
    let scope := (cs.dropWhile (· ≠ '%')).tail
    if scope = [] ∨ '%' ∈ scope then none
    else (v6Groups? (cs.takeWhile (· ≠ '%'))).map fun groups => .v6 groups (some scope)
  else (v6Groups? cs).map fun groups => .v6 groups none

/-- `ipaddress.ip_address(text)` -/
def address? (cs : List Char) : Option Address :=
  match v4? cs with
  | some octets => some (.v4 octets)
  | none => v6? cs

/-! ## Writing -/

/-- The first longest run of zeros from place `i` on: its start and its length. -/
def longestZeros (i : Nat) : List Nat → Nat × Nat
  | [] => (i, 0)
  | g :: gs =>
    let here := ((g :: gs).takeWhile (· = 0)).length
    let later := longestZeros (i + 1) gs
    if later.2 ≤ here then (i, here) else later

def joinColons (groups : List (List Char)) : List Char := [':'].intercalate groups

/-- `_compress_hextets` -/
def compress (groups : List Nat) : List Char :=
  let texts := groups.map (Nat.toDigits 16)
  let (start, length) := longestZeros 0 groups
  if 1 < length then
    joinColons (texts.take start) ++ [':', ':'] ++ joinColons (texts.drop (start + length))
  else joinColons texts

/-- `str(address)` -/
def Address.text : Address → List Char
  | .v4 octets => ['.'].intercalate (octets.map (Nat.toDigits 10))
  | .v6 groups none => compress groups
  | .v6 groups (some scope) => compress groups ++ '%' :: scope

example : (address? "2606:4700:0:0::01".toList).map Address.text = some "2606:4700::1".toList ∧
    (address? "::ffff:1.2.3.4".toList).map Address.text = some "::ffff:102:304".toList ∧
    address? "1.2.3.04".toList = none ∧ address? "1::2::3".toList = none := by decide +kernel

end IpAddress
