import XbowPerso.Lib.JsonRoundTrip
import Mathlib.Algebra.BigOperators.Group.List.Basic

/-!
# The size of a JSON text

The bytes that the encoder writes for a value, as a sum over its parts. Sorting keys does not change it; a string literal without
control characters takes at most two bytes for each byte of its text, and two more.
-/

namespace Json

/-- The bytes of characters in UTF-8. -/
def byteLength (cs : List Char) : Nat := (cs.map Char.utf8Size).sum

@[simp] theorem byteLength_nil : byteLength [] = 0 := rfl

@[simp] theorem byteLength_cons (c : Char) (cs : List Char) : byteLength (c :: cs) = c.utf8Size + byteLength cs := by
  simp [byteLength]

@[simp] theorem byteLength_append (a b : List Char) : byteLength (a ++ b) = byteLength a + byteLength b := by
  simp [byteLength]

theorem utf8ByteSize_ofList (cs : List Char) : (String.ofList cs).utf8ByteSize = byteLength cs := by
  induction cs with
  | nil => rfl
  | cons c cs ih =>
    have hcons : String.ofList (c :: cs) = String.singleton c ++ String.ofList cs := by
      apply String.toList_inj.mp
      simp
    rw [hcons, String.utf8ByteSize_append, String.utf8ByteSize_singleton, ih, byteLength_cons]

theorem utf8ByteSize_eq (s : String) : s.utf8ByteSize = byteLength s.toList := by
  conv_lhs => rw [← String.ofList_toList (s := s)]
  exact utf8ByteSize_ofList s.toList

/-- A text has no more characters than bytes. -/
theorem length_le_utf8ByteSize (s : String) : s.length ≤ s.utf8ByteSize := by
  have hle : ∀ cs : List Char, cs.length ≤ byteLength cs := by
    intro cs
    induction cs with
    | nil => exact le_refl _
    | cons c cs ih =>
      have hc := Char.utf8Size_pos c
      rw [byteLength_cons, List.length_cons]
      omega
  rw [utf8ByteSize_eq, ← String.length_toList]
  exact hle s.toList

mutual

/-- The bytes the encoder writes for a value. -/
def size : Json → Nat
  | .arr vs => 2 + sizeElems vs + (vs.length - 1)
  | .obj fs => 2 + sizeFields fs + (fs.length - 1)
  | v => byteLength v.chars

def sizeElems : List Json → Nat
  | [] => 0
  | v :: vs => v.size + sizeElems vs

def sizeFields : List (String × Json) → Nat
  | [] => 0
  | (k, v) :: fs => byteLength (quote k.toList) + 1 + v.size + sizeFields fs

end

mutual

theorem byteLength_chars : ∀ v : Json, byteLength v.chars = v.size
  | .arr [] => rfl
  | .arr (v :: vs) => by
    have hv := byteLength_chars v
    have hvs := byteLength_elemsChars vs
    simp only [chars, size, sizeElems, byteLength_cons, byteLength_append, byteLength_nil, hv, hvs, List.length_cons,
      show Char.utf8Size '[' = 1 from rfl, show Char.utf8Size ']' = 1 from rfl]
    omega
  | .obj [] => rfl
  | .obj ((k, v) :: fs) => by
    have hv := byteLength_chars v
    have hfs := byteLength_fieldsChars fs
    simp only [chars, size, sizeFields, byteLength_cons, byteLength_append, byteLength_nil, hv, hfs, List.length_cons,
      show Char.utf8Size '{' = 1 from rfl, show Char.utf8Size '}' = 1 from rfl, show Char.utf8Size ':' = 1 from rfl]
    omega
  | .null => rfl
  | .bool _ => rfl
  | .int _ => rfl
  | .float _ => rfl
  | .nan => rfl
  | .infinity _ => rfl
  | .str _ => rfl

theorem byteLength_elemsChars : ∀ vs : List Json, byteLength (elemsChars vs) = sizeElems vs + vs.length
  | [] => rfl
  | v :: vs => by
    have hv := byteLength_chars v
    have hvs := byteLength_elemsChars vs
    simp only [elemsChars, sizeElems, byteLength_cons, byteLength_append, hv, hvs, List.length_cons,
      show Char.utf8Size ',' = 1 from rfl]
    omega

theorem byteLength_fieldsChars : ∀ fs : List (String × Json), byteLength (fieldsChars fs) = sizeFields fs + fs.length
  | [] => rfl
  | (k, v) :: fs => by
    have hv := byteLength_chars v
    have hfs := byteLength_fieldsChars fs
    simp only [fieldsChars, sizeFields, byteLength_cons, byteLength_append, hv, hfs, List.length_cons,
      show Char.utf8Size ',' = 1 from rfl, show Char.utf8Size ':' = 1 from rfl]
    omega

end

theorem utf8ByteSize_dumps (v : Json) : v.dumps.utf8ByteSize = v.size := by
  rw [dumps, utf8ByteSize_ofList, byteLength_chars]

/-- The size of a dictionary, its keys and its values apart. -/
theorem size_obj (fs : List (String × Json)) :
    (Json.obj fs).size = 2 + fs.length + (fs.length - 1) +
      ((fs.map (·.1)).map (fun k => byteLength (quote k.toList))).sum + ((fs.map (·.2)).map size).sum := by
  have hfields : sizeFields fs =
      fs.length + ((fs.map (·.1)).map (fun k => byteLength (quote k.toList))).sum + ((fs.map (·.2)).map size).sum := by
    induction fs with
    | nil => rfl
    | cons f fs ih =>
      simp only [sizeFields, ih, List.map_cons, List.sum_cons, List.length_cons]
      omega
  rw [size, hfields]
  omega

/-- The size of a list whose elements are not larger than a bound. -/
theorem size_arr_le {vs : List Json} {bound : Nat} (h : ∀ v ∈ vs, v.size ≤ bound) :
    (Json.arr vs).size ≤ 2 + vs.length * (bound + 1) := by
  have helems : sizeElems vs ≤ vs.length * bound := by
    induction vs with
    | nil => simp [sizeElems]
    | cons v vs ih =>
      have hv := h v List.mem_cons_self
      have hvs := ih fun w hw => h w (List.mem_cons_of_mem v hw)
      rw [sizeElems, List.length_cons, Nat.add_mul]
      omega
  rw [size, Nat.mul_add]
  omega

/-! ## Sorting keys -/

theorem sizeElems_eq (vs : List Json) : sizeElems vs = (vs.map size).sum := by
  induction vs with
  | nil => rfl
  | cons v vs ih => simp [sizeElems, ih]

theorem sizeFields_eq (fs : List (String × Json)) :
    sizeFields fs = (fs.map (fun f => byteLength (quote f.1.toList) + 1 + f.2.size)).sum := by
  induction fs with
  | nil => rfl
  | cons f fs ih => simp [sizeFields, ih]

mutual

theorem size_sortKeys : ∀ v : Json, v.sortKeys.size = v.size
  | .arr vs => by
    have hvs := sizeElems_sortKeysElems vs
    simp only [sortKeys, size, hvs.1, hvs.2]
  | .obj fs => by
    have hfs := sizeFields_sortKeysFields fs
    have hperm := sortFields_perm (sortKeysFields fs)
    have hsum : sizeFields (sortFields (sortKeysFields fs)) = sizeFields (sortKeysFields fs) := by
      rw [sizeFields_eq, sizeFields_eq]
      exact (hperm.map _).sum_eq
    simp only [sortKeys, size, hsum, hperm.length_eq, hfs.1, hfs.2]
  | .null => rfl
  | .bool _ => rfl
  | .int _ => rfl
  | .float _ => rfl
  | .nan => rfl
  | .infinity _ => rfl
  | .str _ => rfl

theorem sizeElems_sortKeysElems : ∀ vs : List Json,
    sizeElems (sortKeysElems vs) = sizeElems vs ∧ (sortKeysElems vs).length = vs.length
  | [] => ⟨rfl, rfl⟩
  | v :: vs => by
    have hv := size_sortKeys v
    have hvs := sizeElems_sortKeysElems vs
    simp only [sortKeysElems, sizeElems, hv, hvs.1, List.length_cons, hvs.2, and_self]

theorem sizeFields_sortKeysFields : ∀ fs : List (String × Json),
    sizeFields (sortKeysFields fs) = sizeFields fs ∧ (sortKeysFields fs).length = fs.length
  | [] => ⟨rfl, rfl⟩
  | (k, v) :: fs => by
    have hv := size_sortKeys v
    have hfs := sizeFields_sortKeysFields fs
    simp only [sortKeysFields, sizeFields, hv, hfs.1, List.length_cons, hfs.2, and_self]

end

/-- The size of a text with sorted keys. -/
theorem utf8ByteSize_dumpsSorted (v : Json) : v.dumpsSorted.utf8ByteSize = v.size := by
  rw [dumpsSorted, utf8ByteSize_dumps, size_sortKeys]

/-! ## Strings and numbers -/

/-- A character that is not a control character takes at most twice its bytes. -/
theorem byteLength_escapeChar {c : Char} (h : ¬ c.toNat < 32) : byteLength (escapeChar c) ≤ 2 * c.utf8Size := by
  have hc := Char.utf8Size_pos c
  unfold escapeChar
  split
  · exact (by decide : byteLength ['\\', '"'] = 2).le.trans (by omega)
  split
  · exact (by decide : byteLength ['\\', '\\'] = 2).le.trans (by omega)
  split
  · exact (by decide : byteLength ['\\', 'n'] = 2).le.trans (by omega)
  split
  · exact (by decide : byteLength ['\\', 'r'] = 2).le.trans (by omega)
  split
  · exact (by decide : byteLength ['\\', 't'] = 2).le.trans (by omega)
  split
  · exact (by decide : byteLength ['\\', 'b'] = 2).le.trans (by omega)
  split
  · exact (by decide : byteLength ['\\', 'f'] = 2).le.trans (by omega)
  · rw [byteLength_cons, byteLength_nil]
    omega

/-- A character takes no more bytes than it is written with. -/
theorem utf8Size_le_escapeChar (c : Char) : c.utf8Size ≤ byteLength (escapeChar c) := by
  unfold escapeChar
  split
  · rename_i h; subst h; decide
  split
  · rename_i h; subst h; decide
  split
  · rename_i h; subst h; decide
  split
  · rename_i h; subst h; decide
  split
  · rename_i h; subst h; decide
  split
  · rename_i h; subst h; decide
  split
  · rename_i h; subst h; decide
  split
  · have hmost := Char.utf8Size_le_four c
    have hbackslash : Char.utf8Size '\\' = 1 := rfl
    have hu : Char.utf8Size 'u' = 1 := rfl
    have hzero : Char.utf8Size '0' = 1 := rfl
    have hfirst := Char.utf8Size_pos (Nat.digitChar (c.toNat / 16))
    have hsecond := Char.utf8Size_pos (Nat.digitChar (c.toNat % 16))
    simp only [byteLength_cons, byteLength_nil]
    omega
  · simp

theorem byteLength_le_quote (cs : List Char) : byteLength cs ≤ byteLength (quote cs) := by
  have hbody : byteLength cs ≤ byteLength (cs.flatMap escapeChar) := by
    induction cs with
    | nil => exact le_refl _
    | cons c cs ih =>
      have hc := utf8Size_le_escapeChar c
      rw [List.flatMap_cons, byteLength_append, byteLength_cons]
      omega
  simp only [quote, byteLength_cons, byteLength_append, byteLength_nil]
  omega

/-- A text is not larger than its literal. -/
theorem utf8ByteSize_le_size_str (s : String) : s.utf8ByteSize ≤ (Json.str s).size := by
  rw [utf8ByteSize_eq]
  exact byteLength_le_quote s.toList

theorem byteLength_quote {cs : List Char} (h : ∀ c ∈ cs, ¬ c.toNat < 32) : byteLength (quote cs) ≤ 2 * byteLength cs + 2 := by
  have hbody : byteLength (cs.flatMap escapeChar) ≤ 2 * byteLength cs := by
    induction cs with
    | nil => simp
    | cons c cs ih =>
      have hc := byteLength_escapeChar (h c List.mem_cons_self)
      have hcs := ih fun x hx => h x (List.mem_cons_of_mem c hx)
      rw [List.flatMap_cons, byteLength_append, byteLength_cons]
      omega
  have hq : Char.utf8Size '"' = 1 := rfl
  simp only [quote, byteLength_cons, byteLength_append, byteLength_nil, hq]
  omega

/-- The size of a text without control characters. -/
theorem size_str {s : String} (h : ∀ c ∈ s.toList, ¬ c.toNat < 32) : (Json.str s).size ≤ 2 * s.utf8ByteSize + 2 := by
  rw [utf8ByteSize_eq]
  exact byteLength_quote h

theorem byteLength_of_isDigit {cs : List Char} (h : ∀ c ∈ cs, c.isDigit = true) : byteLength cs = cs.length := by
  induction cs with
  | nil => rfl
  | cons c cs ih =>
    have hc := h c List.mem_cons_self
    have hsize : c.utf8Size = 1 := by
      have hle : c.toNat ≤ 57 := by
        simp only [Char.isDigit, Bool.and_eq_true, decide_eq_true_eq] at hc
        exact hc.2
      unfold Char.utf8Size
      rw [if_pos (by
        show c.val ≤ 127
        exact UInt32.le_iff_toNat_le.mpr (Nat.le_trans hle (by decide)))]
    rw [byteLength_cons, ih fun x hx => h x (List.mem_cons_of_mem c hx), hsize, List.length_cons]
    omega

/-- The size of a natural number with at most so many digits. -/
theorem size_nat {n k : Nat} (hk : 0 < k) (h : n < 10 ^ k) : (Json.int n).size ≤ k := by
  have hchars : (Json.int n).chars = Nat.toDigits 10 n := by simp [chars, intChars, signChars]
  rw [← byteLength_chars, hchars, byteLength_of_isDigit fun c hc => Nat.isDigit_of_mem_toDigits (by decide) (by decide) hc]
  exact (Nat.length_toDigits_le_iff (by decide) hk).mpr h

end Json
