import Mathlib.Data.List.Basic
import Mathlib.Data.Char

/-!
# Shell patterns

`fnmatch.fnmatchcase`: a pattern is read into atoms, a star among them standing for any text. In a set, hyphens make ranges as
`fnmatch.translate` makes them: a hyphen at the start, at the end or right after a range is itself, and a range from a higher to a
lower character disappears. The lemmas are about patterns of question marks around one character.
-/

namespace Glob

/-- An atom of a pattern; a set is given by its chunks, with a range from the last character of each to the first of the next. -/
inductive Atom where
  | star
  | any
  | char (c : Char)
  | set (negated : Bool) (chunks : List (List Char))
  deriving DecidableEq

/-! ## Reading a pattern -/

/-- What stands before the first closing bracket. -/
def untilBracket : List Char → Option (List Char)
  | [] => none
  | ']' :: _ => some []
  | c :: cs => (untilBracket cs).map (c :: ·)

/-- What a set contains, where a closing bracket that comes first is itself. -/
def setBody : List Char → Option (List Char)
  | ']' :: cs => (untilBracket cs).map (']' :: ·)
  | cs => untilBracket cs

/-- The hyphens that make ranges separate the chunks: not in the first `skip` characters of a chunk. -/
def splitHyphens : Nat → List Char → List Char → List (List Char)
  | _, chunk, [] => [chunk]
  | 0, chunk, '-' :: cs => chunk :: splitHyphens 2 [] cs
  | skip, chunk, c :: cs => splitHyphens (skip - 1) (chunk ++ [c]) cs

/-- A hyphen at the end is itself. -/
def hyphenAtEnd : List (List Char) → List (List Char)
  | [chunk, []] => [chunk ++ ['-']]
  | chunk :: chunks => chunk :: hyphenAtEnd chunks
  | [] => []

/-- The ranges from a higher to a lower character disappear, with their ends. -/
def dropEmptyRanges : List (List Char) → List (List Char)
  | [] => []
  | chunk :: chunks =>
    match chunk.getLast?, dropEmptyRanges chunks with
    | some lo, (hi :: next) :: rest => if hi < lo then (chunk.dropLast ++ next) :: rest else chunk :: (hi :: next) :: rest
    | _, rest => chunk :: rest

def chunks (body : List Char) : List (List Char) := dropEmptyRanges (hyphenAtEnd (splitHyphens 1 [] body))

/-- The atoms of a pattern after `skip` characters. -/
def atomsFrom : Nat → List Char → List Atom
  | _, [] => []
  | skip + 1, _ :: cs => atomsFrom skip cs
  | 0, '*' :: cs => .star :: atomsFrom 0 cs
  | 0, '?' :: cs => .any :: atomsFrom 0 cs
  | 0, '[' :: '!' :: cs =>
    match setBody cs with
    | none => .char '[' :: atomsFrom 0 ('!' :: cs)
    | some body => .set true (chunks body) :: atomsFrom (body.length + 2) ('!' :: cs)
  | 0, '[' :: cs =>
    match setBody cs with
    | none => .char '[' :: atomsFrom 0 cs
    | some body => .set false (chunks body) :: atomsFrom (body.length + 1) cs
  | 0, c :: cs => .char c :: atomsFrom 0 cs

/-! ## Matching -/

def inChunks (c : Char) : List (List Char) → Bool
  | [] => false
  | [chunk] => decide (c ∈ chunk)
  | chunk :: next :: rest =>
    decide (c ∈ chunk) ||
      (match chunk.getLast?, next.head? with
        | some lo, some hi => decide (lo ≤ c) && decide (c ≤ hi)
        | _, _ => false) ||
      inChunks c (next :: rest)

/-- The atom stands for this character. -/
def Atom.accepts (c : Char) : Atom → Bool
  | .star => false
  | .any => true
  | .char d => c == d
  | .set negated chunks => inChunks c chunks != negated

def matchAtoms : List Atom → List Char → Bool
  | [], name => name.isEmpty
  | .star :: atoms, name => name.tails.any fun rest => matchAtoms atoms rest
  | _ :: _, [] => false
  | atom :: atoms, c :: name => atom.accepts c && matchAtoms atoms name

/-- `fnmatch.fnmatchcase(name, pattern)`. -/
def fnmatch (name pattern : List Char) : Bool := matchAtoms (atomsFrom 0 pattern) name

example : fnmatch "api.example.com".toList "*.example.com".toList = true ∧
    fnmatch "b".toList "[!a-c]".toList = false ∧ fnmatch "-".toList "[a-c-e]".toList = true ∧
    fnmatch "x".toList "[z-a]".toList = false ∧ fnmatch "x".toList "[!z-a]".toList = true := by decide +kernel

/-! ## One character at one place -/

/-- A pattern for one character. -/
def literal (c : Char) : List Char := if c = '!' then [c] else ['[', c, ']']

/-- A pattern for the texts that have this character after `i` and before `j` others. -/
def oneAt (i : Nat) (c : Char) (j : Nat) : List Char := List.replicate i '?' ++ (literal c ++ List.replicate j '?')

theorem atomsFrom_replicate (i : Nat) (rest : List Char) :
    atomsFrom 0 (List.replicate i '?' ++ rest) = List.replicate i .any ++ atomsFrom 0 rest := by
  induction i with
  | zero => rfl
  | succ i ih => rw [List.replicate_succ, List.cons_append, List.replicate_succ, List.cons_append, atomsFrom, ih]

/-- The atom of one character. -/
def atomOf (c : Char) : Atom := if c = '!' then .char c else .set false [[c]]

theorem accepts_atomOf (c d : Char) : (atomOf c).accepts d = decide (d = c) := by
  unfold atomOf
  split
  · rfl
  · simp [Atom.accepts, inChunks]

theorem atomsFrom_literal (c : Char) (rest : List Char) : atomsFrom 0 (literal c ++ rest) = atomOf c :: atomsFrom 0 rest := by
  unfold literal atomOf
  by_cases hbang : c = '!'
  · rw [if_pos hbang, if_pos hbang, hbang]
    rfl
  · rw [if_neg hbang, if_neg hbang]
    have hbody : setBody (c :: ']' :: rest) = some [c] := by
      by_cases hclose : c = ']'
      · rw [hclose]
        rfl
      · rw [setBody, untilBracket]
        · rfl
        · exact hclose
        · exact fun _ h => hclose (List.cons.inj h).1
    have hskip : atomsFrom 2 (c :: ']' :: rest) = atomsFrom 0 rest := by rw [atomsFrom, atomsFrom]
    have hchunks : chunks [c] = [[c]] := by
      by_cases hyphen : c = '-'
      · rw [hyphen]
        rfl
      · simp [chunks, splitHyphens, hyphenAtEnd, dropEmptyRanges]
    rw [show ['[', c, ']'] ++ rest = '[' :: c :: ']' :: rest from rfl, atomsFrom]
    · rw [hbody]
      dsimp only [List.length_cons, List.length_nil]
      rw [hskip, hchunks]
    · intro cs h
      exact hbang (List.cons.inj h).1

theorem matchAtoms_cons {a : Atom} (ha : a ≠ .star) (atoms : List Atom) (c : Char) (name : List Char) :
    matchAtoms (a :: atoms) (c :: name) = (a.accepts c && matchAtoms atoms name) := by
  rw [matchAtoms]
  exact ha

theorem matchAtoms_cons_nil {a : Atom} (ha : a ≠ .star) (atoms : List Atom) : matchAtoms (a :: atoms) [] = false := by
  rw [matchAtoms]
  exact ha

theorem atomOf_ne_star (c : Char) : atomOf c ≠ .star := by
  unfold atomOf
  split
  · exact Atom.noConfusion
  · exact Atom.noConfusion

theorem matchAtoms_replicate (j : Nat) (name : List Char) :
    matchAtoms (List.replicate j .any) name = true ↔ name.length = j := by
  induction j generalizing name with
  | zero => simp [matchAtoms]
  | succ j ih =>
    rw [List.replicate_succ]
    cases name with
    | nil => simp [matchAtoms]
    | cons c name => simp [matchAtoms, Atom.accepts, ih]

theorem matchAtoms_oneAt (i : Nat) (c : Char) (j : Nat) (name : List Char) :
    matchAtoms (List.replicate i .any ++ atomOf c :: List.replicate j .any) name = true ↔
      ∃ a b, name = a ++ c :: b ∧ a.length = i ∧ b.length = j := by
  induction i generalizing name with
  | zero =>
    rw [List.replicate_zero, List.nil_append]
    cases name with
    | nil => simp [matchAtoms_cons_nil (atomOf_ne_star c)]
    | cons d name =>
      rw [matchAtoms_cons (atomOf_ne_star c), accepts_atomOf, Bool.and_eq_true, matchAtoms_replicate, decide_eq_true_iff]
      constructor
      · intro ⟨hd, hj⟩
        exact ⟨[], name, by rw [hd]; rfl, rfl, hj⟩
      · intro ⟨a, b, heq, ha, hb⟩
        rw [List.length_eq_zero_iff.mp ha, List.nil_append] at heq
        exact ⟨(List.cons.inj heq).1, by rw [(List.cons.inj heq).2, hb]⟩
  | succ i ih =>
    rw [List.replicate_succ, List.cons_append]
    cases name with
    | nil => simp [matchAtoms]
    | cons d name =>
      rw [matchAtoms_cons Atom.noConfusion, Bool.and_eq_true, ih]
      constructor
      · intro ⟨_, a, b, heq, ha, hb⟩
        exact ⟨d :: a, b, by rw [heq]; rfl, by rw [List.length_cons, ha], hb⟩
      · intro ⟨a, b, heq, ha, hb⟩
        cases a with
        | nil => exact absurd ha (Nat.succ_ne_zero i).symm
        | cons e a => exact ⟨rfl, a, b, (List.cons.inj heq).2, Nat.succ.inj ha, hb⟩

/-- A pattern without special characters matches itself only. -/
theorem fnmatch_plain {name pattern : List Char} (h : ∀ c ∈ pattern, c ≠ '*' ∧ c ≠ '?' ∧ c ≠ '[') :
    fnmatch name pattern = true ↔ name = pattern := by
  unfold fnmatch
  induction pattern generalizing name with
  | nil => simp [atomsFrom, matchAtoms]
  | cons c pattern ih =>
    obtain ⟨⟨hstar, hany, hset⟩, hrest⟩ := List.forall_mem_cons.mp h
    have hatoms : atomsFrom 0 (c :: pattern) = .char c :: atomsFrom 0 pattern := by
      rw [atomsFrom]
      · exact hstar
      · exact hany
      · exact fun _ heq _ => hset heq
      · exact hset
    rw [hatoms]
    cases name with
    | nil => simp [matchAtoms]
    | cons d name =>
      rw [matchAtoms_cons Atom.noConfusion, Bool.and_eq_true, ih hrest, List.cons.injEq]
      exact and_congr_left' beq_iff_eq

/-- The pattern of `n` question marks matches the texts of that length. -/
theorem fnmatch_replicate (name : List Char) (n : Nat) : fnmatch name (List.replicate n '?') = true ↔ name.length = n := by
  rw [fnmatch, ← List.append_nil (List.replicate n '?'), atomsFrom_replicate, atomsFrom, List.append_nil, matchAtoms_replicate]

theorem fnmatch_oneAt (name : List Char) (i : Nat) (c : Char) (j : Nat) :
    fnmatch name (oneAt i c j) = true ↔ ∃ a b, name = a ++ c :: b ∧ a.length = i ∧ b.length = j := by
  have hrest : atomsFrom 0 (List.replicate j '?') = List.replicate j .any := by
    rw [← List.append_nil (List.replicate j '?'), atomsFrom_replicate, atomsFrom, List.append_nil]
  rw [fnmatch, oneAt, atomsFrom_replicate, atomsFrom_literal, hrest, matchAtoms_oneAt]

end Glob
