import Mathlib.Data.List.DropRight

/-!
# Relative POSIX paths

A path is a list of characters, its segments the parts between its slashes. A clean path has no empty segment and none that is one
or two dots. The proper ancestors of a path are the texts before its slashes; they are also the joins of its first segments.
-/

namespace PosixPath

/-- `path.split("/")`. -/
def segments (cs : List Char) : List (List Char) := cs.splitOn '/'

/-- `"/".join(parts)`. -/
def join (parts : List (List Char)) : List Char := ['/'].intercalate parts

/-- A segment that a clean path does not have. -/
def isDots (part : List Char) : Bool := part = [] || part = ['.'] || part = ['.', '.']

/-- The parts of `PurePosixPath`: empty segments and single dots are left out. -/
def pureParts (cs : List Char) : List (List Char) := (segments cs).filter (fun p => decide (p ≠ [] ∧ p ≠ ['.']))

/-- `value.strip("/")`. -/
def stripSlashes (cs : List Char) : List Char := (cs.dropWhile (· == '/')).rdropWhile (· == '/')

/-- The joins of the first segments of a path, all of them left out. -/
def ancestors (cs : List Char) : List (List Char) :=
  (List.range' 1 ((segments cs).length - 1)).map (fun i => join ((segments cs).take i))

/-- No segment is empty, one dot or two dots. -/
def Clean (cs : List Char) : Prop := ∀ p ∈ segments cs, isDots p = false

theorem join_segments (cs : List Char) : join (segments cs) = cs := List.intercalate_splitOn '/'

theorem segments_join {parts : List (List Char)} (h : ∀ p ∈ parts, '/' ∉ p) (hne : parts ≠ []) :
    segments (join parts) = parts := List.splitOn_intercalate '/' h hne

theorem segments_append (a b : List Char) : segments (a ++ '/' :: b) = segments a ++ segments b :=
  List.splitOn_append_cons_self a b

theorem segments_ne_nil (cs : List Char) : segments cs ≠ [] := List.splitOn_ne_nil '/' cs

/-- Two lists of parts joined as one. -/
theorem join_append {a b : List (List Char)} (ha : a ≠ []) (hb : b ≠ []) : join (a ++ b) = join a ++ '/' :: join b := by
  induction a with
  | nil => exact absurd rfl ha
  | cons x a ih =>
    cases a with
    | nil =>
      obtain ⟨y, b, rfl⟩ := List.exists_cons_of_ne_nil hb
      simp [join, List.intercalate]
    | cons y a =>
      have htail : join (x :: y :: (a ++ b)) = x ++ '/' :: join (y :: a ++ b) := by simp [join, List.intercalate]
      have hhead : join (x :: y :: a) = x ++ '/' :: join (y :: a) := by simp [join, List.intercalate]
      rw [List.cons_append, List.cons_append, htail, ih (List.cons_ne_nil y a), hhead]
      simp

/-- A segment holds no slash. -/
theorem slash_not_mem_segment {cs p : List Char} (h : p ∈ segments cs) : '/' ∉ p := by
  induction cs generalizing p with
  | nil =>
    have hp : p = [] := by simpa [segments] using h
    simp [hp]
  | cons c cs ih =>
    rw [segments, List.splitOn_cons_eq_if_modifyHead] at h
    split at h
    · rcases List.mem_cons.mp h with rfl | h
      · exact List.not_mem_nil
      · exact ih h
    · rename_i hc
      obtain ⟨q, qs, hqs⟩ := List.exists_cons_of_ne_nil (segments_ne_nil cs)
      rw [show cs.splitOn '/' = q :: qs from hqs, List.modifyHead_cons] at h
      rcases List.mem_cons.mp h with rfl | h
      · rw [List.mem_cons, not_or]
        exact ⟨fun hcc => hc (beq_iff_eq.mpr hcc.symm), ih (hqs ▸ List.mem_cons_self)⟩
      · exact ih (hqs ▸ List.mem_cons_of_mem q h)

/-- The ancestors of a path are the texts before its slashes. -/
theorem mem_ancestors {p cs : List Char} : p ∈ ancestors cs ↔ ∃ rest, cs = p ++ '/' :: rest := by
  unfold ancestors
  rw [List.mem_map]
  constructor
  · rintro ⟨i, hi, rfl⟩
    obtain ⟨hi1, hi2⟩ := List.mem_range'_1.mp hi
    have htake : (segments cs).take i ≠ [] := by
      intro h
      have hlen := congrArg List.length h
      rw [List.length_take, List.length_nil] at hlen
      omega
    have hdrop : (segments cs).drop i ≠ [] := by
      intro h
      have hlen := congrArg List.length h
      rw [List.length_drop, List.length_nil] at hlen
      omega
    refine ⟨join ((segments cs).drop i), ?_⟩
    rw [← join_append htake hdrop, List.take_append_drop, join_segments]
  · rintro ⟨rest, rfl⟩
    have hp : 0 < (segments p).length := List.length_pos_of_ne_nil (segments_ne_nil p)
    have hrest : 0 < (segments rest).length := List.length_pos_of_ne_nil (segments_ne_nil rest)
    refine ⟨(segments p).length, ?_, ?_⟩
    · rw [segments_append, List.mem_range'_1, List.length_append]
      omega
    · rw [segments_append, List.take_left, join_segments]

/-! ## The parts of a path with slashes at its end -/

/-- What stripping slashes leaves, and what it takes, where the text does not begin with one. -/
theorem eq_stripSlashes_append {cs : List Char} (h : cs.head? ≠ some '/') :
    ∃ n, cs = stripSlashes cs ++ List.replicate n '/' := by
  have hfront : cs.dropWhile (· == '/') = cs := by
    cases cs with
    | nil => rfl
    | cons c cs =>
      refine List.dropWhile_cons_of_neg fun hc => h ?_
      rw [List.head?_cons, eq_of_beq hc]
  unfold stripSlashes
  rw [hfront]
  refine ⟨(cs.rtakeWhile (· == '/')).length, ?_⟩
  have hrep : cs.rtakeWhile (· == '/') = List.replicate (cs.rtakeWhile (· == '/')).length '/' := by
    refine List.eq_replicate_iff.mpr ⟨rfl, fun c hc => ?_⟩
    have hslash := List.mem_rtakeWhile_imp hc
    exact eq_of_beq hslash
  rw [← hrep, List.rdropWhile_append_rtakeWhile]

end PosixPath
