import Mathlib.Algebra.Order.Ring.Int
import Mathlib.Data.Int.ConditionallyCompleteOrder
import Mathlib.Data.Nat.Log
import Mathlib.Order.WithBot
import Mathlib.Tactic.Linarith
import Mathlib.Tactic.Ring

/-!
# Doubles

A finite double is a multiple of the least subnormal `2 ^ -1074`: it is given by its sign and this multiple. Comparisons are false
on NaN. A difference and a reciprocal are rounded to the nearest double, to an even one from halfway. Rounding is monotone, so it
keeps the order of two exact results; the sign of a difference is exact.
-/

namespace Binary64

/-! ## Rounding -/

/-- `n / d`, rounded to the nearest integer, to an even one from halfway. -/
def halfEven (n d : Nat) : Nat :=
  if d < 2 * (n % d) ∨ 2 * (n % d) = d ∧ n / d % 2 = 1 then n / d + 1 else n / d

/-- The doubles around `q` units are `2 ^ spacing q` units apart. -/
def spacing (q : Nat) : Nat := q.log2 - 52

/-- `n / d` units, rounded to a double, whatever its exponent. -/
def roundUnits (n d : Nat) : Nat := halfEven n (d * 2 ^ spacing (n / d)) * 2 ^ spacing (n / d)

/-- Units that a double with an unbounded exponent can have. -/
def Representable (units : Nat) : Prop := ∃ m e, m < 2 ^ 53 ∧ units = m * 2 ^ e

theorem representable_zero : Representable 0 := ⟨0, 0, Nat.two_pow_pos 53, rfl⟩

theorem div_le_halfEven (n d : Nat) : n / d ≤ halfEven n d := by
  unfold halfEven
  split
  · exact Nat.le_succ _
  · exact le_rfl

theorem halfEven_le_succ (n d : Nat) : halfEven n d ≤ n / d + 1 := by
  unfold halfEven
  split
  · exact le_rfl
  · exact Nat.le_succ _

theorem div_le_div_of_cross {n d n' d' : Nat} (hd : 0 < d) (hd' : 0 < d') (h : n * d' ≤ n' * d) : n / d ≤ n' / d' := by
  have hle : n / d * d ≤ n := Nat.div_mul_le_self n d
  have hcross : n / d * d' * d ≤ n' * d := by
    calc n / d * d' * d = n / d * d * d' := by ring
      _ ≤ n * d' := Nat.mul_le_mul_right d' hle
      _ ≤ n' * d := h
  exact (Nat.le_div_iff_mul_le hd').mpr (Nat.le_of_mul_le_mul_right hcross hd)

theorem halfEven_mono {n d n' d' : Nat} (hd : 0 < d) (hd' : 0 < d') (h : n * d' ≤ n' * d) : halfEven n d ≤ halfEven n' d' := by
  have hdiv := div_le_div_of_cross hd hd' h
  rcases Nat.lt_or_eq_of_le hdiv with hlt | heq
  · calc halfEven n d ≤ n / d + 1 := halfEven_le_succ n d
      _ ≤ n' / d' := hlt
      _ ≤ halfEven n' d' := div_le_halfEven n' d'
  -- the integer parts agree, so the remainders compare as the quotients do
  have hn : d * (n / d) + n % d = n := Nat.div_add_mod n d
  have hn' : d' * (n' / d') + n' % d' = n' := Nat.div_add_mod n' d'
  have hrest : n % d * d' ≤ n' % d' * d := by
    rw [← hn, ← hn', ← heq] at h
    nlinarith [h]
  unfold halfEven
  rw [← heq]
  by_cases hup : d < 2 * (n % d) ∨ 2 * (n % d) = d ∧ n / d % 2 = 1
  · have hup' : d' < 2 * (n' % d') ∨ 2 * (n' % d') = d' ∧ n / d % 2 = 1 := by
      rcases hup with hup | ⟨hup, hodd⟩
      · left
        have hprod : d * d' < 2 * (n' % d') * d := by nlinarith
        exact Nat.lt_of_mul_lt_mul_left (by rwa [Nat.mul_comm (2 * (n' % d')) d] at hprod)
      · have hprod : d * d' ≤ d * (2 * (n' % d')) := by nlinarith
        rcases Nat.lt_or_eq_of_le (Nat.le_of_mul_le_mul_left hprod hd) with hlt | heq'
        · exact .inl hlt
        · exact .inr ⟨heq'.symm, hodd⟩
    rw [if_pos hup, if_pos hup']
  · rw [if_neg hup]
    split
    · exact Nat.le_succ _
    · exact le_rfl

theorem halfEven_mul {d : Nat} (hd : 0 < d) (k : Nat) : halfEven (k * d) d = k := by
  have hne : ¬ (d < 2 * (k * d % d) ∨ 2 * (k * d % d) = d ∧ k * d / d % 2 = 1) := by
    rw [Nat.mul_mod_left]
    omega
  rw [halfEven, if_neg hne, Nat.mul_div_cancel k hd]

theorem le_halfEven {n d k : Nat} (hd : 0 < d) (h : k * d ≤ n) : k ≤ halfEven n d := by
  have hmono : halfEven (k * d) d ≤ halfEven n d := halfEven_mono hd hd (Nat.mul_le_mul_right d h)
  rwa [halfEven_mul hd] at hmono

theorem halfEven_le {n d k : Nat} (hd : 0 < d) (h : n ≤ k * d) : halfEven n d ≤ k := by
  have hmono : halfEven n d ≤ halfEven (k * d) d := halfEven_mono hd hd (Nat.mul_le_mul_right d h)
  rwa [halfEven_mul hd] at hmono

theorem log2_le_log2 {q q' : Nat} (h : q ≤ q') : q.log2 ≤ q'.log2 := by
  rw [Nat.log2_eq_log_two, Nat.log2_eq_log_two]
  exact Nat.log_mono_right h

theorem lt_two_pow_spacing (q : Nat) : q < 2 ^ (spacing q + 53) := by
  by_cases h : q = 0
  · subst h
    exact Nat.two_pow_pos _
  · have hlog : q.log2 < spacing q + 53 := by
      unfold spacing
      omega
    exact (Nat.log2_lt h).mp hlog

theorem two_pow_spacing_le {q : Nat} (h : 0 < spacing q) : 2 ^ (spacing q + 52) ≤ q := by
  have hne : q ≠ 0 := by
    rintro rfl
    exact absurd h (by decide)
  have hlog : spacing q + 52 = q.log2 := by
    unfold spacing at h ⊢
    omega
  rw [hlog]
  exact Nat.log2_self_le hne

/-- The rounded multiple of the spacing has at most 53 bits, and at least 53 when the number is not subnormal. -/
theorem halfEven_spacing_le (n : Nat) {d : Nat} (hd : 0 < d) : halfEven n (d * 2 ^ spacing (n / d)) ≤ 2 ^ 53 := by
  refine halfEven_le (Nat.mul_pos hd (Nat.two_pow_pos _)) ?_
  have hlt := lt_two_pow_spacing (n / d)
  have hn : n < 2 ^ (spacing (n / d) + 53) * d := (Nat.div_lt_iff_lt_mul hd).mp hlt
  calc n ≤ 2 ^ (spacing (n / d) + 53) * d := hn.le
    _ = 2 ^ 53 * (d * 2 ^ spacing (n / d)) := by rw [pow_add]; ring

theorem le_halfEven_spacing {n d : Nat} (hd : 0 < d) (h : 0 < spacing (n / d)) :
    2 ^ 52 ≤ halfEven n (d * 2 ^ spacing (n / d)) := by
  refine le_halfEven (Nat.mul_pos hd (Nat.two_pow_pos _)) ?_
  calc 2 ^ 52 * (d * 2 ^ spacing (n / d)) = 2 ^ (spacing (n / d) + 52) * d := by rw [pow_add]; ring
    _ ≤ n / d * d := Nat.mul_le_mul_right d (two_pow_spacing_le h)
    _ ≤ n := Nat.div_mul_le_self n d

theorem roundUnits_mono {n d n' d' : Nat} (hd : 0 < d) (hd' : 0 < d') (h : n * d' ≤ n' * d) :
    roundUnits n d ≤ roundUnits n' d' := by
  have hq := div_le_div_of_cross hd hd' h
  have hspacing : spacing (n / d) ≤ spacing (n' / d') := Nat.sub_le_sub_right (log2_le_log2 hq) 52
  unfold roundUnits
  rcases Nat.lt_or_eq_of_le hspacing with hlt | heq
  · -- a number of a lower exponent stays at or below the next power of two
    calc halfEven n (d * 2 ^ spacing (n / d)) * 2 ^ spacing (n / d)
        ≤ 2 ^ 53 * 2 ^ spacing (n / d) := Nat.mul_le_mul_right _ (halfEven_spacing_le n hd)
      _ = 2 ^ 52 * 2 ^ (spacing (n / d) + 1) := by ring
      _ ≤ 2 ^ 52 * 2 ^ spacing (n' / d') := Nat.mul_le_mul_left _ (Nat.pow_le_pow_right (by decide) hlt)
      _ ≤ halfEven n' (d' * 2 ^ spacing (n' / d')) * 2 ^ spacing (n' / d') :=
          Nat.mul_le_mul_right _ (le_halfEven_spacing hd' (Nat.zero_lt_of_lt hlt))
  · rw [heq]
    refine Nat.mul_le_mul_right _ (halfEven_mono ?_ ?_ ?_)
    · exact Nat.mul_pos hd (Nat.two_pow_pos _)
    · exact Nat.mul_pos hd' (Nat.two_pow_pos _)
    · calc n * (d' * 2 ^ spacing (n' / d')) = n * d' * 2 ^ spacing (n' / d') := by ring
        _ ≤ n' * d * 2 ^ spacing (n' / d') := Nat.mul_le_mul_right _ h
        _ = n' * (d * 2 ^ spacing (n' / d')) := by ring

theorem representable_roundUnits (n : Nat) {d : Nat} (hd : 0 < d) : Representable (roundUnits n d) := by
  rcases Nat.lt_or_eq_of_le (halfEven_spacing_le n hd) with hlt | heq
  · exact ⟨_, _, hlt, rfl⟩
  · refine ⟨2 ^ 52, spacing (n / d) + 1, by decide, ?_⟩
    rw [roundUnits, heq]
    ring

/-! ## The numbers -/

/-- `2 ^ 1024` is not a finite double any more. -/
def overflow : Nat := 2 ^ 2098

theorem overflow_pos : 0 < overflow := by decide +kernel

/-- A finite double, in units of `2 ^ -1074`. -/
structure Finite where
  negative : Bool
  units : Nat
  representable : Representable units
  units_lt : units < overflow
  deriving DecidableEq

def Finite.toInt (x : Finite) : Int := if x.negative then -x.units else x.units

theorem Finite.toInt_of_pos {x : Finite} (h : x.negative = false) : x.toInt = x.units := by
  rw [Finite.toInt, h]
  rfl

theorem Finite.toInt_nonpos {x : Finite} (h : x.negative ≠ false) : x.toInt ≤ 0 := by
  rw [Finite.toInt, (Bool.not_eq_false _).mp h]
  exact Int.neg_nonpos_of_nonneg (Int.natCast_nonneg _)

end Binary64

/-- A double. -/
inductive Binary64 where
  | nan
  | infinity (negative : Bool)
  | finite (x : Binary64.Finite)
  deriving DecidableEq

namespace Binary64

/-- The place of a number on the extended line. -/
def value : Binary64 → Option (WithBot (WithTop Int))
  | .nan => none
  | .infinity true => some ⊥
  | .infinity false => some ((⊤ : WithTop Int) : WithBot (WithTop Int))
  | .finite x => some ((x.toInt : WithTop Int) : WithBot (WithTop Int))

/-- The comparisons are false on NaN. -/
def lt : Binary64 → Binary64 → Bool
  | .nan, _ => false
  | _, .nan => false
  | .infinity s, .infinity t => s && !t
  | .infinity s, .finite _ => s
  | .finite _, .infinity t => !t
  | .finite x, .finite y => decide (x.toInt < y.toInt)

def le : Binary64 → Binary64 → Bool
  | .nan, _ => false
  | _, .nan => false
  | .infinity s, .infinity t => s || !t
  | .infinity s, .finite _ => s
  | .finite _, .infinity t => !t
  | .finite x, .finite y => decide (x.toInt ≤ y.toInt)

/-- `n / d` units, rounded to a double. -/
def ofRatio (negative : Bool) (n : Nat) {d : Nat} (hd : 0 < d) : Binary64 :=
  if h : roundUnits n d < overflow then .finite ⟨negative, roundUnits n d, representable_roundUnits n hd, h⟩
  else .infinity negative

def zero : Binary64 := .finite ⟨false, 0, representable_zero, overflow_pos⟩

def one : Binary64 := ofRatio false (2 ^ 1074) Nat.one_pos

/-- `x - y` -/
def sub : Binary64 → Binary64 → Binary64
  | .nan, _ => .nan
  | _, .nan => .nan
  | .infinity s, .infinity t => if s = t then .nan else .infinity s
  | .infinity s, .finite _ => .infinity s
  | .finite _, .infinity t => .infinity !t
  | .finite x, .finite y =>
    -- the sign of a zero is that of `x` when the two differ in sign
    ofRatio (decide (x.toInt < y.toInt) || (x.negative && !y.negative)) (x.toInt - y.toInt).natAbs Nat.one_pos

/-- `1.0` over one unit, in units. -/
def unitRecip : Nat := 2 ^ 2148

/-- `1.0 / x`, when `x` is not zero. -/
def recip : Binary64 → Option Binary64
  | .nan => some .nan
  | .infinity s => some (.finite ⟨s, 0, representable_zero, overflow_pos⟩)
  | .finite x => if h : 0 < x.units then some (ofRatio x.negative (unitRecip) h) else none

/-! ## Comparisons -/

theorem lt_iff {x y : Binary64} : x.lt y = true ↔ ∃ a b, x.value = some a ∧ y.value = some b ∧ a < b := by
  cases x with
  | nan => simp [lt, value]
  | infinity s =>
    cases s
    all_goals
      cases y with
      | nan => simp [lt, value]
      | infinity t => cases t <;> simp [lt, value]
      | finite y => simp [lt, value, -WithBot.coe_top]
  | finite x =>
    cases y with
    | nan => simp [lt, value]
    | infinity t => cases t <;> simp [lt, value, -WithBot.coe_top]
    | finite y => simp [lt, value]

theorem le_iff {x y : Binary64} : x.le y = true ↔ ∃ a b, x.value = some a ∧ y.value = some b ∧ a ≤ b := by
  cases x with
  | nan => simp [le, value]
  | infinity s =>
    cases s
    all_goals
      cases y with
      | nan => simp [le, value]
      | infinity t => cases t <;> simp [le, value]
      | finite y => simp [le, value, -WithBot.coe_top]
  | finite x =>
    cases y with
    | nan => simp [le, value]
    | infinity t => cases t <;> simp [le, value, -WithBot.coe_top]
    | finite y => simp [le, value]

theorem le_trans {x y z : Binary64} (hxy : x.le y = true) (hyz : y.le z = true) : x.le z = true := by
  obtain ⟨a, b, ha, hb, hab⟩ := le_iff.mp hxy
  obtain ⟨b', c, hb', hc, hbc⟩ := le_iff.mp hyz
  cases hb.symm.trans hb'
  exact le_iff.mpr ⟨a, c, ha, hc, hab.trans hbc⟩

theorem value_ne_none {x : Binary64} (h : x ≠ nan) : x.value ≠ none := by
  cases x with
  | nan => exact absurd rfl h
  | infinity s => cases s <;> exact Option.some_ne_none _
  | finite x => exact Option.some_ne_none _

/-- On numbers the comparisons are those of a linear order. -/
theorem le_of_not_lt {x y : Binary64} (hx : x ≠ nan) (hy : y ≠ nan) (h : y.lt x = false) : x.le y = true := by
  obtain ⟨a, ha⟩ := Option.ne_none_iff_exists'.mp (value_ne_none hx)
  obtain ⟨b, hb⟩ := Option.ne_none_iff_exists'.mp (value_ne_none hy)
  refine le_iff.mpr ⟨a, b, ha, hb, ?_⟩
  by_contra hlt
  rw [lt_iff.mpr ⟨b, a, hb, ha, not_le.mp hlt⟩] at h
  cases h

theorem lt_of_lt_of_le {x y z : Binary64} (hxy : x.lt y = true) (hyz : y.le z = true) : x.lt z = true := by
  obtain ⟨a, b, ha, hb, hab⟩ := lt_iff.mp hxy
  obtain ⟨b', c, hb', hc, hbc⟩ := le_iff.mp hyz
  cases hb.symm.trans hb'
  exact lt_iff.mpr ⟨a, c, ha, hc, hab.trans_le hbc⟩

theorem le_finite {x y : Finite} : (finite x).le (finite y) = true ↔ x.toInt ≤ y.toInt := by
  simp [le]

/-! ## Signed rounding -/

/-- A sign and a number of units, as a number. -/
def signed (negative : Bool) (n : Nat) : Int := if negative then -n else n

theorem signed_sub (x y : Finite) :
    signed (decide (x.toInt < y.toInt) || (x.negative && !y.negative)) (x.toInt - y.toInt).natAbs = x.toInt - y.toInt := by
  have hzero : x.negative = true → y.negative = false → x.toInt ≤ y.toInt := by
    intro hx hy
    simp [Finite.toInt, hx, hy]
  unfold signed
  split
  · rename_i hsign
    have hle : x.toInt ≤ y.toInt := by
      rcases Bool.or_eq_true_iff.mp hsign with hlt | hdiffer
      · exact (of_decide_eq_true hlt).le
      · obtain ⟨hx, hy⟩ := Bool.and_eq_true_iff.mp hdiffer
        exact hzero hx (by simpa using hy)
    omega
  · rename_i hsign
    have hle : ¬ x.toInt < y.toInt := fun hlt => hsign (by simp [hlt])
    omega

/-- A ratio is rounded to a finite double or to an infinity. -/
theorem ofRatio_cases (s : Bool) (n : Nat) {d : Nat} (hd : 0 < d) :
    (roundUnits n d < overflow ∧
      (ofRatio s n hd).value = some ((signed s (roundUnits n d) : WithTop Int) : WithBot (WithTop Int))) ∨
    (overflow ≤ roundUnits n d ∧ ofRatio s n hd = .infinity s) := by
  unfold ofRatio
  split
  · rename_i h
    exact .inl ⟨h, rfl⟩
  · rename_i h
    exact .inr ⟨not_lt.mp h, rfl⟩

theorem ofRatio_ne_nan (s : Bool) (n : Nat) {d : Nat} (hd : 0 < d) : ofRatio s n hd ≠ nan := by
  intro h
  rcases ofRatio_cases s n hd with ⟨-, hvalue⟩ | ⟨-, hinf⟩
  · rw [h] at hvalue
    cases hvalue
  · rw [h] at hinf
    cases hinf

theorem sub_finite_ne_nan (x y : Finite) : sub (finite x) (finite y) ≠ nan := ofRatio_ne_nan _ _ Nat.one_pos

theorem roundUnits_le {m n : Nat} (h : m ≤ n) : roundUnits m 1 ≤ roundUnits n 1 :=
  roundUnits_mono Nat.one_pos Nat.one_pos (Nat.mul_le_mul_right 1 h)

theorem roundUnits_zero : roundUnits 0 1 = 0 := by decide

/-- Rounding keeps the order. -/
theorem ofRatio_le_ofRatio {s t : Bool} {m n : Nat} (h : signed s m ≤ signed t n) :
    (ofRatio s m Nat.one_pos).le (ofRatio t n Nat.one_pos) = true := by
  have hround : signed s (roundUnits m 1) ≤ signed t (roundUnits n 1) := by
    cases s with
    | true =>
      cases t with
      | true =>
        have hle := roundUnits_le (show n ≤ m by simp [signed] at h; omega)
        simp [signed]
        omega
      | false =>
        have hsigns : -(roundUnits m 1 : Int) ≤ roundUnits n 1 := by omega
        exact hsigns
    | false =>
      cases t with
      | true =>
        have hm : m = 0 := by simp [signed] at h; omega
        have hn : n = 0 := by simp [signed] at h; omega
        rw [hm, hn, roundUnits_zero]
        decide
      | false =>
        have hle := roundUnits_le (show m ≤ n by simp [signed] at h; omega)
        simp [signed]
        omega
  have hoverflow := overflow_pos
  rw [le_iff]
  rcases ofRatio_cases s m Nat.one_pos with ⟨hm, hvm⟩ | ⟨hm, hvm⟩
  · rcases ofRatio_cases t n Nat.one_pos with ⟨hn, hvn⟩ | ⟨hn, hvn⟩
    · exact ⟨_, _, hvm, hvn, by exact_mod_cast hround⟩
    · cases t with
      | true =>
        -- the first number would be at or below the second one, which overflows
        exfalso
        cases s with
        | true => simp [signed] at hround; omega
        | false => simp [signed] at hround; omega
      | false =>
        rw [hvn]
        exact ⟨_, _, hvm, rfl, by exact_mod_cast le_top⟩
  · cases s with
    | true =>
      rw [hvm]
      rcases ofRatio_cases t n Nat.one_pos with ⟨hn, hvn⟩ | ⟨hn, hvn⟩
      · exact ⟨_, _, rfl, hvn, bot_le⟩
      · rw [hvn]
        cases t with
        | true => exact ⟨_, _, rfl, rfl, le_rfl⟩
        | false => exact ⟨_, _, rfl, rfl, bot_le⟩
    | false =>
      rcases ofRatio_cases t n Nat.one_pos with ⟨hn, hvn⟩ | ⟨hn, hvn⟩
      · exfalso
        cases t with
        | true => simp [signed] at hround; omega
        | false => simp [signed] at hround; omega
      · cases t with
        | true =>
          exfalso
          simp [signed] at hround
          omega
        | false =>
          rw [hvm, hvn]
          exact ⟨_, _, rfl, rfl, le_rfl⟩

/-- The difference of two finite doubles keeps the order of the exact differences. -/
theorem sub_le_sub {a b c d : Finite} (h : a.toInt - b.toInt ≤ c.toInt - d.toInt) :
    (sub (finite a) (finite b)).le (sub (finite c) (finite d)) = true := by
  refine ofRatio_le_ofRatio ?_
  rw [signed_sub, signed_sub]
  exact h

/-- Unless the difference is above zero, the first number is not above the second one. -/
theorem le_of_not_pos_sub {x y : Binary64} (hx : x ≠ nan) (hy : y ≠ nan) (h : zero.lt (sub x y) = false) :
    x.le y = true := by
  cases x with
  | nan => exact absurd rfl hx
  | infinity s =>
    cases s with
    | true =>
      obtain ⟨b, hb⟩ := Option.ne_none_iff_exists'.mp (value_ne_none hy)
      exact le_iff.mpr ⟨_, b, rfl, hb, bot_le⟩
    | false =>
      cases y with
      | nan => exact absurd rfl hy
      | infinity t =>
        cases t with
        | true => exact absurd h (by decide)
        | false => rfl
      | finite y => cases h
  | finite x =>
    cases y with
    | nan => exact absurd rfl hy
    | infinity t =>
      cases t with
      | true => cases h
      | false => exact le_iff.mpr ⟨_, _, rfl, rfl, by exact_mod_cast le_top⟩
    | finite y =>
      refine le_finite.mpr ?_
      by_contra hlt
      have hone : (ofRatio false 1 Nat.one_pos).le (sub (finite x) (finite y)) = true := by
        refine ofRatio_le_ofRatio ?_
        rw [signed_sub]
        simp [signed]
        omega
      rw [lt_of_lt_of_le (show zero.lt (ofRatio false 1 Nat.one_pos) = true by decide +kernel) hone] at h
      cases h

/-! ## Reciprocals -/

theorem roundUnits_antitone {n d d' : Nat} (hd : 0 < d) (h : d ≤ d') : roundUnits n d' ≤ roundUnits n d :=
  roundUnits_mono (hd.trans_le h) hd (Nat.mul_le_mul_left n h)

/-- The reciprocal of a positive double overflows up to `2 ^ -1024` and is positive. -/
theorem roundUnits_recip {u : Nat} (hpos : 0 < u) (hlt : u < overflow) :
    (roundUnits (unitRecip) u < overflow ↔ 2 ^ 50 < u) ∧ 0 < roundUnits (unitRecip) u := by
  have hsmall : overflow ≤ roundUnits (unitRecip) (2 ^ 50) := by decide +kernel
  have hlarge : roundUnits (unitRecip) (2 ^ 50 + 1) < overflow := by decide +kernel
  have hlast : 0 < roundUnits (unitRecip) overflow := by decide +kernel
  refine ⟨⟨fun h => ?_, fun h => ?_⟩, hlast.trans_le (roundUnits_antitone hpos hlt.le)⟩
  · by_contra hle
    have hmono := roundUnits_antitone (n := unitRecip) hpos (not_lt.mp hle)
    exact absurd h (not_lt.mpr (hsmall.trans hmono))
  · exact (roundUnits_antitone (Nat.succ_pos _) h).trans_lt hlarge

/-- The reciprocal of a number is a number. -/
theorem recip_ne_nan {x y : Binary64} (h : recip x = some y) (hx : x ≠ nan) : y ≠ nan := by
  rintro rfl
  cases x with
  | nan => exact hx rfl
  | infinity s => cases h
  | finite a =>
    by_cases hpos : 0 < a.units
    · rw [recip, dif_pos hpos] at h
      exact ofRatio_ne_nan _ _ _ (Option.some.inj h)
    · rw [recip, dif_neg hpos] at h
      cases h

/-- Exactly the finite doubles above `2 ^ -1024` have a finite positive reciprocal. -/
theorem recip_finite_pos_iff {x : Binary64} :
    (∃ r, recip x = some (finite r) ∧ 0 < r.toInt) ↔ ∃ a, x = finite a ∧ 2 ^ 50 < a.toInt := by
  cases x with
  | nan => simp [recip]
  | infinity s => cases s <;> simp [recip, Finite.toInt]
  | finite a =>
    by_cases hpos : 0 < a.units
    · obtain ⟨hfinite, hround⟩ := roundUnits_recip hpos a.units_lt
      have hrecip : recip (finite a) = some (ofRatio a.negative (unitRecip) hpos) := dif_pos hpos
      constructor
      · rintro ⟨r, hr, hrpos⟩
        rw [hrecip] at hr
        refine ⟨a, rfl, ?_⟩
        rcases ofRatio_cases a.negative (unitRecip) hpos with ⟨hlt, hvalue⟩ | ⟨-, hinf⟩
        · rw [Option.some.inj hr] at hvalue
          have hint : r.toInt = signed a.negative (roundUnits (unitRecip) a.units) := by
            have h := Option.some.inj hvalue
            exact_mod_cast h
          have hsign : a.negative = false := by
            by_contra hneg
            rw [hint, (Bool.not_eq_false _).mp hneg, signed, if_pos rfl] at hrpos
            omega
          rw [Finite.toInt_of_pos hsign]
          exact_mod_cast hfinite.mp hlt
        · rw [hinf] at hr
          cases hr
      · rintro ⟨b, hb, hlt⟩
        cases hb
        have hsign : a.negative = false := by
          by_contra hneg
          have hle := Finite.toInt_nonpos hneg
          omega
        have hunits : 2 ^ 50 < a.units := by
          rw [Finite.toInt_of_pos hsign] at hlt
          exact_mod_cast hlt
        rw [hrecip, ofRatio, dif_pos (hfinite.mpr hunits)]
        refine ⟨_, rfl, lt_of_lt_of_eq ?_ (Finite.toInt_of_pos ?_).symm⟩
        · exact_mod_cast hround
        · exact hsign
    · have hzero : a.units = 0 := by omega
      constructor
      · rintro ⟨r, hr, -⟩
        rw [recip, dif_neg hpos] at hr
        cases hr
      · rintro ⟨b, hb, hlt⟩
        cases hb
        simp [Finite.toInt, hzero] at hlt

end Binary64

/-!
## Arithmetic of doubles

Sums, products, quotients and `round` to some decimals: each is the nearest double to an exact number. `sum` carries the rounding
errors of its additions along and adds them at the end.
-/

namespace Binary64

theorem ten_pow_pos (digits : Nat) : 0 < 10 ^ digits := Nat.pow_pos (by decide)

theorem unit_pos : 0 < 2 ^ 1074 := Nat.two_pow_pos 1074

/-- `n / d` of two integers. -/
def ofQuotient (n : Nat) {d : Nat} (hd : 0 < d) : Binary64 := ofRatio false (n * 2 ^ 1074) hd

/-- The literal that writes `n` with its last digits behind the point. -/
def decimal (n digits : Nat) : Binary64 := ofQuotient n (ten_pow_pos digits)

/-- `round(x, digits)`: the exact number to the nearest decimal, to an even one from halfway, and that to the nearest double. -/
def roundDecimals (digits : Nat) : Binary64 → Binary64
  | .finite x => ofRatio x.negative (halfEven (x.units * 10 ^ digits) (2 ^ 1074) * 2 ^ 1074) (ten_pow_pos digits)
  | x => x

/-- `-x` -/
def neg : Binary64 → Binary64
  | .nan => .nan
  | .infinity s => .infinity !s
  | .finite x => .finite { x with negative := !x.negative }

/-- `x + y` -/
def add (x y : Binary64) : Binary64 := sub x (neg y)

/-- `abs(x)` -/
def abs : Binary64 → Binary64
  | .nan => .nan
  | .infinity _ => .infinity false
  | .finite x => .finite { x with negative := false }

/-- `x * y` -/
def mul : Binary64 → Binary64 → Binary64
  | .nan, _ => .nan
  | _, .nan => .nan
  | .infinity s, .infinity t => .infinity (s ^^ t)
  | .infinity s, .finite y => if y.units = 0 then .nan else .infinity (s ^^ y.negative)
  | .finite x, .infinity t => if x.units = 0 then .nan else .infinity (x.negative ^^ t)
  | .finite x, .finite y => ofRatio (x.negative ^^ y.negative) (x.units * y.units) unit_pos

/-- `x / y`, when `y` is not zero. -/
def div : Binary64 → Binary64 → Option Binary64
  | .nan, .finite y => if y.units = 0 then none else some .nan
  | .nan, _ => some .nan
  | _, .nan => some .nan
  | .infinity _, .infinity _ => some .nan
  | .infinity s, .finite y => if y.units = 0 then none else some (.infinity (s ^^ y.negative))
  | .finite x, .infinity t => some (.finite ⟨x.negative ^^ t, 0, representable_zero, overflow_pos⟩)
  | .finite x, .finite y => if h : 0 < y.units then some (ofRatio (x.negative ^^ y.negative) (x.units * 2 ^ 1074) h) else none

/-- `x == y` -/
def eq (x y : Binary64) : Bool := x.le y && y.le x

/-- The additions of `sum`: the running sum, and what its roundings lost. -/
def sumLoop (total lost : Binary64) : List Binary64 → Binary64
  | [] =>
    match lost with
    | .finite c => if c.units = 0 then total else add total lost
    | _ => total
  | x :: xs =>
    let next := add total x
    sumLoop next (add lost (if (abs x).le (abs total) then add (sub total next) x else add (sub x next) total)) xs

/-- `sum` of some doubles. -/
def sum : List Binary64 → Binary64
  | [] => zero
  | x :: xs => sumLoop (add zero x) zero xs

/-- A double that is finite. -/
def finite? : Binary64 → Option Binary64
  | .finite x => some (.finite x)
  | _ => none

/-- `float(n)`, none for an `OverflowError`. -/
def ofInt? (n : Int) : Option Binary64 := finite? (ofRatio (decide (n < 0)) (n.natAbs * 2 ^ 1074) Nat.one_pos)

/-- `round(x)`, which only finite numbers have. -/
def round? : Binary64 → Option Int
  | .finite x => some (signed x.negative (halfEven x.units (2 ^ 1074)))
  | _ => none

/-- `min(x, y)`: the first one, unless the second one is less. -/
def pyMin (x y : Binary64) : Binary64 := if y.lt x then y else x

/-- `max(x, y)`: the first one, unless the second one is greater. -/
def pyMax (x y : Binary64) : Binary64 := if x.lt y then y else x

theorem finite?_some {x y : Binary64} (h : finite? x = some y) : ∃ f : Finite, x = .finite f ∧ y = .finite f := by
  cases x with
  | nan => cases h
  | infinity s => cases h
  | finite f =>
    cases h
    exact ⟨f, rfl, rfl⟩

theorem ofRatio_finite {s : Bool} {n d : Nat} {hd : 0 < d} {x : Finite} (h : ofRatio s n hd = .finite x) :
    x.negative = s ∧ x.units = roundUnits n d := by
  unfold ofRatio at h
  split at h
  · cases h
    exact ⟨rfl, rfl⟩
  · cases h

theorem ofInt?_some {n : Int} {x : Binary64} (h : ofInt? n = some x) :
    ∃ f : Finite, x = .finite f ∧ f.negative = decide (n < 0) ∧ f.units = roundUnits (n.natAbs * 2 ^ 1074) 1 := by
  obtain ⟨f, hf, hx⟩ := finite?_some h
  exact ⟨f, hx, ofRatio_finite hf⟩

theorem mul_finite (x y : Finite) :
    (finite x).mul (finite y) = ofRatio (x.negative ^^ y.negative) (x.units * y.units) unit_pos := by
  rw [mul]

theorem ofQuotient_ne_nan (n : Nat) {d : Nat} (hd : 0 < d) : ofQuotient n hd ≠ nan := ofRatio_ne_nan _ _ hd

end Binary64
