import Mathlib.Data.List.Lex
import Mathlib.Data.String.Basic
import Mathlib.Algebra.Order.Group.Nat

/-!
# Times in UTC

An aware `datetime` in UTC is its number of microseconds since the first day of the first year. Adding a number of seconds fails
outside the years 1 to 9999. `isoformat` writes the civil fields of a time, and its microseconds when there are any; times are ordered as
their texts are.
-/

/-- A time in UTC. -/
structure PyDateTime where
  microseconds : Nat
  deriving DecidableEq, Repr

namespace PyDateTime

/-- The days of the years 1 to 9999. -/
def maxOrdinal : Nat := 3652059

def microsecondsPerDay : Nat := 86400 * 1000000

/-- `t + timedelta(seconds=seconds)`; none for an `OverflowError`. -/
def addSeconds (t : PyDateTime) (seconds : Int) : Option PyDateTime :=
  let sum : Int := t.microseconds + seconds * 1000000
  if 0 ≤ sum ∧ sum < maxOrdinal * microsecondsPerDay then some ⟨sum.toNat⟩ else none

/-- The days before the months of a year that is no leap year. -/
def daysBeforeMonth : List Nat := [0, 31, 59, 90, 120, 151, 181, 212, 243, 273, 304, 334]

/-- The day `day` of a year, as a month and a day of it. -/
def monthAndDay (leap : Bool) (day : Nat) : Nat × Nat :=
  let before (month : Nat) : Nat := daysBeforeMonth.getD month 0 + if leap ∧ 1 < month then 1 else 0
  let month := ((List.range 12).filter fun month => before month ≤ day).length - 1
  (month + 1, day - before month + 1)

/-- The year, the month and the day of the day `n` after the first one. -/
def civil (n : Nat) : Nat × Nat × Nat :=
  let (n400, n) := (n / 146097, n % 146097)
  let (n100, n) := (n / 36524, n % 36524)
  let (n4, n) := (n / 1461, n % 1461)
  let (n1, n) := (n / 365, n % 365)
  let year := 400 * n400 + 100 * n100 + 4 * n4 + n1 + 1
  if n1 = 4 ∨ n100 = 4 then (year - 1, 12, 31)
  else (year, monthAndDay (decide (n1 = 3 ∧ (n4 ≠ 24 ∨ n100 = 3))) n)

/-- A number in at least `width` digits. -/
def padded (width n : Nat) : List Char := List.leftpad width '0' (Nat.toDigits 10 n)

/-- `isoformat`. -/
def isoformat (t : PyDateTime) : String :=
  let (year, month, day) := civil (t.microseconds / microsecondsPerDay)
  let seconds := t.microseconds % microsecondsPerDay / 1000000
  let micros := t.microseconds % 1000000
  String.ofList (padded 4 year ++ '-' :: padded 2 month ++ '-' :: padded 2 day ++ 'T' :: padded 2 (seconds / 3600) ++
    ':' :: padded 2 (seconds / 60 % 60) ++ ':' :: padded 2 (seconds % 60) ++
    (if micros = 0 then [] else '.' :: padded 6 micros) ++ "+00:00".toList)

/-- The last second of February 2024, and the next day a microsecond later. -/
example : isoformat ⟨738944 * 86400000000 + 86399000000⟩ = "2024-02-29T23:59:59+00:00" ∧
    isoformat ⟨738945 * 86400000000 + 1⟩ = "2024-03-01T00:00:00.000001+00:00" := by decide +kernel

/-! ## The order of the texts -/

/-- A text that differs within its first part is ordered by it. -/
theorem lt_of_front {x y : List Char} (hlength : x.length = y.length) (h : x < y) (u v : List Char) : x ++ u < y ++ v := by
  induction x generalizing y with
  | nil =>
    cases y with
    | nil => exact absurd h (List.lt_irrefl [])
    | cons d y => cases hlength
  | cons c x ih =>
    cases y with
    | nil => cases hlength
    | cons d y =>
      rw [List.cons_append, List.cons_append, List.cons_lt_cons_iff]
      rcases List.cons_lt_cons_iff.mp h with hlt | ⟨rfl, hlt⟩
      · exact .inl hlt
      · exact .inr ⟨rfl, ih (Nat.succ.inj hlength) hlt⟩

theorem padded_eq_replicate {width n : Nat} (h : n < 10) :
    padded (width + 1) n = List.replicate width '0' ++ [Nat.digitChar n] := by
  rw [padded, Nat.toDigits_of_lt_base h, List.leftpad]
  simp

/-- The last digit of a number in some digits. -/
theorem padded_succ {width n : Nat} (hwidth : 0 < width) : padded (width + 1) n = padded width (n / 10) ++ [Nat.digitChar (n % 10)] := by
  rcases Nat.lt_or_ge n 10 with h | h
  · obtain ⟨w, rfl⟩ : ∃ w, width = w + 1 := ⟨width - 1, by omega⟩
    rw [padded_eq_replicate h, Nat.div_eq_of_lt h, padded_eq_replicate (by decide), Nat.mod_eq_of_lt h]
    rw [List.replicate_succ', List.append_assoc, List.append_assoc]
    rfl
  · rw [padded, padded, Nat.toDigits_of_base_le (by decide) h, List.leftpad, List.leftpad, List.length_append, List.length_singleton,
      Nat.add_sub_add_right, List.append_assoc]

theorem length_padded (width : Nat) {n : Nat} (h : n < 10 ^ (width + 1)) : (padded (width + 1) n).length = width + 1 := by
  induction width generalizing n with
  | zero =>
    rw [padded_eq_replicate (by omega)]
    rfl
  | succ width ih =>
    rw [padded_succ (Nat.succ_pos _), List.length_append, ih (by rw [Nat.pow_succ] at h; omega), List.length_singleton]

theorem digitChar_lt : ∀ a < 10, ∀ b < 10, a < b → Nat.digitChar a < Nat.digitChar b := by decide

/-- Numbers in as many digits are ordered as their texts are. -/
theorem padded_lt (width : Nat) {n m : Nat} (hm : m < 10 ^ (width + 1)) (h : n < m) : padded (width + 1) n < padded (width + 1) m := by
  induction width generalizing n m with
  | zero =>
    have hm' : m < 10 := by omega
    rw [padded_eq_replicate (by omega), padded_eq_replicate hm']
    exact List.cons_lt_cons_iff.mpr (.inl (digitChar_lt n (by omega) m hm' h))
  | succ width ih =>
    rw [Nat.pow_succ] at hm
    rw [padded_succ (Nat.succ_pos _), padded_succ (Nat.succ_pos _)]
    rcases Nat.lt_or_ge (n / 10) (m / 10) with hlt | hge
    · refine lt_of_front ?_ (ih (by omega) hlt) _ _
      rw [length_padded width (by omega), length_padded width (by omega)]
    · have heq : n / 10 = m / 10 := by omega
      rw [heq]
      exact List.append_left_lt (List.cons_lt_cons_iff.mpr (.inl (digitChar_lt _ (by omega) _ (by omega) (by omega))))

/-! ## The civil fields -/

def isLeap (year : Nat) : Bool := decide (year % 4 = 0 ∧ (year % 100 ≠ 0 ∨ year % 400 = 0))

/-- The days before a year. -/
def daysBeforeYear (year : Nat) : Nat := 365 * (year - 1) + (year - 1) / 4 - (year - 1) / 100 + (year - 1) / 400

/-- The length of a year. -/
def daysInYear (year : Nat) : Nat := 365 + if isLeap year then 1 else 0

theorem daysBeforeYear_succ {year : Nat} (h : 0 < year) : daysBeforeYear (year + 1) = daysBeforeYear year + daysInYear year := by
  obtain ⟨y, rfl⟩ : ∃ y, year = y + 1 := ⟨year - 1, by omega⟩
  have hmono : y / 100 ≤ y / 4 := by omega
  rw [daysBeforeYear, daysBeforeYear, daysInYear, isLeap, Nat.add_sub_cancel, Nat.add_sub_cancel, Nat.succ_div, Nat.succ_div, Nat.succ_div]
  simp only [Nat.dvd_iff_mod_eq_zero, decide_eq_true_eq]
  generalize y / 4 = fours, y / 100 = hundreds, y / 400 = cycles at *
  split <;> split <;> split <;> split <;> omega

/-- A year by its place in the cycles of the calendar. -/
theorem daysBeforeYear_cycles {a b c d : Nat} (hb : b ≤ 3) (hc : c ≤ 24) (hd : d ≤ 3) :
    daysBeforeYear (400 * a + 100 * b + 4 * c + d + 1) = 146097 * a + 36524 * b + 1461 * c + 365 * d ∧
      isLeap (400 * a + 100 * b + 4 * c + d + 1) = decide (d = 3 ∧ (c ≠ 24 ∨ b = 3)) := by
  have hfour : (400 * a + 100 * b + 4 * c + d) / 4 = 100 * a + 25 * b + c := by omega
  have hhundred : (400 * a + 100 * b + 4 * c + d) / 100 = 4 * a + b := by omega
  have hcycle : (400 * a + 100 * b + 4 * c + d) / 400 = a := by omega
  constructor
  · rw [daysBeforeYear, Nat.add_sub_cancel, hfour, hhundred, hcycle]
    omega
  · rw [isLeap, decide_eq_decide]
    omega

/-- A day is one of its civil year. -/
theorem civil_eq (n : Nat) : ∃ year day, 0 < year ∧ n = daysBeforeYear year + day ∧ day < daysInYear year ∧
    civil n = (year, monthAndDay (isLeap year) day) := by
  obtain ⟨a, ha⟩ : ∃ a, a = n / 146097 := ⟨_, rfl⟩
  obtain ⟨b, hb⟩ : ∃ b, b = n % 146097 / 36524 := ⟨_, rfl⟩
  obtain ⟨c, hc⟩ : ∃ c, c = n % 146097 % 36524 / 1461 := ⟨_, rfl⟩
  obtain ⟨d, hd⟩ : ∃ d, d = n % 146097 % 36524 % 1461 / 365 := ⟨_, rfl⟩
  obtain ⟨r, hr⟩ : ∃ r, r = n % 146097 % 36524 % 1461 % 365 := ⟨_, rfl⟩
  have hn : n = 146097 * a + 36524 * b + 1461 * c + 365 * d + r := by omega
  have hcivil : civil n = if d = 4 ∨ b = 4 then (400 * a + 100 * b + 4 * c + d, 12, 31)
      else (400 * a + 100 * b + 4 * c + d + 1, monthAndDay (decide (d = 3 ∧ (c ≠ 24 ∨ b = 3))) r) := by
    subst ha hb hc hd hr
    rfl
  have hcle : c ≤ 24 := by omega
  have hrlt : r < 365 := by omega
  have hlastDay : monthAndDay true 365 = (12, 31) := by decide
  rw [hcivil]
  by_cases hb4 : b = 4
  · -- the last day of four centuries
    obtain ⟨hbefore, hleap⟩ := daysBeforeYear_cycles (a := a) (b := 3) (c := 24) (d := 3) (by decide) (by decide) (by decide)
    refine ⟨400 * a + 100 * 3 + 4 * 24 + 3 + 1, 365, Nat.succ_pos _, ?_, ?_, ?_⟩
    · rw [hbefore]
      omega
    · rw [daysInYear, hleap]
      decide
    · rw [hleap, if_pos (.inr hb4), ← hlastDay]
      exact Prod.ext (by omega) rfl
  · by_cases hd4 : d = 4
    · -- the last day of four years
      obtain ⟨hbefore, hleap⟩ := daysBeforeYear_cycles (a := a) (b := b) (c := c) (d := 3) (by omega) hcle (by decide)
      have htrue : decide (3 = 3 ∧ (c ≠ 24 ∨ b = 3)) = true := by
        rw [decide_eq_true_eq]
        omega
      refine ⟨400 * a + 100 * b + 4 * c + 3 + 1, 365, Nat.succ_pos _, ?_, ?_, ?_⟩
      · rw [hbefore]
        omega
      · rw [daysInYear, hleap, htrue]
        decide
      · rw [hleap, htrue, if_pos (.inl hd4), ← hlastDay]
        exact Prod.ext (by omega) rfl
    · obtain ⟨hbefore, hleap⟩ := daysBeforeYear_cycles (a := a) (b := b) (c := c) (d := d) (by omega) hcle (by omega)
      refine ⟨400 * a + 100 * b + 4 * c + d + 1, r, Nat.succ_pos _, ?_, ?_, ?_⟩
      · rw [hbefore]
        omega
      · rw [daysInYear]
        omega
      · rw [hleap, if_neg (by omega)]

theorem daysBeforeYear_lt {year later : Nat} (h : 0 < year) (hlt : year < later) :
    daysBeforeYear year + daysInYear year ≤ daysBeforeYear later := by
  induction later, hlt using Nat.le_induction with
  | base => rw [← daysBeforeYear_succ h]
  | succ later hle ih => exact ih.trans (by rw [daysBeforeYear_succ (h.trans hle)]; omega)

/-- Pairs and triples of fields are ordered as lists of them are. -/
theorem monthAndDay_succ : ∀ leap : Bool, ∀ day < 366, (monthAndDay leap day).1 < (monthAndDay leap (day + 1)).1 ∨
    (monthAndDay leap day).1 = (monthAndDay leap (day + 1)).1 ∧ (monthAndDay leap day).2 < (monthAndDay leap (day + 1)).2 := by
  decide +kernel

theorem monthAndDay_lt_hundred : ∀ leap : Bool, ∀ day < 366, (monthAndDay leap day).1 < 100 ∧ (monthAndDay leap day).2 < 100 := by
  decide +kernel

theorem monthAndDay_lt (leap : Bool) {day later : Nat} (hlt : day < later) (hlater : later < 366) :
    (monthAndDay leap day).1 < (monthAndDay leap later).1 ∨
      (monthAndDay leap day).1 = (monthAndDay leap later).1 ∧ (monthAndDay leap day).2 < (monthAndDay leap later).2 := by
  induction later, hlt using Nat.le_induction with
  | base => exact monthAndDay_succ leap day (by omega)
  | succ later hle ih =>
    have hnext := monthAndDay_succ leap later (by omega)
    have hbefore := ih (by omega)
    omega

theorem daysInYear_le (year : Nat) : daysInYear year ≤ 366 := by
  rw [daysInYear]
  split <;> omega

/-! ## Texts of the fields -/

theorem lt_append {x y u v : List Char} (hlength : x.length = y.length) (h : x < y ∨ x = y ∧ u < v) : x ++ u < y ++ v := by
  rcases h with h | ⟨rfl, h⟩
  · exact lt_of_front hlength h u v
  · exact List.append_left_lt h

theorem lt_of_cons {c : Char} {u v : List Char} (h : u < v) : c :: u < c :: v := List.cons_lt_cons_iff.mpr (.inr ⟨rfl, h⟩)

/-- The text of a day. -/
def dateText (fields : Nat × Nat × Nat) : List Char :=
  padded 4 fields.1 ++ '-' :: padded 2 fields.2.1 ++ '-' :: padded 2 fields.2.2

/-- The fields of a day have as many digits as they are written with. -/
structure Fits (fields : Nat × Nat × Nat) : Prop where
  year : fields.1 < 10000
  month : fields.2.1 < 100
  day : fields.2.2 < 100

theorem length_dateText {fields : Nat × Nat × Nat} (h : Fits fields) : (dateText fields).length = 10 := by
  simp only [dateText, List.length_append, List.length_cons, length_padded 3 h.year, length_padded 1 h.month,
    length_padded 1 h.day]

theorem dateText_lt {fields later : Nat × Nat × Nat} (hfields : Fits fields) (hlater : Fits later)
    (h : fields.1 < later.1 ∨ fields.1 = later.1 ∧ (fields.2.1 < later.2.1 ∨ fields.2.1 = later.2.1 ∧ fields.2.2 < later.2.2)) :
    dateText fields < dateText later := by
  have hyear : (padded 4 fields.1).length = (padded 4 later.1).length := by
    rw [length_padded 3 hfields.year, length_padded 3 hlater.year]
  have hmonth : (padded 2 fields.2.1).length = (padded 2 later.2.1).length := by
    rw [length_padded 1 hfields.month, length_padded 1 hlater.month]
  rw [dateText, dateText, List.append_assoc, List.append_assoc, List.cons_append, List.cons_append]
  refine lt_append hyear ?_
  rcases h with h | ⟨heq, h⟩
  · exact .inl (padded_lt 3 hlater.year h)
  refine .inr ⟨by rw [heq], lt_of_cons (lt_append hmonth ?_)⟩
  rcases h with h | ⟨heq, h⟩
  · exact .inl (padded_lt 1 hlater.month h)
  · exact .inr ⟨by rw [heq], lt_of_cons (padded_lt 1 hlater.day h)⟩

theorem year_lt {n year day : Nat} (hn : n < maxOrdinal) (hsplit : n = daysBeforeYear year + day) : year < 10000 := by
  by_contra hge
  have hlast : daysBeforeYear 9999 + daysInYear 9999 = maxOrdinal := by decide
  have hle : daysBeforeYear 9999 + daysInYear 9999 ≤ daysBeforeYear year := daysBeforeYear_lt (by decide) (by omega)
  omega

theorem fits_civil {n : Nat} (hn : n < maxOrdinal) : Fits (civil n) := by
  obtain ⟨year, day, -, hsplit, hday, hcivil⟩ := civil_eq n
  have hle := daysInYear_le year
  have hfields := monthAndDay_lt_hundred (isLeap year) day (by omega)
  rw [hcivil]
  exact ⟨year_lt hn hsplit, hfields.1, hfields.2⟩

/-- Days are ordered as their texts are. -/
theorem civil_lt {n m : Nat} (hm : m < maxOrdinal) (h : n < m) : dateText (civil n) < dateText (civil m) := by
  refine dateText_lt (fits_civil (h.trans hm)) (fits_civil hm) ?_
  obtain ⟨year, day, hpos, hsplit, hday, hcivil⟩ := civil_eq n
  obtain ⟨year', day', hpos', hsplit', hday', hcivil'⟩ := civil_eq m
  rw [hcivil, hcivil']
  rcases Nat.lt_trichotomy year year' with hlt | rfl | hgt
  · exact .inl hlt
  · have hle := daysInYear_le year
    exact .inr ⟨rfl, monthAndDay_lt _ (by omega) (by omega)⟩
  · have hbefore := daysBeforeYear_lt hpos' hgt
    omega

/-- The text of a second of a day. -/
def clockText (seconds : Nat) : List Char :=
  'T' :: padded 2 (seconds / 3600) ++ ':' :: padded 2 (seconds / 60 % 60) ++ ':' :: padded 2 (seconds % 60)

theorem length_clockText {seconds : Nat} (h : seconds < 86400) : (clockText seconds).length = 9 := by
  simp only [clockText, List.length_append, List.length_cons, length_padded 1 (n := seconds / 3600) (by omega),
    length_padded 1 (n := seconds / 60 % 60) (by omega), length_padded 1 (n := seconds % 60) (by omega)]

theorem clockText_lt {seconds later : Nat} (hlater : later < 86400) (h : seconds < later) : clockText seconds < clockText later := by
  have hhour : (padded 2 (seconds / 3600)).length = (padded 2 (later / 3600)).length := by
    rw [length_padded 1 (by omega), length_padded 1 (by omega)]
  have hminute : (padded 2 (seconds / 60 % 60)).length = (padded 2 (later / 60 % 60)).length := by
    rw [length_padded 1 (by omega), length_padded 1 (by omega)]
  simp only [clockText, List.cons_append, List.append_assoc]
  refine lt_of_cons (lt_append hhour ?_)
  by_cases hsame : seconds / 3600 = later / 3600
  · refine .inr ⟨by rw [hsame], lt_of_cons (lt_append hminute ?_)⟩
    by_cases hsame' : seconds / 60 % 60 = later / 60 % 60
    · exact .inr ⟨by rw [hsame'], lt_of_cons (padded_lt 1 (by omega) (by omega))⟩
    · exact .inl (padded_lt 1 (by omega) (by omega))
  · exact .inl (padded_lt 1 (by omega) (by omega))

/-- The text of a number of microseconds, and of the offset of UTC. -/
def fractionText (micros : Nat) : List Char := (if micros = 0 then [] else '.' :: padded 6 micros) ++ "+00:00".toList

/-- A text without a fraction comes before those with one: a plus sign comes before a point. -/
theorem fractionText_lt {micros later : Nat} (hlater : later < 1000000) (h : micros < later) :
    fractionText micros < fractionText later := by
  rw [fractionText, fractionText, if_neg (by omega : later ≠ 0)]
  by_cases hzero : micros = 0
  · rw [if_pos hzero]
    exact List.cons_lt_cons_iff.mpr (.inl (by decide))
  · rw [if_neg hzero]
    refine lt_append ?_ (.inl (lt_of_cons (padded_lt 5 hlater h)))
    rw [List.length_cons, List.length_cons, length_padded 5 (h.trans hlater), length_padded 5 hlater]

theorem toList_isoformat (t : PyDateTime) : t.isoformat.toList = dateText (civil (t.microseconds / microsecondsPerDay)) ++
    (clockText (t.microseconds % microsecondsPerDay / 1000000) ++ fractionText (t.microseconds % 1000000)) := by
  rw [isoformat, String.toList_ofList]
  simp only [dateText, clockText, fractionText, List.append_assoc, List.cons_append]

/-- The times that a `datetime` has. -/
def InRange (t : PyDateTime) : Prop := t.microseconds < maxOrdinal * microsecondsPerDay

/-- What an addition gives can be written. -/
theorem addSeconds_some {t sum : PyDateTime} {seconds : Int} (h : t.addSeconds seconds = some sum) :
    sum.InRange ∧ (sum.microseconds : Int) = t.microseconds + seconds * 1000000 := by
  unfold addSeconds at h
  dsimp only at h
  split at h
  · rename_i hrange
    cases h
    rw [maxOrdinal, microsecondsPerDay] at hrange
    refine ⟨?_, Int.toNat_of_nonneg hrange.1⟩
    change (t.microseconds + seconds * 1000000 : Int).toNat < 3652059 * (86400 * 1000000)
    omega
  · cases h

theorem isoformat_lt {s t : PyDateTime} (ht : t.InRange) (h : s.microseconds < t.microseconds) : s.isoformat < t.isoformat := by
  rw [InRange, maxOrdinal, microsecondsPerDay] at ht
  refine String.lt_iff_toList_lt.mpr ?_
  rw [toList_isoformat, toList_isoformat]
  have hday : t.microseconds / microsecondsPerDay < maxOrdinal := by
    rw [maxOrdinal, microsecondsPerDay]
    omega
  have hday' : s.microseconds / microsecondsPerDay ≤ t.microseconds / microsecondsPerDay := Nat.div_le_div_right (Nat.le_of_lt h)
  refine lt_append ?_ ?_
  · rw [length_dateText (fits_civil (Nat.lt_of_le_of_lt hday' hday)), length_dateText (fits_civil hday)]
  rcases Nat.lt_or_eq_of_le hday' with hlt | heq
  · exact .inl (civil_lt hday hlt)
  refine .inr ⟨by rw [heq], ?_⟩
  rw [microsecondsPerDay] at heq ⊢
  refine lt_append ?_ ?_
  · rw [length_clockText (by omega), length_clockText (by omega)]
  by_cases hsecond : s.microseconds % 86400000000 / 1000000 = t.microseconds % 86400000000 / 1000000
  · exact .inr ⟨by rw [hsecond], fractionText_lt (by omega) (by omega)⟩
  · exact .inl (clockText_lt (by omega) (by omega))

/-- Times are ordered as their texts are. -/
theorem isoformat_lt_iff {s t : PyDateTime} (hs : s.InRange) (ht : t.InRange) :
    s.isoformat < t.isoformat ↔ s.microseconds < t.microseconds := by
  refine ⟨fun h => ?_, isoformat_lt ht⟩
  rcases Nat.lt_trichotomy s.microseconds t.microseconds with hlt | heq | hgt
  · exact hlt
  · have hsame : s = t := by
      cases s
      cases t
      exact congrArg _ heq
    rw [hsame] at h
    exact absurd h (String.lt_irrefl _)
  · exact absurd (String.lt_trans h (isoformat_lt hs hgt)) (String.lt_irrefl _)

end PyDateTime
