import Mathlib.Algebra.Order.BigOperators.Group.List
import XbowPerso.ReconPriority

namespace XbowPerso

namespace ReconPriority

open Binary64 (Finite)

/-! ## The factor -/

/-- A number from zero to one, zero left out of the name of its sign. -/
def Fraction (x : Binary64) : Prop := ∃ f : Finite, x = .finite f ∧ f.negative = false ∧ f.units ≤ 2 ^ 1074

variable {x y : Binary64}

theorem le_of_lt (h : x.lt y = true) : x.le y = true := by
  obtain ⟨a, b, ha, hb, hab⟩ := Binary64.lt_iff.mp h
  exact Binary64.le_iff.mpr ⟨a, b, ha, hb, hab.le⟩

theorem one_value : Binary64.one.value = some (((2 ^ 1074 : Int) : WithTop Int) : WithBot (WithTop Int)) := by decide +kernel

theorem fraction_of_between (hzero : Binary64.zero.lt x = true) (hone : x.le .one = true) : Fraction x := by
  cases x with
  | nan => cases hone
  | infinity s =>
    cases s with
    | true => exact absurd hzero (by decide)
    | false => exact absurd hone (by decide +kernel)
  | finite f =>
    have hpos : 0 < f.toInt := by simpa [Binary64.lt, Binary64.zero, Finite.toInt] using hzero
    have hsign : f.negative = false := by
      by_contra hneg
      exact absurd (Finite.toInt_nonpos hneg) (not_le.mpr hpos)
    refine ⟨f, rfl, hsign, ?_⟩
    obtain ⟨a, b, ha, hb, hab⟩ := Binary64.le_iff.mp hone
    cases ha
    cases one_value.symm.trans hb
    rw [Finite.toInt_of_pos hsign] at hab
    exact_mod_cast hab

/-- The factor damps: it is above zero and at most one. -/
theorem confidenceFactor_fraction (scores : Dict String Binary64) (signals : List String) :
    Fraction (confidenceFactor scores signals) := by
  unfold confidenceFactor
  dsimp only
  split
  · exact fraction_of_between (by decide +kernel) (by decide +kernel)
  · generalize mean _ _ = q
    have hmin : (Binary64.pyMin .one q).le .one = true := by
      unfold Binary64.pyMin
      split
      · rename_i h
        exact le_of_lt h
      · decide +kernel
    unfold Binary64.pyMax
    split
    · rename_i h
      exact fraction_of_between (Binary64.lt_of_lt_of_le (show Binary64.zero.lt (.decimal 5 1) = true by decide +kernel) (le_of_lt h)) hmin
    · exact fraction_of_between (by decide +kernel) (by decide +kernel)

theorem roundUnits_small : ∀ k < 26, Binary64.roundUnits (k * 2 ^ 1074) 1 = k * 2 ^ 1074 := by decide +kernel

example : Binary64.roundUnits (5 * 2 ^ 1074) 1 = 5 * 2 ^ 1074 := by decide +kernel

variable {k : Nat}

/-- A small integer times a factor that damps is not above the integer. -/
theorem roundUnits_product_le {units : Nat} (hk : k < 26) (hunits : units ≤ 2 ^ 1074) :
    Binary64.roundUnits (k * 2 ^ 1074 * units) (2 ^ 1074) ≤ k * 2 ^ 1074 := by
  have hcross : k * 2 ^ 1074 * units * 1 ≤ k * 2 ^ 1074 * 2 ^ 1074 := by
    rw [Nat.mul_one]
    exact Nat.mul_le_mul_left _ hunits
  exact (Binary64.roundUnits_mono Binary64.unit_pos Nat.one_pos hcross).trans (roundUnits_small k hk).le

theorem signed_true_nonpos (n : Nat) : Binary64.signed true n ≤ 0 := Int.neg_nonpos_of_nonneg (Int.natCast_nonneg n)

variable {raw : Int}

variable {bound : Int}

theorem signed_false_le {n : Nat} (hneg : ¬ raw < 0) (hraw : raw ≤ bound) (hn : n ≤ raw.natAbs) :
    Binary64.signed false n ≤ bound := by
  show (n : Int) ≤ bound
  omega

theorem natAbs_lt (hneg : ¬ raw < 0) (hraw : raw ≤ 25) : raw.natAbs < 26 := by omega

variable {n : Int}

theorem roundToInt_ok {y : Finite} (h : roundToInt (.finite y) = .ok n) :
    n = Binary64.signed y.negative (Binary64.halfEven y.units (2 ^ 1074)) := by
  unfold roundToInt Binary64.round? at h
  exact (Except.ok.inj h).symm

variable {α β : Type}

theorem elim_ok {x : Option α} {e : PyError} {f : α → Except PyError β} {b : β} (h : x.elim (.error e) f = .ok b) :
    ∃ a, x = some a ∧ f a = .ok b := by
  cases x with
  | none => cases h
  | some a => exact ⟨a, rfl, h⟩

theorem map_ok {x : Except PyError α} {f : α → β} {b : β} (h : x.map f = .ok b) : ∃ a, x = .ok a ∧ f a = b := by
  cases x with
  | error e => cases h
  | ok a =>
    cases h
    exact ⟨a, rfl, rfl⟩

theorem roundToInt_finite {q : Binary64} (h : roundToInt q = .ok n) :
    ∃ y : Finite, q = .finite y ∧ n = Binary64.signed y.negative (Binary64.halfEven y.units (2 ^ 1074)) := by
  cases q with
  | nan => cases h
  | infinity s => cases h
  | finite y => exact ⟨y, rfl, roundToInt_ok h⟩

variable {factor : Binary64}

/-- A damped boost is not above a bound of the boost. -/
theorem damped_le (hfactor : Fraction factor) (hraw : raw ≤ bound) (hnonneg : 0 ≤ bound)
    (hbound : bound ≤ 25) (h : damped raw factor = .ok n) : n ≤ bound := by
  obtain ⟨f, rfl, hsign, hunits⟩ := hfactor
  obtain ⟨q, hq, hround⟩ := elim_ok h
  obtain ⟨x, rfl, hxsign, hxunits⟩ := Binary64.ofInt?_some hq
  obtain ⟨y, hy, rfl⟩ := roundToInt_finite hround
  rw [Binary64.mul_finite] at hy
  obtain ⟨hysign, hyunits⟩ := Binary64.ofRatio_finite hy
  rw [hxsign, hsign, Bool.xor_false] at hysign
  rw [hysign]
  by_cases hneg : raw < 0
  · rw [decide_eq_true hneg]
    exact (signed_true_nonpos _).trans hnonneg
  · have hsmall : raw.natAbs < 26 := natAbs_lt hneg (hraw.trans hbound)
    have hexact : x.units = raw.natAbs * 2 ^ 1074 := hxunits.trans (roundUnits_small _ hsmall)
    have hle : y.units ≤ raw.natAbs * 2 ^ 1074 := by
      rw [hyunits, hexact]
      exact roundUnits_product_le hsmall hunits
    rw [decide_eq_false hneg]
    exact signed_false_le hneg hraw (Binary64.halfEven_le Binary64.unit_pos hle)

/-! ## The adjustment of a task -/

variable {context : MemoryContext} {scores : Scores} {task : Task}

theorem strengthBoost_le {baseline : Bool} (h : strengthBoost baseline x = .ok n) : n ≤ 5 := by
  unfold strengthBoost at h
  split at h
  · split at h
    · cases h
    cases h
    exact min_le_left _ _
  · cases h
    decide

theorem diffBoost_le (signals : List String) : diffBoost context scores signals ≤ 15 := by
  unfold diffBoost
  split
  · exact min_le_left _ _
  · decide

theorem highValueTaskBoost_le (kind : String) (focuses : Option (List Focus)) : (highValueTaskBoost kind focuses).1 ≤ 10 := by
  unfold highValueTaskBoost
  dsimp only
  split
  · decide
  · exact min_le_left _ _

variable (context) in
theorem noFindingBoost_le (kind : String) : noFindingBoost context kind ≤ 24 := by
  unfold noFindingBoost
  split
  · omega
  · decide

/-- A boost is at most 25, and not above a bound of what its layers add up to. -/
theorem boostOf_le {exhausted : Bool} {baselineBoost highValueBoost noFindingBoost : Int}
    (hfactor : Fraction factor) (hsum : baselineBoost + highValueBoost + noFindingBoost ≤ bound) (hnonneg : 0 ≤ bound)
    (h : boostOf exhausted baselineBoost highValueBoost noFindingBoost factor = .ok n) :
    n ≤ 25 ∧ n ≤ bound ∧ (exhausted = true → n = 0) := by
  unfold boostOf at h
  split at h
  · cases h
    exact ⟨by decide, hnonneg, fun _ => rfl⟩
  · rename_i hexhausted
    obtain ⟨m, hm, rfl⟩ := map_ok h
    refine ⟨min_le_left _ _, ?_, fun h => absurd h hexhausted⟩
    rcases le_total bound 25 with hsmall | hlarge
    · exact (min_le_right _ _).trans (damped_le hfactor ((min_le_right _ _).trans hsum) hnonneg hsmall hm)
    · exact (min_le_left _ _).trans hlarge

/-- What an adjustment stays within: the priorities, the layers that are documented, and no boost for what is exhausted. -/
structure Within (context : MemoryContext) (task updated : Task) (a : Adjustment) : Prop where
  priority : 0 ≤ updated.priority ∧ updated.priority ≤ 100
  audited : a.kind = task.kind ∧ a.originalPriority = task.priority ∧ a.effectivePriority = updated.priority
  diff : a.diffBoost ≤ 15
  history : a.historyBoost ≤ 5
  temporal : a.temporalBoost ≤ 5
  highValue : a.highValueBoost ≤ 10
  noFinding : a.noFindingBoost ≤ 24
  combined : a.highValueBoost = 0 → a.noFindingBoost = 0 → a.boost ≤ 20
  total : a.boost ≤ 25
  exhausted : task.kind ∈ exhaustedKinds context.feedback → a.boost = 0 ∧ updated.priority ≤ max 0 task.priority

/-- An adjusted task differs in its priority and its reason. -/
theorem adjusted_spec {p : Task × Adjustment} (h : adjusted context scores task = .ok p) :
    p.1 = { task with priority := p.1.priority, reason := p.1.reason } ∧ Within context task p.1 p.2 := by
  unfold adjusted at h
  split at h
  · cases h
  rename_i a ha
  cases h
  refine ⟨rfl, ?_⟩
  unfold adjustment at ha
  dsimp only at ha
  split at ha
  · cases ha
  rename_i historyBoost hhistory
  split at ha
  · cases ha
  rename_i temporalBoost htemporal
  split at ha
  · cases ha
  rename_i boost hboost
  cases ha
  have hfactor := confidenceFactor_fraction scores.confidence (signalsOf task.kind)
  have hhigh := highValueTaskBoost_le task.kind context.highValue
  have hno := noFindingBoost_le context task.kind
  have hsum : min 20 (diffBoost context scores (signalsOf task.kind) + historyBoost + temporalBoost) +
      (highValueTaskBoost task.kind context.highValue).1 + noFindingBoost context task.kind ≤ 54 := by omega
  obtain ⟨htotal, -, hexhausted⟩ := boostOf_le hfactor hsum (by decide) hboost
  have hzero : task.kind ∈ exhaustedKinds context.feedback → boost = 0 := fun hmem => hexhausted (decide_eq_true hmem)
  refine ⟨⟨le_max_left _ _, max_le (by decide) (min_le_left _ _)⟩, ⟨rfl, rfl, rfl⟩, diffBoost_le _, strengthBoost_le hhistory,
    strengthBoost_le htemporal, hhigh, hno, fun hhigh0 hno0 => ?_, htotal, fun hmem => ⟨hzero hmem, ?_⟩⟩
  · refine (boostOf_le hfactor ?_ (by decide) hboost).2.1
    dsimp only at hhigh0 hno0
    omega
  · have := hzero hmem
    dsimp only
    rw [if_pos (decide_eq_true hmem)]
    omega

variable {tasks : List Task}

theorem adjustAll_spec {pairs : List (Task × Adjustment)} (h : adjustAll context scores tasks = .ok pairs) :
    List.Forall₂ (fun task p => p.1 = { task with priority := p.1.priority, reason := p.1.reason } ∧ Within context task p.1 p.2)
      tasks pairs := by
  induction tasks generalizing pairs with
  | nil =>
    cases h
    exact .nil
  | cons task tasks ih =>
    unfold adjustAll at h
    split at h
    · cases h
    rename_i first hfirst
    split at h
    · cases h
    rename_i rest hrest
    cases h
    exact .cons (adjusted_spec hfirst) (ih hrest)

/-! ## The swarm -/

/-- The requests of some tasks. -/
def total (tasks : List Task) : Int := (tasks.map (·.maxRequests)).sum

/-- A task that is selected: it keeps all but some of its requests. -/
def Selected (task selected : Task) : Prop :=
  selected = { task with maxRequests := selected.maxRequests } ∧ 1 ≤ selected.maxRequests ∧ selected.maxRequests ≤ task.maxRequests

/-- The selected tasks come from some of the tasks that were seen, within the budget. -/
structure Allotted (limits : SwarmBudget) (seen : List Task) (s : Swarm) : Prop where
  chosen : ∃ chosen : List Task, chosen.Sublist seen ∧ List.Forall₂ Selected chosen s.selected
  count : (s.selected.length : Int) ≤ limits.maxTasks
  used : s.used = total s.selected
  budget : s.used ≤ limits.maxTotalRequests

variable {limits : SwarmBudget} {s : Swarm} {seen : List Task}

theorem Allotted.skip (h : Allotted limits seen s) (kinds : List String) (task : Task) :
    Allotted limits (seen ++ [task]) { s with suppressed := kinds } := by
  obtain ⟨chosen, hsub, hselected⟩ := h.chosen
  exact ⟨⟨chosen, hsub.trans (List.sublist_append_left _ _), hselected⟩, h.count, h.used, h.budget⟩

/-- A task takes what is left of the budget, or is suppressed. -/
theorem Allotted.allot (h : Allotted limits seen s) (task : Task) (capability : Capability) :
    Allotted limits (seen ++ [task]) (s.allot limits task capability) := by
  unfold Swarm.allot
  dsimp only
  split
  · exact h.skip _ task
  · rename_i hfits
    push Not at hfits
    obtain ⟨hcount, -, hremaining, hallocated⟩ := hfits
    obtain ⟨chosen, hsub, hselected⟩ := h.chosen
    refine ⟨⟨chosen ++ [task], hsub.append (List.Sublist.refl _), List.rel_append hselected (.cons ⟨rfl, hallocated, min_le_left _ _⟩ .nil)⟩,
      ?_, ?_, ?_⟩
    · rw [List.length_append, List.length_singleton]
      push_cast
      omega
    · show s.used + _ = total (s.selected ++ [_])
      rw [total, List.map_append, List.sum_append, h.used]
      simp [total]
    · have := min_le_right task.maxRequests (limits.maxTotalRequests - s.used)
      show s.used + min task.maxRequests (limits.maxTotalRequests - s.used) ≤ limits.maxTotalRequests
      omega

theorem coordinateLoop_spec {s' : Swarm} (h : coordinateLoop limits tasks s = .ok s')
    (hs : Allotted limits seen s) : Allotted limits (seen ++ tasks) s' := by
  induction tasks generalizing s seen with
  | nil =>
    cases h
    rwa [List.append_nil]
  | cons task tasks ih =>
    unfold coordinateLoop at h
    split at h
    · cases h
    rename_i capability _
    have hrest := ih h (hs.allot task capability)
    rwa [List.append_assoc, List.singleton_append] at hrest

/-! ## Small numbers -/

/-- A finite number of at most `2 ^ k`, of either sign. -/
def Small (k : Nat) (x : Binary64) : Prop := ∃ f : Finite, x = .finite f ∧ f.units ≤ 2 ^ (k + 1074)

theorem roundUnits_power : ∀ k < 41, Binary64.roundUnits (2 ^ (k + 1074)) 1 = 2 ^ (k + 1074) := by decide +kernel

theorem power_lt_overflow : ∀ k < 41, 2 ^ (k + 1074) < Binary64.overflow := by decide +kernel

example : Binary64.roundUnits (2 ^ (40 + 1074)) 1 = 2 ^ (40 + 1074) := by decide +kernel

theorem small_ofRatio {n d : Nat} (hk : k < 41) (s : Bool) (hd : 0 < d) (hn : n ≤ 2 ^ (k + 1074) * d) :
    ∃ f : Finite, Binary64.ofRatio s n hd = .finite f ∧ f.negative = s ∧ f.units ≤ 2 ^ (k + 1074) := by
  have hle : Binary64.roundUnits n d ≤ 2 ^ (k + 1074) := by
    have hmono := Binary64.roundUnits_mono (n := n) (d := d) hd Nat.one_pos (show n * 1 ≤ 2 ^ (k + 1074) * d by rwa [Nat.mul_one])
    exact hmono.trans (roundUnits_power k hk).le
  rcases Binary64.ofRatio_cases s n hd with ⟨hlt, -⟩ | ⟨hge, -⟩
  · refine ⟨⟨s, Binary64.roundUnits n d, Binary64.representable_roundUnits n hd, hlt⟩, ?_, rfl, hle⟩
    rw [Binary64.ofRatio, dif_pos hlt]
  · exact absurd (hle.trans_lt (power_lt_overflow k hk)) (not_lt.mpr hge)

theorem natAbs_toInt (f : Finite) : f.toInt.natAbs = f.units := by
  unfold Finite.toInt
  split
  · rw [Int.natAbs_neg, Int.natAbs_natCast]
  · exact Int.natAbs_natCast _

theorem two_pow_succ_add (k : Nat) : 2 ^ (k + 1 + 1074) = 2 ^ (k + 1074) + 2 ^ (k + 1074) := by
  rw [Nat.add_right_comm, Nat.pow_succ, Nat.mul_two]

variable {m : Nat}

theorem Small.mono (h : Small k x) (hkm : k ≤ m) : Small m x := by
  obtain ⟨f, rfl, hf⟩ := h
  exact ⟨f, rfl, hf.trans (Nat.pow_le_pow_right (by decide) (Nat.add_le_add_right hkm _))⟩

theorem Small.sub (hk : k < 40) (hx : Small k x) (hy : Small k y) : Small (k + 1) (x.sub y) := by
  obtain ⟨f, rfl, hf⟩ := hx
  obtain ⟨g, rfl, hg⟩ := hy
  have hn : (f.toInt - g.toInt).natAbs ≤ 2 ^ (k + 1 + 1074) * 1 := by
    rw [Nat.mul_one, two_pow_succ_add]
    refine (Int.natAbs_sub_le _ _).trans ?_
    rw [natAbs_toInt, natAbs_toInt]
    exact Nat.add_le_add hf hg
  obtain ⟨h, hh, -, hunits⟩ := small_ofRatio (Nat.succ_lt_succ hk)
    (decide (f.toInt < g.toInt) || (f.negative && !g.negative)) Nat.one_pos hn
  exact ⟨h, hh, hunits⟩

theorem Small.neg (hx : Small k x) : Small k x.neg := by
  obtain ⟨f, rfl, hf⟩ := hx
  exact ⟨{ f with negative := !f.negative }, rfl, hf⟩

theorem Small.add (hk : k < 40) (hx : Small k x) (hy : Small k y) : Small (k + 1) (x.add y) :=
  hx.sub hk hy.neg

theorem exponents_add (k m : Nat) : k + 1074 + (m + 1074) = k + m + 1074 + 1074 := by omega

theorem Small.mul (hk : k + m < 41) (hx : Small k x) (hy : Small m y) : Small (k + m) (x.mul y) := by
  obtain ⟨f, rfl, hf⟩ := hx
  obtain ⟨g, rfl, hg⟩ := hy
  have hn : f.units * g.units ≤ 2 ^ (k + m + 1074) * 2 ^ 1074 := by
    calc f.units * g.units ≤ 2 ^ (k + 1074) * 2 ^ (m + 1074) := Nat.mul_le_mul hf hg
      _ = 2 ^ (k + m + 1074) * 2 ^ 1074 := by rw [← Nat.pow_add, ← Nat.pow_add, exponents_add]
  obtain ⟨h, hh, -, hunits⟩ := small_ofRatio hk (f.negative ^^ g.negative) Binary64.unit_pos hn
  exact ⟨h, (Binary64.mul_finite f g).trans hh, hunits⟩

/-- The sum of some small numbers. -/
theorem small_sumLoop {xs : List Binary64} {total lost : Binary64} (hm : k + 4 * xs.length + 1 ≤ m) (hbound : m < 40)
    (htotal : Small k total) (hlost : Small k lost) (hxs : ∀ x ∈ xs, Small k x) : Small m (Binary64.sumLoop total lost xs) := by
  induction xs generalizing k total lost with
  | nil =>
    have hk : k < 40 := by simp at hm; omega
    have hkm : k + 1 ≤ m := by simpa using hm
    obtain ⟨c, rfl, hc⟩ := hlost
    rw [Binary64.sumLoop]
    split
    · exact htotal.mono (Nat.le_of_succ_le hkm)
    · exact (htotal.add hk ⟨c, rfl, hc⟩).mono hkm
  | cons x xs ih =>
    have hlen : k + 4 + 4 * xs.length + 1 ≤ m := by rw [List.length_cons] at hm; omega
    have hk : k + 4 < 40 := by omega
    have hx := hxs x List.mem_cons_self
    have hnext := htotal.add (by omega) hx
    have herr : ∀ {a b : Binary64}, Small k a → Small k b → Small (k + 3) ((a.sub (total.add x)).add b) := fun ha hb =>
      ((ha.mono (Nat.le_succ k)).sub (by omega) hnext).add (by omega) (hb.mono (by omega))
    rw [Binary64.sumLoop]
    refine ih hlen (hnext.mono (by omega)) ?_ fun y hy => (hxs y (List.mem_cons_of_mem _ hy)).mono (by omega)
    refine (hlost.mono (by omega)).add (by omega) ?_
    split
    · exact herr htotal hx
    · exact herr hx htotal

theorem small_zero (k : Nat) : Small k .zero := ⟨_, rfl, Nat.zero_le _⟩

theorem small_sum {xs : List Binary64} (hxs : ∀ x ∈ xs, Small k x) (hlen : xs.length ≤ 3) (hk : k ≤ 3) :
    Small 16 (Binary64.sum xs) := by
  cases xs with
  | nil => exact small_zero _
  | cons x xs =>
    rw [Binary64.sum]
    rw [List.length_cons] at hlen
    have hstart : Small (k + 1) (Binary64.zero.add x) := (small_zero k).add (by omega) (hxs x List.mem_cons_self)
    exact small_sumLoop (m := 16) (by omega) (by decide) hstart (small_zero _) fun y hy =>
      (hxs y (List.mem_cons_of_mem _ hy)).mono (Nat.le_succ k)

theorem natAbs_signed (negative : Bool) (n : Nat) : (Binary64.signed negative n).natAbs = n := by
  cases negative with
  | false => exact Int.natAbs_natCast n
  | true => exact (Int.natAbs_neg _).trans (Int.natAbs_natCast n)

theorem roundToInt_of_finite (f : Finite) :
    roundToInt (.finite f) = .ok (Binary64.signed f.negative (Binary64.halfEven f.units (2 ^ 1074))) := by
  rw [roundToInt, Binary64.round?]

/-- A small number is rounded to a small integer. -/
theorem roundToInt_small (hx : Small k x) : ∃ n : Int, roundToInt x = .ok n ∧ n.natAbs ≤ 2 ^ k := by
  obtain ⟨f, rfl, hf⟩ := hx
  have hunits : f.units ≤ 2 ^ k * 2 ^ 1074 := by
    rw [← Nat.pow_add]
    exact hf
  have hle := Binary64.halfEven_le Binary64.unit_pos hunits
  rw [← natAbs_signed f.negative (Binary64.halfEven f.units (2 ^ 1074))] at hle
  exact ⟨_, roundToInt_of_finite f, hle⟩

/-! ## The scores -/

/-- A score of a kind: a number from zero to eight. -/
def Score (x : Binary64) : Prop := ∃ f : Finite, x = .finite f ∧ f.negative = false ∧ f.units ≤ 2 ^ (3 + 1074)

theorem Score.small (h : Score x) : Small 3 x := by
  obtain ⟨f, rfl, -, hf⟩ := h
  exact ⟨f, rfl, hf⟩

theorem toInt_nonneg {f : Finite} (h : f.negative = false) : 0 ≤ f.toInt := by
  rw [Finite.toInt_of_pos h]
  exact Int.natCast_nonneg _

variable {g : Finite}

/-- A sum of numbers that are not below zero is not below zero. -/
theorem add_nonneg {f : Finite} (hf : f.negative = false) (hg : g.negative = false) (hfs : f.units ≤ 2 ^ (3 + 1074))
    (hgs : g.units ≤ 2 ^ (3 + 1074)) : ∃ h : Finite, (Binary64.finite f).add (.finite g) = .finite h ∧ h.negative = false := by
  have hneg : (⟨!g.negative, g.units, g.representable, g.units_lt⟩ : Finite).toInt = -g.units := by
    rw [Finite.toInt, hg]
    rfl
  have hsign : (decide (f.toInt < (⟨!g.negative, g.units, g.representable, g.units_lt⟩ : Finite).toInt) ||
      (f.negative && !(!g.negative))) = false := by
    have hle : ¬ f.toInt < -(g.units : Int) := not_lt.mpr ((Int.neg_nonpos_of_nonneg (Int.natCast_nonneg _)).trans (toInt_nonneg hf))
    rw [hneg, hf, decide_eq_false hle]
    rfl
  obtain ⟨h, hh, hhs⟩ := Small.add (by decide : 3 < 40) ⟨f, rfl, hfs⟩ ⟨g, rfl, hgs⟩
  refine ⟨h, hh, ?_⟩
  have hadd : (Binary64.finite f).add (.finite g) = Binary64.ofRatio (decide (f.toInt <
      (⟨!g.negative, g.units, g.representable, g.units_lt⟩ : Finite).toInt) || (f.negative && !(!g.negative)))
      (f.toInt - (⟨!g.negative, g.units, g.representable, g.units_lt⟩ : Finite).toInt).natAbs Nat.one_pos := by
    rw [Binary64.add, Binary64.neg, Binary64.sub]
  rw [hadd, hsign] at hh
  exact (Binary64.ofRatio_finite hh).1

theorem finite_one : ∃ f : Finite, Binary64.one = .finite f ∧ f.negative = false ∧ f.units ≤ 2 ^ (0 + 1074) := by
  obtain ⟨f, hf, hsign, hunits⟩ := small_ofRatio (k := 0) (by decide) false Nat.one_pos
    (show 2 ^ 1074 ≤ 2 ^ (0 + 1074) * 1 by decide +kernel)
  exact ⟨f, hf, hsign, hunits⟩

theorem small_one : Small 0 .one := by
  obtain ⟨f, hf, -, hunits⟩ := finite_one
  exact ⟨f, hf, hunits⟩

theorem finite_decimal (n digits k : Nat) (hk : k < 41) (h : n * 2 ^ 1074 ≤ 2 ^ (k + 1074) * 10 ^ digits) :
    ∃ f : Finite, Binary64.decimal n digits = .finite f ∧ f.negative = false ∧ f.units ≤ 2 ^ (k + 1074) := by
  obtain ⟨f, hf, hsign, hunits⟩ := small_ofRatio hk false (Binary64.ten_pow_pos digits) h
  exact ⟨f, hf, hsign, hunits⟩

theorem score_zero : Score .zero := ⟨_, rfl, rfl, Nat.zero_le _⟩

theorem five_score : Score (.decimal 5 0) := finite_decimal 5 0 3 (by decide) (by decide +kernel)

/-- The lesser of a score and a number that is not below zero. -/
theorem pyMin_score {c : Binary64} (hc : Score c) (hg : g.negative = false) : Score (.pyMin c (.finite g)) := by
  obtain ⟨f, rfl, hsign, hf⟩ := hc
  unfold Binary64.pyMin
  split
  · rename_i hlt
    have hint : g.toInt < f.toInt := of_decide_eq_true hlt
    rw [Finite.toInt_of_pos hg, Finite.toInt_of_pos hsign] at hint
    exact ⟨g, rfl, hg, (Int.ofNat_lt.mp hint).le.trans hf⟩
  · exact ⟨f, rfl, hsign, hf⟩

/-- The scores of the kinds. -/
def Scored (scores : Dict String Binary64) : Prop := ∀ kind x, scores.get? kind = some x → Score x

theorem scored_empty : Scored .empty := fun _ _ h => nomatch h

theorem Scored.getD {scores : Dict String Binary64} (h : Scored scores) (kind : String) : Score ((scores.get? kind).getD .zero) := by
  cases hget : scores.get? kind with
  | none => exact score_zero
  | some x => exact h kind x hget

theorem Scored.addScore {scores : Dict String Binary64} (h : Scored scores) (hx : Score x) (kind : String) :
    Scored (addScore scores kind x) := by
  intro other y hy
  unfold ReconPriority.addScore at hy
  rw [Dict.get?_set] at hy
  split at hy
  · obtain ⟨f, hf, hfs, hfu⟩ := h.getD kind
    obtain ⟨g, rfl, hgs, hgu⟩ := hx
    obtain ⟨s, hs, hss⟩ := add_nonneg hfs hgs hfu hgu
    rw [hf, hs] at hy
    rw [← Option.some.inj hy]
    exact pyMin_score five_score hss
  · exact h other y hy

/-- The quotient of one and a number from one on. -/
theorem one_div_score (hsign : g.negative = false) (hle : 2 ^ (0 + 1074) ≤ g.units) :
    Score ((Binary64.one.div (.finite g)).getD .zero) := by
  obtain ⟨o, ho, hos, hou⟩ := finite_one
  have hpos : 0 < g.units := (Nat.two_pow_pos _).trans_le hle
  have hdiv : (Binary64.finite o).div (.finite g) = some (Binary64.ofRatio (o.negative ^^ g.negative) (o.units * 2 ^ 1074) hpos) := by
    rw [Binary64.div, dif_pos hpos]
  have hbound : o.units * 2 ^ 1074 ≤ 2 ^ (3 + 1074) * g.units := by
    calc o.units * 2 ^ 1074 ≤ 2 ^ (0 + 1074) * 2 ^ (0 + 1074) := Nat.mul_le_mul hou (Nat.pow_le_pow_right (by decide) (by decide))
      _ ≤ 2 ^ (3 + 1074) * g.units := Nat.mul_le_mul (Nat.pow_le_pow_right (by decide) (by decide)) hle
  obtain ⟨q, hq, hqs, hqu⟩ := small_ofRatio (k := 3) (by decide) (o.negative ^^ g.negative) hpos hbound
  rw [ho, hdiv, Option.getD_some, hq]
  rw [hos, hsign] at hqs
  exact ⟨q, rfl, hqs, hqu⟩

theorem roundUnits_one_le {n : Nat} (h : 1 ≤ n) : 2 ^ (0 + 1074) ≤ Binary64.roundUnits (n * 2 ^ 1074) 1 := by
  have hcross : 2 ^ (0 + 1074) * 1 ≤ n * 2 ^ 1074 * 1 := by
    rw [Nat.zero_add]
    exact Nat.mul_le_mul_right 1 (Nat.le_mul_of_pos_left _ h)
  exact (roundUnits_power 0 (by decide)).symm.le.trans (Binary64.roundUnits_mono Nat.one_pos Nat.one_pos hcross)

/-- What a campaign count adds is a score. -/
theorem novelty_score {count : Binary64} (h : Binary64.ofInt? (max 1 n) = some count) :
    Score ((Binary64.one.div count).getD .zero) := by
  have hneg : ¬ max 1 n < 0 := by omega
  have hone : 1 ≤ (max 1 n).natAbs := by omega
  obtain ⟨g, rfl, hsign, hunits⟩ := Binary64.ofInt?_some h
  rw [decide_eq_false hneg] at hsign
  exact one_div_score hsign (hunits ▸ roundUnits_one_le hone)

/-- A node of the memory counts: it was added. -/
def Counted (added : List (String × String)) (node : MemoryNode) : Bool :=
  added.any fun a => decide (a.1 = node.kind) && decide (a.2 = node.value)

theorem historicalLoop_scored {added : List (String × String)} {nodes : List MemoryNode} {scores result : Dict String Binary64}
    (h : historicalLoop added nodes scores = .ok result) (hscores : Scored scores) : Scored result := by
  induction nodes generalizing scores with
  | nil =>
    cases h
    exact hscores
  | cons node nodes ih =>
    unfold historicalLoop at h
    split at h
    · obtain ⟨count, hcount, hrest⟩ := elim_ok h
      exact ih hrest (hscores.addScore (novelty_score hcount) _)
    · exact ih h hscores

theorem elim_isOk {x : Option α} {e : PyError} {f : α → Except PyError β} :
    (∃ b, x.elim (.error e) f = .ok b) ↔ ∃ a, x = some a ∧ ∃ b, f a = .ok b := by
  cases x with
  | none => exact ⟨fun ⟨_, h⟩ => (nomatch h), fun ⟨_, h, _⟩ => (nomatch h)⟩
  | some a => exact ⟨fun ⟨b, h⟩ => ⟨a, rfl, b, h⟩, fun ⟨_, ha, b, h⟩ => ⟨b, (Option.some.inj ha) ▸ h⟩⟩

/-- The loop over the memory returns exactly when the counts of the nodes that count are floats. -/
theorem historicalLoop_isOk {added : List (String × String)} {nodes : List MemoryNode} (scores : Dict String Binary64) :
    (∃ result, historicalLoop added nodes scores = .ok result) ↔
      ∀ node ∈ nodes, Counted added node = true → ∃ count, Binary64.ofInt? (max 1 node.campaignCount) = some count := by
  induction nodes generalizing scores with
  | nil => exact ⟨fun _ _ h => absurd h List.not_mem_nil, fun _ => ⟨scores, rfl⟩⟩
  | cons node nodes ih =>
    rw [List.forall_mem_cons]
    unfold historicalLoop
    split
    · rename_i hcounted
      rw [elim_isOk]
      constructor
      · rintro ⟨count, hcount, hrest⟩
        exact ⟨fun _ => ⟨count, hcount⟩, (ih _).mp hrest⟩
      · rintro ⟨hnode, hnodes⟩
        obtain ⟨count, hcount⟩ := hnode hcounted
        exact ⟨count, hcount, (ih _).mpr hnodes⟩
    · rename_i hcounted
      rw [ih]
      exact ⟨fun h => ⟨fun hc => absurd hc hcounted, h⟩, fun h => h.2⟩

/-- A ratio between zero and one. -/
theorem small_clamp (x : Binary64) : Small 0 (.pyMax .zero (.pyMin .one x)) := by
  have hmin : (Binary64.pyMin .one x).le .one = true := by
    unfold Binary64.pyMin
    split
    · rename_i h
      exact le_of_lt h
    · decide +kernel
  unfold Binary64.pyMax
  split
  · rename_i h
    obtain ⟨f, hf, -, hunits⟩ := fraction_of_between h hmin
    exact ⟨f, hf, by rwa [Nat.zero_add]⟩
  · exact small_zero 0

/-- What a churning node adds is a score. -/
theorem churn_score {weight : Binary64} (hweight : ∃ f : Finite, weight = .finite f ∧ f.negative = false ∧ f.units ≤ 2 ^ (0 + 1074))
    (x : Binary64) : Score (weight.mul (.pyMax (.decimal 1 1) (.sub .one (.pyMax .zero (.pyMin .one x))))) := by
  have hone := finite_decimal 1 1 1 (by decide) (by decide +kernel)
  have hfactor : ∃ f : Finite, Binary64.pyMax (.decimal 1 1) (.sub .one (.pyMax .zero (.pyMin .one x))) = .finite f ∧
      f.negative = false ∧ f.units ≤ 2 ^ (1 + 1074) := by
    obtain ⟨c, hc, hcs, hcu⟩ := hone
    obtain ⟨z, hz, hzu⟩ := Small.sub (by decide) small_one (small_clamp x)
    rw [hc, hz]
    unfold Binary64.pyMax
    split
    · rename_i hlt
      refine ⟨z, rfl, ?_, hzu⟩
      have hint : c.toInt < z.toInt := of_decide_eq_true hlt
      by_contra hneg
      exact absurd (Finite.toInt_nonpos hneg) (not_le.mpr ((toInt_nonneg hcs).trans_lt hint))
    · exact ⟨c, rfl, hcs, hcu⟩
  obtain ⟨w, rfl, hws, hwu⟩ := hweight
  obtain ⟨f, hf, hfs, hfu⟩ := hfactor
  rw [hf]
  obtain ⟨p, hp, hpu⟩ := Small.mul (k := 0) (m := 1) (by decide) ⟨w, rfl, hwu⟩ ⟨f, rfl, hfu⟩
  rw [Binary64.mul_finite] at hp
  refine ⟨p, (Binary64.mul_finite w f).trans hp, ?_, hpu.trans (Nat.pow_le_pow_right (by decide) (by decide))⟩
  rw [(Binary64.ofRatio_finite hp).1, hws, hfs]
  rfl

theorem weight_small (classification : String) :
    ∃ f : Finite, temporalClassWeight classification = .finite f ∧ f.negative = false ∧ f.units ≤ 2 ^ (0 + 1074) := by
  unfold temporalClassWeight
  split
  · exact finite_one
  · split
    · exact finite_decimal 35 2 0 (by decide) (by decide +kernel)
    · split
      · exact finite_decimal 15 2 0 (by decide) (by decide +kernel)
      · exact ⟨_, rfl, rfl, Nat.zero_le _⟩

theorem temporal_scored (nodes : Option (List TemporalNode)) : Scored (temporalKindScores nodes) := by
  unfold temporalKindScores
  generalize (nodes.getD []).take 500 = taken
  have hfold : ∀ (l : List TemporalNode) (scores : Dict String Binary64), Scored scores → Scored (l.foldl addTemporal scores) := by
    intro l
    induction l with
    | nil => exact fun _ h => h
    | cons node l ih =>
      intro scores hscores
      rw [List.foldl_cons]
      refine ih _ ?_
      unfold addTemporal
      dsimp only
      obtain ⟨f, hf, hfs, hfu⟩ := weight_small node.classification
      split
      · exact hscores
      · split
        · exact hscores.addScore ⟨f, hf, hfs, hfu.trans (Nat.pow_le_pow_right (by decide) (by decide))⟩ _
        · exact hscores.addScore (churn_score ⟨f, hf, hfs, hfu⟩ _) _
  exact hfold taken _ scored_empty

/-! ## What is returned -/

theorem ofInt?_small (hk : k < 41) (hn : n.natAbs ≤ 2 ^ k) : ∃ x, Binary64.ofInt? n = some x ∧ Small k x := by
  have hbound : n.natAbs * 2 ^ 1074 ≤ 2 ^ (k + 1074) * 1 := by
    rw [Nat.mul_one, Nat.pow_add]
    exact Nat.mul_le_mul_right _ hn
  obtain ⟨f, hf, -, hunits⟩ := small_ofRatio hk (decide (n < 0)) Nat.one_pos hbound
  refine ⟨.finite f, ?_, f, rfl, hunits⟩
  rw [Binary64.ofInt?, hf, Binary64.finite?]

theorem Fraction.small (h : Fraction x) : Small 0 x := by
  obtain ⟨f, hf, -, hunits⟩ := h
  exact ⟨f, hf, by rwa [Nat.zero_add]⟩

theorem damped_isOk (hraw : raw.natAbs ≤ 2 ^ 20) (hfactor : Fraction factor) :
    ∃ n, damped raw factor = .ok n := by
  obtain ⟨x, hx, hsmall⟩ := ofInt?_small (by decide) hraw
  obtain ⟨n, hn, -⟩ := roundToInt_small (Small.mul (k := 20) (m := 0) (by decide) hsmall hfactor.small)
  refine ⟨n, ?_⟩
  rw [damped, hx]
  exact hn

theorem length_signalsOf (kind : String) : (signalsOf kind).length ≤ 3 := by
  unfold signalsOf
  cases h : taskSignals.lookup kind with
  | none => exact Nat.zero_le _
  | some signals =>
    obtain ⟨before, after, heq, -⟩ := List.lookup_eq_some_iff.mp h
    have hmem : (kind, signals) ∈ taskSignals := heq ▸ List.mem_append_right _ List.mem_cons_self
    have hall : ∀ e ∈ taskSignals, e.2.length ≤ 3 := by decide
    exact hall _ hmem

/-- The boost for a strength is a small integer. -/
theorem strengthBoost_isOk (baseline : Bool) {scores : Dict String Binary64} (h : Scored scores) (kind : String) :
    ∃ n, strengthBoost baseline (strength scores (signalsOf kind)) = .ok n ∧ -(2 ^ 16) ≤ n ∧ n ≤ 5 := by
  have hsmall : Small 16 (strength scores (signalsOf kind)) := by
    refine small_sum (k := 3) (fun x hx => ?_) ?_ le_rfl
    · obtain ⟨signal, -, rfl⟩ := List.mem_map.mp hx
      exact (h.getD signal).small
    · rw [List.length_map]
      exact length_signalsOf kind
  obtain ⟨n, hn, hle⟩ := roundToInt_small hsmall
  unfold strengthBoost
  cases baseline with
  | false => exact ⟨0, rfl, by decide, by decide⟩
  | true =>
    rw [hn]
    refine ⟨min 5 n, rfl, ?_, min_le_left _ _⟩
    have : n.natAbs ≤ 65536 := hle
    omega

theorem get?_mapValues {κ : Type} [DecidableEq κ] (d : Dict κ α) (f : α → β) (k : κ) :
    (d.mapValues f).get? k = (d.get? k).map f := by
  unfold Dict.get? Dict.mapValues
  rw [List.find?_map, Option.map_map, Option.map_map]
  rfl

theorem signalCounts_nonneg (diff : SurfaceDiff) (kind : String) : 0 ≤ ((signalCounts diff).get? kind).getD 0 := by
  unfold signalCounts
  rw [get?_mapValues]
  cases diff.countsByKind.get? kind with
  | none => exact le_rfl
  | some c =>
    show 0 ≤ min 20 (max 0 c.1 * 2 + max 0 c.2)
    omega

variable (context) in
theorem diffBoost_nonneg (hcounts : ∀ kind, 0 ≤ (scores.counts.get? kind).getD 0) (signals : List String) :
    0 ≤ diffBoost context scores signals := by
  have hsum : 0 ≤ (signals.map fun kind => (scores.counts.get? kind).getD 0).sum := by
    refine List.sum_nonneg fun n hn => ?_
    obtain ⟨kind, -, rfl⟩ := List.mem_map.mp hn
    exact hcounts kind
  unfold diffBoost
  split
  · omega
  · exact le_rfl

theorem highValueTaskBoost_nonneg (kind : String) (focuses : Option (List Focus)) : 0 ≤ (highValueTaskBoost kind focuses).1 := by
  unfold highValueTaskBoost
  dsimp only
  split
  · exact le_rfl
  · exact le_min (by decide) (by omega)

variable (context) in
theorem noFindingBoost_nonneg (kind : String) : 0 ≤ noFindingBoost context kind := by
  unfold noFindingBoost
  split
  · exact le_max_left _ _
  · exact le_rfl

theorem boostOf_isOk (exhausted : Bool) {baselineBoost highValueBoost noFindingBoost : Int}
    (hraw : (min 25 (baselineBoost + highValueBoost + noFindingBoost)).natAbs ≤ 2 ^ 20) (hfactor : Fraction factor) :
    ∃ n, boostOf exhausted baselineBoost highValueBoost noFindingBoost factor = .ok n := by
  unfold boostOf
  split
  · exact ⟨0, rfl⟩
  · obtain ⟨n, hn⟩ := damped_isOk hraw hfactor
    exact ⟨min 25 n, by rw [hn]; rfl⟩

/-- The scores that the context gives. -/
structure Sound (scores : Scores) : Prop where
  counts : ∀ kind, 0 ≤ (scores.counts.get? kind).getD 0
  historical : Scored scores.historical
  temporal : Scored scores.temporal

variable (context) in
theorem adjusted_isOk (h : Sound scores) (task : Task) : ∃ p, adjusted context scores task = .ok p := by
  obtain ⟨historyBoost, hhistory, hhlow, hhhigh⟩ := strengthBoost_isOk context.diff.baselineAvailable h.historical task.kind
  obtain ⟨temporalBoost, htemporal, htlow, hthigh⟩ := strengthBoost_isOk context.diff.baselineAvailable h.temporal task.kind
  have hdlow := diffBoost_nonneg context h.counts (signalsOf task.kind)
  have hhv := highValueTaskBoost_nonneg task.kind context.highValue
  have hnf := noFindingBoost_nonneg context task.kind
  have hraw : (min 25 (min 20 (diffBoost context scores (signalsOf task.kind) + historyBoost + temporalBoost) +
      (highValueTaskBoost task.kind context.highValue).1 + noFindingBoost context task.kind)).natAbs ≤ 2 ^ 20 := by omega
  obtain ⟨boost, hboost⟩ := boostOf_isOk (decide (task.kind ∈ exhaustedKinds context.feedback)) hraw
    (confidenceFactor_fraction scores.confidence (signalsOf task.kind))
  unfold adjusted adjustment
  dsimp only
  rw [hhistory]
  dsimp only
  rw [htemporal]
  dsimp only
  rw [hboost]
  exact ⟨_, rfl⟩

variable (context) in
theorem adjustAll_isOk (h : Sound scores) (tasks : List Task) : ∃ pairs, adjustAll context scores tasks = .ok pairs := by
  induction tasks with
  | nil => exact ⟨[], rfl⟩
  | cons task tasks ih =>
    obtain ⟨p, hp⟩ := adjusted_isOk context h task
    obtain ⟨pairs, hpairs⟩ := ih
    refine ⟨p :: pairs, ?_⟩
    unfold adjustAll
    rw [hp, hpairs]

/-- The campaign counts that are read are floats. -/
def CountsFit (context : MemoryContext) : Prop :=
  ∀ memory, context.memory = some memory → ∀ node ∈ memory.nodes.take 20000, Counted (memory.added.take 200) node = true →
    ∃ count, Binary64.ofInt? (max 1 node.campaignCount) = some count

theorem historicalKindScores_isOk : (∃ result, historicalKindScores context.memory = .ok result) ↔ CountsFit context := by
  unfold CountsFit
  cases context.memory with
  | none => exact ⟨fun _ _ h => (nomatch h), fun _ => ⟨.empty, rfl⟩⟩
  | some memory =>
    rw [historicalKindScores, historicalLoop_isOk]
    exact ⟨fun h m hm => Option.some.inj hm ▸ h, fun h => h memory rfl⟩

theorem historicalKindScores_scored {memory : Option TargetMemory} {result : Dict String Binary64}
    (h : historicalKindScores memory = .ok result) : Scored result := by
  cases memory with
  | none =>
    cases h
    exact scored_empty
  | some memory => exact historicalLoop_scored h scored_empty

/-- The prioritiser returns exactly when the campaign counts that it reads are floats. -/
theorem prioritizeReconTasks_isOk (tasks : List Task) :
    (∃ result, prioritizeReconTasks context tasks = .ok result) ↔ CountsFit context := by
  rw [← historicalKindScores_isOk]
  unfold prioritizeReconTasks
  cases hhistorical : historicalKindScores context.memory with
  | error e => exact ⟨fun ⟨_, h⟩ => (nomatch h), fun ⟨_, h⟩ => (nomatch h)⟩
  | ok historical =>
    have hsound : Sound ⟨signalCounts context.diff, historical, temporalKindScores context.temporal,
        confidenceKindScores context.confidence⟩ :=
      ⟨signalCounts_nonneg context.diff, historicalKindScores_scored hhistorical, temporal_scored context.temporal⟩
    obtain ⟨pairs, hpairs⟩ := adjustAll_isOk context hsound tasks
    dsimp only
    rw [hpairs]
    exact ⟨fun _ => ⟨historical, rfl⟩, fun _ => ⟨_, rfl⟩⟩

variable (limits) in
theorem coordinateLoop_isOk (s : Swarm) :
    (∃ s', coordinateLoop limits tasks s = .ok s') ↔ ∀ task ∈ tasks, ∃ capability, checkTask task = .ok capability := by
  induction tasks generalizing s with
  | nil => exact ⟨fun _ _ h => absurd h List.not_mem_nil, fun _ => ⟨s, rfl⟩⟩
  | cons task tasks ih =>
    rw [List.forall_mem_cons]
    unfold coordinateLoop
    cases hcheck : checkTask task with
    | error e => exact ⟨fun ⟨_, h⟩ => (nomatch h), fun ⟨⟨_, h⟩, _⟩ => (nomatch h)⟩
    | ok capability =>
      dsimp only
      rw [ih]
      exact ⟨fun h => ⟨⟨capability, rfl⟩, h⟩, fun h => h.2⟩

/-- The swarm is coordinated exactly when every task passes its checks. -/
theorem coordinateReconSwarm_isOk (tasks : List Task) :
    (∃ result, coordinateReconSwarm limits tasks = .ok result) ↔ ∀ task ∈ tasks, ∃ capability, checkTask task = .ok capability := by
  have hmem : (∀ task ∈ tasks.insertionSort Sooner, ∃ capability, checkTask task = .ok capability) ↔
      ∀ task ∈ tasks, ∃ capability, checkTask task = .ok capability := by
    simp only [(List.perm_insertionSort Sooner tasks).mem_iff]
  rw [← hmem, ← coordinateLoop_isOk limits ⟨[], [], [], 0⟩]
  unfold coordinateReconSwarm
  cases hloop : coordinateLoop limits (tasks.insertionSort Sooner) ⟨[], [], [], 0⟩ with
  | error e => exact ⟨fun ⟨_, h⟩ => (nomatch h), fun ⟨_, h⟩ => (nomatch h)⟩
  | ok s => exact ⟨fun _ => ⟨s, rfl⟩, fun _ => ⟨_, rfl⟩⟩

/-- Prioritising moves tasks and adds to their reasons, within the documented layers and 25 points in all; the swarm takes some of the
tasks, with some of their requests, within its budget. Both return exactly when their checks pass. -/
theorem only_reorders :
    (∀ (context : MemoryContext) (tasks : List Task) (result : PriorityResult), prioritizeReconTasks context tasks = .ok result →
      ∃ pairs : List (Task × Adjustment), result.tasks.Perm (pairs.map (·.1)) ∧ result.adjustments.Perm (pairs.map (·.2)) ∧
        List.Forall₂ (fun task p => p.1 = { task with priority := p.1.priority, reason := p.1.reason } ∧ Within context task p.1 p.2)
          tasks pairs) ∧
      (∀ (context : MemoryContext) (tasks : List Task),
        (∃ result, prioritizeReconTasks context tasks = .ok result) ↔ CountsFit context) ∧
      (∀ (limits : SwarmBudget) (tasks : List Task) (result : Coordination), coordinateReconSwarm limits tasks = .ok result →
        (∃ chosen : List Task, chosen.Subperm tasks ∧ List.Forall₂ Selected chosen result.tasks) ∧
          (result.tasks.length : Int) ≤ limits.maxTasks ∧ total result.tasks ≤ limits.maxTotalRequests) ∧
      ∀ (limits : SwarmBudget) (tasks : List Task), (∃ result, coordinateReconSwarm limits tasks = .ok result) ↔
        ∀ task ∈ tasks, ∃ capability, checkTask task = .ok capability := by
  refine ⟨?_, fun context tasks => prioritizeReconTasks_isOk tasks, ?_, fun limits tasks => coordinateReconSwarm_isOk tasks⟩
  · intro context tasks result h
    unfold prioritizeReconTasks at h
    split at h
    · cases h
    dsimp only at h
    split at h
    · cases h
    rename_i pairs hpairs
    cases h
    exact ⟨pairs, List.perm_insertionSort _ _, List.perm_insertionSort _ _, adjustAll_spec hpairs⟩
  · intro limits tasks result h
    unfold coordinateReconSwarm at h
    split at h
    · cases h
    rename_i s hs
    cases h
    have hstart : Allotted limits [] ⟨[], [], [], 0⟩ :=
      ⟨⟨[], List.Sublist.refl _, .nil⟩, by have := limits.tasks_range; simp; omega, rfl, by have := limits.requests_range; simp; omega⟩
    obtain ⟨⟨chosen, hsub, hselected⟩, hcount, hused, hbudget⟩ := coordinateLoop_spec hs hstart
    exact ⟨⟨chosen, hsub.subperm.trans (List.perm_insertionSort Sooner tasks).subperm, hselected⟩, hcount, hused ▸ hbudget⟩

/-- A recommended kind of task. -/
def sampleContext : MemoryContext where
  diff := ⟨false, 0, .empty⟩
  memory := none
  temporal := none
  confidence := none
  highValue := none
  feedback := some ⟨"recovery_advisory", some true, some false, some false, none, none, none, none, some [some "map_forms"]⟩

def sampleTask : Task := ⟨"map_forms", "form-agent", "https://example.com/", 70, "forms", 12, ["GET", "HEAD"], true, true⟩

/-- The combined cap of 20 points does not hold for a task that a feedback recommends. -/
theorem recommended_above_cap :
    ∃ result, prioritizeReconTasks sampleContext [sampleTask] = .ok result ∧ ∃ a ∈ result.adjustments, 20 < a.boost := by
  have h : ((prioritizeReconTasks sampleContext [sampleTask]).toOption.map fun r => r.adjustments.map (·.boost)) = some [24] := by
    decide +kernel
  cases hresult : prioritizeReconTasks sampleContext [sampleTask] with
  | error e =>
    rw [hresult] at h
    cases h
  | ok result =>
    rw [hresult] at h
    have hboosts : result.adjustments.map (·.boost) = [24] := Option.some.inj h
    have hmem : (24 : Int) ∈ result.adjustments.map (·.boost) := hboosts ▸ List.mem_cons_self
    obtain ⟨a, ha, hboost⟩ := List.mem_map.mp hmem
    exact ⟨result, rfl, a, ha, by omega⟩

end ReconPriority

end XbowPerso
