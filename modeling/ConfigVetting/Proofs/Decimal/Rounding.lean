import ConfigVetting.Decimal.Binary64
import Mathlib.Tactic.Positivity
import Mathlib.Tactic.Ring

/-! # Rounding quotients

Rounding keeps the order: of two quotients, the number nearest to the smaller one is at most that nearest to
the larger one (`ConfigVetting.Binary64.size_ofQuotient?_mono`). Quotients with the same exponent are rounded
to a whole number of the same units; else a power of two lies between them, which neither is rounded past.
-/

namespace ConfigVetting.Binary64

/-! ## Whole numbers -/

section Nearest

variable {above below other otherBelow : Nat}

/-- Whether a quotient is rounded down to a whole number: its rest is less than one half, or one half over an
even number. -/
def RoundsDown (above below : Nat) : Prop :=
  2 * (above % below) < below ∨ 2 * (above % below) = below ∧ above / below % 2 = 0

instance (above below : Nat) : Decidable (RoundsDown above below) :=
  inferInstanceAs (Decidable (_ ∨ _))

/-- The whole number nearest to a quotient, the even one of two. -/
def nearest (above below : Nat) : Nat :=
  if RoundsDown above below then above / below else above / below + 1

private theorem div_le_nearest : above / below ≤ nearest above below := by
  unfold nearest
  split
  · exact le_rfl
  · exact Nat.le_succ _

private theorem nearest_le_succ : nearest above below ≤ above / below + 1 := by
  unfold nearest
  split
  · exact Nat.le_succ _
  · exact le_rfl

/-- Of two quotients with the same whole part, the smaller one is rounded down if the larger one is. -/
theorem RoundsDown.of_le (positive : 0 < below) (otherPositive : 0 < otherBelow)
    (less : above * otherBelow ≤ other * below) (same : above / below = other / otherBelow)
    (down : RoundsDown other otherBelow) : RoundsDown above below := by
  have rests : above % below * otherBelow ≤ other % otherBelow * below := by
    have split := Nat.div_add_mod above below
    have otherSplit := Nat.div_add_mod other otherBelow
    rw [same] at split
    refine Nat.le_of_add_le_add_left (a := otherBelow * (other / otherBelow) * below) ?_
    calc otherBelow * (other / otherBelow) * below + above % below * otherBelow
        = (below * (other / otherBelow) + above % below) * otherBelow := by ring
      _ ≤ (otherBelow * (other / otherBelow) + other % otherBelow) * below := by rwa [split, otherSplit]
      _ = _ := add_mul _ _ _
  rcases down with smaller | ⟨half, even⟩
  · left
    by_contra larger
    refine absurd ?_ (Nat.not_lt_of_le (Nat.mul_le_mul_right otherBelow (Nat.le_of_not_lt larger)))
    calc 2 * (above % below) * otherBelow = 2 * (above % below * otherBelow) := mul_assoc _ _ _
      _ ≤ 2 * (other % otherBelow * below) := Nat.mul_le_mul_left 2 rests
      _ = 2 * (other % otherBelow) * below := (mul_assoc _ _ _).symm
      _ < otherBelow * below := Nat.mul_lt_mul_of_pos_right smaller positive
      _ = below * otherBelow := mul_comm _ _
  · have most : 2 * (above % below) ≤ below := by
      refine Nat.le_of_mul_le_mul_right ?_ otherPositive
      calc 2 * (above % below) * otherBelow = 2 * (above % below * otherBelow) := mul_assoc _ _ _
        _ ≤ 2 * (other % otherBelow * below) := Nat.mul_le_mul_left 2 rests
        _ = below * otherBelow := by rw [← mul_assoc, half, mul_comm]
    exact (Nat.lt_or_eq_of_le most).imp id fun half => ⟨half, same ▸ even⟩

/-- Rounding to a whole number keeps the order of quotients. -/
theorem nearest_mono (positive : 0 < below) (otherPositive : 0 < otherBelow)
    (less : above * otherBelow ≤ other * below) : nearest above below ≤ nearest other otherBelow := by
  have wholes : above / below ≤ other / otherBelow := by
    rw [Nat.le_div_iff_mul_le otherPositive]
    refine Nat.le_of_mul_le_mul_right ?_ positive
    calc above / below * otherBelow * below = above / below * below * otherBelow := mul_right_comm _ _ _
      _ ≤ above * otherBelow := Nat.mul_le_mul_right _ (Nat.div_mul_le_self above below)
      _ ≤ other * below := less
  rcases Nat.lt_or_eq_of_le wholes with before | same
  · exact nearest_le_succ.trans (before.trans_le div_le_nearest)
  · by_cases down : RoundsDown other otherBelow
    · rw [nearest, if_pos (down.of_le positive otherPositive less same), same]
      exact div_le_nearest
    · refine nearest_le_succ.trans_eq ?_
      rw [nearest, if_neg down, same]

@[simp]
theorem nearest_one (whole : Nat) : nearest whole 1 = whole := by
  simp [nearest, RoundsDown, Nat.mod_one]

end Nearest

/-! ## Numbers with an exponent -/

/-- The size of a number. -/
def size (x : Binary64) : ℚ :=
  x.significand * 2 ^ x.exponent

/-- Numerator and denominator of a quotient in units of a power of two. -/
def inUnits (numerator denominator : Nat) (exponent : Int) : Nat × Nat :=
  if exponent < 0 then (numerator * 2 ^ exponent.natAbs, denominator)
  else (numerator, denominator * 2 ^ exponent.natAbs)

variable {numerator denominator other otherDenominator : Nat} {exponent : Int}

private theorem inUnits_pos (positive : 0 < denominator) :
    0 < (inUnits numerator denominator exponent).2 := by
  unfold inUnits
  split
  · exact positive
  · exact Nat.mul_pos positive (Nat.two_pow_pos _)

private theorem zpow_eq_of_neg (negative : exponent < 0) : (2 : ℚ) ^ exponent = (2 ^ exponent.natAbs)⁻¹ := by
  rw [← zpow_natCast, ← zpow_neg]
  congr 1
  omega

private theorem zpow_eq_of_nonneg (nonneg : ¬ exponent < 0) : (2 : ℚ) ^ exponent = 2 ^ exponent.natAbs := by
  rw [← zpow_natCast]
  congr 1
  omega

private theorem inUnits_eq (numerator denominator : Nat) (exponent : Int) :
    ((inUnits numerator denominator exponent).1 : ℚ) / (inUnits numerator denominator exponent).2 =
      numerator / denominator / 2 ^ exponent := by
  unfold inUnits
  by_cases negative : exponent < 0
  · rw [if_pos negative, zpow_eq_of_neg negative]
    push_cast
    rw [div_inv_eq_mul, div_mul_eq_mul_div]
  · rw [if_neg negative, zpow_eq_of_nonneg negative]
    push_cast
    rw [div_div]

/-- The size of a number is the quotient it is read as. -/
theorem ratio_eq_size (x : Binary64) : (x.ratio.1 : ℚ) / x.ratio.2 = x.size := by
  unfold ratio size
  by_cases negative : x.exponent < 0
  · rw [if_pos negative, zpow_eq_of_neg negative, ← div_eq_mul_inv, Nat.pow_eq]
    push_cast
    rfl
  · rw [if_neg negative, zpow_eq_of_nonneg negative, Nat.pow_eq]
    push_cast
    rw [div_one]

theorem ratio_pos (x : Binary64) : 0 < x.ratio.2 := by
  unfold ratio
  split
  · exact Nat.two_pow_pos _
  · exact Nat.one_pos

private theorem scaledQuotient_eq (numerator denominator : Nat) (exponent : Int) :
    scaledQuotient numerator denominator exponent =
      nearest (inUnits numerator denominator exponent).1 (inUnits numerator denominator exponent).2 := by
  have cases : ∀ above below : Nat,
      (if 2 * (above % below) < below then above / below
        else if (2 * (above % below) == below && above / below % 2 == 0) = true then above / below
        else above / below + 1) = nearest above below := by
    intro above below
    simp only [nearest, RoundsDown, Bool.and_eq_true, beq_iff_eq]
    by_cases smaller : 2 * (above % below) < below
    · simp [smaller]
    · simp [smaller]
  unfold scaledQuotient inUnits
  by_cases negative : exponent < 0
  · simp only [if_pos negative]
    exact cases _ _
  · simp only [if_neg negative]
    exact cases _ _

/-- Rounding to a whole number of the same units keeps the order of quotients. -/
theorem scaledQuotient_mono (positive : 0 < denominator) (otherPositive : 0 < otherDenominator)
    (less : (numerator / denominator : ℚ) ≤ other / otherDenominator) :
    scaledQuotient numerator denominator exponent ≤ scaledQuotient other otherDenominator exponent := by
  rw [scaledQuotient_eq, scaledQuotient_eq]
  have below : 0 < (inUnits numerator denominator exponent).2 := inUnits_pos positive
  have otherBelow : 0 < (inUnits other otherDenominator exponent).2 := inUnits_pos otherPositive
  have scaled := div_le_div_of_nonneg_right less (zpow_nonneg (zero_le_two (α := ℚ)) exponent)
  rw [← inUnits_eq, ← inUnits_eq, div_le_div_iff₀ (by exact_mod_cast below) (by exact_mod_cast otherBelow)]
    at scaled
  exact nearest_mono below otherBelow (by exact_mod_cast scaled)

private theorem scaledQuotient_le (positive : 0 < denominator) {whole : Nat}
    (less : (numerator / denominator : ℚ) ≤ whole * 2 ^ exponent) :
    scaledQuotient numerator denominator exponent ≤ whole := by
  rw [scaledQuotient_eq, ← nearest_one whole]
  have below : 0 < (inUnits numerator denominator exponent).2 := inUnits_pos positive
  rw [← div_le_iff₀ (zpow_pos two_pos exponent), ← inUnits_eq, div_le_iff₀ (by exact_mod_cast below)] at less
  exact nearest_mono below Nat.one_pos (by rw [mul_one]; exact_mod_cast less)

private theorem le_scaledQuotient (positive : 0 < denominator) {whole : Nat}
    (less : (whole * 2 ^ exponent : ℚ) ≤ numerator / denominator) :
    whole ≤ scaledQuotient numerator denominator exponent := by
  rw [scaledQuotient_eq]
  conv_lhs => rw [← nearest_one whole]
  have below : 0 < (inUnits numerator denominator exponent).2 := inUnits_pos positive
  rw [← le_div_iff₀ (zpow_pos two_pos exponent), ← inUnits_eq, le_div_iff₀ (by exact_mod_cast below)] at less
  exact nearest_mono Nat.one_pos below (by rw [mul_one]; exact_mod_cast less)

/-! ## The exponent of a quotient -/

/-- The exponent of a quotient as told by the logarithms, which may be too small by one. -/
def guessOf (numerator denominator : Nat) : Int :=
  (numerator.log2 : Int) - (denominator.log2 : Int) - (precision : Int)

/-- The exponent in whose units a quotient is rounded. -/
def unitsOf (numerator denominator : Nat) : Int :=
  max leastExponent
    (if quotientBelowPower numerator denominator (guessOf numerator denominator + precision) then
      guessOf numerator denominator
    else guessOf numerator denominator + 1)

private theorem quotientBelowPower_iff (positive : 0 < denominator) :
    quotientBelowPower numerator denominator exponent = true ↔
      (numerator / denominator : ℚ) < 2 ^ exponent := by
  have denominatorPos : (0 : ℚ) < denominator := by exact_mod_cast positive
  unfold quotientBelowPower
  by_cases negative : exponent < 0
  · rw [if_pos negative, zpow_eq_of_neg negative, decide_eq_true_iff, div_lt_iff₀ denominatorPos,
      inv_mul_eq_div, lt_div_iff₀ (by positivity), Nat.pow_eq]
    exact_mod_cast Iff.rfl
  · rw [if_neg negative, zpow_eq_of_nonneg negative, decide_eq_true_iff, div_lt_iff₀ denominatorPos,
      Nat.pow_eq, mul_comm denominator]
    exact_mod_cast Iff.rfl

/-- The logarithms of numerator and denominator tell a quotient up to a factor of two. -/
theorem log2_bounds (numeratorPositive : 0 < numerator) (positive : 0 < denominator) :
    (2 : ℚ) ^ ((numerator.log2 : Int) - denominator.log2 - 1) ≤ numerator / denominator ∧
      (numerator / denominator : ℚ) < 2 ^ ((numerator.log2 : Int) - denominator.log2 + 1) := by
  have denominatorPos : (0 : ℚ) < denominator := by exact_mod_cast positive
  have least : (2 : ℚ) ^ (numerator.log2 : Int) ≤ numerator := by
    rw [zpow_natCast]
    exact_mod_cast Nat.log2_self_le numeratorPositive.ne'
  have greatest : (numerator : ℚ) < 2 ^ ((numerator.log2 : Int) + 1) := by
    rw [← Nat.cast_succ, zpow_natCast]
    exact_mod_cast Nat.lt_log2_self
  have below : (2 : ℚ) ^ (denominator.log2 : Int) ≤ denominator := by
    rw [zpow_natCast]
    exact_mod_cast Nat.log2_self_le positive.ne'
  have above : (denominator : ℚ) < 2 ^ ((denominator.log2 : Int) + 1) := by
    rw [← Nat.cast_succ, zpow_natCast]
    exact_mod_cast Nat.lt_log2_self
  constructor
  · rw [le_div_iff₀ denominatorPos]
    calc (2 : ℚ) ^ ((numerator.log2 : Int) - denominator.log2 - 1) * denominator
        ≤ 2 ^ ((numerator.log2 : Int) - denominator.log2 - 1) * 2 ^ ((denominator.log2 : Int) + 1) :=
          mul_le_mul_of_nonneg_left above.le (zpow_nonneg zero_le_two _)
      _ = 2 ^ (numerator.log2 : Int) := by
          rw [← zpow_add₀ two_ne_zero]
          congr 1
          ring
      _ ≤ numerator := least
  · rw [div_lt_iff₀ denominatorPos]
    calc (numerator : ℚ) < 2 ^ ((numerator.log2 : Int) + 1) := greatest
      _ = 2 ^ ((numerator.log2 : Int) - denominator.log2 + 1) * 2 ^ (denominator.log2 : Int) := by
          rw [← zpow_add₀ two_ne_zero]
          congr 1
          ring
      _ ≤ 2 ^ ((numerator.log2 : Int) - denominator.log2 + 1) * denominator :=
          mul_le_mul_of_nonneg_left below (zpow_nonneg zero_le_two _)

/-- A quotient has no more bits than a significand, in the units in which it is rounded. -/
theorem lt_zpow_unitsOf (numeratorPositive : 0 < numerator) (positive : 0 < denominator) :
    (numerator / denominator : ℚ) < 2 ^ (unitsOf numerator denominator + precision) := by
  have bound := (log2_bounds numeratorPositive positive).2
  have guess : guessOf numerator denominator + precision = numerator.log2 - denominator.log2 :=
    sub_add_cancel _ _
  unfold unitsOf
  split
  · next below =>
      refine ((quotientBelowPower_iff positive).mp below).trans_le (zpow_le_zpow_right₀ one_le_two ?_)
      omega
  · refine bound.trans_le (zpow_le_zpow_right₀ one_le_two ?_)
    omega

/-- A quotient has as many bits as a significand, unless it is rounded in the least units. -/
theorem zpow_unitsOf_le (numeratorPositive : 0 < numerator) (positive : 0 < denominator)
    (above : leastExponent < unitsOf numerator denominator) :
    (2 : ℚ) ^ (unitsOf numerator denominator + (precision - 1)) ≤ numerator / denominator := by
  have bound := (log2_bounds numeratorPositive positive).1
  have guess : guessOf numerator denominator + precision = numerator.log2 - denominator.log2 :=
    sub_add_cancel _ _
  unfold unitsOf at above ⊢
  by_cases below : quotientBelowPower numerator denominator (guessOf numerator denominator + precision)
  · rw [if_pos below] at above ⊢
    refine (zpow_le_zpow_right₀ one_le_two ?_).trans bound
    omega
  · rw [if_neg below] at above ⊢
    refine (zpow_le_zpow_right₀ one_le_two ?_).trans
      (not_lt.mp ((quotientBelowPower_iff positive).not.mp below))
    omega

/-- A significand has no bit too many, but for the power of two that is carried. -/
private theorem scaledQuotient_le_pow (numeratorPositive : 0 < numerator) (positive : 0 < denominator) :
    scaledQuotient numerator denominator (unitsOf numerator denominator) ≤ 2 ^ precision := by
  refine scaledQuotient_le positive ((lt_zpow_unitsOf numeratorPositive positive).le.trans_eq ?_)
  rw [zpow_add₀ two_ne_zero, zpow_natCast, mul_comm]
  norm_cast

/-- A significand has all its bits, unless it counts the least units. -/
private theorem pow_le_scaledQuotient (numeratorPositive : 0 < numerator) (positive : 0 < denominator)
    (above : leastExponent < unitsOf numerator denominator) :
    2 ^ (precision - 1) ≤ scaledQuotient numerator denominator (unitsOf numerator denominator) := by
  refine le_scaledQuotient positive (Eq.trans_le ?_ (zpow_unitsOf_le numeratorPositive positive above))
  rw [zpow_add₀ two_ne_zero, mul_comm]
  norm_cast

/-! ## The order of rounded quotients -/

section Order

variable {x y : Binary64}

theorem size_nonneg (x : Binary64) : 0 ≤ x.size :=
  mul_nonneg (Nat.cast_nonneg _) (zpow_nonneg zero_le_two _)

@[simp]
theorem size_zero (negative : Bool) : (zero negative).size = 0 := by
  simp [size, zero]

/-- A rounded quotient is a whole number of units. -/
theorem size_of_ofQuotient? (numeratorPositive : 0 < numerator)
    (rounded : ofQuotient? numerator denominator = some x) :
    x.size = scaledQuotient numerator denominator (unitsOf numerator denominator) *
      2 ^ unitsOf numerator denominator := by
  rw [ofQuotient?, if_neg numeratorPositive.ne'] at rounded
  have chosen := Option.some.inj (Option.ite_none_left_eq_some.mp rounded).2
  rw [← chosen]
  change size (if scaledQuotient numerator denominator (unitsOf numerator denominator) == Nat.pow 2 precision
    then _ else _) = _
  split
  · -- The significand that was carried is even, so that halving it loses nothing.
    next carried =>
      rw [beq_iff_eq] at carried
      have half : scaledQuotient numerator denominator (unitsOf numerator denominator) =
          scaledQuotient numerator denominator (unitsOf numerator denominator) / 2 * 2 := by
        rw [carried]
        rfl
      change ((scaledQuotient numerator denominator (unitsOf numerator denominator) / 2 : Nat) : ℚ) *
        2 ^ (unitsOf numerator denominator + 1) = _
      conv_rhs => rw [half]
      rw [zpow_add_one₀ two_ne_zero]
      push_cast
      ring
  · rfl

/-- **Rounding a quotient keeps the order**: the number nearest to the smaller quotient is at most the number
nearest to the larger one. -/
theorem size_ofQuotient?_mono (positive : 0 < denominator) (otherPositive : 0 < otherDenominator)
    (less : (numerator / denominator : ℚ) ≤ other / otherDenominator)
    (rounded : ofQuotient? numerator denominator = some x)
    (otherRounded : ofQuotient? other otherDenominator = some y) : x.size ≤ y.size := by
  obtain rfl | numeratorPositive := numerator.eq_zero_or_pos
  · obtain rfl : zero false = x := Option.some.inj rounded
    exact (size_zero false).trans_le (size_nonneg y)
  have otherNumeratorPositive : 0 < other := by
    have quotientPositive : (0 : ℚ) < numerator / denominator := by positivity
    by_contra none
    obtain rfl : other = 0 := by omega
    exact absurd less (by simpa using quotientPositive)
  rw [size_of_ofQuotient? numeratorPositive rounded, size_of_ofQuotient? otherNumeratorPositive otherRounded]
  have unitsPositive : ∀ units : Int, (0 : ℚ) ≤ 2 ^ units := zpow_nonneg zero_le_two
  rcases lt_trichotomy (unitsOf numerator denominator) (unitsOf other otherDenominator) with
    finer | same | coarser
  · -- A power of two lies between the quotients.
    have atMost := scaledQuotient_le_pow numeratorPositive positive
    have atLeast := pow_le_scaledQuotient otherNumeratorPositive otherPositive
      (lt_of_le_of_lt (le_max_left _ _) finer)
    calc (scaledQuotient numerator denominator (unitsOf numerator denominator) : ℚ) *
          2 ^ unitsOf numerator denominator
        ≤ 2 ^ precision * 2 ^ unitsOf numerator denominator :=
          mul_le_mul_of_nonneg_right (by exact_mod_cast atMost) (unitsPositive _)
      _ = 2 ^ (precision - 1) * 2 ^ (unitsOf numerator denominator + 1) := by
          rw [zpow_add₀ two_ne_zero, precision]
          ring
      _ ≤ 2 ^ (precision - 1) * 2 ^ unitsOf other otherDenominator :=
          mul_le_mul_of_nonneg_left (zpow_le_zpow_right₀ one_le_two finer) (by positivity)
      _ ≤ scaledQuotient other otherDenominator (unitsOf other otherDenominator) *
          2 ^ unitsOf other otherDenominator :=
          mul_le_mul_of_nonneg_right (by exact_mod_cast atLeast) (unitsPositive _)
  · rw [same]
    exact mul_le_mul_of_nonneg_right (by exact_mod_cast scaledQuotient_mono positive otherPositive less)
      (unitsPositive _)
  · -- The smaller quotient cannot have the coarser units.
    have before := (zpow_unitsOf_le numeratorPositive positive
      (lt_of_le_of_lt (le_max_left _ _) coarser)).trans_lt
        (less.trans_lt (lt_zpow_unitsOf otherNumeratorPositive otherPositive))
    have exponents := (zpow_lt_zpow_iff_right₀ one_lt_two).mp before
    omega

end Order

end ConfigVetting.Binary64
