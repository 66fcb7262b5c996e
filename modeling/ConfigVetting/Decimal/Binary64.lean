/-! # Numbers of double precision

A finite number of the format with 53 significant bits, as sign, whole significand and binary
exponent, and the correctly rounded quotient of two whole numbers. Arithmetic is exact on whole
numbers, so each result is rounded once.
-/

namespace ConfigVetting

/-- The number `(-1)^negative * significand * 2^exponent`. -/
structure Binary64 where
  negative : Bool
  significand : Nat
  exponent : Int
  deriving DecidableEq, Repr

namespace Binary64

/-- How many bits a significand may have. -/
def precision : Nat := 53

/-- The least binary exponent. -/
def leastExponent : Int := -1074

/-- The greatest binary exponent of a significand with all its bits. -/
def greatestExponent : Int := 971

/-- The number zero with a sign. -/
def zero (negative : Bool) : Binary64 :=
  ⟨negative, 0, leastExponent⟩

/-- `numerator / denominator / 2^exponent`, rounded to a whole number with ties to even. -/
def scaledQuotient (numerator denominator : Nat) (exponent : Int) : Nat :=
  let above := if exponent < 0 then numerator * Nat.pow 2 exponent.natAbs else numerator
  let below := if exponent < 0 then denominator else denominator * Nat.pow 2 exponent.natAbs
  let whole := above / below
  let rest := 2 * (above % below)
  if rest < below then whole
  else if rest == below && whole % 2 == 0 then whole
  else whole + 1

/-- Whether `numerator / denominator` is less than `2^exponent`. -/
def quotientBelowPower (numerator denominator : Nat) (exponent : Int) : Bool :=
  if exponent < 0 then numerator * Nat.pow 2 exponent.natAbs < denominator
  else numerator < denominator * Nat.pow 2 exponent.natAbs

/-- The non-negative number nearest to a quotient, ties to even; nothing if it is out of range. -/
def ofQuotient? (numerator denominator : Nat) : Option Binary64 :=
  if numerator = 0 then some (zero false)
  else
    let guess : Int := (numerator.log2 : Int) - (denominator.log2 : Int) - (precision : Int)
    -- The quotient lies within a factor of two of `2 ^ (guess + precision)`.
    let exponent := max leastExponent
      (if quotientBelowPower numerator denominator (guess + precision) then guess else guess + 1)
    let significand := scaledQuotient numerator denominator exponent
    let carried := significand == Nat.pow 2 precision
    let result : Binary64 :=
      if carried then ⟨false, significand / 2, exponent + 1⟩ else ⟨false, significand, exponent⟩
    if greatestExponent < result.exponent then none else some result

/-- The number with the other sign. -/
def neg (x : Binary64) : Binary64 :=
  { x with negative := !x.negative }

/-- Numerator and denominator of the size of a number. -/
def ratio (x : Binary64) : Nat × Nat :=
  if x.exponent < 0 then (x.significand, Nat.pow 2 x.exponent.natAbs)
  else (x.significand * Nat.pow 2 x.exponent.natAbs, 1)

/-- The rounded product of the sizes of two numbers; nothing if it is out of range. -/
def mul? (x y : Binary64) : Option Binary64 :=
  ofQuotient? (x.ratio.1 * y.ratio.1) (x.ratio.2 * y.ratio.2)

/-- The rounded quotient of the sizes of two numbers; nothing if it is out of range. -/
def div? (x y : Binary64) : Option Binary64 :=
  ofQuotient? (x.ratio.1 * y.ratio.2) (x.ratio.2 * y.ratio.1)

/-- The number nearest to a whole number; nothing if it is out of range. -/
def ofNat? (value : Nat) : Option Binary64 :=
  ofQuotient? value 1

/-- Whether a number is zero, of either sign. -/
def isZero (x : Binary64) : Bool :=
  x.significand == 0

end Binary64

end ConfigVetting
