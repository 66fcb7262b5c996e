import ConfigVetting.Decimal.Binary64

/-! # Shortest decimals

The decimal with the fewest digits that reads back as a given number of double precision, and of
those the one nearest to it.
-/

namespace ConfigVetting

/-- The decimal `digits * 10^exponent`. -/
structure Decimal where
  digits : Nat
  exponent : Int
  deriving DecidableEq, Repr

/-- The same decimal with fewer digits, as long as the last digit is zero. -/
def Decimal.strip (decimal : Decimal) : Nat → Decimal
  | 0 => decimal
  | steps + 1 =>
    if decimal.digits % 10 = 0 then
      Decimal.strip ⟨decimal.digits / 10, decimal.exponent + 1⟩ steps
    else decimal

namespace Binary64

/-- The quotient `numerator / denominator`, as a pair of whole numbers, times `10^exponent`. -/
def timesPowerOfTen (quotient : Nat × Nat) (exponent : Int) : Nat × Nat :=
  if exponent < 0 then (quotient.1, quotient.2 * Nat.pow 10 exponent.natAbs)
  else (quotient.1 * Nat.pow 10 exponent.natAbs, quotient.2)

/-- Whether one quotient is less than another. -/
def quotientLess (x y : Nat × Nat) : Bool :=
  x.1 * y.2 < y.1 * x.2

/-- The ends of the interval of reals that round to a non-zero number, and whether they do too. -/
def roundingInterval (x : Binary64) : (Nat × Nat) × (Nat × Nat) × Bool :=
  let half : Int := x.exponent - 2
  let scaled (units : Nat) : Nat × Nat := (Binary64.mk false units half).ratio
  let narrow := x.significand == Nat.pow 2 (precision - 1) && leastExponent < x.exponent
  (scaled (4 * x.significand - if narrow then 1 else 2), scaled (4 * x.significand + 2),
    x.significand % 2 == 0)

/-- Whether a decimal rounds to a non-zero number. -/
def readsBack (x : Binary64) (decimal : Decimal) : Bool :=
  let (low, high, closed) := x.roundingInterval
  let value := timesPowerOfTen (decimal.digits, 1) decimal.exponent
  let aboveLow := if closed then !quotientLess value low else quotientLess low value
  let belowHigh := if closed then !quotientLess high value else quotientLess value high
  aboveLow && belowHigh

/-- The exponent of the leading digit of a quotient, searched upwards from `start`. -/
def leadingExponent (quotient : Nat × Nat) (start : Int) : Nat → Int
  | 0 => start
  | steps + 1 =>
    if quotientLess quotient (timesPowerOfTen (1, 1) (start + 1)) then start
    else leadingExponent quotient (start + 1) steps

/-- The decimals next to a number on the grid of multiples of `10^exponent`, nearer one first. -/
def neighbours (x : Binary64) (exponent : Int) : List Decimal :=
  let (above, below) := timesPowerOfTen x.ratio (-exponent)
  let whole := above / below
  let low : Decimal := ⟨whole, exponent⟩
  let high : Decimal := ⟨whole + 1, exponent⟩
  let rest := 2 * (above % below)
  if rest < below || (rest == below && whole % 2 == 0) then [low, high] else [high, low]

/-- The first decimal that reads back, on ever finer grids. -/
def shortestFrom (x : Binary64) (exponent : Int) : Nat → Decimal
  | 0 => ⟨x.significand, 0⟩
  | grids + 1 =>
    match (x.neighbours exponent).find? x.readsBack with
    | some decimal => decimal
    | none => shortestFrom x (exponent - 1) grids

/-- The shortest decimal that reads back as a non-zero number; seventeen digits always do. -/
def shortest (x : Binary64) : Decimal :=
  (shortestFrom x (leadingExponent x.ratio (-325) 640) 18).strip 18

end Binary64

end ConfigVetting
