import CellFormat.Number.Rounding
/-!
# The shortest decimal that reads back

Every finite binary64 value is a decimal number of a thousand digits or so. `Binary64.shortest` cuts its
digits as short as it can: for one digit, two digits and so on it tries the two decimals of that length on
either side of the value, the nearer one first, and takes the first one that rounds back to the value. The
whole expansion is the last candidate, so the search always ends with a decimal that rounds back.
-/

namespace CellFormat

/-- The number `digits * 10 ^ exponent`. -/
structure Decimal where
  digits : Nat
  exponent : Int
deriving DecidableEq

namespace Decimal

/-- The same number without zeros at the end of its digits. -/
def dropZeros (digits : Nat) (exponent : Int) : Decimal :=
  if digits ≠ 0 ∧ digits % 10 = 0 then dropZeros (digits / 10) (exponent + 1) else ⟨digits, exponent⟩
termination_by digits
decreasing_by omega

end Decimal

namespace Binary64

/-- Whether the decimal, with the sign of `x`, rounds to `x`. -/
def isReadFrom (x : Binary64) (d : Decimal) : Bool :=
  ofDecimal x.negative d.digits d.exponent == x

/-- The exponent of the last digit that a binary64 value can have. -/
def leastExponent : Int := -1074

/-- The magnitude of a finite value as a multiple of ten to the power `leastExponent`. -/
def exactDigits (x : Binary64) : Nat := x.units * Nat.pow 5 1074

/-- The two neighbours of `digits` among the multiples of `10 ^ places`, in these steps, the nearer one
first; of two that are equally near the even one comes first. -/
def neighbours (digits places : Nat) : List Nat :=
  let step := Nat.pow 10 places
  let lower := digits / step
  let twice := 2 * (digits % step)
  if step < twice || (twice == step && lower % 2 == 1) then [lower + 1, lower] else [lower, lower + 1]

/-- The first decimal that rounds back to `x` among those that leave out `places` digits of its expansion or
fewer. -/
def shortestFrom (x : Binary64) : (places : Nat) → Decimal
  | 0 => .dropZeros x.exactDigits leastExponent
  | places + 1 =>
    let candidates := (neighbours x.exactDigits (places + 1)).map fun digits =>
      Decimal.dropZeros digits (leastExponent + (places + 1))
    (candidates.find? x.isReadFrom).getD (x.shortestFrom places)

/-- The shortest decimal that rounds to the magnitude of `x`, and of these the nearest one. -/
def shortest (x : Binary64) : Decimal :=
  x.shortestFrom ((Nat.toDigits 10 x.exactDigits).length - 1)

end Binary64

end CellFormat
