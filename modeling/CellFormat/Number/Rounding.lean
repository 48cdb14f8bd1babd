import CellFormat.Number.Binary64
/-!
# Rounding to binary64

The binary64 value nearest to a quotient of natural numbers, and so to a decimal number; of two values that
are equally near the one of even rank is taken.
-/

namespace CellFormat

/-- The natural number nearest to `num / den`; a half goes to the even neighbour. -/
def roundDiv (num den : Nat) : Nat :=
  let quotient := num / den
  let twice := 2 * (num % den)
  if den < twice || (twice == den && quotient % 2 == 1) then quotient + 1 else quotient

namespace Binary64

/-- The rank nearest to `num / den`. A quotient of up to 53 bits counts the steps of its binade; a longer
one is counted in steps of the binade that leaves 53 bits, and rounding up to the next power of two lands on
the first rank of the next binade. -/
def nearestRank (num den : Nat) : Nat :=
  let scaled := num * unitsPerOne
  let binade := (scaled / den).log2 - 52
  binade * binadeSize + roundDiv scaled (den * Nat.pow 2 binade)

/-- The value nearest to `digits * 10 ^ exponent`, infinity from halfway beyond the greatest finite value
on. Exponents so great or so low that the digits cannot make up for them are settled first. -/
def ofDecimal (negative : Bool) (digits : Nat) (exponent : Int) : Binary64 :=
  saturate negative <|
    if digits = 0 then 0
    else match exponent with
      | .ofNat places => if 400 < places then infinityRank else nearestRank (digits * Nat.pow 10 places) 1
      | .negSucc places =>
        if digits.log2 + 1101 < 3 * (places + 1) then 0 else nearestRank digits (Nat.pow 10 (places + 1))

end Binary64

example : (Binary64.ofDecimal false 1 0).toBits = 0x3ff0000000000000 := by decide +kernel
example : (Binary64.ofDecimal true 1 (-1)).toBits = 0xbfb999999999999a := by decide +kernel
example : (Binary64.ofDecimal false 9007199254740993 0).toBits = 0x4340000000000000 := by decide +kernel
example : (Binary64.ofDecimal false 5 (-324)).toBits = 1 := by decide +kernel
example : Binary64.ofDecimal false 18 307 = .infinity false := by decide +kernel

end CellFormat
