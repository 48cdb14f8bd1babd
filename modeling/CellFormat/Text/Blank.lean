/-!
# Blank characters

The Unicode property White_Space, and texts without their outer blanks. Condition tags may pad their
number with any of these characters.
-/

namespace CellFormat

/-- Whether `c` has the property White_Space. -/
def isBlank (c : Char) : Bool :=
  let n := c.toNat
  (0x09 ≤ n && n ≤ 0x0D) || n == 0x20 || n == 0x85 || n == 0xA0 || n == 0x1680 || (0x2000 ≤ n && n ≤ 0x200A)
    || n == 0x2028 || n == 0x2029 || n == 0x202F || n == 0x205F || n == 0x3000

/-- The text from its first to its last character that is not blank. -/
def trimBlanks (cs : List Char) : List Char :=
  ((cs.dropWhile isBlank).reverse.dropWhile isBlank).reverse

example : trimBlanks "\u00a0 a\tb \u3000".toList = ['a', '\t', 'b'] := by decide
example : trimBlanks "\u200b".toList = ['\u200b'] := by decide
example : trimBlanks " \n".toList = [] := by decide

end CellFormat
