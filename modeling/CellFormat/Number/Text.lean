import CellFormat.Number.Shortest
/-!
# Numbers as text

How the numbers inside condition tags are read and written. Whole numbers of moderate size are written as
plain integers, all others with the fewest digits that read back; the reader rounds any decimal text to the
nearest binary64 value, and knows the names of the values that are no numbers.
-/

namespace CellFormat

/-! ### Reading -/

/-- The number that a run of decimal digits stands for. -/
def digitsValue (digits : List Char) : Nat := Nat.ofDigitChars 10 digits 0

/-- The sign in front of a number, and the text behind it. -/
def readSign : List Char → Bool × List Char
  | '-' :: rest => (true, rest)
  | '+' :: rest => (false, rest)
  | cs => (false, cs)

/-- The exponent at the end of a number: none, or an `e` with a whole number. -/
def readExponent? : List Char → Option Int
  | [] => some 0
  | mark :: rest =>
    let (negative, digits) := readSign rest
    if mark.toLower = 'e' && !digits.isEmpty && digits.all Char.isDigit then
      some (if negative then -(digitsValue digits : Int) else digitsValue digits)
    else none

/-- The digits of a number behind its point, if it has a point, and the text behind them. -/
def readFraction : List Char → List Char × List Char
  | '.' :: rest => (rest.takeWhile Char.isDigit, rest.dropWhile Char.isDigit)
  | cs => ([], cs)

/-- A number without sign: digits with at most one point before, among or behind them, and an exponent. -/
def readMagnitude? (negative : Bool) (cs : List Char) : Option Binary64 := do
  let whole := cs.takeWhile Char.isDigit
  let (fraction, rest) := readFraction (cs.dropWhile Char.isDigit)
  let exponent ← readExponent? rest
  let digits := whole ++ fraction
  if digits.isEmpty then none
  else some (.ofDecimal negative (digitsValue digits) (exponent - fraction.length))

/-- The values that are no numbers go by name, in any case. -/
def readNamed? (negative : Bool) (cs : List Char) : Option Binary64 :=
  let name := cs.map Char.toLower
  if name = "inf".toList || name = "infinity".toList then some (.infinity negative)
  else if name = "nan".toList then some .nan
  else none

/-- The binary64 value that a text stands for. -/
def readNumber? (cs : List Char) : Option Binary64 :=
  let (negative, rest) := readSign cs
  readNamed? negative rest <|> readMagnitude? negative rest

/-! ### Writing -/

def writeNat (n : Nat) : List Char := Nat.toDigits 10 n

def writeInt (n : Int) : List Char := (if n < 0 then ['-'] else []) ++ writeNat n.natAbs

/-- Where plain notation ends and an exponent is written instead: the greatest number of places before the point, and of
zeros between the point and the first other digit. -/
structure NumberLayout where
  mostWhole : Int
  mostZeros : Int

/-- Thresholds are written plainly up to sixteen places before the point and four zeros behind it. -/
def NumberLayout.threshold : NumberLayout := ⟨16, 4⟩

/-- The digits with a point where the layout puts it. -/
def NumberLayout.write (layout : NumberLayout) (d : Decimal) : List Char :=
  let digits := writeNat d.digits
  let point := digits.length + d.exponent
  if 0 ≤ d.exponent ∧ point ≤ layout.mostWhole then
    digits ++ List.replicate d.exponent.toNat '0' ++ ['.', '0']
  else if 0 < point ∧ point ≤ layout.mostWhole then
    digits.take point.toNat ++ '.' :: digits.drop point.toNat
  else if point ≤ 0 ∧ -point ≤ layout.mostZeros then
    '0' :: '.' :: List.replicate (-point).toNat '0' ++ digits
  else
    let fraction := digits.drop 1
    digits.take 1 ++ (if fraction.isEmpty then [] else '.' :: fraction) ++ 'e' :: writeInt (point - 1)

/-- The magnitude of `x` when it is a whole number of which every neighbour is exact too. -/
def Binary64.whole? (x : Binary64) : Option Nat :=
  let whole := x.units / Binary64.unitsPerOne
  if x.units % Binary64.unitsPerOne = 0 ∧ whole ≤ 2 * Binary64.binadeSize then some whole else none

/-- The text of a finite value. Zero has no sign. -/
def writeNumber (x : Binary64) : List Char :=
  let magnitude := match x.whole? with
    | some whole => writeNat whole
    | none => NumberLayout.threshold.write x.shortest
  if x.negative && !x.isZero then '-' :: magnitude else magnitude

/-- The name of a value that is no number. -/
def nameNonFinite (x : Binary64) : String :=
  if x.isNaN then "NaN" else if x.negative then "-inf" else "inf"

end CellFormat
