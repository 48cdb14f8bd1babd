/-!
# Section colours

The eight named colours and the numbered palette that a section can be shown in, with their tag names and
their RGB values.
-/

namespace CellFormat

inductive Color where
  | black
  | white
  | red
  | green
  | blue
  | yellow
  | magenta
  | cyan
  | indexed (number : UInt8)
deriving DecidableEq

namespace Color

def named : List Color := [black, white, red, green, blue, yellow, magenta, cyan]

def name : Color → String
  | black => "Black"
  | white => "White"
  | red => "Red"
  | green => "Green"
  | blue => "Blue"
  | yellow => "Yellow"
  | magenta => "Magenta"
  | cyan => "Cyan"
  | indexed number => "Color" ++ number.toNat.repr

/-- The hexadecimal RGB values of the numbered colours, in order. -/
def palette : List String := [
  "000000", "FFFFFF", "FF0000", "00FF00", "0000FF", "FFFF00", "FF00FF", "00FFFF",
  "800000", "008000", "000080", "808000", "800080", "008080", "C0C0C0", "808080",
  "9999FF", "993366", "FFFFCC", "CCFFFF", "660066", "FF8080", "0066CC", "CCCCFF",
  "000080", "FF00FF", "FFFF00", "00FFFF", "800080", "800000", "008080", "0000FF",
  "00CCFF", "CCFFFF", "CCFFCC", "FFFF99", "99CCFF", "FF99CC", "CC99FF", "FFCC99",
  "3366FF", "33CCCC", "99CC00", "FFCC00", "FF9900", "FF6600", "666699", "969696",
  "003366", "339966", "003300", "333300", "993300", "993366", "333399", "333333"]

/-- The greatest number of a numbered colour; the entries of the palette are counted from one. -/
def maxIndexed : UInt8 := 56

/-- The colour as six hexadecimal digits. A number outside the palette counts as its nearest entry. -/
def rgb : Color → String
  | black => "000000"
  | white => "FFFFFF"
  | red => "FF0000"
  | green => "00FF00"
  | blue => "0000FF"
  | yellow => "FFFF00"
  | magenta => "FF00FF"
  | cyan => "00FFFF"
  | indexed number => palette.getD (min (max number 1) maxIndexed - 1).toNat "000000"

/-- The numbered colour whose tag name ends in these digits. -/
def ofDigits? (digits : List Char) : Option Color :=
  let number := Nat.ofDigitChars 10 digits 0
  if digits.all Char.isDigit && digits.length ≤ 2 && 1 ≤ number && number ≤ maxIndexed.toNat then
    some (indexed number.toUInt8)
  else none

/-- The colour with the tag name `cs`, in whatever case its ASCII letters are. -/
def ofName? (cs : List Char) : Option Color :=
  let lower := cs.map Char.toLower
  match named.find? fun color => color.name.toList.map Char.toLower == lower with
  | some color => some color
  | none =>
    match lower with
    | 'c' :: 'o' :: 'l' :: 'o' :: 'r' :: digits => ofDigits? digits
    | _ => none

example : ofName? "RED".toList = some red := by decide +kernel
example : ofName? "color05".toList = some (indexed 5) := by decide +kernel
example : ofName? "Color57".toList = none := by decide +kernel
example : ofName? "Color".toList = none := by decide +kernel

end Color

end CellFormat
