import CellFormat.Data.Basic
import CellFormat.Format
/-!
# Storing formats

The data that a format and its pieces are stored as. Records become objects, and alternatives are told apart
by their names.
-/

namespace CellFormat

def Comparator.toData (c : Comparator) : Data := .string c.name

def Condition.toData (c : Condition) : Data :=
  .object [("comparator", c.comparator.toData), ("threshold", .real c.threshold)]

def Color.toData : Color → Data
  | indexed number => .object [("Indexed", .integer number.toNat)]
  | color => .string color.name

def countData (count : UInt32) : Data := .integer count.toNat

def DigitBlock.toData (block : DigitBlock) : Data :=
  .object [
    ("min_integer_digits", countData block.minInteger),
    ("max_integer_digits", block.maxInteger.elim .null countData),
    ("min_decimal_digits", countData block.minDecimal),
    ("max_decimal_digits", block.maxDecimal.elim .null countData),
    ("grouping", .bool block.grouping)]

/-- The data of a literal text, without the name that tells it from a digit block. -/
def textData (text : String) : Data := .object [("text", .string text)]

def Part.toData : Part → Data
  | .number block => .object [("Number", block.toData)]
  | .text literal => .object [("Text", textData literal)]

def Section.toData (s : Section) : Data :=
  .object [("parts", .array (s.parts.map Part.toData)), ("color", s.color.elim .null Color.toData)]

def Branch.toData (b : Branch) : Data :=
  .object [("condition", b.condition.toData), ("section", b.body.toData)]

def Format.toData (f : Format) : Data :=
  .object [("primary", f.primary.toData), ("branches", .array (f.branches.map Branch.toData))]

end CellFormat
