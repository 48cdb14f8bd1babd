import CellFormat.Code.Splitting
import CellFormat.Code.WellKnown
import CellFormat.Format
import CellFormat.Text.Alphabetic
/-!
# Writing a code

The spreadsheet form of a number format: its branches in their order, then the primary section unless it is
empty beside branches. Conditions that the sections get by their position are left out, and literal texts
are quoted where they would not be read as such.
-/

namespace CellFormat

/-! ### Literal texts -/

/-- The characters that a code reads as placeholders or as the end of a section. -/
def isReserved (c : Char) : Bool := DigitBlock.isPlaceholder c || c == ';'

/-- The characters of texts that are written with escapes or codes of their own. -/
def isCodeChar (c : Char) : Bool := c == '_' || c == '\\' || c == '[' || c == '@' || c == '*' || c == '"'

def isQuoteMark (c : Char) : Bool := c == '"' || c == '\''

/-- Whether a literal text has to be quoted. Letters are, since spreadsheet applications read them as parts
of dates and exponents, except in texts with codes and in the general format. -/
def mustQuote (text : List Char) : Bool :=
  text.any isReserved || text.head?.any isQuoteMark
    || (text.any isAlphabetic && !text.any isCodeChar
      && text.map Char.toLower != Code.general.toList.map Char.toLower)

/-- The text up to the first double quote mark, and the texts between and behind these marks. -/
def splitQuotes : List Char → List Char × List (List Char)
  | [] => ([], [])
  | c :: cs =>
    let (first, others) := splitQuotes cs
    if c = '"' then ([], first :: others) else (c :: first, others)

def quoteRun (run : List Char) : List Char :=
  if run.isEmpty then [] else '"' :: run ++ ['"']

/-- The text in quotes. A double quote mark cannot be quoted, so it is escaped between two runs. -/
def quote (text : List Char) : List Char :=
  let (first, others) := splitQuotes text
  quoteRun first ++ others.flatMap fun run => '\\' :: '"' :: quoteRun run

def writeText (text : List Char) : List Char :=
  if mustQuote text then quote text else text

/-! ### Sections -/

def Part.write : Part → List Char
  | .number block => block.write
  | .text literal => writeText literal.toList

def Color.writeTag (color : Color) : List Char := '[' :: color.name.toList ++ [']']

/-- The comparator and the threshold of a condition, which the text condition does not have. -/
def Condition.write? (condition : Condition) : Option (List Char) :=
  condition.comparator.symbol?.map fun symbol => symbol.toList ++ writeNumber condition.threshold

/-- The tag of a condition; nothing for the text condition, which has none. -/
def Condition.writeTag (condition : Condition) : List Char :=
  match condition.write? with
  | some content => '[' :: content ++ [']']
  | none => []

def Section.write (s : Section) (condition : Option Condition) : List Char :=
  s.color.elim [] Color.writeTag ++ condition.elim [] Condition.writeTag ++ s.parts.flatMap Part.write

/-! ### Formats -/

namespace Format

def writeSections (f : Format) : List (List Char) :=
  let positional := f.usesPositional Condition.Table.standard.conditions
  let branches := f.branches.map fun branch =>
    branch.body.write (if positional then none else some branch.condition)
  if f.primary.isEmpty && !f.branches.isEmpty then branches else branches ++ [f.primary.write none]

def toCode (f : Format) : String := .ofList (joinSections f.writeSections)

end Format

end CellFormat
