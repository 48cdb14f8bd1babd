import CellFormat.Number.Text
/-!
# What can be wrong with a number format

The reasons for which a format code, a digit count or a condition is refused, and their wording. XML texts
have reasons of their own, but share the kinds.
-/

namespace CellFormat

/-- The three kinds of failure that a caller tells apart. -/
inductive ErrorKind where
  | invalidFormat
  | invalidAttribute
  | xmlError
deriving DecidableEq

/-- What every message of the kind begins with. -/
def ErrorKind.label : ErrorKind → String
  | .invalidFormat => "Invalid number format: "
  | .invalidAttribute => "Invalid attribute: "
  | .xmlError => "XML error: "

/-- The side of the decimal point that a digit count is about. -/
inductive DigitSide where
  | integer
  | decimal
deriving DecidableEq

def DigitSide.name : DigitSide → String
  | .integer => "integer"
  | .decimal => "decimal"

inductive FormatError where
  | unknownComparator (token : String)
  | missingComparator (tag : String)
  | nonNumericThreshold (value : String)
  | nonFiniteThreshold (value : Binary64)
  | unexpectedBlock (block : String)
  | malformedSection (text : String)
  | tooManySections (count limit : Nat) (code : String)
  | sectionLimit (limit : Nat)
  | noIntegerDigit
  | maximumBelowMinimum (side : DigitSide) (maximum minimum : UInt32)
deriving DecidableEq

namespace FormatError

def kind : FormatError → ErrorKind
  | noIntegerDigit | maximumBelowMinimum .. => .invalidAttribute
  | _ => .invalidFormat

def detail : FormatError → String
  | unknownComparator token => s!"Unknown comparator string: \"{token}\""
  | missingComparator tag => s!"Missing comparator in condition \"[{tag}]\""
  | nonNumericThreshold value => s!"Condition value must be numeric: \"{value}\""
  | nonFiniteThreshold value => s!"Condition value must be numeric, got {nameNonFinite value}"
  | unexpectedBlock block => s!"Unexpected numeric format: {block}"
  | malformedSection text => s!"Malformed section header: \"{text}\""
  | tooManySections count limit code =>
    s!"Too many sections ({count}), at most {limit} are allowed: \"{code}\""
  | sectionLimit limit => s!"A number format holds at most {limit} sections"
  | noIntegerDigit => "Minimum integer digits must be at least 1"
  | maximumBelowMinimum side maximum minimum =>
    s!"Maximum {side.name} digits ({maximum}) lower than minimum ({minimum})"

def message (e : FormatError) : String := e.kind.label ++ e.detail

end FormatError

end CellFormat
