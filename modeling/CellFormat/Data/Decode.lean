import CellFormat.Data.Basic
import CellFormat.Format
/-!
# Reading stored formats

Formats and their pieces are read from objects, whose other fields are ignored, or from lists of all their
fields. Fields that may be null may also be missing from an object. Digit blocks and conditions are checked
like new ones; the number of sections is not. Of several faults the one that comes first is reported, in an
object that of the field whose name comes first.
-/

namespace CellFormat.Data

/-! ### Plain values -/

def readString : Data → Except DecodeError String
  | string s => .ok s
  | _ => .error .shape

def readBool : Data → Except DecodeError Bool
  | bool b => .ok b
  | _ => .error .shape

def readBelow (bound : Nat) : Data → Except DecodeError Nat
  | integer (.ofNat n) => if n < bound then .ok n else .error .shape
  | _ => .error .shape

def readCount (d : Data) : Except DecodeError UInt32 := (readBelow UInt32.size d).map .ofNat

def readReal : Data → Except DecodeError Binary64
  | integer n => .ok (.ofDecimal (n < 0) n.natAbs 0)
  | real x => .ok x
  | _ => .error .shape

variable {α β : Type}

def readNullable (read : Data → Except DecodeError α) : Data → Except DecodeError (Option α)
  | null => .ok none
  | d => (read d).map some

def readList (read : Data → Except DecodeError α) : Data → Except DecodeError (List α)
  | array items => items.mapM read
  | _ => .error .shape

/-- The name of an alternative, and its content if it has one. -/
def readAlternative : Data → Except DecodeError (String × Option Data)
  | string name => .ok (name, none)
  | object [(name, content)] => .ok (name, some content)
  | _ => .error .shape

/-- An alternative without content may also be written with the content null. -/
def hasNoContent : Option Data → Bool
  | none | some null => true
  | _ => false

/-! ### Fields -/

/-- What is read from a field, if the field is there. -/
def readPresent (read : Data → Except DecodeError α) : Option Data → Except DecodeError (Option α)
  | none => .ok none
  | some d => (read d).map some

def required : Option α → Except DecodeError α
  | some a => .ok a
  | none => .error .shape

/-- The values of two fields, as far as they are there. -/
def readPair (first second : String) (readFirst : Data → Except DecodeError α)
    (readSecond : Data → Except DecodeError β) : Data → Except DecodeError (Option α × Option β)
  | object fields =>
    let a := readPresent readFirst (fields.lookup first)
    let b := readPresent readSecond (fields.lookup second)
    if first < second then do
      let a ← a
      return (a, ← b)
    else do
      let b ← b
      return (← a, b)
  | array items => do
    let a ← readPresent readFirst items[0]?
    let b ← readPresent readSecond items[1]?
    if items.length = 2 then return (a, b) else .error .shape
  | _ => .error .shape

def readFields (names : List String) : Data → Except DecodeError (List (Option Data))
  | object fields => .ok (names.map (List.lookup · fields))
  | array items => if items.length = names.length then .ok (items.map some) else .error .shape
  | _ => .error .shape

/-- The result of a check, where it refuses what has the right form. -/
def checked (result : Except FormatError α) : Except DecodeError α := result.mapError .invalid

end CellFormat.Data

namespace CellFormat

open Data

/-! ### Formats -/

def Comparator.ofData (d : Data) : Except DecodeError Comparator := do
  let (name, content) ← readAlternative d
  if hasNoContent content then required (ofName? name) else .error .shape

def Condition.ofData (d : Data) : Except DecodeError Condition := do
  let (comparator, threshold) ← readPair "comparator" "threshold" Comparator.ofData readReal d
  let comparator ← required comparator
  let threshold ← required threshold
  checked (make comparator threshold)

def Color.ofData (d : Data) : Except DecodeError Color := do
  let (name, content) ← readAlternative d
  if name = "Indexed" then
    let number ← readBelow UInt8.size (← required content)
    return indexed (.ofNat number)
  else if hasNoContent content then required (named.find? fun color => color.name == name)
  else .error .shape

def DigitBlock.ofData (d : Data) : Except DecodeError DigitBlock := do
  let fields ← readFields ["min_integer_digits", "max_integer_digits", "min_decimal_digits",
    "max_decimal_digits", "grouping"] d
  match fields with
  | [minInteger, maxInteger, minDecimal, maxDecimal, grouping] =>
    let minInteger ← readCount (← required minInteger)
    let maxInteger ← readPresent (readNullable readCount) maxInteger
    let minDecimal ← readCount (← required minDecimal)
    let maxDecimal ← readPresent (readNullable readCount) maxDecimal
    let grouping ← readBool (← required grouping)
    checked (make minInteger maxInteger.join minDecimal maxDecimal.join grouping)
  | _ => .error .shape

def textOfData (d : Data) : Except DecodeError String := do
  match ← readFields ["text"] d with
  | [text] => readString (← required text)
  | _ => .error .shape

def Part.ofData (d : Data) : Except DecodeError Part := do
  let (name, content) ← readAlternative d
  if name = "Number" then return number (← DigitBlock.ofData (← required content))
  else if name = "Text" then return text (← textOfData (← required content))
  else .error .shape

def Section.ofData (d : Data) : Except DecodeError Section := do
  let (parts, color) ← readPair "parts" "color" (readList Part.ofData) (readNullable Color.ofData) d
  return ⟨← required parts, color.join⟩

def Branch.ofData (d : Data) : Except DecodeError Branch := do
  let (condition, body) ← readPair "condition" "section" Condition.ofData Section.ofData d
  return ⟨← required condition, ← required body⟩

def Format.ofData (d : Data) : Except DecodeError Format := do
  let (primary, branches) ← readPair "primary" "branches" Section.ofData (readList Branch.ofData) d
  return ⟨← required primary, ← required branches⟩

end CellFormat
