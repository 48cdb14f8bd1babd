import CellFormat.Color
import CellFormat.Condition
import CellFormat.Code.Splitting
import CellFormat.Text.Cut
/-!
# Tags

A section begins with at most one colour tag and at most one condition tag, in either order. All other
bracket groups belong to the text of the section.
-/

namespace CellFormat

/-! ### Bracket groups -/

/-- The content of the bracket group that a text begins with, and the text behind the group. -/
def bracketGroup? : List Char → Option (List Char × List Char)
  | '[' :: cs => splitAtFirst ']' cs
  | _ => none

/-! ### Condition tags -/

def isComparatorChar (c : Char) : Bool := c == '<' || c == '>' || c == '='

/-- The condition that the content of a tag stands for, such as `>=-1.5`. -/
def readCondition (content : List Char) : Except FormatError Condition := do
  match ← Comparator.ofToken (content.takeWhile isComparatorChar) with
  | none => .error (.missingComparator (.ofList content))
  | some comparator =>
    let value := trimBlanks (content.dropWhile isComparatorChar)
    match readNumber? value with
    | none => .error (.nonNumericThreshold (.ofList value))
    | some threshold => Condition.make comparator threshold

/-- Whether a valid condition is written between the start of a text and the first closing bracket in it. -/
def closesCondition (cs : List Char) : Bool :=
  match splitAtFirst ']' cs with
  | some (content, _) => (readCondition content).isOk
  | none => false

/-- Whether a condition tag opens anywhere in a code that is scanned from `state` on. -/
def hasConditionTagFrom (state : Scan) : List Char → Bool
  | [] => false
  | c :: cs => (state == .plain && c == '[' && closesCondition cs) || hasConditionTagFrom (state.step c) cs

/-- Whether a condition tag opens anywhere in a code outside quotes and escapes. -/
def hasConditionTag (code : List Char) : Bool := hasConditionTagFrom .plain code

/-! ### Headers -/

/-- The tags in front of a section, and the text behind them. -/
structure Header where
  color : Option Color
  condition : Option Condition
  body : List Char
deriving DecidableEq

/-- The header with the tag in front of its text read, if there is one of a kind that was not read before. -/
def Header.readTag (h : Header) : Except FormatError (Option Header) :=
  match bracketGroup? h.body with
  | none => .ok none
  | some (content, behind) =>
    match Color.ofName? content, h.color with
    | some color, none => .ok (some { h with color := some color, body := behind })
    | _, _ =>
      if h.condition.isNone && (content.head?.any isComparatorChar) then do
        let condition ← readCondition content
        .ok (some { h with condition := some condition, body := behind })
      else .ok none

/-- The header with up to `tags` more tags read. -/
def Header.readTags (h : Header) : (tags : Nat) → Except FormatError Header
  | 0 => .ok h
  | tags + 1 => do
    match ← h.readTag with
    | none => .ok h
    | some h' => h'.readTags tags

/-- The header of a section. Behind one tag of each kind there is no tag left to read. -/
def readHeader (text : List Char) : Except FormatError Header :=
  Header.readTags ⟨none, none, text⟩ 2

end CellFormat
