import CellFormat.Error
import CellFormat.Text.Blank
/-!
# Section conditions

A condition compares the value of a cell with a threshold, or asks whether it is text. Thresholds are
finite and zero has no sign, so conditions are equal exactly when they say the same.
-/

namespace CellFormat

inductive Comparator where
  | lessThan
  | lessOrEqual
  | equal
  | greaterOrEqual
  | greaterThan
  | isText
deriving DecidableEq

namespace Comparator

def all : List Comparator := [lessThan, lessOrEqual, equal, greaterOrEqual, greaterThan, isText]

def name : Comparator → String
  | lessThan => "LessThan"
  | lessOrEqual => "LessOrEqual"
  | equal => "Equal"
  | greaterOrEqual => "GreaterOrEqual"
  | greaterThan => "GreaterThan"
  | isText => "IsText"

def ofName? (name : String) : Option Comparator := all.find? fun comparator => comparator.name == name

/-- How the comparator is written in a tag; the text condition cannot be written. -/
def symbol? : Comparator → Option String
  | lessThan => some "<"
  | lessOrEqual => some "<="
  | equal => some "="
  | greaterOrEqual => some ">="
  | greaterThan => some ">"
  | isText => none

/-- The comparator that a token stands for: none for a blank token. -/
def ofToken (token : List Char) : Except FormatError (Option Comparator) :=
  match trimBlanks token with
  | [] => .ok none
  | ['<'] => .ok (some lessThan)
  | ['<', '='] => .ok (some lessOrEqual)
  | ['='] => .ok (some equal)
  | ['>', '='] => .ok (some greaterOrEqual)
  | ['>'] => .ok (some greaterThan)
  | other => .error (.unknownComparator (.ofList other))

end Comparator

structure Condition where
  comparator : Comparator
  threshold : Binary64
  finite : threshold.isFinite = true
  unsigned_zero : threshold.isZero = true → threshold = .zero
  text_zero : comparator = .isText → threshold = .zero
deriving DecidableEq

namespace Condition

theorem eq_iff_toBits {c d : Condition} :
    c = d ↔ c.comparator = d.comparator ∧ c.threshold.toBits = d.threshold.toBits := by
  rw [Binary64.toBits_inj]
  cases c
  cases d
  rw [mk.injEq]

/-- The comparison with zero. -/
def againstZero (comparator : Comparator) : Condition :=
  ⟨comparator, .zero, rfl, fun _ => rfl, fun _ => rfl⟩

def isText : Condition := againstZero .isText

/-- The condition with the given threshold, which only the text condition ignores. -/
def make (comparator : Comparator) (threshold : Binary64) : Except FormatError Condition :=
  if htext : comparator = .isText then .ok isText
  else if hfinite : threshold.isFinite = true then
    if hzero : threshold.isZero = true then .ok (againstZero comparator)
    else .ok ⟨comparator, threshold, hfinite, fun h => absurd h hzero, fun h => absurd h htext⟩
  else .error (.nonFiniteThreshold threshold)

/-- The conditions that sections get by their position. -/
inductive Table where
  | standard
  | legacy
deriving DecidableEq

def Table.conditions : Table → List Condition
  | standard => [againstZero .lessThan, againstZero .greaterThan, againstZero .equal, isText]
  | legacy => [againstZero .lessThan, againstZero .greaterOrEqual, againstZero .equal]

end Condition

end CellFormat
