import CellFormat.Condition
import CellFormat.Section
/-!
# Number formats

A number format is a primary section and branches, sections with a condition that take precedence in their
order. It holds at most four sections, where an empty primary section beside branches does not count.
-/

namespace CellFormat

structure Branch where
  condition : Condition
  body : Section
deriving DecidableEq

structure Format where
  primary : Section := {}
  branches : List Branch := []
deriving DecidableEq

namespace Format

def maxSections : Nat := 4

def sectionCount (f : Format) : Nat :=
  f.branches.length + if !f.primary.isEmpty || f.branches.isEmpty then 1 else 0

/-- The format with one more branch behind the others, where there is room for it. -/
def addBranch (f : Format) (condition : Condition) (body : Section) : Except FormatError Format :=
  if maxSections ≤ f.sectionCount then .error (.sectionLimit maxSections)
  else .ok { f with branches := f.branches ++ [⟨condition, body⟩] }

/-- The format with another primary section, where there is room for it. -/
def setPrimary (f : Format) (primary : Section) : Except FormatError Format :=
  if !primary.isEmpty && maxSections ≤ f.branches.length then .error (.sectionLimit maxSections)
  else .ok { f with primary }

/-- Whether the conditions are those that at least two sections without tags get by their position. -/
def usesPositional (f : Format) (table : List Condition) : Bool :=
  f.primary.isEmpty && 2 ≤ f.branches.length && (f.branches.map Branch.condition).isPrefixOf table

end Format

end CellFormat
