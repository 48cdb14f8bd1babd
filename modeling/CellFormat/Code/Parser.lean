import CellFormat.Code.Token
import CellFormat.Format
/-!
# Reading a code

A code is read section by section. A section with a condition becomes a branch, the others together make up
the primary section. Sections without a tag get the conditions of a table by their position, unless a
condition tag opens anywhere in the code. A code of one section has no branches.
-/

namespace CellFormat

/-- How a code is read, and which conditions sections without tags get. A strict reader refuses surplus sections and
sections that span a line feed, which are left out otherwise. -/
structure ParseOptions where
  strict : Bool := true
  table : Condition.Table := .standard
deriving DecidableEq

def ParseOptions.lenient : ParseOptions := { strict := false }

/-- What a section text says: the condition of its tag and what it shows. -/
structure ReadSection where
  condition : Option Condition
  body : Section
deriving DecidableEq

def readSection (text : List Char) : Except FormatError ReadSection := do
  let header ← readHeader text
  let parts ← readParts header.body
  return ⟨header.condition, ⟨parts, header.color⟩⟩

namespace Format

/-- The format with a section added to its primary one, whose colour gives way to that of the section. -/
def extendPrimary (f : Format) (body : Section) : Format :=
  { f with primary := ⟨f.primary.parts ++ body.parts, body.color <|> f.primary.color⟩ }

/-- The format with one more section, as a branch if it has a condition. -/
def place (f : Format) (condition : Option Condition) (body : Section) : Except FormatError Format :=
  match condition with
  | some condition => f.addBranch condition body
  | none => .ok (f.extendPrimary body)

/-- The format `f` with the sections in `texts` added, where `positional` are the conditions of the sections
that have no tag, from the next one on. Of a code of one section only the body counts. -/
def placeAll (options : ParseOptions) (alone : Bool) (f : Format) (positional : List Condition) :
    (texts : List (List Char)) → Except FormatError Format
  | [] => .ok f
  | text :: texts =>
    if '\n' ∈ text then
      if options.strict then .error (.malformedSection (.ofList text))
      else placeAll options alone f positional.tail texts
    else do
      let s ← readSection text
      let condition := if alone then none else s.condition <|> positional.head?
      placeAll options alone (← f.place condition s.body) positional.tail texts

/-- The format that a code describes, or what is wrong with the first section that is not right. -/
def ofChars (options : ParseOptions) (code : List Char) : Except FormatError Format :=
  let texts := sectionTexts code
  if options.strict && maxSections < texts.length then
    .error (.tooManySections texts.length maxSections (.ofList code))
  else
    let positional := if hasConditionTag code then [] else options.table.conditions
    placeAll options (texts.length == 1) {} positional (texts.take maxSections)

def parse (code : String) (options : ParseOptions := {}) : Except FormatError Format :=
  ofChars options code.toList

end Format

end CellFormat
