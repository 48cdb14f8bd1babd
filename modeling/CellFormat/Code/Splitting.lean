/-!
# The sections of a code

A code is a list of section texts with semicolons between them. A semicolon that is quoted or escaped is part
of its section; `Scan` keeps track of what is.
-/

namespace CellFormat

/-- Where in a code a scanner stands: behind a backslash, in a run that the next `mark` closes, or outside of both. -/
inductive Scan where
  | plain
  | escaped
  | quoted (mark : Char)
deriving DecidableEq

def Scan.step (state : Scan) (c : Char) : Scan :=
  match state with
  | escaped => plain
  | quoted mark => if c = mark then plain else quoted mark
  | plain => if c = '"' ∨ c = '\'' then quoted c else if c = '\\' then escaped else plain

/-- The first section of a code that is scanned from `state` on, and the sections behind it. -/
def sectionTextsFrom (state : Scan) : List Char → List Char × List (List Char)
  | [] => ([], [])
  | c :: cs =>
    if state = .plain ∧ c = ';' then
      let (first, others) := sectionTextsFrom .plain cs
      ([], first :: others)
    else
      let (first, others) := sectionTextsFrom (state.step c) cs
      (c :: first, others)

/-- The sections of a code, of which there is always one. -/
def sectionTexts (code : List Char) : List (List Char) :=
  let (first, others) := sectionTextsFrom .plain code
  first :: others

def joinSections : List (List Char) → List Char
  | [] => []
  | [text] => text
  | text :: texts => text ++ ';' :: joinSections texts

example : sectionTexts "0;\"a;b\";\\;;".toList = [['0'], "\"a;b\"".toList, ['\\', ';'], []] := by decide

end CellFormat
