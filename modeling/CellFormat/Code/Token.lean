import CellFormat.Section
import CellFormat.Code.Header
/-!
# Tokens

The text of a section behind its tags, cut into tokens: runs of placeholders, quoted runs, escaped
characters, and literal runs of all else. Each token is read as one part, and together they are the text.
-/

namespace CellFormat

inductive Token where
  | digits (block : List Char)
  | quoted (mark : Char) (body : List Char)
  | escaped (c : Char)
  | literal (run : List Char)
deriving DecidableEq

namespace Token

def source : Token → List Char
  | digits block => block
  | quoted mark body => mark :: body ++ [mark]
  | escaped c => ['\\', c]
  | literal run => run

def toPart : Token → Except FormatError Part
  | digits block => do return .number (← DigitBlock.read block)
  | quoted _ body => .ok (.text (.ofList body))
  | escaped c => .ok (.text (.ofList [c]))
  | literal run => .ok (.text (.ofList run))

/-- The literal run in front of a text, and the text behind it. A backslash in the run takes the next
character into it, whatever that is. -/
def literalRun : List Char → List Char × List Char
  | [] => ([], [])
  | '\\' :: c :: cs =>
    let (run, behind) := literalRun cs
    ('\\' :: c :: run, behind)
  | c :: cs =>
    if DigitBlock.isPlaceholder c then ([], c :: cs)
    else
      let (run, behind) := literalRun cs
      (c :: run, behind)

theorem length_literalRun_le (cs : List Char) : (literalRun cs).2.length ≤ cs.length := by
  fun_induction literalRun cs <;> simp_all <;> omega

/-- The token that a text with the first character `c` begins with, and the text behind it. A quote mark that
is not closed and a backslash at the very end are literal. -/
def next (c : Char) (cs : List Char) : Token × List Char :=
  if DigitBlock.isPlaceholder c then
    (digits (c :: cs.takeWhile DigitBlock.isPlaceholder), cs.dropWhile DigitBlock.isPlaceholder)
  else
    match if c = '"' ∨ c = '\'' then splitAtFirst c cs else none with
    | some (body, behind) => (quoted c body, behind)
    | none =>
      match c, cs with
      | '\\', x :: behind => (escaped x, behind)
      | c, cs =>
        let (run, behind) := literalRun cs
        (literal (c :: run), behind)

theorem length_next_le (c : Char) (cs : List Char) : (next c cs).2.length ≤ cs.length := by
  unfold next
  split
  · exact (List.dropWhile_sublist _).length_le
  · split
    · next h =>
      split at h
      · exact Nat.le_of_lt (length_lt_of_splitAtFirst h)
      · cases h
    · split
      · exact Nat.le_succ _
      · exact length_literalRun_le _

def tokens : List Char → List Token
  | [] => []
  | c :: cs => (next c cs).1 :: tokens (next c cs).2
termination_by text => text.length
decreasing_by exact Nat.lt_succ_of_le (length_next_le c cs)

end Token

/-- The parts of a section, read from the text behind its tags. -/
def readParts (text : List Char) : Except FormatError (List Part) :=
  (Token.tokens text).mapM Token.toPart

end CellFormat
