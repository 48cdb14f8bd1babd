import CellFormat.Color
import CellFormat.DigitBlock
/-!
# Sections

A section is what a number format shows for the values it applies to: digit blocks and literal texts from
left to right, in a colour of their own or none.
-/

namespace CellFormat

inductive Part where
  | number (block : DigitBlock)
  | text (text : String)
deriving DecidableEq

structure Section where
  parts : List Part := []
  color : Option Color := none
deriving DecidableEq

namespace Section

def isEmpty (s : Section) : Bool := s.parts.isEmpty && s.color.isNone

def append (s : Section) (parts : List Part) : Section := { s with parts := s.parts ++ parts }

def push (s : Section) (part : Part) : Section := s.append [part]

def setColor (s : Section) (color : Option Color) : Section := { s with color }

end Section

end CellFormat
