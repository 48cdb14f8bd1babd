import CellFormat.Code.Printer
import CellFormat.Registry.Basic
import CellFormat.Spreadsheet.Builtin
import CellFormat.Xml.Escape
/-!
# The table of number formats

The number formats of a workbook and their ids. A built-in format keeps its own id; every other format is
declared once and gets the next id from `firstCustomId` on.
-/

namespace CellFormat

structure FormatTable where
  custom : Registry Format := {}

namespace FormatTable

/-- The least id of a declared format. -/
def firstCustomId : Nat := 164

/-- The id of the declared format with this index. Ids are counted in 32 bits. -/
def customId (index : Nat) : Nat := (firstCustomId + index) % UInt32.size

/-- The id of a format, and the table with the format declared if it has to be. -/
def register (t : FormatTable) (f : Format) : Nat × FormatTable :=
  match Builtin.id? f with
  | some id => (id, t)
  | none =>
    match t.custom.find? f with
    | some index => (customId index, t)
    | none =>
      let (index, custom) := t.custom.register f
      (customId index, ⟨custom⟩)

def size (t : FormatTable) : Nat := t.custom.size

def isEmpty (t : FormatTable) : Bool := t.custom.isEmpty

def entries (t : FormatTable) : List (Nat × String) :=
  t.custom.indexed.map fun (index, f) => (customId index, f.toCode)

/-! ### The table as XML -/

def writeEntry (entry : Nat × String) : List Char :=
  "<numFmt numFmtId=\"".toList ++ writeNat entry.1 ++ "\" formatCode=\"".toList ++ Xml.escape entry.2.toList
    ++ "\"/>".toList

/-- The table as XML. It must not be empty there, so an empty table is left out. -/
def toXml (t : FormatTable) : String :=
  if t.isEmpty then ""
  else .ofList ("<numFmts count=\"".toList ++ writeNat t.size ++ "\">".toList ++ t.entries.flatMap writeEntry
    ++ "</numFmts>".toList)

end FormatTable

end CellFormat
