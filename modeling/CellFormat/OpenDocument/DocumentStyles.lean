import CellFormat.OpenDocument.NumberStyle
import CellFormat.Registry.Basic
/-!
# The number styles of a document

The number formats of a document and the names of their styles. The plain integer format, which cells have
by default, is always there and comes first.
-/

namespace CellFormat.OpenDocument

def styleName (id : Nat) : String := "N" ++ id.repr

def integerFormat : Format := { primary := { parts := [.number .integer] } }

structure DocumentStyles where
  formats : Registry Format := (({} : Registry Format).register integerFormat).2

namespace DocumentStyles

/-- The id of a format, and the registry with the format in it. -/
def register (r : DocumentStyles) (f : Format) : Nat × DocumentStyles :=
  let (id, formats) := r.formats.register f
  (id, ⟨formats⟩)

/-- The name of the style of a format, and the registry with the format in it. -/
def registerName (r : DocumentStyles) (f : Format) : String × DocumentStyles :=
  let (id, r) := r.register f
  (styleName id, r)

def size (r : DocumentStyles) : Nat := r.formats.size

def isEmpty (r : DocumentStyles) : Bool := r.formats.isEmpty

/-- The styles of all formats, in the order of their ids. -/
def toElements (r : DocumentStyles) : List Xml.Element :=
  r.formats.indexed.flatMap fun (id, f) => styles f (styleName id)

def toXml (r : DocumentStyles) : String := .ofList (Xml.Element.writeAll r.toElements)

end DocumentStyles

end CellFormat.OpenDocument
