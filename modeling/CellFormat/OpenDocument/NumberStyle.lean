import CellFormat.Format
import CellFormat.Xml.Element
/-!
# Number styles

The OpenDocument form of a number format. A format with conditions becomes several styles side by side: a
volatile one for each branch, and the visible one, whose maps say when which of them applies. Branches for
text have no condition there and are left out.
-/

namespace CellFormat.OpenDocument

/-! ### Namespaces -/

def numberNamespace : String := "urn:oasis:names:tc:opendocument:xmlns:datastyle:1.0"

def styleNamespace : String := "urn:oasis:names:tc:opendocument:xmlns:style:1.0"

def foNamespace : String := "urn:oasis:names:tc:opendocument:xmlns:xsl-fo-compatible:1.0"

def loextNamespace : String := "urn:org:documentfoundation:names:experimental:office:xmlns:loext:1.0"

/-! ### The elements of a style -/

def countText (count : UInt32) : String := count.toNat.repr

def numberElement (block : DigitBlock) : Xml.Element where
  tag := "number:number"
  attributes := .ofList <|
    block.maxDecimal.toList.map (("number:decimal-places", countText ·))
      ++ [("loext:min-decimal-places", countText block.minDecimal),
        ("number:min-integer-digits", countText block.minInteger)]
      ++ if block.grouping then [("number:grouping", "true")] else []

def partElement : Part → Xml.Element
  | .number block => numberElement block
  | .text text => { tag := "number:text", text }

def colorElement (color : Color) : Xml.Element where
  tag := "style:text-properties"
  attributes := .ofList [("fo:color", "#" ++ color.rgb)]

def sectionStyle (name : String) (s : Section) : Xml.Element where
  tag := "number:number-style"
  attributes := .ofList [("style:name", name)]
  children := s.color.toList.map colorElement ++ s.parts.map partElement

def mapElement (condition name : String) : Xml.Element where
  tag := "style:map"
  attributes := .ofList [("style:condition", condition), ("style:apply-style-name", name)]

/-! ### The styles of a format -/

def branchName (name : String) (index : Nat) : String := name ++ "P" ++ index.repr

/-- How a map says when a condition is met; the text condition cannot be said. -/
def conditionText? (condition : Condition) : Option String :=
  condition.comparator.symbol?.map fun symbol =>
    "value()" ++ symbol ++ .ofList (writeNumber condition.threshold)

/-- The branches that have a style, with their index and the text of their condition. -/
def styledBranches (f : Format) : List (Nat × String × Section) :=
  f.branches.zipIdx.filterMap fun (branch, index) =>
    (conditionText? branch.condition).map fun condition => (index, condition, branch.body)

/-- The styles of a format of this name: those of the branches, then the visible one. -/
def styles (f : Format) (name : String) : List Xml.Element :=
  let branches := styledBranches f
  let hidden := branches.map fun (index, _, body) =>
    (sectionStyle (branchName name index) body).setAttribute "style:volatile" "true"
  let maps := branches.map fun (index, condition, _) => mapElement condition (branchName name index)
  let visible := sectionStyle name f.primary
  hidden ++ [{ visible with children := visible.children ++ maps }]

end CellFormat.OpenDocument
