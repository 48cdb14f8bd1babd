import CellFormat.Xml.Attributes
import CellFormat.Xml.Escape
/-!
# Elements

XML elements as trees, and how they are written. The text of an element comes before its children.
-/

namespace CellFormat.Xml

structure Element where
  tag : String
  attributes : Attributes := {}
  text : String := ""
  children : List Element := []

namespace Element

mutual

def decEq : (a b : Element) → Decidable (a = b)
  | ⟨tag, attributes, text, children⟩, ⟨tag', attributes', text', children'⟩ =>
    if h : tag = tag' ∧ attributes = attributes' ∧ text = text' then
      match decEqAll children children' with
      | isTrue hchildren => isTrue (by rw [h.1, h.2.1, h.2.2, hchildren])
      | isFalse hchildren => isFalse fun e => hchildren (by cases e; rfl)
    else isFalse fun e => h (by cases e; exact ⟨rfl, rfl, rfl⟩)

def decEqAll : (as bs : List Element) → Decidable (as = bs)
  | [], [] => isTrue rfl
  | [], _ :: _ => isFalse nofun
  | _ :: _, [] => isFalse nofun
  | a :: as, b :: bs =>
    match decEq a b with
    | isTrue h =>
      match decEqAll as bs with
      | isTrue hrest => isTrue (by rw [h, hrest])
      | isFalse hrest => isFalse fun e => hrest (by cases e; rfl)
    | isFalse h => isFalse fun e => h (by cases e; rfl)

end

instance : DecidableEq Element := decEq

def setAttribute (e : Element) (name value : String) : Element :=
  { e with attributes := e.attributes.set name value }

def getAttribute? (e : Element) (name : String) : Option String := e.attributes.get? name

def setText (e : Element) (text : String) : Element := { e with text }

def appendText (e : Element) (text : String) : Element := { e with text := e.text ++ text }

def addChild (e child : Element) : Element := { e with children := e.children ++ [child] }

def childrenNamed (e : Element) (tag : String) : List Element := e.children.filter fun child => child.tag == tag

def writeAttribute (entry : String × String) : List Char :=
  ' ' :: entry.1.toList ++ "=\"".toList ++ escape entry.2.toList ++ ['"']

mutual

/-- The element as XML. An element without text and children has no closing tag. -/
def write : Element → List Char
  | ⟨tag, attributes, text, children⟩ =>
    '<' :: tag.toList ++ attributes.entries.flatMap writeAttribute ++
      if text.isEmpty && children.isEmpty then ['/', '>']
      else '>' :: escapeText text.toList ++ writeAll children ++ '<' :: '/' :: tag.toList ++ ['>']

def writeAll : List Element → List Char
  | [] => []
  | e :: es => write e ++ writeAll es

end

def toXml (e : Element) : String := .ofList e.write

end Element

end CellFormat.Xml
