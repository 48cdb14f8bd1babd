import CellFormat.Error
/-!
# What can be wrong with an XML text

The reasons for which a text is no XML element, and their wording. Positions count the bytes from the start
of the tag's name.
-/

namespace CellFormat.Xml

/-- A construct whose end is missing. -/
inductive Unclosed where
  | tag
  | value (mark : Char)
  | comment
  | cdata
  | doctype
  | instruction
  | declaration
deriving DecidableEq

/-- What is not closed, and what should have closed it. -/
def Unclosed.wording : Unclosed → String × String
  | tag => ("tag", ">")
  | value mark => ("attribute value", mark.toString)
  | comment => ("comment", "-->")
  | cdata => ("CDATA", "]]>")
  | doctype => ("DOCTYPE", ">")
  | instruction => ("processing instruction", "?>")
  | declaration => ("XML declaration", "?>")

/-- A piece of XML that has to be UTF-8. -/
inductive TextPlace where
  | content
  | reference
  | tag
  | key
  | value
deriving DecidableEq

def TextPlace.name : TextPlace → String
  | content => "text content"
  | reference => "entity reference"
  | tag => "tag name"
  | key => "attribute key"
  | value => "attribute value"

inductive AttributeError where
  | missingEquals (position : Nat)
  | duplicate (position previous : Nat)
  | missingValue (position : Nat)
  | unquotedValue (position : Nat)
  | missingQuote (position : Nat) (mark : Char)
deriving DecidableEq

def AttributeError.message : AttributeError → String
  | missingEquals position => s!"position {position}: attribute key must be directly followed by `=` or space"
  | duplicate position previous =>
    s!"position {position}: duplicated attribute, previous declaration at position {previous}"
  | missingValue position => s!"position {position}: `=` must be followed by an attribute value"
  | unquotedValue position => s!"position {position}: attribute value must be enclosed in `\"` or `'`"
  | missingQuote position mark => s!"position {position}: missing closing quote `{mark}` in attribute value"

inductive Error where
  | unclosed (construct : Unclosed)
  | unclosedReference
  | unknownMarkup
  | missingDoctypeName
  | unmatchedClose (tag : String)
  | mismatchedClose (expected found : String)
  | malformedAttribute (reason : AttributeError)
  | invalidUtf8 (place : TextPlace)
  | noRoot
  | writeFailure
deriving DecidableEq

namespace Error

def kind : Error → ErrorKind
  | malformedAttribute _ => .invalidAttribute
  | _ => .xmlError

def detail : Error → String
  | unclosed construct =>
    let (name, mark) := construct.wording
    s!"syntax error: {name} not closed: `{mark}` not found before end of input"
  | unclosedReference =>
    "ill-formed document: entity or character reference not closed: `;` not found before end of input"
  | unknownMarkup => "syntax error: unknown or missed symbol in markup"
  | missingDoctypeName =>
    "ill-formed document: `<!DOCTYPE>` declaration does not contain a name of a document type"
  | unmatchedClose tag => s!"ill-formed document: close tag `</{tag}>` does not match any open tag"
  | mismatchedClose expected found => s!"ill-formed document: expected `</{expected}>`, but `</{found}>` was found"
  | malformedAttribute reason => s!"Malformed attribute: {reason.message}"
  | invalidUtf8 place => s!"Invalid UTF-8 in {place.name}"
  | noRoot => "No root element found"
  | writeFailure => "XML write error: an error occurred when formatting an argument"

def message (e : Error) : String := e.kind.label ++ e.detail

end Error

end CellFormat.Xml
