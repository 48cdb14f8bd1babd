/-!
# Escaped text

Characters that mean something in XML are written as the five predefined entities. Attribute values have all
five escaped, texts between tags only those that could start or end markup; one reader undoes both.
-/

namespace CellFormat.Xml

/-- A character of an attribute value. -/
def escapeChar : Char → List Char
  | '&' => "&amp;".toList
  | '<' => "&lt;".toList
  | '>' => "&gt;".toList
  | '"' => "&quot;".toList
  | '\'' => "&apos;".toList
  | c => [c]

/-- A character of a text between tags. -/
def escapeTextChar : Char → List Char
  | '&' => "&amp;".toList
  | '<' => "&lt;".toList
  | '>' => "&gt;".toList
  | c => [c]

def escape (cs : List Char) : List Char := cs.flatMap escapeChar

def escapeText (cs : List Char) : List Char := cs.flatMap escapeTextChar

/-- The text with the entities in it replaced from left to right. What they stand for is not looked at
again, and all other text is left as it is. -/
def unescape : List Char → List Char
  | '&' :: 'a' :: 'm' :: 'p' :: ';' :: cs => '&' :: unescape cs
  | '&' :: 'l' :: 't' :: ';' :: cs => '<' :: unescape cs
  | '&' :: 'g' :: 't' :: ';' :: cs => '>' :: unescape cs
  | '&' :: 'q' :: 'u' :: 'o' :: 't' :: ';' :: cs => '"' :: unescape cs
  | '&' :: 'a' :: 'p' :: 'o' :: 's' :: ';' :: cs => '\'' :: unescape cs
  | c :: cs => c :: unescape cs
  | [] => []

example : unescape "&amp;lt;&apos;&copy;".toList = "&lt;'&copy;".toList := by decide

end CellFormat.Xml
