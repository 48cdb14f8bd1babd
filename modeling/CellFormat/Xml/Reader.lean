import CellFormat.Xml.Element
import CellFormat.Xml.Markup
/-!
# Reading an element

The first element of an XML text. The elements that are open at a point of the text stand on a stack, the
innermost one on top, and take in the texts, references and elements in them; the outermost one is the
result as soon as it is closed, whatever follows. Names, values and texts have to be UTF-8, and are checked in
the order in which they stand in the text.
-/

namespace CellFormat.Xml

def decode? (bs : Bytes) : Option String := String.fromUTF8? bs.toByteArray

def decode (place : TextPlace) (bs : Bytes) : Except Error String :=
  match decode? bs with
  | some text => .ok text
  | none => .error (.invalidUtf8 place)

def unescapeString (text : String) : String := .ofList (unescape text.toList)

/-! ### Attributes -/

/-- Whether a byte behind the first one belongs to an attribute's key. -/
def isKeyByte (b : UInt8) : Bool := b != byte '=' && !isSpace b

/-- The key and the value of an attribute that begins with the byte `b`, and what is behind it. `size` is the
size of the tag's content, and `seen` holds the keys before with their positions. -/
def readAttribute (size : Nat) (seen : List (Bytes × Nat)) (b : UInt8) (bs : Bytes) :
    Except AttributeError (Bytes × Bytes × Bytes) :=
  let key := b :: bs.takeWhile isKeyByte
  match (bs.dropWhile isKeyByte).dropWhile isSpace with
  | [] => .error (.missingEquals size)
  | sign :: rest =>
    if sign != byte '=' then .error (.missingEquals (size - (rest.length + 1)))
    else
      match seen.lookup key with
      | some previous => .error (.duplicate (size - (bs.length + 1)) previous)
      | none =>
        match rest.dropWhile isSpace with
        | [] => .error (.missingValue size)
        | mark :: body =>
          if isQuoteByte mark then
            match splitAtFirst mark body with
            | some (value, behind) => .ok (key, value, behind)
            | none => .error (.missingQuote size (Char.ofUInt8 mark))
          else .error (.unquotedValue (size - (body.length + 1)))

theorem readAttribute_eq_ok_iff {size : Nat} {seen : List (Bytes × Nat)} {b : UInt8}
    {bs key value behind : Bytes} :
    readAttribute size seen b bs = .ok (key, value, behind) ↔
      key = b :: bs.takeWhile isKeyByte ∧ seen.lookup key = none
        ∧ ∃ rest mark body, (bs.dropWhile isKeyByte).dropWhile isSpace = byte '=' :: rest
          ∧ rest.dropWhile isSpace = mark :: body ∧ isQuoteByte mark = true
          ∧ splitAtFirst mark body = some (value, behind) := by
  constructor
  · intro h
    unfold readAttribute at h
    dsimp only at h
    split at h
    · cases h
    · next sign rest hsign =>
      split at h
      · cases h
      · next hequals =>
        have heq : sign = byte '=' := by simpa using hequals
        split at h
        · cases h
        · next hseen =>
          split at h
          · cases h
          · next mark body hmark =>
            split at h
            · next hquote =>
              split at h <;> cases h
              next hvalue => exact ⟨rfl, hseen, rest, mark, body, heq ▸ hsign, hmark, hquote, hvalue⟩
            · cases h
  · rintro ⟨rfl, hseen, rest, mark, body, hsign, hmark, hquote, hvalue⟩
    simp [readAttribute, hsign, hseen, hmark, hquote, hvalue]

private theorem length_dropWhile_le {α : Type} {p : α → Bool} {x : α} {xs ys : List α}
    (h : xs.dropWhile p = x :: ys) : ys.length < xs.length := by
  have hle : (xs.dropWhile p).length ≤ xs.length := (List.dropWhile_sublist p).length_le
  rw [h] at hle
  exact hle

theorem length_le_of_readAttribute {size : Nat} {seen : List (Bytes × Nat)} {b : UInt8}
    {bs key value behind : Bytes} (h : readAttribute size seen b bs = .ok (key, value, behind)) :
    behind.length ≤ bs.length := by
  obtain ⟨-, -, rest, mark, body, hsign, hmark, -, hvalue⟩ := readAttribute_eq_ok_iff.1 h
  have hkey : (bs.dropWhile isKeyByte).length ≤ bs.length := (List.dropWhile_sublist _).length_le
  have hrest := length_dropWhile_le hsign
  have hbody := length_dropWhile_le hmark
  have hbehind := length_lt_of_splitAtFirst hvalue
  omega

/-- The attributes so far with those in the rest of a tag's content. -/
def readAttributes (size : Nat) (seen : List (Bytes × Nat)) (attributes : Attributes) (rest : Bytes) :
    Except Error Attributes :=
  match _ : rest.dropWhile isSpace with
  | [] => .ok attributes
  | b :: bs =>
    match _ : readAttribute size seen b bs with
    | .error reason => .error (.malformedAttribute reason)
    | .ok (key, value, behind) => do
      let name ← decode .key key
      let text ← decode .value value
      readAttributes size ((key, size - (bs.length + 1)) :: seen) (attributes.set name (unescapeString text)) behind
termination_by rest.length
decreasing_by exact Nat.lt_of_le_of_lt (length_le_of_readAttribute ‹_›) (length_dropWhile_le ‹_›)

/-- The element that an opening tag with this content begins. -/
def Element.ofTag (content : Bytes) : Except Error Element := do
  let tag ← decode .tag (content.takeWhile (!isSpace ·))
  let attributes ← readAttributes content.length [] {} (content.dropWhile (!isSpace ·))
  return { tag, attributes }

/-! ### Elements -/

/-- How far an element is read: to its end, or with these elements open, the innermost one first. -/
inductive Progress where
  | complete (e : Element)
  | opened (stack : List Element)

def Progress.close (e : Element) : (stack : List Element) → Progress
  | [] => .complete e
  | parent :: rest => .opened (parent.addChild e :: rest)

def Progress.step (stack : List Element) (markup : Markup) : Except Error Progress :=
  match markup, stack with
  | .opening content, _ => return .opened ((← Element.ofTag content) :: stack)
  | .empty content, _ => return .close (← Element.ofTag content) stack
  | .text content, e :: rest => do
    let text ← decode .content content
    return .opened (e.appendText (unescapeString text) :: rest)
  | .reference name, e :: rest => do
    let name ← decode .reference name
    return .opened (e.appendText (unescapeString ("&" ++ name ++ ";")) :: rest)
  | .closing name, e :: rest =>
    if decode? name = some e.tag then .ok (.close e rest)
    else .error (.mismatchedClose e.tag ((decode? name).getD ""))
  | .closing name, [] => .error (.unmatchedClose ((decode? name).getD ""))
  | .text _, [] | .reference _, [] | .ignored, _ => .ok (.opened stack)

/-- The element that is complete first, where these elements are open in front of the text. -/
def readElement (stack : List Element) (bs : Bytes) : Except Error Element :=
  match bs with
  | [] => .error .noRoot
  | b :: bs =>
    match _ : Markup.next b bs with
    | .error e => .error e
    | .ok (markup, behind) =>
      match Progress.step stack markup with
      | .error e => .error e
      | .ok (.complete e) => .ok e
      | .ok (.opened stack) => readElement stack behind
termination_by bs.length
decreasing_by exact Nat.lt_succ_of_le (Markup.suffix_of_next ‹_›).length_le

/-- The mark of UTF-8 that a text may begin with. -/
def byteOrderMark : Bytes := [0xEF, 0xBB, 0xBF]

/-- The first element of a text. -/
def Element.ofBytes (bs : Bytes) : Except Error Element :=
  readElement [] (if byteOrderMark.isPrefixOf bs then bs.drop byteOrderMark.length else bs)

def Element.ofXml (text : String) : Except Error Element := ofBytes text.toUTF8.toList

end CellFormat.Xml
