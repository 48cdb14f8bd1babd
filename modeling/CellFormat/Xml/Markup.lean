import CellFormat.Except
import CellFormat.Text.Cut
import CellFormat.Xml.Error
/-!
# Markup

The bytes of an XML text, cut into texts, references and tags. Comments, instructions and the like are
recognised, to know where they end, but not kept.
-/

namespace CellFormat.Xml

abbrev Bytes := List UInt8

def byte (c : Char) : UInt8 := c.toUInt8

def bytes (text : String) : Bytes := text.toList.map byte

def isSpace (b : UInt8) : Bool := b == 0x20 || b == 0x09 || b == 0x0A || b == 0x0D

def isQuoteByte (b : UInt8) : Bool := b == byte '"' || b == byte '\''

/-- A piece of an XML text, with what stands between its marks. An `empty` tag is opening and closing at once; comments,
CDATA sections, instructions and declarations are ignored. -/
inductive Markup where
  | text (content : Bytes)
  | reference (name : Bytes)
  | opening (content : Bytes)
  | empty (content : Bytes)
  | closing (name : Bytes)
  | ignored
deriving DecidableEq

namespace Markup

/-! ### Tags -/

/-- The content of a tag up to the first `>` outside quotes, and what is behind it. `mark` is the quote mark
that is open. -/
def tagContent (mark : Option UInt8) : Bytes → Except Error (Bytes × Bytes)
  | [] => .error (.unclosed (mark.elim .tag fun b => .value (Char.ofUInt8 b)))
  | b :: bs =>
    match mark with
    | none =>
      if b == byte '>' then .ok ([], bs)
      else do
        let (content, behind) ← tagContent (if isQuoteByte b then some b else none) bs
        .ok (b :: content, behind)
    | some quote => do
      let (content, behind) ← tagContent (if b == quote then none else some quote) bs
      .ok (b :: content, behind)

/-- The name in a closing tag, without the white space behind it. White space with no name in front is taken
for the name. -/
def closingName (content : Bytes) : Bytes :=
  if content.all isSpace then content else (content.reverse.dropWhile isSpace).reverse

/-- The tag with this content, which is empty if a slash ends it. -/
def ofContent (content : Bytes) : Markup :=
  if content.getLast? == some (byte '/') then .empty content.dropLast else .opening content

/-! ### Declarations -/

/-- Where in a document type a scanner stands: in the declaration, which a `>` outside quotes ends, between its square
brackets, or in the `tail` behind them, which any `>` ends. One that is `skipping` takes no notice of the next bytes. -/
inductive Doctype where
  | declaration
  | quoted (mark : UInt8)
  | subset
  | tail
  | skipping (left : Nat) (state : Doctype)
  | comment (hyphens : Nat)
  | instruction (question : Bool)
  | markup
  | quotableMarkup
  | quotedMarkup (mark : UInt8)

/-- The state behind a `<` between the square brackets, which depends on what follows. -/
def Doctype.ofMarkup (behind : Bytes) : Doctype :=
  if (bytes "!--").isPrefixOf behind then .skipping 3 (.comment 0)
  else if (bytes "?").isPrefixOf behind then .skipping 1 (.instruction false)
  else if (bytes "!ENTITY").isPrefixOf behind || (bytes "!ATTLIST").isPrefixOf behind
      || (bytes "!NOTATION").isPrefixOf behind then .quotableMarkup
  else .markup

/-- The state behind the byte `b` that `behind` follows. -/
def Doctype.step (state : Doctype) (b : UInt8) (behind : Bytes) : Doctype :=
  match state with
  | declaration => if isQuoteByte b then quoted b else if b == byte '[' then subset else declaration
  | quoted mark => if b == mark then declaration else quoted mark
  | subset => if b == byte ']' then tail else if b == byte '<' then ofMarkup behind else subset
  | tail => tail
  | skipping left state => if left ≤ 1 then state else skipping (left - 1) state
  | comment hyphens =>
    if b == byte '-' then comment (hyphens + 1)
    else if b == byte '>' && 2 ≤ hyphens then subset
    else comment 0
  | instruction question =>
    if b == byte '>' && question then subset else instruction (b == byte '?')
  | markup => if b == byte '>' then subset else markup
  | quotableMarkup =>
    if b == byte '>' then subset else if isQuoteByte b then quotedMarkup b else quotableMarkup
  | quotedMarkup mark => if b == mark then quotableMarkup else quotedMarkup mark

/-- Whether a `>` is the end of the document type. -/
def Doctype.endsAtAngle : Doctype → Bool
  | declaration | tail => true
  | _ => false

/-- What is behind a document type that is scanned from `state` on. -/
def behindDoctype (state : Doctype) : Bytes → Option Bytes
  | [] => none
  | b :: bs => if state.endsAtAngle && b == byte '>' then some bs else behindDoctype (state.step b bs) bs

/-- What is behind a document type, read from behind `<!DOCTYPE`. -/
def readDoctype (bs : Bytes) : Except Error Bytes :=
  match behindDoctype .declaration bs with
  | none => .error (.unclosed .doctype)
  | some behind =>
    if (bs.dropWhile isSpace).head? == some (byte '>') then .error .missingDoctypeName else .ok behind

/-- What is behind a construct that has to begin with `start`, less its `<!`, and ends with `mark`. -/
def readEnclosed (construct : Unclosed) (start mark : Bytes) (bs : Bytes) : Except Error Bytes :=
  match if start.isPrefixOf bs then behindFirst mark (bs.drop start.length) else none with
  | some behind => .ok behind
  | none => .error (.unclosed construct)

def isDoctypeName (bs : Bytes) : Bool :=
  (bs.map fun b => (Char.ofUInt8 b).toLower) == "doctype".toList

/-- What is behind the markup that begins with `<!`, read from behind that. -/
def readDeclaration (bs : Bytes) : Except Error Bytes :=
  match bs with
  | [] => .error .unknownMarkup
  | b :: _ =>
    if b == byte '[' then readEnclosed .cdata (bytes "[CDATA[") (bytes "]]>") bs
    else if b == byte '-' then readEnclosed .comment (bytes "--") (bytes "-->") bs
    else if b == byte 'D' || b == byte 'd' then
      if isDoctypeName (bs.take 7) then readDoctype (bs.drop 7) else .error (.unclosed .doctype)
    else .error .unknownMarkup

/-- What is behind the first `>` with a question mark in front of it. -/
def behindInstruction (question : Bool) : Bytes → Option Bytes
  | [] => none
  | b :: bs => if b == byte '>' && question then some bs else behindInstruction (b == byte '?') bs

/-- Whether the text behind `<?` is that of an XML declaration. -/
def isXmlDeclaration (bs : Bytes) : Bool :=
  (bytes "xml").isPrefixOf bs
    && ((bs.drop 3).head?.all fun b => isSpace b || b == byte '?')

/-- What is behind the instruction that begins with `<?`, read from behind that. The question mark of the
opening does for the end too, but only if there is something between. -/
def readInstruction (bs : Bytes) : Except Error Bytes :=
  match if bs.head? == some (byte '>') then none else behindInstruction true bs with
  | some behind => .ok behind
  | none => .error (.unclosed (if isXmlDeclaration bs then .declaration else .instruction))

/-! ### Any markup -/

/-- The markup that begins with `<`, read from behind that, and what is behind it. -/
def readAngle (bs : Bytes) : Except Error (Markup × Bytes) :=
  match bs with
  | [] => .error (.unclosed .tag)
  | b :: behind => do
    if b == byte '!' then return (.ignored, ← readDeclaration behind)
    else if b == byte '?' then return (.ignored, ← readInstruction behind)
    else if b == byte '/' then
      let (content, behind) ← tagContent none behind
      return (.closing (closingName content), behind)
    else
      let (content, behind) ← tagContent none bs
      return (ofContent content, behind)

def endsText (b : UInt8) : Bool := b == byte '<' || b == byte '&'

/-- The reference that begins with `&`, read from behind that, and what is behind it. -/
def readReference (bs : Bytes) : Except Error (Markup × Bytes) :=
  match bs.dropWhile fun b => !endsText b && b != byte ';' with
  | [] => .error .unclosedReference
  | b :: behind =>
    if b == byte ';' then .ok (.reference (bs.takeWhile (· != byte ';')), behind) else .error .unclosedReference

/-- The markup that begins with the byte `b`, and what is behind it. -/
def next (b : UInt8) (bs : Bytes) : Except Error (Markup × Bytes) :=
  if b == byte '<' then readAngle bs
  else if b == byte '&' then readReference bs
  else .ok (.text (b :: bs.takeWhile (!endsText ·)), bs.dropWhile (!endsText ·))

/-! ### Reading goes on -/

theorem eq_append_of_tagContent {mark : Option UInt8} {bs content behind : Bytes}
    (h : tagContent mark bs = .ok (content, behind)) : bs = content ++ byte '>' :: behind := by
  induction bs generalizing mark content with
  | nil => cases h
  | cons b bs ih =>
    simp only [tagContent] at h
    split at h
    · split at h
      · next hangle =>
        cases h
        rw [eq_of_beq hangle, List.nil_append]
      · obtain ⟨⟨content, behind⟩, hrest, heq⟩ := bind_eq_ok_iff.1 h
        cases heq
        rw [ih hrest, List.cons_append]
    · obtain ⟨⟨content, behind⟩, hrest, heq⟩ := bind_eq_ok_iff.1 h
      cases heq
      rw [ih hrest, List.cons_append]

theorem suffix_of_tagContent {mark : Option UInt8} {bs content behind : Bytes}
    (h : tagContent mark bs = .ok (content, behind)) : behind <:+ bs := by
  rw [eq_append_of_tagContent h]
  exact (List.suffix_cons _ _).trans (List.suffix_append _ _)

theorem suffix_of_behindDoctype {state : Doctype} {bs behind : Bytes}
    (h : behindDoctype state bs = some behind) : behind <:+ bs := by
  induction bs generalizing state with
  | nil => cases h
  | cons b bs ih =>
    simp only [behindDoctype] at h
    split at h
    · cases h
      exact List.suffix_cons _ _
    · exact (ih h).trans (List.suffix_cons _ _)

theorem suffix_of_behindInstruction {question : Bool} {bs behind : Bytes}
    (h : behindInstruction question bs = some behind) : behind <:+ bs := by
  induction bs generalizing question with
  | nil => cases h
  | cons b bs ih =>
    simp only [behindInstruction] at h
    split at h
    · cases h
      exact List.suffix_cons _ _
    · exact (ih h).trans (List.suffix_cons _ _)

theorem suffix_of_readDoctype {bs behind : Bytes} (h : readDoctype bs = .ok behind) : behind <:+ bs := by
  unfold readDoctype at h
  split at h
  · cases h
  · next hbehind =>
    split at h <;> cases h
    exact suffix_of_behindDoctype hbehind

theorem suffix_of_readEnclosed {construct : Unclosed} {start mark bs behind : Bytes}
    (h : readEnclosed construct start mark bs = .ok behind) : behind <:+ bs := by
  unfold readEnclosed at h
  split at h
  · next hfirst =>
    cases h
    split at hfirst
    · exact (suffix_of_behindFirst hfirst).trans (List.drop_suffix _ _)
    · cases hfirst
  · cases h

theorem suffix_of_readDeclaration {bs behind : Bytes} (h : readDeclaration bs = .ok behind) : behind <:+ bs := by
  unfold readDeclaration at h
  split at h
  · cases h
  · split at h
    · exact suffix_of_readEnclosed h
    · split at h
      · exact suffix_of_readEnclosed h
      · split at h
        · split at h
          · exact (suffix_of_readDoctype h).trans (List.drop_suffix _ _)
          · cases h
        · cases h

theorem suffix_of_readInstruction {bs behind : Bytes} (h : readInstruction bs = .ok behind) : behind <:+ bs := by
  unfold readInstruction at h
  split at h
  · next hbehind =>
    cases h
    split at hbehind
    · cases hbehind
    · exact suffix_of_behindInstruction hbehind
  · cases h

theorem suffix_of_readAngle {bs behind : Bytes} {markup : Markup}
    (h : readAngle bs = .ok (markup, behind)) : behind <:+ bs := by
  unfold readAngle at h
  split at h
  · cases h
  · split at h
    · obtain ⟨_, hread, heq⟩ := bind_eq_ok_iff.1 h
      cases heq
      exact (suffix_of_readDeclaration hread).trans (List.suffix_cons _ _)
    · split at h
      · obtain ⟨_, hread, heq⟩ := bind_eq_ok_iff.1 h
        cases heq
        exact (suffix_of_readInstruction hread).trans (List.suffix_cons _ _)
      · split at h
        · obtain ⟨_, hread, heq⟩ := bind_eq_ok_iff.1 h
          cases heq
          exact (suffix_of_tagContent hread).trans (List.suffix_cons _ _)
        · obtain ⟨_, hread, heq⟩ := bind_eq_ok_iff.1 h
          cases heq
          exact suffix_of_tagContent hread

theorem suffix_of_readReference {bs behind : Bytes} {markup : Markup}
    (h : readReference bs = .ok (markup, behind)) : behind <:+ bs := by
  unfold readReference at h
  split at h
  · cases h
  · next hdrop =>
    split at h <;> cases h
    have hsuffix := List.dropWhile_suffix (fun b => !endsText b && b != byte ';') (l := bs)
    rw [hdrop] at hsuffix
    exact (List.suffix_cons _ _).trans hsuffix

/-- Whatever the markup is, at least its first byte is behind it no more. -/
theorem suffix_of_next {b : UInt8} {bs behind : Bytes} {markup : Markup}
    (h : next b bs = .ok (markup, behind)) : behind <:+ bs := by
  unfold next at h
  split at h
  · exact suffix_of_readAngle h
  · split at h
    · exact suffix_of_readReference h
    · cases h
      exact List.dropWhile_suffix _

end Markup

end CellFormat.Xml
