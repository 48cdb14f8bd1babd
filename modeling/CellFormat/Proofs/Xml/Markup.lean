import CellFormat.Proofs.Text.Cut
import CellFormat.Proofs.Xml.Bytes
import CellFormat.Proofs.Xml.Escape
/-!
# Written markup is recognised

A name has no byte that means anything in a tag, and a written value has no double quote mark. So each tag,
text and reference that a writer puts out is cut out again by the reader of markup, whatever follows.
-/

namespace CellFormat.Xml

/-! ### Names -/

def isNameStart (c : Char) : Bool := c.isAlpha || c == '_'

def isNameChar (c : Char) : Bool := c.isAlphanum || c == ':' || c == '-' || c == '_' || c == '.'

/-- Whether a text is a name: a letter or an underscore, then letters, digits and some marks, all of them
ASCII. -/
def isName (name : List Char) : Bool := name.head?.any isNameStart && name.all isNameChar

variable {name cs : List Char} {rest content behind chunk : Bytes}

theorem toNat_lt_of_isAlphanum {c : Char} (hc : c.isAlphanum = true) : c.toNat < 128 := by
  unfold Char.isAlphanum Char.isAlpha Char.isUpper Char.isLower Char.isDigit at hc
  simp only [Bool.or_eq_true, Bool.and_eq_true, decide_eq_true_eq, ge_iff_le, UInt32.le_iff_toNat_le] at hc
  change ((65 ≤ c.toNat ∧ c.toNat ≤ 90) ∨ (97 ≤ c.toNat ∧ c.toNat ≤ 122)) ∨ (48 ≤ c.toNat ∧ c.toNat ≤ 57) at hc
  omega

theorem toNat_lt_of_isNameChar {c : Char} (hc : isNameChar c = true) : c.toNat < 128 := by
  simp only [isNameChar, Bool.or_eq_true, beq_iff_eq] at hc
  rcases hc with (((halphanum | rfl) | rfl) | rfl) | rfl
  · exact toNat_lt_of_isAlphanum halphanum
  all_goals decide

theorem forall_mem_encode_name {p : UInt8 → Bool}
    (hp : ((List.range 128).all fun n => !isNameChar (Char.ofNat n) || p (byte (Char.ofNat n))) = true)
    (hname : name.all isNameChar = true) : ∀ b ∈ encode name, p b = true := by
  intro b hb
  obtain ⟨c, hc, hb⟩ := List.mem_flatMap.1 hb
  have hchar := List.all_eq_true.1 hname c hc
  have hlt := toNat_lt_of_isNameChar hchar
  have hpc := List.all_eq_true.1 hp c.toNat (List.mem_range.2 hlt)
  rw [Char.ofNat_toNat, hchar] at hpc
  rw [utf8EncodeChar_of_lt hlt, List.mem_singleton] at hb
  rw [hb]
  exact hpc

theorem all_isNameChar (h : isName name = true) : name.all isNameChar = true := by
  rw [isName, Bool.and_eq_true] at h
  exact h.2

theorem exists_encode_name (hname : isName name = true) :
    ∃ c cs, isNameStart c = true ∧ name = c :: cs ∧ encode name = byte c :: encode cs := by
  rw [isName, Bool.and_eq_true] at hname
  cases name with
  | nil => cases hname.1
  | cons c cs =>
      have hlt := toNat_lt_of_isNameChar (List.all_eq_true.1 hname.2 c List.mem_cons_self)
      exact ⟨c, cs, hname.1, rfl, encode_cons_of_lt hlt cs⟩

theorem isNameChar_of_isNameStart {c : Char} (hc : isNameStart c = true) : isNameChar c = true := by
  simp only [isNameStart, Bool.or_eq_true] at hc
  rcases hc with hc | hc
  · simp [isNameChar, Char.isAlphanum, hc]
  · simp [isNameChar, hc]

theorem byte_beq_of_isNameStart {c x : Char} (hc : isNameStart c = true) (hx : isNameStart x = false)
    (hlt : x.toNat < 128) : (byte c == byte x) = false := by
  refine beq_false_of_ne fun heq => ?_
  rw [byte_injective (toNat_lt_of_isNameChar (isNameChar_of_isNameStart hc)) hlt heq, hx] at hc
  cases hc

/-! ### Tags -/

namespace Markup

theorem tagContent_append (hchunk : ∀ b ∈ chunk, (b != byte '>' && !isQuoteByte b) = true)
    (hrest : tagContent none rest = .ok (content, behind)) :
    tagContent none (chunk ++ rest) = .ok (chunk ++ content, behind) := by
  induction chunk with
  | nil => exact hrest
  | cons b chunk ih =>
      have hb := hchunk b List.mem_cons_self
      have hchunk' := ih fun x hx => hchunk x (List.mem_cons_of_mem _ hx)
      simp only [Bool.and_eq_true, bne_iff_ne, Bool.not_eq_true'] at hb
      have hangle : (b == byte '>') = false := beq_false_of_ne hb.1
      simp [tagContent, hangle, hb.2, hchunk', bind, Except.bind]

theorem tagContent_quoted {value : Bytes} (hvalue : byte '"' ∉ value)
    (hrest : tagContent none rest = .ok (content, behind)) :
    tagContent (some (byte '"')) (value ++ byte '"' :: rest) = .ok (value ++ byte '"' :: content, behind) := by
  induction value with
  | nil => simp [tagContent, hrest, bind, Except.bind]
  | cons b value ih =>
      have hb : (b == byte '"') = false := beq_false_of_ne fun heq => hvalue (heq ▸ List.mem_cons_self)
      have hvalue' := ih fun hmem => hvalue (List.mem_cons_of_mem _ hmem)
      simp [tagContent, hb, hvalue', bind, Except.bind]

theorem tagContent_angle (behind : Bytes) : tagContent none (byte '>' :: behind) = .ok ([], behind) := by
  simp [tagContent]

theorem tagContent_value {value : Bytes} (hvalue : byte '"' ∉ value)
    (hrest : tagContent none rest = .ok (content, behind)) :
    tagContent none (byte '"' :: (value ++ byte '"' :: rest))
      = .ok (byte '"' :: (value ++ byte '"' :: content), behind) := by
  have hangle : (byte '"' == byte '>') = false := by decide
  have hquote : isQuoteByte (byte '"') = true := by decide
  rw [tagContent, hangle, hquote, if_neg Bool.false_ne_true, if_pos rfl, tagContent_quoted hvalue hrest]
  rfl

theorem encode_writeAttribute (entry : String × String) :
    encode (Element.writeAttribute entry) = (byte ' ' :: encode entry.1.toList ++ [byte '='])
      ++ byte '"' :: (encode (escape entry.2.toList) ++ [byte '"']) := by
  have hspace : encode [' '] = [byte ' '] := by decide
  have hsign : encode "=\"".toList = [byte '=', byte '"'] := by decide
  have hquote : encode ['"'] = [byte '"'] := by decide
  have hwrite : Element.writeAttribute entry
      = [' '] ++ entry.1.toList ++ "=\"".toList ++ escape entry.2.toList ++ ['"'] := rfl
  rw [hwrite, encode_append, encode_append, encode_append, encode_append, hspace, hsign, hquote]
  simp

theorem quote_not_mem_value (value : List Char) : byte '"' ∉ encode (escape value) :=
  byte_not_mem_encode (by decide) (quote_not_mem_escape value)

theorem tagContent_attributes {entries : List (String × String)}
    (hnames : ∀ entry ∈ entries, isName entry.1.toList = true)
    (hrest : tagContent none rest = .ok (content, behind)) :
    tagContent none (encode (entries.flatMap Element.writeAttribute) ++ rest)
      = .ok (encode (entries.flatMap Element.writeAttribute) ++ content, behind) := by
  induction entries with
  | nil => exact hrest
  | cons entry entries ih =>
      have hentries := ih fun e he => hnames e (List.mem_cons_of_mem _ he)
      have hkey : ∀ b ∈ byte ' ' :: encode entry.1.toList ++ [byte '='],
          (b != byte '>' && !isQuoteByte b) = true := by
        have hname := @forall_mem_encode_name _ (fun b => b != byte '>' && !isQuoteByte b) (by decide)
          (all_isNameChar (hnames entry List.mem_cons_self))
        intro b hb
        simp only [List.cons_append, List.mem_cons, List.mem_append, List.not_mem_nil, or_false] at hb
        rcases hb with rfl | hb | rfl
        · decide
        · exact hname b hb
        · decide
      have hentry := tagContent_append hkey (tagContent_value (quote_not_mem_value entry.2.toList) hentries)
      rw [List.flatMap_cons, encode_append, encode_writeAttribute]
      simpa using hentry

theorem next_angle (bs : Bytes) : next (byte '<') bs = readAngle bs := by
  rw [next, if_pos (beq_self_eq_true _)]

/-- What stands in an opening tag. -/
def tagText (tag : String) (attributes : Attributes) : List Char :=
  tag.toList ++ attributes.entries.flatMap Element.writeAttribute

/-- Whether a tag and its attributes have names. -/
structure IsNamed (tag : String) (attributes : Attributes) : Prop where
  tag : isName tag.toList = true
  attributes : ∀ entry ∈ attributes.entries, isName entry.1.toList = true

variable {tag : String} {attributes : Attributes}

/-- A name start is none of the characters that tell other markup from tags. -/
theorem readAngle_tag (h : IsNamed tag attributes) (hrest : tagContent none rest = .ok (content, behind)) :
    next (byte '<') (encode (tagText tag attributes) ++ rest)
      = .ok (ofContent (encode (tagText tag attributes) ++ content), behind) := by
  obtain ⟨c, cs, hstart, hname, hbytes⟩ := exists_encode_name h.tag
  have hplain := @forall_mem_encode_name _ (fun b => b != byte '>' && !isQuoteByte b) (by decide)
    (all_isNameChar h.tag)
  have htag := tagContent_append hplain (tagContent_attributes h.attributes hrest)
  rw [← List.append_assoc, ← List.append_assoc, ← encode_append] at htag
  have hcons : encode (tagText tag attributes) ++ rest
      = byte c :: (encode cs ++ encode (attributes.entries.flatMap Element.writeAttribute) ++ rest) := by
    rw [tagText, encode_append, hbytes]
    simp
  rw [next_angle, hcons, readAngle, byte_beq_of_isNameStart hstart (by decide : isNameStart '!' = false) (by decide),
    byte_beq_of_isNameStart hstart (by decide : isNameStart '?' = false) (by decide),
    byte_beq_of_isNameStart hstart (by decide : isNameStart '/' = false) (by decide), ← hcons, tagText, htag]
  rfl

/-- Neither a name nor a written value ends with a slash. -/
theorem getLast?_encode_tagText (h : IsNamed tag attributes) :
    (encode (tagText tag attributes)).getLast? ≠ some (byte '/') := by
  rcases List.eq_nil_or_concat attributes.entries with hnil | ⟨entries, entry, hconcat⟩
  · intro hlast
    rw [tagText, hnil, List.flatMap_nil, List.append_nil] at hlast
    have hslash := @forall_mem_encode_name _ (fun b => b != byte '/') (by decide) (all_isNameChar h.tag) _
      (List.mem_of_getLast? hlast)
    exact bne_iff_ne.1 hslash rfl
  · have hquote : byte '"' ≠ byte '/' := by decide
    rw [tagText, hconcat, List.concat_eq_append, List.flatMap_append, List.flatMap_singleton, encode_append,
      encode_append, encode_writeAttribute]
    simp [List.getLast?_append, List.getLast?_cons, hquote]

theorem next_opening (h : IsNamed tag attributes) (behind : Bytes) :
    next (byte '<') (encode (tagText tag attributes) ++ byte '>' :: behind)
      = .ok (.opening (encode (tagText tag attributes)), behind) := by
  have hslash : ((encode (tagText tag attributes)).getLast? == some (byte '/')) = false :=
    beq_false_of_ne (getLast?_encode_tagText h)
  rw [readAngle_tag h (tagContent_angle behind), List.append_nil, ofContent, hslash]
  rfl

theorem next_empty (h : IsNamed tag attributes) (behind : Bytes) :
    next (byte '<') (encode (tagText tag attributes) ++ byte '/' :: byte '>' :: behind)
      = .ok (.empty (encode (tagText tag attributes)), behind) := by
  have hslash : ∀ b ∈ [byte '/'], (b != byte '>' && !isQuoteByte b) = true := by
    intro b hb
    rw [List.mem_singleton.1 hb]
    decide
  have hrest := tagContent_append hslash (tagContent_angle behind)
  rw [List.singleton_append] at hrest
  rw [readAngle_tag h hrest, ofContent]
  simp

theorem next_closing (h : isName name = true) (behind : Bytes) :
    next (byte '<') (byte '/' :: (encode name ++ byte '>' :: behind)) = .ok (.closing (encode name), behind) := by
  have hplain := @forall_mem_encode_name _ (fun b => b != byte '>' && !isQuoteByte b) (by decide) (all_isNameChar h)
  have hcontent := tagContent_append hplain (tagContent_angle behind)
  have hclosing : closingName (encode name) = encode name := by
    have hspace : ∀ b ∈ (encode name).reverse, isSpace b = false := fun b hb => by
      simpa using @forall_mem_encode_name _ (fun b => !isSpace b) (by decide) (all_isNameChar h) b
        (List.mem_reverse.1 hb)
    rw [closingName, dropWhile_eq_self hspace, List.reverse_reverse, ite_self]
  rw [List.append_nil] at hcontent
  rw [next_angle, readAngle, hcontent]
  change Except.ok (Markup.closing (closingName (encode name)), behind) = _
  rw [hclosing]

/-! ### Texts and references -/

theorem endsText_of_mem_encode {run : List Char} (hrun : ∀ c ∈ run, isMarkupChar c = false) :
    ∀ b ∈ encode run, endsText b = false := by
  intro b hb
  have hless : byte '<' ∉ encode run := byte_not_mem_encode (by decide) fun hmem => nomatch hrun _ hmem
  have hamp : byte '&' ∉ encode run := byte_not_mem_encode (by decide) fun hmem => nomatch hrun _ hmem
  rw [endsText, Bool.or_eq_false_iff, beq_eq_false_iff_ne, beq_eq_false_iff_ne]
  exact ⟨fun heq => hless (heq ▸ hb), fun heq => hamp (heq ▸ hb)⟩

theorem next_text {b : UInt8} {bs : Bytes} (htext : ∀ x ∈ b :: bs, endsText x = false)
    (hrest : Stops (!endsText ·) rest) : next b (bs ++ rest) = .ok (.text (b :: bs), rest) := by
  have hb := htext b List.mem_cons_self
  have hbs : ∀ x ∈ bs, (!endsText x) = true := fun x hx => by
    rw [htext x (List.mem_cons_of_mem _ hx)]
    rfl
  rw [endsText, Bool.or_eq_false_iff] at hb
  rw [next, hb.1, hb.2, takeWhile_append_of_stops hbs hrest, dropWhile_append_of_stops hbs hrest]
  rfl

theorem next_reference (hname : name.all isNameChar = true) (behind : Bytes) :
    next (byte '&') (encode name ++ byte ';' :: behind) = .ok (.reference (encode name), behind) := by
  have hinner := @forall_mem_encode_name _ (fun b => !endsText b && b != byte ';') (by decide) hname
  have hsemicolon := @forall_mem_encode_name _ (· != byte ';') (by decide) hname
  have hless : (byte '&' == byte '<') = false := by decide
  have hstop : Stops (fun b => !endsText b && b != byte ';') (byte ';' :: behind) :=
    stops_cons (by decide) behind
  have hstop' : Stops (· != byte ';') (byte ';' :: behind) := stops_cons (by decide) behind
  rw [next, hless, if_neg Bool.false_ne_true, if_pos (beq_self_eq_true _), readReference,
    dropWhile_append_of_stops hinner hstop, takeWhile_append_of_stops hsemicolon hstop']
  rfl

end Markup

end CellFormat.Xml
