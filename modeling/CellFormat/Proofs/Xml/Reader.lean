import CellFormat.Proofs.Xml.Attributes
import CellFormat.Proofs.Xml.Markup
/-!
# Elements read back

The reader keeps the open elements on a stack. A written element is read without looking at the stack, and is
handed to it as one step of progress; a written text is put together again from runs and references. By
induction over the tree the first element of a text is the one that was written, whatever follows it.
-/

namespace CellFormat.Xml

/-! ### Attributes -/

variable {size : Nat} {seen : List (Bytes × Nat)} {attributes : Attributes} {rest bs key value behind : Bytes}
  {b : UInt8}

theorem readAttributes_nil (h : rest.dropWhile isSpace = []) :
    readAttributes size seen attributes rest = .ok attributes := by
  rw [readAttributes]
  split
  · rfl
  · next hcons =>
    rw [h] at hcons
    cases hcons

theorem readAttributes_cons (h : rest.dropWhile isSpace = b :: bs) :
    readAttributes size seen attributes rest = (match readAttribute size seen b bs with
      | .error reason => .error (.malformedAttribute reason)
      | .ok (key, value, behind) => do
        let name ← decode .key key
        let text ← decode .value value
        readAttributes size ((key, size - (bs.length + 1)) :: seen) (attributes.set name (unescapeString text))
          behind) := by
  rw [readAttributes]
  split
  · next hnil =>
    rw [h] at hnil
    cases hnil
  · next hcons =>
    rw [h] at hcons
    cases hcons
    split
    · next herror => rw [herror]
    · next hok => rw [hok]

theorem readAttribute_write {name value : List Char} (hname : isName name = true)
    (hseen : seen.lookup (encode name) = none) (rest : Bytes) :
    ∃ b bs, encode name ++ [byte '='] ++ byte '"' :: (encode (escape value) ++ [byte '"']) ++ rest = b :: bs
      ∧ isSpace b = false ∧ readAttribute size seen b bs = .ok (encode name, encode (escape value), rest) := by
  obtain ⟨c, cs, hstart, -, hbytes⟩ := exists_encode_name hname
  have hkey := @forall_mem_encode_name _ isKeyByte (by decide) (all_isNameChar hname)
  have hspace := @forall_mem_encode_name _ (fun b => !isSpace b) (by decide) (all_isNameChar hname)
  rw [hbytes] at hkey hspace hseen ⊢
  have hcs : ∀ b ∈ encode cs, isKeyByte b = true := fun b hb => hkey b (List.mem_cons_of_mem _ hb)
  have hsign : ∀ behind, Stops isKeyByte (byte '=' :: behind) := fun behind => stops_cons (by decide) behind
  have hnospace : isSpace (byte '=') = false := by decide
  have hquote : isSpace (byte '"') = false := by decide
  have hmark : isQuoteByte (byte '"') = true := by decide
  refine ⟨byte c, encode cs ++ byte '=' :: byte '"' :: (encode (escape value) ++ byte '"' :: rest), by simp, ?_, ?_⟩
  · simpa using hspace (byte c) List.mem_cons_self
  · rw [readAttribute_eq_ok_iff, takeWhile_append_of_stops hcs (hsign _), dropWhile_append_of_stops hcs (hsign _)]
    simp [hnospace, hquote, hmark, hseen, splitAtFirst_append (Markup.quote_not_mem_value value)]

/-- Whether the keys that were read are names of these attributes. -/
def KeysIn (attributes : Attributes) (seen : List (Bytes × Nat)) : Prop :=
  ∀ pair ∈ seen, ∃ entry ∈ attributes.entries, pair.1 = encode entry.1.toList

theorem KeysIn.lookup_eq_none {name : String} (h : KeysIn attributes seen)
    (hfresh : name ∉ attributes.entries.map Prod.fst) : seen.lookup (encode name.toList) = none := by
  refine List.lookup_eq_none_iff.2 fun pair hpair => bne_iff_ne.2 fun heq => hfresh ?_
  obtain ⟨entry, hentry, hkey⟩ := h pair hpair
  rw [String.toList_inj.1 (encode_inj (heq.trans hkey))]
  exact List.mem_map_of_mem hentry

theorem KeysIn.set {name : String} (h : KeysIn attributes seen) (hfresh : name ∉ attributes.entries.map Prod.fst)
    (value : String) (position : Nat) :
    KeysIn (attributes.set name value) ((encode name.toList, position) :: seen) := by
  intro pair hpair
  rw [attributes.entries_set_of_not_mem hfresh]
  rcases List.mem_cons.1 hpair with rfl | hpair
  · exact ⟨(name, value), List.mem_append_right _ List.mem_cons_self, rfl⟩
  · obtain ⟨entry, hentry, hkey⟩ := h pair hpair
    exact ⟨entry, List.mem_append_left _ hentry, hkey⟩

/-- A written attribute is set, as its name is new. -/
theorem readAttributes_writeAttribute {name : String} (hname : isName name.toList = true)
    (hseen : KeysIn attributes seen) (hfresh : name ∉ attributes.entries.map Prod.fst) (value : String)
    (rest : Bytes) :
    ∃ position, readAttributes size seen attributes (encode (Element.writeAttribute (name, value)) ++ rest)
      = readAttributes size ((encode name.toList, position) :: seen) (attributes.set name value) rest := by
  obtain ⟨b, bs, hbytes, hspace, hread⟩ :=
    @readAttribute_write size seen _ value.toList hname (hseen.lookup_eq_none hfresh) rest
  have hrest : (encode (Element.writeAttribute (name, value)) ++ rest).dropWhile isSpace = b :: bs := by
    have hspaces : isSpace (byte ' ') = true := by decide
    have hcons : (byte ' ' :: encode name.toList ++ [byte '='])
          ++ byte '"' :: (encode (escape value.toList) ++ [byte '"']) ++ rest = byte ' ' :: b :: bs := by
      rw [← hbytes]
      rfl
    rw [Markup.encode_writeAttribute, hcons, List.dropWhile_cons_of_pos hspaces,
      List.dropWhile_cons_of_neg (Bool.eq_false_iff.1 hspace)]
  have hkey : decode .key (encode name.toList) = .ok name := by
    rw [decode_encode, String.ofList_toList]
  have hvalue : unescapeString (.ofList (escape value.toList)) = value := by
    rw [unescapeString, String.toList_ofList, unescape_escape, String.ofList_toList]
  refine ⟨size - (bs.length + 1), ?_⟩
  rw [readAttributes_cons hrest, hread]
  simp only [hkey, decode_encode, hvalue, bind, Except.bind]

theorem readAttributes_write {entries : List (String × String)}
    (hnames : ∀ entry ∈ entries, isName entry.1.toList = true)
    (hnodup : ((attributes.entries ++ entries).map Prod.fst).Nodup) (hseen : KeysIn attributes seen) :
    ∃ attributes', readAttributes size seen attributes (encode (entries.flatMap Element.writeAttribute))
        = .ok attributes' ∧ attributes'.entries = attributes.entries ++ entries := by
  induction entries generalizing seen attributes with
  | nil => exact ⟨attributes, readAttributes_nil rfl, (List.append_nil _).symm⟩
  | cons entry entries ih =>
      obtain ⟨name, value⟩ := entry
      have hfresh : name ∉ attributes.entries.map Prod.fst := by
        intro hmem
        rw [List.map_append, List.nodup_append] at hnodup
        exact hnodup.2.2 name hmem name List.mem_cons_self rfl
      have hentries :
          (attributes.set name value).entries ++ entries = attributes.entries ++ (name, value) :: entries := by
        rw [attributes.entries_set_of_not_mem hfresh, List.append_assoc]
        rfl
      have hname : isName name.toList = true := hnames (name, value) List.mem_cons_self
      obtain ⟨position, hstep⟩ := @readAttributes_writeAttribute size seen attributes name hname hseen hfresh value
        (encode (entries.flatMap Element.writeAttribute))
      obtain ⟨attributes', hresult, hresultEntries⟩ := ih (fun entry he => hnames entry (List.mem_cons_of_mem _ he))
        (hentries.symm ▸ hnodup) (hseen.set hfresh value position)
      refine ⟨attributes', ?_, hresultEntries.trans hentries⟩
      rw [List.flatMap_cons, encode_append, hstep, hresult]

theorem ofTag_tagText {tag : String} (h : Markup.IsNamed tag attributes) :
    Element.ofTag (encode (Markup.tagText tag attributes)) = .ok { tag, attributes } := by
  have hname : ∀ b ∈ encode tag.toList, (!isSpace b) = true :=
    @forall_mem_encode_name _ (fun b => !isSpace b) (by decide) (all_isNameChar h.tag)
  have hstops : Stops (!isSpace ·) (encode (attributes.entries.flatMap Element.writeAttribute)) := by
    cases hentries : attributes.entries with
    | nil => exact stops_nil _
    | cons entry entries =>
        rw [List.flatMap_cons, encode_append, Markup.encode_writeAttribute]
        exact stops_cons (by decide) _
  obtain ⟨attributes', hread, hentries⟩ := @readAttributes_write
    (encode (Markup.tagText tag attributes)).length [] {} attributes.entries h.attributes
    (by simpa using attributes.nodup) nofun
  have hattributes : attributes' = attributes := Attributes.eq_of_entries hentries
  rw [Markup.tagText, encode_append] at hread ⊢
  rw [Element.ofTag, takeWhile_append_of_stops hname hstops, dropWhile_append_of_stops hname hstops, hread,
    decode_encode, String.ofList_toList, hattributes]
  rfl

/-! ### Steps -/

/-- What is read behind a step of progress. -/
def Progress.resume (progress : Progress) (rest : Bytes) : Except Error Element :=
  match progress with
  | .complete e => .ok e
  | .opened stack => readElement stack rest

variable {stack : List Element} {markup : Markup} {progress : Progress}

theorem readElement_eq (stack : List Element) (b : UInt8) (bs : Bytes) :
    readElement stack (b :: bs) = (do
      let (markup, behind) ← Markup.next b bs
      let progress ← Progress.step stack markup
      progress.resume behind) := by
  rw [readElement]
  split
  · next herror =>
    rw [herror]
    rfl
  · next markup behind hok =>
    rw [hok]
    cases hstep : Progress.step stack markup with
    | error e => simp only [hstep, bind, Except.bind]
    | ok progress => cases progress <;> simp only [hstep, bind, Except.bind, Progress.resume]

theorem readElement_cons (hnext : Markup.next b bs = .ok (markup, behind))
    (hstep : Progress.step stack markup = .ok progress) : readElement stack (b :: bs) = progress.resume behind := by
  rw [readElement_eq, hnext]
  simp only [hstep, bind, Except.bind]

/-! ### Texts -/

variable {e : Element}

theorem appendText_append (e : Element) (left right : List Char) :
    (e.appendText (.ofList left)).appendText (.ofList right) = e.appendText (.ofList (left ++ right)) := by
  rw [Element.appendText, Element.appendText, Element.appendText, String.append_assoc, String.ofList_append]

theorem appendText_empty (e : Element) : e.appendText "" = e := by
  obtain ⟨tag, attributes, text, children⟩ := e
  simp [Element.appendText]

/-- A run without markup characters goes to the innermost open element. -/
theorem readElement_run {run : List Char} (hrun : ∀ c ∈ run, isMarkupChar c = false)
    (hrest : Stops (!Markup.endsText ·) rest) :
    readElement (e :: stack) (encode run ++ rest) = readElement (e.appendText (.ofList run) :: stack) rest := by
  cases hbytes : encode run with
  | nil =>
      have hempty : run = [] := encode_inj hbytes
      rw [hempty, String.ofList_nil, appendText_empty, List.nil_append]
  | cons b bs =>
      have htext := Markup.endsText_of_mem_encode hrun
      rw [hbytes] at htext
      have hamp : '&' ∉ run := fun hmem => nomatch hrun _ hmem
      have hstep : Progress.step (e :: stack) (.text (encode run))
          = .ok (.opened (e.appendText (.ofList run) :: stack)) := by
        simp [Progress.step, decode_encode, unescapeString, unescape_of_not_mem hamp, bind, Except.bind, pure,
          Except.pure]
      rw [hbytes] at hstep
      rw [List.cons_append]
      exact readElement_cons (Markup.next_text htext hrest) hstep

theorem readElement_reference {c : Char} (hc : isMarkupChar c = true) (rest : Bytes) :
    readElement (e :: stack) (encode (escapeTextChar c) ++ rest)
      = readElement (e.appendText (.ofList [c]) :: stack) rest := by
  obtain ⟨name, hescape, hunescape, halpha⟩ := escapeTextChar_of_isMarkupChar hc
  have hname : name.all isNameChar = true := List.all_eq_true.2 fun x hx =>
    isNameChar_of_isNameStart (by rw [isNameStart, List.all_eq_true.1 halpha x hx, Bool.true_or])
  have hbytes : encode (escapeTextChar c) ++ rest = byte '&' :: (encode name ++ byte ';' :: rest) := by
    have hsemicolon : encode [';'] = [byte ';'] := by decide
    rw [hescape, encode_append, encode_cons_of_lt (by decide), hsemicolon]
    simp
  have htext : unescapeString ("&" ++ .ofList name ++ ";") = .ofList [c] := by
    have hchars : ("&" ++ String.ofList name ++ ";").toList = '&' :: name ++ [';'] := by simp
    rw [unescapeString, hchars, hunescape]
  have hstep : Progress.step (e :: stack) (.reference (encode name))
      = .ok (.opened (e.appendText (.ofList [c]) :: stack)) := by
    simp only [Progress.step, decode_encode, bind, Except.bind, htext]
    rfl
  rw [hbytes]
  exact readElement_cons (Markup.next_reference hname rest) hstep

theorem stops_reference {c : Char} (hc : isMarkupChar c = true) (rest : Bytes) :
    Stops (!Markup.endsText ·) (encode (escapeTextChar c) ++ rest) := by
  obtain ⟨name, hescape, -, -⟩ := escapeTextChar_of_isMarkupChar hc
  rw [hescape, List.cons_append, encode_cons_of_lt (by decide)]
  exact stops_cons (by decide) _

/-- A written text goes to the innermost open element, in front of other markup. -/
theorem readElement_text (e : Element) (cs : List Char) (hrest : Stops (!Markup.endsText ·) rest) :
    readElement (e :: stack) (encode (escapeText cs) ++ rest)
      = readElement (e.appendText (.ofList cs) :: stack) rest := by
  rcases plain_or_eq_append cs with hplain | ⟨run, c, tail, hcs, hrun, hc⟩
  · rw [escapeText_of_not hplain]
    exact readElement_run hplain hrest
  · have hlength : tail.length < cs.length := by
      rw [hcs, List.length_append, List.length_cons]
      omega
    rw [hcs, escapeText_append_cons hrun, encode_append, encode_append, List.append_assoc, List.append_assoc,
      readElement_run hrun (stops_reference hc _), readElement_reference hc, readElement_text _ tail hrest,
      appendText_append, appendText_append]
    rfl
termination_by cs.length

/-! ### Tags -/

variable {tag : String}

theorem encode_lt (cs : List Char) : encode ('<' :: cs) = byte '<' :: encode cs := encode_cons_of_lt (by decide) cs

theorem readElement_startTag (h : Markup.IsNamed tag attributes) (rest : Bytes) :
    readElement stack (encode ('<' :: Markup.tagText tag attributes ++ ['>']) ++ rest)
      = readElement ({ tag, attributes } :: stack) rest := by
  have hangle : encode ['>'] = [byte '>'] := by decide
  have hstep : Progress.step stack (.opening (encode (Markup.tagText tag attributes)))
      = .ok (.opened ({ tag, attributes } :: stack)) := by
    rw [Progress.step, ofTag_tagText h]
    rfl
  rw [List.cons_append, encode_lt, encode_append, hangle, List.cons_append, List.append_assoc]
  exact readElement_cons (Markup.next_opening h rest) hstep

theorem readElement_emptyTag (h : Markup.IsNamed tag attributes) (rest : Bytes) :
    readElement stack (encode ('<' :: Markup.tagText tag attributes ++ ['/', '>']) ++ rest)
      = (Progress.close { tag, attributes } stack).resume rest := by
  have hangle : encode ['/', '>'] = [byte '/', byte '>'] := by decide
  have hstep : Progress.step stack (.empty (encode (Markup.tagText tag attributes)))
      = .ok (.close { tag, attributes } stack) := by
    rw [Progress.step, ofTag_tagText h]
    rfl
  rw [List.cons_append, encode_lt, encode_append, hangle, List.cons_append, List.append_assoc]
  exact readElement_cons (Markup.next_empty h rest) hstep

theorem readElement_endTag (h : isName e.tag.toList = true) (rest : Bytes) :
    readElement (e :: stack) (encode ('<' :: '/' :: e.tag.toList ++ ['>']) ++ rest)
      = (Progress.close e stack).resume rest := by
  have hangle : encode ['>'] = [byte '>'] := by decide
  have hstep : Progress.step (e :: stack) (.closing (encode e.tag.toList)) = .ok (.close e stack) := by
    rw [Progress.step, decode?_encode, String.ofList_toList, if_pos rfl]
  have hbytes : encode ('<' :: '/' :: e.tag.toList ++ ['>']) ++ rest
      = byte '<' :: byte '/' :: (encode e.tag.toList ++ byte '>' :: rest) := by
    rw [List.cons_append, List.cons_append, encode_lt, encode_cons_of_lt (by decide), encode_append, hangle]
    simp
  rw [hbytes]
  exact readElement_cons (Markup.next_closing h rest) hstep

/-! ### Trees -/

/-- Whether all tags and attributes in a tree have names. -/
inductive Element.WellNamed : Element → Prop
  | mk {tag : String} {attributes : Attributes} {text : String} {children : List Element}
    (hnamed : Markup.IsNamed tag attributes) (hchildren : ∀ child ∈ children, child.WellNamed) :
    WellNamed ⟨tag, attributes, text, children⟩

theorem write_eq_of_isEmpty (tag : String) (attributes : Attributes) :
    Element.write { tag, attributes } = '<' :: Markup.tagText tag attributes ++ ['/', '>'] := by
  rw [Element.write]
  rfl

theorem write_eq_of_not_isEmpty {text : String} {children : List Element}
    (h : ¬(text.isEmpty && children.isEmpty) = true) :
    Element.write ⟨tag, attributes, text, children⟩ = ('<' :: Markup.tagText tag attributes ++ ['>'])
      ++ (escapeText text.toList ++ (Element.writeAll children ++ ('<' :: '/' :: tag.toList ++ ['>']))) := by
  rw [Element.write, if_neg h]
  simp [Markup.tagText]

theorem exists_write (e : Element) : ∃ cs, e.write = '<' :: cs := by
  obtain ⟨tag, attributes, text, children⟩ := e
  rw [Element.write]
  exact ⟨_, rfl⟩

theorem stops_writeAll (es : List Element) (cs : List Char) (rest : Bytes) :
    Stops (!Markup.endsText ·) (encode (Element.writeAll es ++ '<' :: cs) ++ rest) := by
  have hlt : ∀ cs behind, Stops (!Markup.endsText ·) (encode ('<' :: cs) ++ behind) := by
    intro cs behind
    rw [encode_lt]
    exact stops_cons (by decide) _
  cases es with
  | nil => exact hlt cs rest
  | cons e es =>
      obtain ⟨written, hwritten⟩ := exists_write e
      rw [Element.writeAll, hwritten]
      exact hlt _ rest

theorem readElement_writeAll {es : List Element}
    (h : ∀ e ∈ es, ∀ stack rest, readElement stack (encode e.write ++ rest) = (Progress.close e stack).resume rest)
    (parent : Element) (stack : List Element) (rest : Bytes) :
    readElement (parent :: stack) (encode (Element.writeAll es) ++ rest)
      = readElement ({ parent with children := parent.children ++ es } :: stack) rest := by
  induction es generalizing parent with
  | nil =>
      obtain ⟨tag, attributes, text, children⟩ := parent
      rw [Element.writeAll, encode_nil, List.nil_append, List.append_nil]
  | cons e es ih =>
      rw [Element.writeAll, encode_append, List.append_assoc, h e List.mem_cons_self]
      change readElement (parent.addChild e :: stack) _ = _
      rw [ih (fun x hx => h x (List.mem_cons_of_mem _ hx))]
      simp [Element.addChild]

/-- A written element is read as a step of progress, whatever is open in front of it. -/
theorem readElement_write (h : e.WellNamed) (stack : List Element) (rest : Bytes) :
    readElement stack (encode e.write ++ rest) = (Progress.close e stack).resume rest := by
  induction h generalizing stack rest with
  | @mk tag attributes text children hnamed hchildren ih =>
      by_cases hempty : (text.isEmpty && children.isEmpty) = true
      · rw [Bool.and_eq_true, String.isEmpty_iff, List.isEmpty_iff] at hempty
        rw [hempty.1, hempty.2, write_eq_of_isEmpty]
        exact readElement_emptyTag hnamed rest
      · have hstops : Stops (!Markup.endsText ·)
            (encode (Element.writeAll children ++ ('<' :: '/' :: tag.toList ++ ['>'])) ++ rest) :=
          stops_writeAll children _ rest
        have hread : ({ tag, attributes } : Element).appendText (.ofList text.toList)
            = { tag, attributes, text } := by
          simp [Element.appendText]
        rw [write_eq_of_not_isEmpty hempty, encode_append, List.append_assoc, readElement_startTag hnamed,
          encode_append, List.append_assoc, readElement_text _ _ hstops, hread,
          encode_append, List.append_assoc, readElement_writeAll ih, List.nil_append]
        exact @readElement_endTag stack ⟨tag, attributes, text, children⟩ hnamed.tag rest

/-! ### Whole texts -/

theorem ofBytes_encode_lt (cs : List Char) (rest : Bytes) :
    Element.ofBytes (encode ('<' :: cs) ++ rest) = readElement [] (encode ('<' :: cs) ++ rest) := by
  have hmark : ¬byteOrderMark.isPrefixOf (byte '<' :: (encode cs ++ rest)) = true := by
    have hne : (0xEF == byte '<') = false := by decide
    rw [byteOrderMark, List.isPrefixOf, hne, Bool.false_and]
    exact Bool.false_ne_true
  rw [encode_lt, List.cons_append, Element.ofBytes, if_neg hmark]

theorem ofBytes_write (h : e.WellNamed) (rest : Bytes) : Element.ofBytes (e.toXml.toUTF8.toList ++ rest) = .ok e := by
  obtain ⟨cs, hwrite⟩ := exists_write e
  rw [Element.toXml, toList_toUTF8, hwrite, ofBytes_encode_lt, ← hwrite, readElement_write h]
  rfl

/-- Written elements between a start tag and an end tag are read as the children of one element. -/
theorem ofBytes_writeAll {es : List Element} (hnamed : Markup.IsNamed tag attributes) (h : ∀ e ∈ es, e.WellNamed)
    (rest : Bytes) :
    Element.ofBytes (encode ('<' :: Markup.tagText tag attributes ++ ['>']
        ++ (Element.writeAll es ++ ('<' :: '/' :: tag.toList ++ ['>']))) ++ rest)
      = .ok { tag, attributes, children := es } := by
  have hlt : ∀ inner, '<' :: Markup.tagText tag attributes ++ ['>'] ++ inner
      = '<' :: (Markup.tagText tag attributes ++ ['>'] ++ inner) := fun inner => rfl
  rw [hlt, ofBytes_encode_lt, ← hlt, encode_append, List.append_assoc, readElement_startTag hnamed, encode_append,
    List.append_assoc, readElement_writeAll (fun e he => readElement_write (h e he)), List.nil_append]
  exact @readElement_endTag [] { tag, attributes, children := es } hnamed.tag rest

end CellFormat.Xml
