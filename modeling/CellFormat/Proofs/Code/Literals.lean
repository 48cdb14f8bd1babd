import CellFormat.Proofs.Code.TokenReaders
/-!
# Texts that stand for themselves

A text that is all a format shows is written in quotes or bare. In quotes it is read back, whatever it says. Bare it is
read back unless it begins with something that the readers take for more than text: a tag is read as a tag, or refused,
and a backslash escapes what is behind it. The writer looks for quote marks where a text begins, but for neither of
these, so such a text does not come back.
-/

namespace CellFormat

variable {text : List Char} {literal : String} {parts : List Part}

/-! ### Bare texts -/

/-- Behind the tags a bare text is one literal run, unless it begins with an escaped character. -/
theorem Token.tokens_bare (hquote : mustQuote text = false) (hne : text ≠ [])
    (hescape : ∀ c cs, text ≠ '\\' :: c :: cs) : tokens text = [.literal text] := by
  obtain ⟨c, cs, rfl⟩ := List.exists_cons_of_ne_nil hne
  have hplaceholder := not_placeholder_of_bare hquote
  have hrun := literalRun_of_forall fun x hx => hplaceholder x (List.mem_cons_of_mem _ hx)
  have hnext : next c cs = (.literal (c :: cs), []) := by
    obtain ⟨block, -, hblock, -⟩ | ⟨body, -, hmark, -⟩ | ⟨x, -, rfl, hcs⟩ | ⟨htoken, hrest, -⟩ :=
      next_cases (rfl : next c cs = ((next c cs).1, (next c cs).2))
    · have hc := hplaceholder c List.mem_cons_self
      rw [hblock c List.mem_cons_self] at hc
      cases hc
    · exact absurd hmark (head_of_bare hquote rfl)
    · exact absurd (congrArg _ hcs) (hescape _ _)
    · rw [hrun] at htoken hrest
      exact Prod.ext htoken hrest
  rw [tokens_of_next hnext, tokens]

theorem readParts_bare (hquote : mustQuote text = false) (hne : text ≠ [])
    (hescape : ∀ c cs, text ≠ '\\' :: c :: cs) : readParts text = .ok [.text (.ofList text)] := by
  rw [readParts, Token.tokens_bare hquote hne hescape]
  rfl

/-! ### Texts get no longer -/

theorem length_chars_le {token : Token} {part : Part} (h : token.toPart = .ok part) :
    part.chars.length ≤ token.source.length := by
  cases token with
  | digits block =>
      obtain ⟨read, -, heq⟩ := bind_eq_ok_iff.1 h
      cases heq
      exact Nat.zero_le _
  | quoted mark body =>
      cases h
      simp [Part.chars, Token.source]
      omega
  | escaped c =>
      cases h
      simp [Part.chars, Token.source]
  | literal run =>
      cases h
      simp [Part.chars, Token.source]

theorem length_flatMap_chars_le (h : readParts text = .ok parts) :
    (parts.flatMap Part.chars).length ≤ text.length := by
  have hparts := forall₂_of_mapM h
  have htext := congrArg List.length (Token.flatMap_source_tokens text)
  generalize Token.tokens text = tokens at hparts htext
  rw [← htext]
  clear htext h
  induction hparts with
  | nil => exact Nat.le_refl _
  | cons hpart _ ih =>
      rw [List.flatMap_cons, List.flatMap_cons, List.length_append, List.length_append]
      exact Nat.add_le_add (length_chars_le hpart) ih

theorem length_flatMap_chars_lt {c : Char} {cs : List Char} (h : readParts ('\\' :: c :: cs) = .ok parts) :
    (parts.flatMap Part.chars).length < ('\\' :: c :: cs).length := by
  rw [readParts, Token.tokens_escaped, List.mapM_cons] at h
  obtain ⟨part, hpart, hrest⟩ := bind_eq_ok_iff.1 h
  obtain ⟨others, hothers, heq⟩ := bind_eq_ok_iff.1 hrest
  cases hpart
  cases heq
  have hlength := length_flatMap_chars_le hothers
  simp only [List.flatMap_cons, Part.chars, String.toList_ofList, List.length_append, List.length_cons,
    List.length_nil]
  omega

/-! ### Untagged texts -/

/-- A header without a colour that leaves the whole text has no tag at all. -/
theorem eq_of_readHeader {header : Header} (hread : readHeader text = .ok header) (hcolor : header.color = none)
    (hlength : text.length ≤ header.body.length) : header = ⟨none, none, text⟩ := by
  obtain ⟨-, tags, ⟨colorTag, conditionTag, -, hconditionTag, htags⟩, rfl⟩ := readHeader_eq_ok_iff.1 hread
  obtain ⟨color, condition, body⟩ := header
  cases hcolor
  simp at hlength
  subst hlength
  cases condition with
  | none => rfl
  | some condition =>
      obtain ⟨content, rfl, -⟩ := hconditionTag
      simp at htags

/-- A section that shows its own text has no tag and does not begin with an escaped character. -/
theorem untagged_of_readSection {said : ReadSection} (hread : readSection text = .ok said)
    (hcolor : said.body.color = none) (hchars : said.body.parts.flatMap Part.chars = text) :
    Header.Untagged text ∧ ∀ c cs, text ≠ '\\' :: c :: cs := by
  obtain ⟨header, hheader, hrest⟩ := bind_eq_ok_iff.1 hread
  obtain ⟨parts, hparts, heq⟩ := bind_eq_ok_iff.1 hrest
  cases heq
  change parts.flatMap Part.chars = text at hchars
  have hlength := length_flatMap_chars_le hparts
  rw [hchars] at hlength
  obtain rfl := eq_of_readHeader hheader hcolor hlength
  refine ⟨readHeader_eq_self_iff.1 hheader, ?_⟩
  rintro c cs rfl
  have hshorter := length_flatMap_chars_lt hparts
  rw [hchars] at hshorter
  exact Nat.lt_irrefl _ hshorter

theorem readSection_bare (hquote : mustQuote text = false) (hne : text ≠ []) (huntagged : Header.Untagged text)
    (hescape : ∀ c cs, text ≠ '\\' :: c :: cs) :
    readSection text = .ok ⟨none, ⟨[.text (.ofList text)], none⟩⟩ := by
  have hparts := readParts_bare hquote hne hescape
  rw [readSection, readHeader_eq_self_iff.2 huntagged]
  change (readParts text >>= fun parts => _) = _
  rw [hparts]
  rfl

/-! ### Quoted texts -/

theorem Part.isNumber_of_mem_runParts {run : List Char} {part : Part} (h : part ∈ runParts run) :
    part.isNumber = false := by
  unfold runParts at h
  split at h
  · cases h
  · rw [List.mem_singleton.1 h]
    rfl

theorem Part.isNumber_of_mem_reread {part : Part} (h : part ∈ (Part.text literal).reread) : part.isNumber = false := by
  rw [reread] at h
  split at h
  · rcases List.mem_append.1 h with h | h
    · exact isNumber_of_mem_runParts h
    · obtain ⟨run, -, h⟩ := List.mem_flatMap.1 h
      rcases List.mem_cons.1 h with rfl | h
      · rfl
      · exact isNumber_of_mem_runParts h
  · rw [List.mem_singleton.1 h]
    rfl

namespace Format

def ofText (literal : String) : Format := ⟨⟨[.text literal], none⟩, []⟩

theorem rereadable_ofText (hne : literal.toList ≠ []) (hline : '\n' ∉ literal.toList)
    (hquote : mustQuote literal.toList = true) : (ofText literal).Rereadable where
  few := by simp [sectionCount, ofText, maxSections]
  primary := {
    color := nofun
    alternating := .singleton _
    parts := fun part hpart => List.mem_singleton.1 hpart ▸ ⟨hne, hline, .inl hquote⟩ }
  branches := nofun
  conditions := .inr ⟨nofun, fun h => nomatch h.1⟩

/-- Whether a text is read back from the code of the format that shows it: as a format without a colour and without
branches that shows texts only, which together are the text. -/
def ReadsBack (literal : String) : Prop :=
  ∃ f, parse (ofText literal).toCode = .ok f ∧ f.branches = [] ∧ f.primary.color = none
    ∧ (∀ part ∈ f.primary.parts, part.isNumber = false) ∧ f.primary.parts.flatMap Part.chars = literal.toList

theorem readsBack_of_mustQuote (hne : literal.toList ≠ []) (hline : '\n' ∉ literal.toList)
    (hquote : mustQuote literal.toList = true) : ReadsBack literal := by
  refine ⟨(ofText literal).reread, ?_, rfl, rfl, ?_, ?_⟩
  · rw [parse, toCode, String.toList_ofList]
    exact ofChars_write_alone (rereadable_ofText hne hline hquote) rfl
  · intro part hpart
    have hmem : part ∈ [Part.text literal].flatMap Part.reread := hpart
    rw [List.flatMap_singleton] at hmem
    exact Part.isNumber_of_mem_reread hmem
  · change ([Part.text literal].flatMap Part.reread).flatMap Part.chars = literal.toList
    rw [List.flatMap_singleton, Part.flatMap_chars_reread]

theorem parse_ofText_of_bare (hline : '\n' ∉ literal.toList) (hquote : mustQuote literal.toList = false) :
    parse (ofText literal).toCode = (readSection literal.toList).map fun said => ⟨said.body, []⟩ := by
  have hcode : (ofText literal).toCode.toList = literal.toList := by
    have hwrite := Part.write_text_of_bare hquote
    simp [toCode, ofText, writeSections, joinSections, Section.write, hwrite]
  have huncut : Uncut .plain literal.toList := by
    refine uncut_of_not_mem _ fun hmem => ?_
    have hreserved := not_reserved_of_bare hquote _ hmem
    cases hreserved
  rw [parse, hcode, ofChars_of_uncut huncut, readKept, if_neg hline]
  cases readSection literal.toList <;> rfl

/-- A text is read back exactly if it is written in quotes, or begins neither with a tag nor with a backslash that
another character is behind. -/
theorem readsBack_iff (hne : literal ≠ "") (hline : '\n' ∉ literal.toList) :
    ReadsBack literal ↔ mustQuote literal.toList = true
      ∨ Header.Untagged literal.toList ∧ ∀ c cs, literal.toList ≠ '\\' :: c :: cs := by
  have hne : literal.toList ≠ [] := fun hnil => hne (String.toList_eq_nil_iff.1 hnil)
  cases hquote : mustQuote literal.toList with
  | true => exact ⟨fun _ => .inl rfl, fun _ => readsBack_of_mustQuote hne hline hquote⟩
  | false =>
      rw [ReadsBack, parse_ofText_of_bare hline hquote]
      constructor
      · rintro ⟨f, hread, -, hcolor, -, hchars⟩
        cases hsaid : readSection literal.toList with
        | error e =>
            rw [hsaid] at hread
            cases hread
        | ok said =>
            rw [hsaid] at hread
            cases hread
            exact .inr (untagged_of_readSection hsaid hcolor hchars)
      · rintro (htrue | ⟨huntagged, hescape⟩)
        · cases htrue
        · rw [readSection_bare hquote hne huntagged hescape]
          refine ⟨_, rfl, rfl, rfl, fun part hpart => ?_, ?_⟩
          · rw [List.mem_singleton.1 hpart]
            rfl
          · simp [Part.chars]

/-- A text in quotes with a mark of its own, a bare one with a currency tag, and one that is refused where it is read
for the condition that it looks like. -/
theorem readsBack_iff_units : ReadsBack "kg;\"net\"" ∧ ReadsBack "[$-409]" ∧ ¬ReadsBack "[>a]b" := by
  have hcurrency : Header.Untagged "[$-409]".toList := Part.untagged_dollar "-409]".toList
  refine ⟨?_, ?_, fun hback => ?_⟩
  · exact (readsBack_iff (by decide) (by decide)).2 (.inl (by decide +kernel))
  · exact (readsBack_iff (by decide) (by decide)).2 (.inr ⟨hcurrency, nofun⟩)
  · rcases (readsBack_iff (by decide) (by decide)).1 hback with hquote | ⟨huntagged, -⟩
    · exact absurd hquote (by decide +kernel)
    · have hhead := (huntagged ">a".toList ['b'] (by decide)).2 '>' rfl
      cases hhead

/-- A text that looks like a colour is read as the colour, and the backslash of an escape is lost. Neither is written in
quotes. -/
theorem not_readsBack :
    ("[Red]" ≠ "" ∧ '\n' ∉ "[Red]".toList ∧ ¬ReadsBack "[Red]")
      ∧ "\\a" ≠ "" ∧ '\n' ∉ "\\a".toList ∧ ¬ReadsBack "\\a" := by
  have hcolor : parse (ofText "[Red]").toCode = .ok ⟨⟨[], some .red⟩, []⟩ := by decide +kernel
  have hescape : parse (ofText "\\a").toCode = .ok ⟨⟨[.text "a"], none⟩, []⟩ := by decide +kernel
  refine ⟨⟨by decide, by decide, ?_⟩, by decide, by decide, ?_⟩
  · rintro ⟨f, hread, -, hnone, -⟩
    rw [hcolor] at hread
    cases hread
    cases hnone
  · rintro ⟨f, hread, -, -, -, hchars⟩
    rw [hescape] at hread
    cases hread
    exact absurd hchars (by decide)

end Format

end CellFormat
