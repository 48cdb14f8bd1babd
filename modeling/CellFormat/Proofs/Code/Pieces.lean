import CellFormat.Proofs.Code.ConditionTags
import CellFormat.Proofs.Code.Token
import CellFormat.Proofs.DigitBlock
/-!
# The pieces of a written section

A written section is put together from tags, digit blocks and literal texts. Each of them closes the quotes
and escapes that it opens, so it can be looked at on its own by every reader: no cut is in it, no line feed,
and no condition tag but the one that was meant. What the text of a part is read as is told by `Part.reread`.
-/

namespace CellFormat

/-! ### Closed pieces -/

/-- Whether a text is part of one section and leaves the scanner where it began. -/
structure IsPiece (text : List Char) : Prop where
  uncut : Uncut .plain text
  run : Scan.run .plain text = .plain
  one_line : '\n' ∉ text

variable {text rest : List Char}

theorem IsPiece.nil : IsPiece [] := ⟨rfl, rfl, List.not_mem_nil⟩

theorem IsPiece.append {left right : List Char} (hleft : IsPiece left) (hright : IsPiece right) :
    IsPiece (left ++ right) where
  uncut := (uncut_append_iff hleft.uncut).2 (hleft.run.symm ▸ hright.uncut)
  run := by rw [Scan.run_append, hleft.run, hright.run]
  one_line := by simp [hleft.one_line, hright.one_line]

theorem IsPiece.flatMap {α : Type} {write : α → List Char} {xs : List α} (h : ∀ x ∈ xs, IsPiece (write x)) :
    IsPiece (xs.flatMap write) := by
  induction xs with
  | nil => exact .nil
  | cons x xs ih =>
      rw [List.flatMap_cons]
      exact (h x List.mem_cons_self).append (ih fun y hy => h y (List.mem_cons_of_mem _ hy))

theorem isPiece_of_neutral (h : ∀ c ∈ text, Scan.isNeutral c = true) (hcut : ';' ∉ text) (hline : '\n' ∉ text) :
    IsPiece text := ⟨uncut_of_not_mem _ hcut, Scan.run_plain_of_isNeutral h, hline⟩

theorem silent_flatMap {α : Type} {write : α → List Char} {xs : List α}
    (h : ∀ x ∈ xs, IsPiece (write x) ∧ Silent .plain (write x)) : Silent .plain (xs.flatMap write) := by
  induction xs with
  | nil => exact silent_nil _
  | cons x xs ih =>
      obtain ⟨hpiece, hsilent⟩ := h x List.mem_cons_self
      rw [List.flatMap_cons]
      refine hsilent.append ?_
      rw [hpiece.run]
      exact ih fun y hy => h y (List.mem_cons_of_mem _ hy)

/-! ### Tags -/

theorem isPiece_tag {content : List Char} (h : ∀ c ∈ content, Scan.isNeutral c = true) (hcut : ';' ∉ content)
    (hline : '\n' ∉ content) : IsPiece ('[' :: content ++ [']']) := by
  refine isPiece_of_neutral (isNeutral_of_mem_tag h) ?_ ?_
  · simpa using hcut
  · simpa using hline

theorem isPiece_colorTag {color : Color} (h : color.Nameable) : IsPiece color.writeTag := by
  have hname := Color.isAlphanum_of_ofName? (Color.ofName?_name h)
  refine isPiece_tag (fun c hc => isNeutral_of_isAlphanum (hname c hc)) ?_ ?_
  · exact fun hmem => ne_of_isAlphanum (hname _ hmem) (by decide) rfl
  · exact fun hmem => ne_of_isAlphanum (hname _ hmem) (by decide) rfl

theorem silent_colorTag {color : Color} (h : color.Nameable) : Silent .plain color.writeTag := by
  have hname := Color.isAlphanum_of_ofName? (Color.ofName?_name h)
  refine Silent.bracket (fun rest => ?_) (silent_of_not_mem _ fun hmem => ?_)
  · intro c hc
    cases hchars : color.name.toList with
    | nil =>
        rw [hchars] at hc
        cases hc
        rfl
    | cons x xs =>
        rw [hchars] at hc
        cases hc
        exact stops_of_ofName? (Color.ofName?_name h) c (by rw [hchars]; rfl)
  · rcases List.mem_append.1 hmem with hmem | hmem
    · exact ne_of_isAlphanum (hname _ hmem) (by decide) rfl
    · cases List.mem_singleton.1 hmem

theorem isPiece_conditionTag {condition : Condition} (h : condition.comparator ≠ .isText) :
    IsPiece condition.writeTag := by
  obtain ⟨content, hcontent, htag⟩ := condition.writeTag_eq h
  obtain ⟨symbol, hsymbol, rfl⟩ := Condition.write?_eq_some hcontent
  have hcomparator := isComparatorChar_of_mem_symbol hsymbol
  rw [htag]
  refine isPiece_tag (isNeutral_of_readCondition (readCondition_write hcontent)) (fun hmem => ?_) fun hmem => ?_
  · rcases List.mem_append.1 hmem with hmem | hmem
    · cases hcomparator _ hmem
    · cases isNumberChar_of_mem_writeNumber hmem
  · rcases List.mem_append.1 hmem with hmem | hmem
    · cases hcomparator _ hmem
    · cases isNumberChar_of_mem_writeNumber hmem

/-! ### Digit blocks -/

theorem isPiece_block (block : DigitBlock) : IsPiece block.write := by
  refine isPiece_of_neutral (fun c hc => ?_) (fun hmem => ?_) fun hmem => ?_
  · exact Token.isNeutral_of_isPlaceholder (block.isPlaceholder_of_mem_write hc)
  · cases block.isPlaceholder_of_mem_write hmem
  · cases block.isPlaceholder_of_mem_write hmem

theorem silent_block (block : DigitBlock) : Silent .plain block.write :=
  silent_of_not_mem _ fun hmem => nomatch block.isPlaceholder_of_mem_write hmem

/-! ### Quoted texts -/

theorem splitQuotes_cons_mark (cs : List Char) :
    splitQuotes ('"' :: cs) = ([], (splitQuotes cs).1 :: (splitQuotes cs).2) := by
  simp [splitQuotes]

theorem splitQuotes_cons {c : Char} (hc : c ≠ '"') (cs : List Char) :
    splitQuotes (c :: cs) = (c :: (splitQuotes cs).1, (splitQuotes cs).2) := by
  simp [splitQuotes, hc]

theorem splitQuotes_not_mem (cs : List Char) :
    '"' ∉ (splitQuotes cs).1 ∧ ∀ run ∈ (splitQuotes cs).2, '"' ∉ run := by
  induction cs with
  | nil => exact ⟨List.not_mem_nil, nofun⟩
  | cons c cs ih =>
      by_cases hc : c = '"'
      · rw [hc, splitQuotes_cons_mark]
        refine ⟨List.not_mem_nil, fun run hrun => ?_⟩
        rcases List.mem_cons.1 hrun with rfl | hrun
        · exact ih.1
        · exact ih.2 run hrun
      · rw [splitQuotes_cons hc]
        refine ⟨fun hmem => ?_, ih.2⟩
        rcases List.mem_cons.1 hmem with heq | hmem
        · exact hc heq.symm
        · exact ih.1 hmem

theorem splitQuotes_flatten (cs : List Char) :
    (splitQuotes cs).1 ++ (splitQuotes cs).2.flatMap ('"' :: ·) = cs := by
  induction cs with
  | nil => rfl
  | cons c cs ih =>
      by_cases hc : c = '"'
      · rw [hc, splitQuotes_cons_mark]
        simpa using ih
      · rw [splitQuotes_cons hc, List.cons_append, ih]

theorem splitQuotes_of_not_mem {cs : List Char} (h : '"' ∉ cs) : splitQuotes cs = (cs, []) := by
  induction cs with
  | nil => rfl
  | cons c cs ih =>
      have hc : c ≠ '"' := fun heq => h (heq ▸ List.mem_cons_self)
      rw [splitQuotes_cons hc, ih fun hmem => h (List.mem_cons_of_mem _ hmem)]

theorem quoteRun_of_ne_nil (hne : text ≠ []) : quoteRun text = '"' :: text ++ ['"'] := by
  cases text with
  | nil => exact absurd rfl hne
  | cons c cs => rfl

theorem isPiece_quoteRun (hrun : '"' ∉ text) (hline : '\n' ∉ text) : IsPiece (quoteRun text) := by
  by_cases hne : text = []
  · rw [hne]
    exact .nil
  · have hopen : Scan.step .plain '"' = .quoted '"' := by decide
    have hclose : Scan.step (.quoted '"') '"' = .plain := by decide
    have huncut : Uncut (.quoted '"') (text ++ ['"']) := by
      refine (uncut_append_iff (uncut_quoted hrun)).2 (uncut_of_not_mem _ ?_)
      decide
    rw [quoteRun_of_ne_nil hne]
    exact {
      uncut := uncut_cons_iff.2 ⟨fun h => (nomatch h.2), by rwa [hopen]⟩
      run := by
        rw [List.cons_append, Scan.run_cons, hopen, Scan.run_append, Scan.run_quoted hrun, Scan.run_cons, hclose]
        rfl
      one_line := by simpa using hline }

theorem silent_quoteRun (hrun : '"' ∉ text) : Silent .plain (quoteRun text) := by
  by_cases hne : text = []
  · rw [hne]
    exact silent_nil _
  · have hopen : Scan.step .plain '"' = .quoted '"' := by decide
    rw [quoteRun_of_ne_nil hne]
    refine .cons (.inr (by decide)) ?_
    rw [hopen]
    exact (silent_quoted hrun).append (silent_of_not_mem _ (by decide))

theorem isPiece_escapedMark : IsPiece ['\\', '"'] := ⟨rfl, rfl, by decide⟩

theorem quote_eq (cs : List Char) :
    quote cs = quoteRun (splitQuotes cs).1
      ++ (splitQuotes cs).2.flatMap fun run => ['\\', '"'] ++ quoteRun run := rfl

theorem head_quote (hne : text ≠ []) : ∃ c cs, quote text = c :: cs ∧ (c = '"' ∨ c = '\\') := by
  obtain ⟨c, cs, rfl⟩ := List.exists_cons_of_ne_nil hne
  by_cases hc : c = '"'
  · rw [hc, quote_eq, splitQuotes_cons_mark]
    exact ⟨'\\', _, rfl, .inr rfl⟩
  · rw [quote_eq, splitQuotes_cons hc]
    exact ⟨'"', _, rfl, .inl rfl⟩

theorem not_mem_of_mem_splitQuotes {c : Char} (h : c ∉ text) :
    c ∉ (splitQuotes text).1 ∧ ∀ run ∈ (splitQuotes text).2, c ∉ run := by
  rw [← splitQuotes_flatten text] at h
  simp only [List.mem_append, List.mem_flatMap, List.mem_cons, not_or, not_exists, not_and] at h
  exact ⟨h.1, fun run hrun => (h.2 run hrun).2⟩

theorem isPiece_quote (hline : '\n' ∉ text) : IsPiece (quote text) := by
  obtain ⟨hfirst, hothers⟩ := splitQuotes_not_mem text
  obtain ⟨hfirstLine, hothersLine⟩ := not_mem_of_mem_splitQuotes hline
  rw [quote_eq]
  refine (isPiece_quoteRun hfirst hfirstLine).append (.flatMap fun run hrun => ?_)
  exact isPiece_escapedMark.append (isPiece_quoteRun (hothers run hrun) (hothersLine run hrun))

theorem silent_quote (hline : '\n' ∉ text) : Silent .plain (quote text) := by
  obtain ⟨hfirst, hothers⟩ := splitQuotes_not_mem text
  obtain ⟨hfirstLine, hothersLine⟩ := not_mem_of_mem_splitQuotes hline
  rw [quote_eq]
  refine (silent_quoteRun hfirst).append ?_
  rw [(isPiece_quoteRun hfirst hfirstLine).run]
  refine silent_flatMap fun run hrun => ⟨?_, ?_⟩
  · exact isPiece_escapedMark.append (isPiece_quoteRun (hothers run hrun) (hothersLine run hrun))
  · exact (silent_of_not_mem _ (by decide)).append (silent_quoteRun (hothers run hrun))

/-! ### What pieces are read as -/

/-- Whether the readers take a text in front of `rest` as these parts. -/
def ReadsAs (text : List Char) (parts : List Part) (rest : List Char) : Prop :=
  readParts (text ++ rest) = (readParts rest).map (parts ++ ·)

theorem readsAs_nil (rest : List Char) : ReadsAs [] [] rest := by
  change readParts rest = _
  cases readParts rest <;> rfl

theorem ReadsAs.append {left right : List Char} {leftParts rightParts : List Part}
    (hleft : ReadsAs left leftParts (right ++ rest)) (hright : ReadsAs right rightParts rest) :
    ReadsAs (left ++ right) (leftParts ++ rightParts) rest := by
  unfold ReadsAs at hleft hright ⊢
  rw [List.append_assoc, hleft, hright]
  cases readParts rest <;> simp [Except.map]

theorem readsAs_of_tokens {token : Token} {part : Part}
    (htokens : Token.tokens (text ++ rest) = token :: Token.tokens rest) (hpart : token.toPart = .ok part) :
    ReadsAs text [part] rest := by
  unfold ReadsAs readParts
  rw [htokens, List.mapM_cons, hpart]
  change (Token.tokens rest).mapM Token.toPart >>= _ = _
  cases (Token.tokens rest).mapM Token.toPart <;> rfl

theorem readsAs_flatMap {α : Type} {write : α → List Char} {parts : α → List Part} {xs : List α}
    (h : ∀ x ∈ xs, ∀ rest, ReadsAs (write x) (parts x) rest) (rest : List Char) :
    ReadsAs (xs.flatMap write) (xs.flatMap parts) rest := by
  induction xs with
  | nil => exact readsAs_nil rest
  | cons x xs ih =>
      rw [List.flatMap_cons, List.flatMap_cons]
      exact (h x List.mem_cons_self _).append (ih fun y hy => h y (List.mem_cons_of_mem _ hy))

theorem readsAs_block (block : DigitBlock) (hrest : Stops DigitBlock.isPlaceholder rest) :
    ReadsAs block.write [.number block.normal] rest := by
  refine readsAs_of_tokens
    (Token.tokens_digits block.write_ne_nil (fun c hc => block.isPlaceholder_of_mem_write hc) hrest) ?_
  rw [Token.toPart, block.read_write]
  rfl

/-- The parts that a quoted run is read as: one, or none if it is empty. -/
def runParts (run : List Char) : List Part := if run.isEmpty then [] else [.text (.ofList run)]

theorem readsAs_quoteRun (hrun : '"' ∉ text) (rest : List Char) : ReadsAs (quoteRun text) (runParts text) rest := by
  cases text with
  | nil => exact readsAs_nil rest
  | cons c cs =>
      have hpart : Token.toPart (.quoted '"' (c :: cs)) = .ok (.text (.ofList (c :: cs))) := rfl
      refine readsAs_of_tokens ?_ hpart
      have happend : quoteRun (c :: cs) ++ rest = '"' :: (c :: cs) ++ '"' :: rest := by
        simp [quoteRun]
      rw [happend]
      exact Token.tokens_quoted hrun rest

/-- The parts that a quoted text is read as: its runs between the double quote marks, and a part for each
mark. -/
def quotedParts (text : List Char) : List Part :=
  runParts (splitQuotes text).1 ++ (splitQuotes text).2.flatMap fun run => .text "\"" :: runParts run

theorem readsAs_quote (text rest : List Char) : ReadsAs (quote text) (quotedParts text) rest := by
  obtain ⟨hfirst, hothers⟩ := splitQuotes_not_mem text
  have hmark : ∀ rest, ReadsAs ['\\', '"'] [.text "\""] rest := fun rest =>
    readsAs_of_tokens (Token.tokens_escaped '"' rest) rfl
  rw [quote_eq]
  exact (readsAs_quoteRun hfirst _).append
    (readsAs_flatMap (fun run hrun rest => (hmark _).append (readsAs_quoteRun (hothers run hrun) rest)) rest)

/-! ### Bare texts -/

/-- Whether a text that is not quoted is read as it stands: it does not begin with a backslash, its brackets
are no tags, and it closes the quotes and escapes that it opens. -/
structure IsBare (text : List Char) : Prop where
  head : text.head? ≠ some '\\'
  bracket : ∀ before behind, text = before ++ '[' :: behind → behind.head? = some '$'
  run : Scan.run .plain text = .plain

theorem not_reserved_of_bare (h : mustQuote text = false) : ∀ c ∈ text, isReserved c = false := by
  simp only [mustQuote, Bool.or_eq_false_iff, List.any_eq_false] at h
  exact fun c hc => Bool.eq_false_iff.2 (h.1.1 c hc)

theorem not_placeholder_of_bare (h : mustQuote text = false) : ∀ c ∈ text, DigitBlock.isPlaceholder c = false := by
  intro c hc
  have hreserved := not_reserved_of_bare h c hc
  rw [isReserved, Bool.or_eq_false_iff] at hreserved
  exact hreserved.1

theorem isPiece_bare (hquote : mustQuote text = false) (hbare : IsBare text) (hline : '\n' ∉ text) :
    IsPiece text where
  uncut := uncut_of_not_mem _ fun hmem => nomatch not_reserved_of_bare hquote _ hmem
  run := hbare.run
  one_line := hline

theorem silent_of_bracket (state : Scan)
    (h : ∀ before behind, text = before ++ '[' :: behind → behind.head? = some '$') : Silent state text := by
  induction text generalizing state with
  | nil => exact silent_nil state
  | cons c text ih =>
      have htext : ∀ state, Silent state text := fun state =>
        ih state fun before behind heq => h (c :: before) behind (by rw [heq]; rfl)
      by_cases hc : c = '['
      · have hhead := h [] text (by rw [hc]; rfl)
        rw [hc]
        refine .bracket (fun rest x hx => ?_) (htext _)
        cases text with
        | nil => cases hhead
        | cons y ys =>
            cases hhead
            cases hx
            rfl
      · exact .cons (.inr hc) (htext _)

theorem head_of_bare (hquote : mustQuote text = false) {c : Char} (hc : c ∈ text.head?) : ¬(c = '"' ∨ c = '\'') := by
  simp only [mustQuote, Bool.or_eq_false_iff] at hquote
  have hmark := hquote.1.2
  rw [hc] at hmark
  simpa [isQuoteMark] using hmark

theorem readsAs_bare (hne : text ≠ []) (hquote : mustQuote text = false) (hbare : IsBare text)
    (hrest : Stops (fun c => !DigitBlock.isPlaceholder c) rest) : ReadsAs text [.text (.ofList text)] rest := by
  cases text with
  | nil => exact absurd rfl hne
  | cons c cs =>
      have hpart : Token.toPart (.literal (c :: cs)) = .ok (.text (.ofList (c :: cs))) := rfl
      have hbackslash : c ≠ '\\' := fun heq => hbare.head (congrArg some heq)
      exact readsAs_of_tokens (Token.tokens_literal (head_of_bare hquote rfl) hbackslash hbare.run
        (not_placeholder_of_bare hquote) hrest) hpart

end CellFormat
