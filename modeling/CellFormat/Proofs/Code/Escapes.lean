import CellFormat.Proofs.Code.QuotedRuns
/-!
# Escapes and digits

The scanner that cuts a code pairs the backslashes outside quotes with what is behind them, the reader of tokens those
that a token begins with and those in a literal run, whatever quotes are open there. The two come to disagree about
quotes, but never about a pair: wherever a token begins and wherever a literal run takes up its next character, the
scanner is not behind a backslash. A run of placeholders begins there and has no backslash in it, so none of its
characters is escaped.
-/

namespace CellFormat

/-! ### Pairs stay in step -/

namespace Token

variable {state : Scan} {c : Char} {cs text rest : List Char} {token : Token}

theorem inStep_step_of_ne (h : InStep state ∨ state = .escaped) (hc : c ≠ '\\') : InStep (state.step c) := by
  rcases h with h | rfl
  · exact h.step hc
  · trivial

theorem inStep_or_escaped_step (h : InStep state ∨ state = .escaped) (c : Char) :
    InStep (state.step c) ∨ state.step c = .escaped := by
  by_cases hc : c = '\\'
  · subst hc
    cases state with
    | plain => exact .inr rfl
    | escaped => exact .inl trivial
    | quoted mark =>
        have hmark : mark ≠ '\\' := h.resolve_right nofun
        rw [Scan.step, if_neg hmark.symm]
        exact .inl hmark
  · exact .inl (inStep_step_of_ne h hc)

/-- No run of the scanner ends at a backslash. -/
theorem inStep_or_escaped_run (h : InStep state ∨ state = .escaped) (text : List Char) :
    InStep (state.run text) ∨ state.run text = .escaped := by
  induction text generalizing state with
  | nil => exact h
  | cons c text ih => exact ih (inStep_or_escaped_step h c)

theorem InStep.run_of_ne (h : InStep state) (htext : ∀ c ∈ text, c ≠ '\\') : InStep (state.run text) := by
  induction text generalizing state with
  | nil => exact h
  | cons c text ih => exact ih (h.step (htext c List.mem_cons_self)) fun x hx => htext x (List.mem_cons_of_mem _ hx)

theorem InStep.run_placeholders (h : InStep state) (htext : ∀ c ∈ text, DigitBlock.isPlaceholder c = true) :
    InStep (state.run text) := by
  refine h.run_of_ne fun c hc => ?_
  rintro rfl
  cases htext _ hc

/-- Where a token ends, the scanner is not behind a backslash, if it was not where the token began. -/
theorem InStep.next (h : InStep state) (hnext : next c cs = (token, rest)) :
    InStep (state.run token.source) ∨ rest = [] := by
  obtain ⟨block, rfl, hblock, -⟩ | ⟨body, rfl, hmark, -⟩ | ⟨x, rfl, -⟩ | ⟨rfl, rfl, hend⟩ := next_cases hnext
  · exact .inl (h.run_placeholders hblock)
  · have hc : c ≠ '\\' := by
      rintro rfl
      revert hmark
      decide
    rw [source, Scan.run_append]
    exact .inl (inStep_step_of_ne (inStep_or_escaped_run (.inl h) (c :: body)) hc)
  · exact .inl (h.step_backslash x)
  · by_cases hc : c = '\\'
    · rw [hend hc]
      exact .inr rfl
    · exact (h.step hc).run_literalRun cs

end Token

variable {before behind code left right rest text : List Char} {c : Char} {tokens : List Token}
  {texts : List (List Char)} {located : LocatedToken} {placed : List LocatedToken}

theorem inStep_of_mem_locate (h : Token.InStep (Scan.run .plain before))
    (hmem : located ∈ locate before behind (Token.tokens text)) :
    Token.InStep (Scan.run .plain located.before) := by
  induction text using Token.tokens.induct generalizing before with
  | case1 =>
      rw [Token.tokens] at hmem
      cases hmem
  | case2 c cs ih =>
      cases hnext : Token.next c cs with
      | mk token rest =>
          rw [hnext] at ih
          rw [Token.tokens_of_next hnext] at hmem
          rcases List.mem_cons.1 hmem with rfl | hmem
          · exact h
          · rcases h.next hnext with hstep | rfl
            · rw [← Scan.run_append] at hstep
              exact ih hstep hmem
            · rw [Token.tokens] at hmem
              cases hmem

/-! ### The token that a character is in -/

/-- Whether the character `c` between `before` and `behind` is one of the token. -/
def LocatedToken.Holds (located : LocatedToken) (before : List Char) (c : Char) (behind : List Char) : Prop :=
  ∃ left right, before = located.before ++ left ∧ located.token.source = left ++ c :: right
    ∧ behind = right ++ located.behind

theorem append_eq_append_cons {xs ys : List Char} (h : xs ++ ys = left ++ c :: right) :
    (∃ front, left = xs ++ front ∧ ys = front ++ c :: right) ∨ ∃ back, xs = left ++ c :: back ∧ right = back ++ ys := by
  rcases List.append_eq_append_iff.1 h with hsecond | ⟨back, hxs, hback⟩
  · exact .inl hsecond
  · rcases List.cons_eq_append_iff.1 hback with ⟨rfl, hys⟩ | ⟨back, rfl, hright⟩
    · exact .inl ⟨[], by rw [hxs, List.append_nil, List.append_nil], hys⟩
    · exact .inr ⟨back, hxs, hright⟩

theorem exists_holds_of_locate (before behind : List Char) (h : tokens.flatMap Token.source = left ++ c :: right) :
    ∃ located ∈ locate before behind tokens, located.Holds (before ++ left) c (right ++ behind) := by
  induction tokens generalizing before left with
  | nil => simp at h
  | cons token tokens ih =>
      rw [List.flatMap_cons] at h
      rcases append_eq_append_cons h with ⟨front, rfl, hfront⟩ | ⟨back, hsource, rfl⟩
      · obtain ⟨located, hmem, hholds⟩ := ih (before ++ token.source) hfront
        rw [List.append_assoc] at hholds
        exact ⟨located, List.mem_cons_of_mem _ hmem, hholds⟩
      · exact ⟨_, List.mem_cons_self, left, back, rfl, hsource, List.append_assoc ..⟩

/-- The tags in front of a section are neutral, so an escaped character is behind them. -/
theorem exists_holds_of_readHeader (before behind : List Char) {header : Header} (hread : readHeader text = .ok header)
    (htext : text = left ++ c :: right) (hescaped : Scan.run .plain left = .escaped) :
    ∃ located ∈ locate (before ++ text.take (text.length - header.body.length)) behind (Token.tokens header.body),
      located.Holds (before ++ left) c (right ++ behind) := by
  obtain ⟨-, tags, hspells, happend⟩ := readHeader_eq_ok_iff.1 hread
  have htake : text.take (text.length - header.body.length) = tags := by
    simp [happend]
  rw [htake]
  rcases append_eq_append_cons (happend.symm.trans htext) with ⟨front, rfl, hfront⟩ | ⟨back, htags, -⟩
  · rw [← List.append_assoc]
    exact exists_holds_of_locate _ behind (by rw [Token.flatMap_source_tokens, hfront])
  · have hneutral : ∀ x ∈ left, Scan.isNeutral x = true := fun x hx =>
      isNeutral_of_spells hspells x (htags ▸ List.mem_append_left _ hx)
    rw [Scan.run_plain_of_isNeutral hneutral] at hescaped
    cases hescaped

/-- An escaped character of a code is in a token, if the tags of the sections are right. It is not the semicolon
behind a section, in front of which the scanner is outside quotes and escapes. -/
theorem exists_holds_of_locateAll (before : List Char) (hread : ∀ text ∈ texts, ∃ header, readHeader text = .ok header)
    (hclosed : ∀ text ∈ texts.dropLast, Scan.run .plain text = .plain)
    (hjoin : joinSections texts = left ++ c :: right) (hescaped : Scan.run .plain left = .escaped) :
    ∃ placed ∈ locateAll before texts, ∃ located ∈ placed, located.Holds (before ++ left) c right := by
  induction texts generalizing before left with
  | nil => simp [joinSections] at hjoin
  | cons text others ih =>
      obtain ⟨header, hheader⟩ := hread text List.mem_cons_self
      rw [joinSections_eq_append] at hjoin
      rw [locateAll, hheader]
      rcases append_eq_append_cons hjoin with ⟨front, rfl, hfront⟩ | ⟨back, htext, rfl⟩
      · cases others with
        | nil => simp at hfront
        | cons next others =>
            -- In front of the semicolon the scanner is where it began, so the others are a code of their own.
            have hplain : Scan.run .plain text = .plain := hclosed text List.mem_cons_self
            rw [Scan.run_append, hplain] at hescaped
            rw [List.flatMap_cons, List.cons_append] at hfront
            rcases List.cons_eq_append_iff.1 hfront with ⟨rfl, -⟩ | ⟨front, rfl, hrest⟩
            · cases hescaped
            · rw [← joinSections_eq_append] at hrest
              obtain ⟨placed, hmem, located, hlocated, hholds⟩ := ih (before ++ text ++ [';'])
                (fun t ht => hread t (List.mem_cons_of_mem _ ht)) (fun t ht => hclosed t (List.mem_cons_of_mem _ ht))
                hrest hescaped
              refine ⟨placed, List.mem_cons_of_mem _ hmem, located, hlocated, ?_⟩
              simpa using hholds
      · exact ⟨_, List.mem_cons_self, exists_holds_of_readHeader before _ hheader htext hescaped⟩

/-! ### Escaped characters -/

theorem isDigits_of_holds (hplain : Scan.run .plain before = .plain)
    (hmem : located ∈ locate before behind (Token.tokens text)) (hholds : located.Holds left c right)
    (hescaped : Scan.run .plain left = .escaped) : located.token.isDigits = false := by
  refine Bool.eq_false_iff.2 fun hdigits => ?_
  obtain ⟨front, back, rfl, hsource, -⟩ := hholds
  obtain ⟨x, block, htoken, hblock⟩ := Token.exists_digits_of_mem_tokens (mem_of_mem_locate hmem) hdigits
  rw [htoken, Token.source] at hsource
  have hstart : Token.InStep (Scan.run .plain located.before) := by
    refine inStep_of_mem_locate ?_ hmem
    rw [hplain]
    trivial
  have hstep := hstart.run_placeholders fun y hy => hblock y (hsource ▸ List.mem_append_left _ hy)
  rw [← Scan.run_append, hescaped] at hstep
  exact hstep

theorem exists_text_of_not_isDigits {token : Token} (h : token.isDigits = false) :
    ∃ literal, token.toPart = .ok (.text literal) := by
  cases token with
  | digits block => cases h
  | quoted mark body => exact ⟨_, rfl⟩
  | escaped c => exact ⟨_, rfl⟩
  | literal run => exact ⟨_, rfl⟩

/-- A character of a code that is escaped for the scanner is read as part of a text, never of a number, in whichever
section it is, and where the tags of all sections are right it is in a token of its section. Each section text is a
code of its own. -/
theorem escapes_protect (code before behind : List Char) (c : Char) (hcode : code = before ++ c :: behind)
    (hescaped : Scan.run .plain before = .escaped) :
    (∀ placed ∈ locatedTokens code, ∀ located ∈ placed, located.Holds before c behind →
        ∃ literal, located.token.toPart = .ok (.text literal))
      ∧ ((∀ text ∈ sectionTexts code, ∃ header, readHeader text = .ok header) →
        ∃ placed ∈ locatedTokens code, ∃ located ∈ placed, located.Holds before c behind) := by
  constructor
  · intro placed hplaced located hmem hholds
    obtain ⟨ahead, body, rest, hbody, rfl⟩ := exists_isBody hplaced
    exact exists_text_of_not_isDigits (isDigits_of_holds hbody.plain hmem hholds hescaped)
  · intro hread
    have hjoin : joinSections (sectionTexts code) = before ++ c :: behind := by
      rw [joinSections_sectionTexts, hcode]
    exact exists_holds_of_locateAll [] hread (fun _ htext => run_of_mem_dropLast htext) hjoin hescaped

/-- A code of two sections, in the second of which the readers have the escape in quotes and the digits outside, and
the scanner the other way round. -/
theorem escapes_protect_among_quotes :
    "[Red]0;a\"0\"\\#\"0".toList = "[Red]0;a\"0\"\\".toList ++ '#' :: "\"0".toList
      ∧ Scan.run .plain "[Red]0;a\"0\"\\".toList = .escaped
      ∧ ∃ placed ∈ locatedTokens "[Red]0;a\"0\"\\#\"0".toList, ∃ located ∈ placed,
        located.Holds "[Red]0;a\"0\"\\".toList '#' "\"0".toList
          ∧ ∃ literal, located.token.toPart = .ok (.text literal) := by
  have hescaped : Scan.run .plain "[Red]0;a\"0\"\\".toList = .escaped := by decide
  have hread : ∀ text ∈ sectionTexts "[Red]0;a\"0\"\\#\"0".toList, ∃ header, readHeader text = .ok header := by
    have htexts : sectionTexts "[Red]0;a\"0\"\\#\"0".toList = ["[Red]0".toList, "a\"0\"\\#\"0".toList] := by
      decide
    rw [htexts]
    refine List.forall_mem_cons.2 ⟨⟨⟨some .red, none, ['0']⟩, by decide +kernel⟩, List.forall_mem_singleton.2 ?_⟩
    exact ⟨⟨none, none, "a\"0\"\\#\"0".toList⟩, by decide +kernel⟩
  obtain ⟨htext, hholds⟩ := escapes_protect "[Red]0;a\"0\"\\#\"0".toList "[Red]0;a\"0\"\\".toList "\"0".toList '#'
    (by decide) hescaped
  obtain ⟨placed, hplaced, located, hmem, hlocated⟩ := hholds hread
  exact ⟨by decide, hescaped, placed, hplaced, located, hmem, hlocated, htext placed hplaced located hmem hlocated⟩

end CellFormat
