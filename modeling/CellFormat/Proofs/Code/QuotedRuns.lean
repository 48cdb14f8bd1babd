import CellFormat.Proofs.Code.Regeneration
/-!
# Quoted runs and digits

The scanner that cuts a code takes a quote mark for the start of a quoted run wherever it stands, the reader of
tokens only where a token begins: to a literal run a quote mark is a character like others, and a placeholder ends the
run in quotes as well. From there on the two disagree, and a placeholder in quotes is read as a digit. This is the only
way that they come to disagree, so quotes protect the placeholders of a code just if none of its literal runs ends in
quotes that are closed later on.
-/

namespace CellFormat

/-! ### Where tokens stand in a code -/

/-- A token of a code, with what is in front of it in the code and what is behind it. -/
structure LocatedToken where
  before : List Char
  token : Token
  behind : List Char
deriving DecidableEq

/-- The tokens where they stand, with `before` in front of them all and `behind` behind them. -/
def locate (before behind : List Char) : List Token → List LocatedToken
  | [] => []
  | token :: tokens =>
    ⟨before, token, tokens.flatMap Token.source ++ behind⟩ :: locate (before ++ token.source) behind tokens

/-- The tokens behind the tags of each section, with `before` in front of the sections. A section whose tags are
refused is left out. -/
def locateAll (before : List Char) : (texts : List (List Char)) → List (List LocatedToken)
  | [] => []
  | text :: others =>
    let rest := locateAll (before ++ text ++ [';']) others
    match readHeader text with
    | .ok header =>
      let tags := text.take (text.length - header.body.length)
      locate (before ++ tags) (others.flatMap (';' :: ·)) (Token.tokens header.body) :: rest
    | .error _ => rest

def locatedTokens (code : List Char) : List (List LocatedToken) := locateAll [] (sectionTexts code)

/-! ### What is in quotes -/

/-- Whether a quoted run is open behind `before` that is closed in `behind`. -/
def InClosedRun (before behind : List Char) : Prop := ∃ mark ∈ behind, Scan.run .plain before = .quoted mark

-- By the marks in `behind`, and not by all characters.
instance (before behind : List Char) : Decidable (InClosedRun before behind) :=
  List.decidableBEx (fun mark => Scan.run .plain before = .quoted mark) behind

/-- Whether the character `c` between `before` and `behind` is strictly inside a closed quoted run. -/
def IsQuoted (before : List Char) (c : Char) (behind : List Char) : Prop :=
  ∃ mark ∈ behind, Scan.run .plain before = .quoted mark ∧ c ≠ mark

instance (before : List Char) (c : Char) (behind : List Char) : Decidable (IsQuoted before c behind) :=
  List.decidableBEx (fun mark => Scan.run .plain before = .quoted mark ∧ c ≠ mark) behind

/-- Whether no character that is strictly inside a closed quoted run is read as part of a number. -/
def QuotesProtect (tokens : List LocatedToken) : Prop :=
  ∀ located ∈ tokens, ∀ number, located.token.toPart = .ok (.number number) →
    ∀ left c right, located.token.source = left ++ c :: right →
      ¬IsQuoted (located.before ++ left) c (right ++ located.behind)

/-- Whether no literal run ends inside a closed quoted run. -/
def LiteralsClose (tokens : List LocatedToken) : Prop :=
  ∀ located ∈ tokens, located.token.isLiteral = true →
    ¬InClosedRun (located.before ++ located.token.source) located.behind

instance : DecidablePred LiteralsClose := fun tokens =>
  inferInstanceAs (Decidable (∀ located ∈ tokens, located.token.isLiteral = true →
    ¬InClosedRun (located.before ++ located.token.source) located.behind))

variable {before behind code left right rest text cs : List Char} {c : Char} {token : Token}
  {tokens : List Token} {texts : List (List Char)} {located : LocatedToken} {placed : List LocatedToken} {f : Format}

/-! ### Tokens stand where they are -/

theorem map_token_locate (before behind : List Char) (tokens : List Token) :
    (locate before behind tokens).map LocatedToken.token = tokens := by
  induction tokens generalizing before with
  | nil => rfl
  | cons token tokens ih => rw [locate, List.map_cons, ih]

theorem mem_of_mem_locate (h : located ∈ locate before behind tokens) : located.token ∈ tokens := by
  rw [← map_token_locate before behind tokens]
  exact List.mem_map_of_mem h

theorem append_of_mem_locate (h : located ∈ locate before behind tokens) :
    located.before ++ located.token.source ++ located.behind = before ++ tokens.flatMap Token.source ++ behind := by
  induction tokens generalizing before with
  | nil => cases h
  | cons token tokens ih =>
      rcases List.mem_cons.1 h with rfl | h
      · simp
      · rw [ih h]
        simp

theorem joinSections_eq_append (text : List Char) (others : List (List Char)) :
    joinSections (text :: others) = text ++ others.flatMap (';' :: ·) := by
  induction others generalizing text with
  | nil => simp [joinSections]
  | cons next others ih =>
      rw [joinSections_cons text (List.cons_ne_nil _ _), ih, List.flatMap_cons, List.cons_append]

/-- Behind a section there is nothing, or the section has closed what it opened. -/
theorem not_inClosedRun_flatMap {others : List (List Char)} (hbefore : Scan.run .plain before = .plain)
    (hclosed : ∀ t ∈ (text :: others).dropLast, Scan.run .plain t = .plain) :
    ¬InClosedRun (before ++ text) (others.flatMap (';' :: ·)) := by
  rintro ⟨mark, hmark, hrun⟩
  cases others with
  | nil => cases hmark
  | cons next others =>
      rw [Scan.run_append, hbefore, hclosed text List.mem_cons_self] at hrun
      cases hrun

/-- The text behind the tags of one of the sections, between `ahead` and `behind`. It begins outside quotes, and what
is behind it closes no quotes of it. -/
structure IsBody (before : List Char) (texts : List (List Char)) (ahead body behind : List Char) : Prop where
  read : ∃ text ∈ texts, ∃ header, readHeader text = .ok header ∧ header.body = body
  whole : ahead ++ body ++ behind = before ++ joinSections texts
  plain : Scan.run .plain ahead = .plain
  closed : ¬InClosedRun (ahead ++ body) behind

theorem IsBody.cons {text next ahead body behind : List Char} {others : List (List Char)}
    (h : IsBody (before ++ text ++ [';']) (next :: others) ahead body behind) :
    IsBody before (text :: next :: others) ahead body behind := by
  obtain ⟨t, ht, hheader⟩ := h.read
  refine ⟨⟨t, List.mem_cons_of_mem _ ht, hheader⟩, ?_, h.plain, h.closed⟩
  rw [h.whole, joinSections_cons text (List.cons_ne_nil _ _)]
  simp

theorem isBody_of_readHeader {header : Header} {tags : List Char} {others : List (List Char)}
    (hheader : readHeader text = .ok header) (htext : text = tags ++ header.body)
    (htags : ∀ c ∈ tags, Scan.isNeutral c = true) (hbefore : Scan.run .plain before = .plain)
    (hclosed : ∀ t ∈ (text :: others).dropLast, Scan.run .plain t = .plain) :
    IsBody before (text :: others) (before ++ tags) header.body (others.flatMap (';' :: ·)) := by
  refine ⟨⟨text, List.mem_cons_self, header, hheader, rfl⟩, ?_, ?_, ?_⟩
  · rw [joinSections_eq_append, List.append_assoc before tags, ← htext, List.append_assoc]
  · rw [Scan.run_append, hbefore, Scan.run_plain_of_isNeutral htags]
  · rw [List.append_assoc, ← htext]
    exact not_inClosedRun_flatMap hbefore hclosed

theorem exists_isBody_of_mem_locateAll (hbefore : Scan.run .plain before = .plain)
    (hclosed : ∀ text ∈ texts.dropLast, Scan.run .plain text = .plain) (h : placed ∈ locateAll before texts) :
    ∃ ahead body behind, IsBody before texts ahead body behind ∧ placed = locate ahead behind (Token.tokens body) := by
  induction texts generalizing before with
  | nil => cases h
  | cons text others ih =>
      have hothers : placed ∈ locateAll (before ++ text ++ [';']) others →
          ∃ ahead body behind, IsBody before (text :: others) ahead body behind
            ∧ placed = locate ahead behind (Token.tokens body) := by
        intro h
        cases others with
        | nil => cases h
        | cons next others =>
            have hnext : Scan.run .plain (before ++ text ++ [';']) = .plain := by
              rw [Scan.run_append, Scan.run_append, hbefore, hclosed text List.mem_cons_self]
              rfl
            obtain ⟨ahead, body, behind, hbody, hplaced⟩ :=
              ih hnext (fun t ht => hclosed t (List.mem_cons_of_mem _ ht)) h
            exact ⟨ahead, body, behind, hbody.cons, hplaced⟩
      unfold locateAll at h
      cases hheader : readHeader text with
      | error e =>
          rw [hheader] at h
          exact hothers h
      | ok header =>
          rw [hheader] at h
          rcases List.mem_cons.1 h with hplaced | h
          · obtain ⟨-, tags, hspells, htext⟩ := readHeader_eq_ok_iff.1 hheader
            have htags := isNeutral_of_spells hspells
            have htake : text.take (text.length - header.body.length) = tags := by
              simp [htext]
            rw [htake] at hplaced
            exact ⟨before ++ tags, header.body, _, isBody_of_readHeader hheader htext htags hbefore hclosed, hplaced⟩
          · exact hothers h

theorem exists_isBody (h : placed ∈ locatedTokens code) :
    ∃ ahead body behind, IsBody [] (sectionTexts code) ahead body behind
      ∧ placed = locate ahead behind (Token.tokens body) :=
  exists_isBody_of_mem_locateAll rfl (fun _ htext => run_of_mem_dropLast htext) h

/-- The code is each of its tokens with what is in front of it and what is behind it. -/
theorem append_of_mem_locatedTokens (h : placed ∈ locatedTokens code) :
    ∀ located ∈ placed, located.before ++ located.token.source ++ located.behind = code := by
  obtain ⟨ahead, body, behind, hbody, rfl⟩ := exists_isBody h
  intro located hmem
  rw [append_of_mem_locate hmem, Token.flatMap_source_tokens, hbody.whole, joinSections_sectionTexts,
    List.nil_append]

/-! ### Placeholders in quotes -/

/-- A character of a run of placeholders is in quotes if the run is. -/
theorem isQuoted_iff (hleft : ∀ x ∈ left, DigitBlock.isPlaceholder x = true) (hc : DigitBlock.isPlaceholder c = true) :
    IsQuoted (before ++ left) c behind ↔ InClosedRun before (left ++ c :: behind) := by
  have hneutral : ∀ x ∈ left, Scan.isNeutral x = true := fun x hx => Token.isNeutral_of_isPlaceholder (hleft x hx)
  constructor
  · rintro ⟨mark, hmem, hrun, -⟩
    have hmark := Scan.isNeutral_of_run_plain hrun
    rw [Scan.run_append, Scan.run_eq_quoted_iff _ hneutral hmark] at hrun
    exact ⟨mark, List.mem_append_right _ (List.mem_cons_of_mem _ hmem), hrun⟩
  · rintro ⟨mark, hmem, hrun⟩
    have hmark := Scan.isNeutral_of_run_plain hrun
    have hne : ∀ x, Scan.isNeutral x = true → mark ≠ x := by
      rintro x hx rfl
      rw [hmark] at hx
      cases hx
    have hmem : mark ∈ behind := by
      rcases List.mem_append.1 hmem with hmem | hmem
      · exact absurd rfl (hne mark (hneutral mark hmem))
      · exact List.mem_of_ne_of_mem (hne c (Token.isNeutral_of_isPlaceholder hc)) hmem
    refine ⟨mark, hmem, ?_, (hne c (Token.isNeutral_of_isPlaceholder hc)).symm⟩
    rw [Scan.run_append, Scan.run_eq_quoted_iff _ hneutral hmark, hrun]

/-! ### Tokens in a row -/

/-- Whether the scanner stands outside quotes and escapes between `before` and `behind`, or in quotes that are not
closed any more. -/
def Settled (before behind : List Char) : Prop :=
  Scan.run .plain before = .plain ∨ ∃ mark, Scan.run .plain before = .quoted mark ∧ mark ∉ behind

theorem Settled.not_inClosedRun (h : Settled before behind) : ¬InClosedRun before behind := by
  rintro ⟨mark, hmem, hrun⟩
  rcases h with hplain | ⟨mark', hquoted, hmark⟩
  · rw [hplain] at hrun
    cases hrun
  · rw [hquoted] at hrun
    cases hrun
    exact hmark hmem

/-- What a token does to the scanner, unless it is a literal run that ends in quotes. -/
theorem Settled.next (h : Settled before (c :: cs ++ behind)) (hnext : Token.next c cs = (token, rest))
    (hrest : rest ≠ [])
    (hliteral : token.isLiteral = true → ¬InClosedRun (before ++ token.source) (rest ++ behind)) :
    Settled (before ++ token.source) (rest ++ behind) := by
  have hsource := Token.source_append_of_next hnext
  unfold Settled
  rw [Scan.run_append]
  rcases h with hplain | ⟨mark, hquoted, hmem⟩
  · rw [hplain]
    rcases Token.run_source_of_next hnext with hrun | ⟨hkind, hinstep | hend⟩
    · exact .inl hrun
    · have hopen := hliteral hkind
      cases hstate : Scan.run .plain token.source with
      | plain => exact .inl rfl
      | escaped =>
          rw [hstate] at hinstep
          cases hinstep
      | quoted mark =>
          refine .inr ⟨mark, rfl, fun hmem => hopen ⟨mark, hmem, ?_⟩⟩
          rw [Scan.run_append, hplain, hstate]
    · exact absurd hend hrest
  · rw [← hsource, List.append_assoc, List.mem_append, not_or] at hmem
    exact .inr ⟨mark, by rw [hquoted, Scan.run_quoted hmem.1], hmem.2⟩

/-- If no literal run ends in quotes, every token begins outside quotes that are closed. -/
theorem settled_of_mem_locate (h : Settled before (text ++ behind))
    (hclose : LiteralsClose (locate before behind (Token.tokens text))) :
    ∀ located ∈ locate before behind (Token.tokens text),
      Settled located.before (located.token.source ++ located.behind) := by
  induction text using Token.tokens.induct generalizing before with
  | case1 =>
      rw [Token.tokens]
      intro located hmem
      cases hmem
  | case2 c cs ih =>
      cases hnext : Token.next c cs with
      | mk token rest =>
          rw [hnext] at ih
          rw [Token.tokens_of_next hnext] at hclose ⊢
          have htoken := hclose _ List.mem_cons_self
          rw [Token.flatMap_source_tokens] at htoken
          intro located hmem
          rcases List.mem_cons.1 hmem with rfl | hmem
          · rwa [Token.flatMap_source_tokens, ← List.append_assoc, Token.source_append_of_next hnext]
          · have hrest : rest ≠ [] := by
              rintro rfl
              rw [Token.tokens] at hmem
              cases hmem
            exact ih (h.next hnext hrest htoken) (fun other hother => hclose other (List.mem_cons_of_mem _ hother))
              located hmem

/-- A literal run that ends in quotes is followed by placeholders in these quotes. -/
theorem exists_digits_of_literal (hclosed : ¬InClosedRun (before ++ text) behind)
    (hmem : located ∈ locate before behind (Token.tokens text)) (hliteral : located.token.isLiteral = true)
    (hopen : InClosedRun (located.before ++ located.token.source) located.behind) :
    ∃ other ∈ locate before behind (Token.tokens text), other.token.isDigits = true
      ∧ InClosedRun other.before (other.token.source ++ other.behind) := by
  induction text using Token.tokens.induct generalizing before with
  | case1 =>
      rw [Token.tokens] at hmem
      cases hmem
  | case2 c cs ih =>
      cases hnext : Token.next c cs with
      | mk token rest =>
          rw [hnext] at ih
          rw [Token.tokens_of_next hnext] at hmem ⊢
          rw [← Token.source_append_of_next hnext, ← List.append_assoc] at hclosed
          rcases List.mem_cons.1 hmem with rfl | hmem
          · have hstops := Token.stops_of_isLiteral hnext hliteral
            rw [Token.flatMap_source_tokens] at hopen
            cases rest with
            | nil => exact absurd hopen (by simpa using hclosed)
            | cons x xs =>
                have hx : DigitBlock.isPlaceholder x = true := by simpa using hstops x rfl
                rw [Token.tokens]
                refine ⟨_, List.mem_cons_of_mem _ List.mem_cons_self, ?_, ?_⟩
                · rw [Token.isDigits_next, hx]
                · have hsource : (Token.next x xs).1.source ++ (Token.next x xs).2 = x :: xs :=
                    Token.source_append_of_next rfl
                  rwa [Token.flatMap_source_tokens, ← List.append_assoc, hsource]
          · obtain ⟨other, hother, hdigits⟩ := ih hclosed hmem
            exact ⟨other, List.mem_cons_of_mem _ hother, hdigits⟩

/-! ### Codes that are read -/

namespace Format

theorem exists_number_of_isDigits {options : ParseOptions} (hstrict : options.strict = true)
    (h : ofChars options code = .ok f) (hplaced : placed ∈ locatedTokens code) (hmem : located ∈ placed)
    (hdigits : located.token.isDigits = true) : ∃ number, located.token.toPart = .ok (.number number) := by
  obtain ⟨ahead, body, behind, hbody, rfl⟩ := exists_isBody hplaced
  obtain ⟨text, htext, header, hheader, rfl⟩ := hbody.read
  obtain ⟨-, s, hread⟩ := exists_readSection_of_ofChars hstrict h text htext
  obtain ⟨header', hheader', hrest⟩ := bind_eq_ok_iff.1 hread
  cases hheader.symm.trans hheader'
  obtain ⟨parts, hparts, -⟩ := bind_eq_ok_iff.1 hrest
  obtain ⟨part, hpart⟩ := exists_of_mapM_eq_ok hparts _ (mem_of_mem_locate hmem)
  have hnumber := isNumber_of_toPart hpart
  rw [hdigits] at hnumber
  cases part with
  | number number => exact ⟨number, hpart⟩
  | text literal => cases hnumber

/-- In a code that is read, quotes protect the placeholders of a section just if no literal run of the section ends in
quotes that are closed later on. -/
theorem quotesProtect_iff {table : Condition.Table} (h : ofChars { strict := true, table } code = .ok f) :
    ∀ placed ∈ locatedTokens code, QuotesProtect placed ↔ LiteralsClose placed := by
  intro placed hplaced
  obtain ⟨ahead, body, behind, hbody, hlocate⟩ := exists_isBody hplaced
  constructor
  · intro hprotect located hmem hliteral hopen
    rw [hlocate] at hmem
    obtain ⟨other, hother, hdigits, hquoted⟩ := exists_digits_of_literal hbody.closed hmem hliteral hopen
    obtain ⟨c, block, htoken, hblock⟩ := Token.exists_digits_of_mem_tokens (mem_of_mem_locate hother) hdigits
    rw [← hlocate] at hother
    obtain ⟨number, hnumber⟩ := exists_number_of_isDigits rfl h hplaced hother hdigits
    have hsource : other.token.source = [] ++ c :: block := by
      rw [htoken]
      rfl
    refine hprotect other hother number hnumber [] c block hsource ?_
    rw [hsource, List.nil_append] at hquoted
    exact (isQuoted_iff (List.forall_mem_nil _) (hblock c List.mem_cons_self)).2 hquoted
  · intro hclose located hmem number hnumber left c right hsource hquoted
    rw [hlocate] at hclose hmem
    have hsettled := settled_of_mem_locate (.inl hbody.plain) hclose located hmem
    obtain ⟨x, block, htoken, hblock⟩ :=
      Token.exists_digits_of_mem_tokens (mem_of_mem_locate hmem) (isNumber_of_toPart hnumber).symm
    rw [htoken, Token.source] at hsource
    rw [hsource] at hblock
    have hleft : ∀ y ∈ left, DigitBlock.isPlaceholder y = true := fun y hy => hblock y (List.mem_append_left _ hy)
    have hc : DigitBlock.isPlaceholder c = true := hblock c (List.mem_append_right _ List.mem_cons_self)
    refine hsettled.not_inClosedRun ?_
    rw [htoken, Token.source, hsource, List.append_assoc, List.cons_append]
    exact (isQuoted_iff hleft hc).1 hquoted

/-- A code with placeholders in quotes, and quotes in a literal run that closes them. -/
theorem quotesProtect_closedLiteral :
    (∀ placed ∈ locatedTokens "\"#;0\"x\"y\"0".toList, LiteralsClose placed)
      ∧ ∀ placed ∈ locatedTokens "\"#;0\"x\"y\"0".toList, QuotesProtect placed := by
  have hread : ofChars { strict := true, table := .standard } "\"#;0\"x\"y\"0".toList
      = .ok ⟨⟨[.text "#;0", .text "x\"y\"", .number .integer], none⟩, []⟩ := by
    decide +kernel
  have hclose : ∀ placed ∈ locatedTokens "\"#;0\"x\"y\"0".toList, LiteralsClose placed := by
    decide +kernel
  exact ⟨hclose, fun placed hplaced => (quotesProtect_iff hread placed hplaced).2 (hclose placed hplaced)⟩

/-- A literal run that ends in quotes. -/
theorem not_quotesProtect :
    ofChars {} "a\"0\"".toList = .ok ⟨⟨[.text "a\"", .number .integer, .text "\""], none⟩, []⟩
      ∧ ¬∀ placed ∈ locatedTokens "a\"0\"".toList, QuotesProtect placed := by
  refine ⟨by decide +kernel, fun hprotect => ?_⟩
  have htokens : locatedTokens "a\"0\"".toList = [[⟨[], .literal ['a', '"'], ['0', '"']⟩,
      ⟨['a', '"'], .digits ['0'], ['"']⟩, ⟨['a', '"', '0'], .literal ['"'], []⟩]] := by
    decide +kernel
  rw [htokens] at hprotect
  exact hprotect _ List.mem_cons_self ⟨['a', '"'], .digits ['0'], ['"']⟩ (by simp) .integer (by decide +kernel) []
    '0' [] rfl (by decide)

end Format

end CellFormat
