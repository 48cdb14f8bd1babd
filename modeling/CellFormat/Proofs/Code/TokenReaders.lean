import CellFormat.Proofs.Code.Regeneration
/-!
# Four readers in turn

Each kind of token has a reader of its own, which takes a token off the front of a text or leaves the text alone. The
readers are asked in turn, and a text that none of them takes would be refused. There is no such text: where the
first three leave a text alone, its first character is literal. So the only thing that can be wrong with the text
of a section is a run of placeholders that is no digit block, and what is read of a text is all of it.
-/

namespace CellFormat.Token

variable {c : Char} {cs text rest : List Char} {token : Token}

/-! ### The readers -/

def digits? (text : List Char) : Option (Token × List Char) :=
  match text.takeWhile DigitBlock.isPlaceholder with
  | [] => none
  | block => some (digits block, text.dropWhile DigitBlock.isPlaceholder)

def quoted? : List Char → Option (Token × List Char)
  | [] => none
  | c :: cs =>
    if c = '"' ∨ c = '\'' then (splitAtFirst c cs).map fun (body, behind) => (quoted c body, behind) else none

def escaped? : List Char → Option (Token × List Char)
  | '\\' :: c :: behind => some (escaped c, behind)
  | _ => none

def literal? (text : List Char) : Option (Token × List Char) :=
  match literalRun text with
  | ([], _) => none
  | (run, behind) => some (literal run, behind)

/-- The token that the first reader that takes one takes off a text, and the text behind it. -/
def first? (text : List Char) : Option (Token × List Char) :=
  digits? text <|> quoted? text <|> escaped? text <|> literal? text

theorem literal?_cons (hc : DigitBlock.isPlaceholder c = false) (hescaped : escaped? (c :: cs) = none) :
    literal? (c :: cs) = some (literal (c :: (literalRun cs).1), (literalRun cs).2) := by
  by_cases hbackslash : c = '\\'
  · subst hbackslash
    cases cs with
    | nil => rfl
    | cons x xs => cases hescaped
  · simp only [literal?, literalRun_cons hbackslash, hc, Bool.false_eq_true, if_false]

theorem quoted?_cons (c : Char) (cs : List Char) :
    quoted? (c :: cs) = (if c = '"' ∨ c = '\'' then splitAtFirst c cs else none).map fun (body, behind) =>
      (quoted c body, behind) := by
  rw [quoted?]
  split <;> rfl

theorem first?_cons (c : Char) (cs : List Char) : first? (c :: cs) = some (next c cs) := by
  unfold next
  by_cases hc : DigitBlock.isPlaceholder c = true
  · simp [first?, digits?, hc]
  · have hdigits : digits? (c :: cs) = none := by
      simp [digits?, hc]
    rw [if_neg hc, first?, hdigits, quoted?_cons]
    generalize (if c = '"' ∨ c = '\'' then splitAtFirst c cs else none) = inQuotes
    cases inQuotes with
    | some groups => rfl
    | none =>
      dsimp only
      split
      · rfl
      · next hne =>
        have hescaped : escaped? (c :: cs) = none := by
          unfold escaped?
          split
          · next x behind heq => exact (hne x behind (List.cons.inj heq).1 (List.cons.inj heq).2).elim
          · rfl
        rw [hescaped, literal?_cons (Bool.eq_false_iff.2 hc) hescaped]
        rfl

theorem length_lt_of_first? (h : first? text = some (token, rest)) : rest.length < text.length := by
  cases text with
  | nil => cases h
  | cons c cs =>
      have hlength := length_next_le c cs
      rw [first?_cons, Option.some.injEq] at h
      rw [h] at hlength
      exact Nat.lt_succ_of_le hlength

/-! ### Reading a text token by token -/

/-- What ends the reading of a text: no reader takes a token off what is left of it, or the token is not right. -/
inductive Failure where
  | unknownToken (start : List Char)
  | refused (reason : FormatError)

/-- The parts of a text, of which the readers take one token after the other. -/
def partsInTurn : List Char → Except Failure (List Part)
  | [] => .ok []
  | c :: cs =>
    match _ : first? (c :: cs) with
    | none => .error (.unknownToken ((c :: cs).take 5))
    | some (token, behind) => do
      let part ← token.toPart.mapError .refused
      let parts ← partsInTurn behind
      .ok (part :: parts)
termination_by text => text.length
decreasing_by exact length_lt_of_first? ‹_›

/-- The readers in turn read what is read of the tokens, and are never at a loss. -/
theorem partsInTurn_eq (text : List Char) : partsInTurn text = (readParts text).mapError .refused := by
  induction text using tokens.induct with
  | case1 =>
      rw [readParts, tokens, partsInTurn]
      rfl
  | case2 c cs ih =>
      rw [readParts] at ih
      rw [readParts, tokens, partsInTurn, List.mapM_cons]
      split
      · next hnone =>
        rw [first?_cons] at hnone
        cases hnone
      · next token behind hsome =>
        rw [first?_cons, Option.some.injEq] at hsome
        rw [hsome] at ih ⊢
        dsimp only at ih ⊢
        rw [ih]
        cases token.toPart with
        | error e => rfl
        | ok part => cases (tokens behind).mapM toPart <;> rfl

/-! ### Where the tokens are cut -/

/-- What is left of a text behind some of its tokens begins with the token that comes next. -/
theorem exists_next_of_tokens {ahead behind : List Token} (h : tokens text = ahead ++ token :: behind) :
    ∃ c cs, next c cs = (token, behind.flatMap source) := by
  induction text using tokens.induct generalizing ahead with
  | case1 =>
      rw [tokens] at h
      simp at h
  | case2 c cs ih =>
      rw [tokens] at h
      cases ahead with
      | nil =>
          obtain ⟨rfl, rfl⟩ := List.cons.inj h
          exact ⟨c, cs, by rw [flatMap_source_tokens]⟩
      | cons first ahead => exact ih (List.cons.inj h).2

theorem source_ne_nil (h : token ∈ tokens text) : token.source ≠ [] := by
  obtain ⟨ahead, behind, htokens⟩ := List.append_of_mem h
  obtain ⟨c, cs, hnext⟩ := exists_next_of_tokens htokens
  obtain ⟨block, rfl, -⟩ | ⟨body, rfl, -⟩ | ⟨x, rfl, -⟩ | ⟨rfl, -⟩ := next_cases hnext <;> exact List.cons_ne_nil _ _

theorem isDigits_of_next (h : next c cs = (token, rest)) : token.isDigits = DigitBlock.isPlaceholder c := by
  rw [← isDigits_next c cs, h]

theorem isDigits_of_tokens {ahead behind : List Token} (h : tokens text = ahead ++ token :: behind) :
    ∃ x ∈ ((token :: behind).flatMap source).head?, token.isDigits = DigitBlock.isPlaceholder x := by
  obtain ⟨x, xs, hnext⟩ := exists_next_of_tokens h
  refine ⟨x, ?_, isDigits_of_next hnext⟩
  rw [List.flatMap_cons, source_append_of_next hnext]
  rfl

theorem getLast?_cons_of_getLast? {x y : Char} {before : List Char} (h : before.getLast? = some y) :
    (x :: before).getLast? = some y := by
  cases before with
  | nil => cases h
  | cons z before => rwa [List.getLast?_cons_cons]

/-- A literal run takes a placeholder in only behind a backslash. -/
theorem getLast?_of_literalRun {before behind : List Char} (h : (literalRun cs).1 = before ++ c :: behind)
    (hc : DigitBlock.isPlaceholder c = true) : before.getLast? = some '\\' := by
  induction cs using literalRun.induct generalizing before with
  | case1 => simp [literalRun] at h
  | case2 x cs run rest hrun ih =>
      rw [literalRun] at h
      obtain _ | ⟨first, _ | ⟨second, before⟩⟩ := before
      · rw [← (List.cons.inj h).1] at hc
        cases hc
      · rw [← (List.cons.inj h).1]
        rfl
      · exact getLast?_cons_of_getLast? (getLast?_cons_of_getLast? (ih (List.cons.inj (List.cons.inj h).2).2))
  | case3 x cs hne hplaceholder =>
      rw [literalRun, if_pos hplaceholder] at h
      · simp at h
      · exact hne
  | case4 x cs hne hplaceholder run rest hrun ih =>
      rw [literalRun, if_neg hplaceholder] at h
      · cases before with
        | nil =>
            rw [(List.cons.inj h).1] at hplaceholder
            exact absurd hc hplaceholder
        | cons first before => exact getLast?_cons_of_getLast? (ih (List.cons.inj h).2)
      · exact hne

/-- Where a run of placeholders begins, a placeholder in front of it is behind a backslash. -/
theorem getLast?_of_isDigits {ahead behind : List Token} (h : tokens text = ahead ++ token :: behind)
    (hdigits : token.isDigits = true) {front : List Char} (hahead : ahead.flatMap source = front ++ [c])
    (hc : DigitBlock.isPlaceholder c = true) : front.getLast? = some '\\' := by
  obtain rfl | ⟨ahead, last, rfl⟩ := List.eq_nil_or_concat ahead
  · simp at hahead
  rw [List.concat_eq_append, List.append_assoc, List.singleton_append] at h
  obtain ⟨x, xs, hnext⟩ := exists_next_of_tokens h
  obtain hnil | ⟨init, d, hinit⟩ := List.eq_nil_or_concat last.source
  · exact absurd hnil (source_ne_nil (h ▸ List.mem_append_right _ List.mem_cons_self))
  rw [List.concat_eq_append] at hinit
  simp only [List.concat_eq_append, List.flatMap_append, List.flatMap_singleton, hinit, ← List.append_assoc] at hahead
  obtain ⟨hfront, hd⟩ := List.append_inj' hahead rfl
  cases hd
  suffices hlast : init.getLast? = some '\\' by
    rw [← hfront, List.getLast?_append, hlast, Option.some_or]
  obtain ⟨block, rfl, -⟩ | ⟨body, rfl, hmark, -⟩ | ⟨y, rfl, -⟩ | ⟨rfl, -⟩ := next_cases hnext
  · -- Two runs of placeholders side by side are one.
    have hx : DigitBlock.isPlaceholder x = true := (isDigits_of_next hnext).symm
    have hstops := stops_next hx xs
    rw [hnext] at hstops
    have hnext : tokens text = (ahead ++ [digits (x :: block)]) ++ token :: behind := by simpa using h
    obtain ⟨y, hy, hplaceholder⟩ := isDigits_of_tokens hnext
    rw [hdigits, hstops y hy] at hplaceholder
    cases hplaceholder
  · have hclose : x = c := List.cons.inj (List.append_inj' hinit rfl).2 |>.1
    rw [← hclose] at hc
    rcases hmark with rfl | rfl <;> cases hc
  · have hpair : ['\\'] ++ [y] = init ++ [c] := hinit
    rw [← (List.append_inj' hpair rfl).1]
    rfl
  · cases init with
    | nil =>
        have hx : DigitBlock.isPlaceholder x = false := (isDigits_of_next hnext).symm
        rw [← (List.cons.inj hinit).1, hx] at hc
        cases hc
    | cons first init => exact getLast?_cons_of_getLast? (getLast?_of_literalRun (List.cons.inj hinit).2 hc)

/-- Whether a token stands between others where its reader cuts it off. A run of placeholders is as long as it can be:
there is no placeholder behind it, and one in front of it stands behind a backslash. A literal run goes on to a run of
placeholders, or to the end. -/
def IsCut (ahead : List Token) (token : Token) (behind : List Token) : Prop :=
  match token with
  | digits block => block ≠ [] ∧ (∀ c ∈ block, DigitBlock.isPlaceholder c = true)
    ∧ Stops DigitBlock.isPlaceholder (behind.flatMap source)
    ∧ ∀ front c, ahead.flatMap source = front ++ [c] → DigitBlock.isPlaceholder c = true → front.getLast? = some '\\'
  | quoted mark body => (mark = '"' ∨ mark = '\'') ∧ mark ∉ body
  | escaped _ => True
  | literal run => run ≠ [] ∧ literalRun (run ++ behind.flatMap source) = (run, behind.flatMap source)
    ∧ ∀ token ∈ behind.head?, token.isDigits = true

theorem isCut_of_tokens {ahead behind : List Token} (h : tokens text = ahead ++ token :: behind) :
    IsCut ahead token behind := by
  obtain ⟨c, cs, hnext⟩ := exists_next_of_tokens h
  have hsource := source_append_of_next hnext
  have hdigits := isDigits_of_next hnext
  obtain ⟨block, rfl, hblock, -⟩ | ⟨body, rfl, hmark, hmem, -⟩ | ⟨x, rfl, -⟩ | ⟨rfl, hbehind, hend⟩ := next_cases hnext
  · have hstops := stops_next hdigits.symm cs
    rw [hnext] at hstops
    exact ⟨List.cons_ne_nil _ _, hblock, hstops, fun front d hahead hd => getLast?_of_isDigits h rfl hahead hd⟩
  · exact ⟨hmark, hmem⟩
  · trivial
  · refine ⟨List.cons_ne_nil _ _, ?_, fun follower hfollower => ?_⟩
    · rw [source] at hsource
      rw [hsource, hbehind]
      by_cases hc : c = '\\'
      · rw [hend hc, hc]
        rfl
      · rw [literalRun_cons hc, ← hdigits]
        rfl
    · cases behind with
      | nil => cases hfollower
      | cons first behind =>
          cases hfollower
          have hnext : tokens text = (ahead ++ [literal (c :: (literalRun cs).1)]) ++ follower :: behind := by
            simpa using h
          obtain ⟨x, hx, hplaceholder⟩ := isDigits_of_tokens hnext
          have hstops := stops_literalRun cs x (by rwa [← hbehind])
          rw [hplaceholder]
          simpa using hstops

/-! ### The parts -/

theorem read_of_toPart {e : FormatError} (h : token.toPart = .error e) :
    ∃ block, token = digits block ∧ DigitBlock.read block = .error e ∧ e = .unexpectedBlock (.ofList block) := by
  cases token with
  | digits block =>
      rcases bind_eq_error_iff.1 h with hread | ⟨read, -, hok⟩
      · refine ⟨block, rfl, hread, ?_⟩
        unfold DigitBlock.read at hread
        split at hread <;> cases hread
        rfl
      · cases hok
  | _ => cases h

/-- A text is read to its end, or refused for a run of placeholders. There is a reader for whatever comes next, so a
text fails only with the first of its runs of placeholders that is no digit block. The tokens are the text, none of
them is empty, and each is cut off where its reader has it. The parts are those of the tokens one by one, and no two
numbers stand side by side. -/
theorem readParts_consumes (text : List Char) :
    partsInTurn text = (readParts text).mapError .refused
      ∧ (∀ e, readParts text = .error e → ∃ ahead block behind, tokens text = ahead ++ digits block :: behind
        ∧ (∀ token ∈ ahead, ∃ part, token.toPart = .ok part)
        ∧ DigitBlock.read block = .error e ∧ e = .unexpectedBlock (.ofList block))
      ∧ (tokens text).flatMap source = text
      ∧ (∀ token ∈ tokens text, token.source ≠ [])
      ∧ (∀ ahead token behind, tokens text = ahead ++ token :: behind → IsCut ahead token behind)
      ∧ ∀ parts, readParts text = .ok parts →
        List.Forall₂ (fun token part => token.toPart = .ok part) (tokens text) parts
          ∧ parts.IsChain fun left right => ¬(left.isNumber = true ∧ right.isNumber = true) := by
  refine ⟨partsInTurn_eq text, fun e h => ?_, flatMap_source_tokens text, fun token h => source_ne_nil h,
    fun ahead token behind h => isCut_of_tokens h, fun parts h => ⟨forall₂_of_mapM h, isChain_of_readParts h⟩⟩
  obtain ⟨ahead, token, behind, htokens, hahead, herror⟩ := exists_of_mapM_eq_error h
  obtain ⟨block, rfl, hread, he⟩ := read_of_toPart herror
  exact ⟨ahead, block, behind, htokens, hahead, hread, he⟩

/-- A text with a token of each kind, and one whose second run of placeholders is no block. -/
theorem readParts_consumes_mixed :
    (partsInTurn "'a'\\00_\\#\"0".toList).toOption
        = some [.text "a", .text "0", .number .integer, .text "_\\#\"", .number .integer]
      ∧ partsInTurn "0 .0.".toList = .error (.refused (.unexpectedBlock ".0.")) := by
  constructor
  · rw [(readParts_consumes _).1]
    decide +kernel
  · have hread : readParts "0 .0.".toList = .error (.unexpectedBlock ".0.") := by decide +kernel
    rw [(readParts_consumes _).1, hread]
    rfl

end CellFormat.Token
