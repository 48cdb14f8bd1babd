import CellFormat.Code.Token
import CellFormat.Proofs.Code.Splitting
import CellFormat.Proofs.Text.Cut
import Mathlib.Data.List.Chain
/-!
# Tokens of written pieces

A piece of a written section is the same tokens whatever piece comes behind it. Only two pieces look at what
comes next: placeholders go on with placeholders, and a literal text goes on with all else. In a literal text
a backslash takes the next character along, also in quotes, where the scanner for cuts takes no notice of it.
The two stay in step all the same, since the scanner is never behind a backslash where the literal run is not.
-/

namespace CellFormat.Token

theorem tokens_of_next {c : Char} {cs rest : List Char} {token : Token} (h : next c cs = (token, rest)) :
    tokens (c :: cs) = token :: tokens rest := by
  rw [tokens, h]

/-! ### Placeholders -/

theorem isNeutral_of_isPlaceholder {c : Char} (hc : DigitBlock.isPlaceholder c = true) :
    Scan.isNeutral c = true := by
  simp only [DigitBlock.isPlaceholder, Bool.or_eq_true, beq_iff_eq] at hc
  rcases hc with ((rfl | rfl) | rfl) | rfl <;> decide

variable {text rest : List Char}

theorem tokens_digits (hne : text ≠ []) (htext : ∀ c ∈ text, DigitBlock.isPlaceholder c = true)
    (hrest : Stops DigitBlock.isPlaceholder rest) : tokens (text ++ rest) = digits text :: tokens rest := by
  cases text with
  | nil => exact absurd rfl hne
  | cons c cs =>
      have hcs : ∀ x ∈ cs, DigitBlock.isPlaceholder x = true := fun x hx => htext x (List.mem_cons_of_mem _ hx)
      rw [List.cons_append]
      refine tokens_of_next ?_
      unfold next
      rw [if_pos (htext c List.mem_cons_self), takeWhile_append_of_stops hcs hrest,
        dropWhile_append_of_stops hcs hrest]

/-! ### Quotes and escapes -/

theorem tokens_quoted (htext : '"' ∉ text) (rest : List Char) :
    tokens ('"' :: text ++ '"' :: rest) = quoted '"' text :: tokens rest := by
  refine tokens_of_next ?_
  have hmark : DigitBlock.isPlaceholder '"' = false := by decide
  simp [next, hmark, splitAtFirst_append htext]

theorem tokens_escaped (c : Char) (rest : List Char) :
    tokens ('\\' :: c :: rest) = escaped c :: tokens rest := by
  refine tokens_of_next ?_
  have hmark : DigitBlock.isPlaceholder '\\' = false := by decide
  simp [next, hmark]

/-! ### Literal runs -/

/-- Whether the scanner can be in this state where a literal run takes up its next character. -/
def InStep : Scan → Prop
  | .plain => True
  | .escaped => False
  | .quoted mark => mark ≠ '\\'

theorem InStep.step {state : Scan} {c : Char} (h : InStep state) (hc : c ≠ '\\') : InStep (state.step c) := by
  cases state with
  | plain =>
      simp only [Scan.step, hc, if_false]
      split
      · exact hc
      · trivial
  | escaped => cases h
  | quoted mark =>
      simp only [Scan.step]
      split
      · trivial
      · exact h

theorem InStep.step_backslash {state : Scan} (h : InStep state) (c : Char) :
    InStep ((state.step '\\').step c) := by
  cases state with
  | plain => trivial
  | escaped => cases h
  | quoted mark =>
      have hne : '\\' ≠ mark := Ne.symm h
      simp only [Scan.step, hne, if_false]
      split
      · trivial
      · exact h

theorem InStep.step_backslash_ne {state : Scan} (h : InStep state) : state.step '\\' ≠ .plain := by
  cases state with
  | plain => decide
  | escaped => cases h
  | quoted mark =>
      have hne : '\\' ≠ mark := Ne.symm h
      simp [Scan.step, hne]

theorem literalRun_cons {c : Char} (hc : c ≠ '\\') (cs : List Char) :
    literalRun (c :: cs) = if DigitBlock.isPlaceholder c then ([], c :: cs)
      else (c :: (literalRun cs).1, (literalRun cs).2) := by
  rw [literalRun]
  exact fun _ _ heq => absurd heq hc

theorem literalRun_of_stops (hrest : Stops (fun c => !DigitBlock.isPlaceholder c) rest) :
    literalRun rest = ([], rest) := by
  cases rest with
  | nil => rfl
  | cons c cs =>
      have hplaceholder : DigitBlock.isPlaceholder c = true := by
        simpa using hrest c rfl
      have hc : c ≠ '\\' := by
        rintro rfl
        cases hplaceholder
      rw [literalRun_cons hc, if_pos hplaceholder]

theorem append_literalRun (cs : List Char) : (literalRun cs).1 ++ (literalRun cs).2 = cs := by
  fun_induction literalRun cs <;> simp_all

theorem stops_literalRun (cs : List Char) : Stops (fun c => !DigitBlock.isPlaceholder c) (literalRun cs).2 := by
  induction cs using literalRun.induct with
  | case1 => exact stops_nil _
  | case2 c cs _ _ _ ih =>
      rw [literalRun]
      exact ih
  | case3 c cs hne hplaceholder =>
      rw [literalRun, if_pos hplaceholder]
      · exact stops_cons (by simp [hplaceholder]) cs
      · exact hne
  | case4 c cs hne hplaceholder _ _ _ ih =>
      rw [literalRun, if_neg hplaceholder]
      · exact ih
      · exact hne

theorem literalRun_of_forall (h : ∀ c ∈ text, DigitBlock.isPlaceholder c = false) :
    literalRun text = (text, []) := by
  have happend := append_literalRun text
  have hstops := stops_literalRun text
  cases hrest : (literalRun text).2 with
  | nil =>
      rw [hrest, List.append_nil] at happend
      exact Prod.ext happend hrest
  | cons c cs =>
      rw [hrest] at happend hstops
      have hc := h c (happend ▸ List.mem_append_right _ List.mem_cons_self)
      have hplaceholder : (!DigitBlock.isPlaceholder c) = false := hstops c rfl
      rw [hc] at hplaceholder
      cases hplaceholder

/-- The scanner is behind a backslash at the end of a literal run only where the text ends. -/
theorem InStep.run_literalRun {state : Scan} (h : InStep state) (cs : List Char) :
    InStep (state.run (literalRun cs).1) ∨ (literalRun cs).2 = [] := by
  induction cs using literalRun.induct generalizing state with
  | case1 => exact .inl h
  | case2 c cs _ _ _ ih =>
      rw [literalRun]
      exact ih (h.step_backslash c)
  | case3 c cs hne hplaceholder =>
      rw [literalRun, if_pos hplaceholder]
      · exact .inl h
      · exact hne
  | case4 c cs hne hplaceholder _ _ _ ih =>
      by_cases hc : c = '\\'
      · cases cs with
        | nil =>
            rw [hc]
            exact .inr rfl
        | cons x xs => exact (hne x xs hc rfl).elim
      · rw [literalRun_cons hc, if_neg hplaceholder]
        exact ih (h.step hc)

/-- A literal run takes a text up to its end if the text closes what it opens. -/
theorem literalRun_append {state : Scan} (hstate : InStep state) (hrun : state.run text = .plain)
    (htext : ∀ c ∈ text, DigitBlock.isPlaceholder c = false)
    (hrest : Stops (fun c => !DigitBlock.isPlaceholder c) rest) : literalRun (text ++ rest) = (text, rest) := by
  induction text using literalRun.induct generalizing state with
  | case1 => exact literalRun_of_stops hrest
  | case2 c cs _ _ _ ih =>
      have hcs := ih (hstate.step_backslash c) hrun fun x hx =>
        htext x (List.mem_cons_of_mem _ (List.mem_cons_of_mem _ hx))
      rw [List.cons_append, List.cons_append, literalRun, hcs]
  | case3 c cs hne hplaceholder =>
      rw [htext c List.mem_cons_self] at hplaceholder
      cases hplaceholder
  | case4 c cs hne hplaceholder _ _ _ ih =>
      by_cases hc : c = '\\'
      · cases cs with
        | nil =>
            rw [hc] at hrun
            exact absurd hrun hstate.step_backslash_ne
        | cons x xs => exact (hne x xs hc rfl).elim
      · have hcs := ih (hstate.step hc) hrun fun x hx => htext x (List.mem_cons_of_mem _ hx)
        rw [List.cons_append, literalRun_cons hc, if_neg hplaceholder, hcs]

/-- A text that is not quoted is one token if it begins neither with a quote mark nor with a backslash. -/
theorem tokens_literal {c : Char} (hquote : ¬(c = '"' ∨ c = '\'')) (hbackslash : c ≠ '\\')
    (hrun : Scan.run .plain (c :: text) = .plain)
    (htext : ∀ x ∈ c :: text, DigitBlock.isPlaceholder x = false)
    (hrest : Stops (fun x => !DigitBlock.isPlaceholder x) rest) :
    tokens (c :: text ++ rest) = literal (c :: text) :: tokens rest := by
  have hstep : Scan.step .plain c = .plain := by
    simp only [Scan.step, hquote, hbackslash, if_false]
  rw [Scan.run_cons, hstep] at hrun
  have hinstep : InStep .plain := trivial
  have hliteral := literalRun_append hinstep hrun (fun x hx => htext x (List.mem_cons_of_mem _ hx)) hrest
  rw [List.cons_append]
  refine tokens_of_next ?_
  unfold next
  rw [htext c List.mem_cons_self, if_neg hquote]
  simp [hbackslash, hliteral]

/-! ### What a text begins with -/

def isDigits : Token → Bool
  | digits _ => true
  | _ => false

def isLiteral : Token → Bool
  | literal _ => true
  | _ => false

section Next

variable {c : Char} {cs : List Char} {token : Token}

/-- A token that a text begins with is a run of placeholders, a quoted run, an escaped character or a literal run,
which begins with a backslash only where that is the whole text. -/
theorem next_cases (h : next c cs = (token, rest)) :
    (∃ block, token = digits (c :: block) ∧ (∀ x ∈ c :: block, DigitBlock.isPlaceholder x = true)
        ∧ cs = block ++ rest)
      ∨ (∃ body, token = quoted c body ∧ (c = '"' ∨ c = '\'') ∧ c ∉ body ∧ cs = body ++ c :: rest)
      ∨ (∃ x, token = escaped x ∧ c = '\\' ∧ cs = x :: rest)
      ∨ token = literal (c :: (literalRun cs).1) ∧ rest = (literalRun cs).2 ∧ (c = '\\' → cs = []) := by
  unfold next at h
  split at h
  · next hc =>
    cases h
    refine .inl ⟨_, rfl, fun x hx => ?_, List.takeWhile_append_dropWhile.symm⟩
    rcases List.mem_cons.1 hx with rfl | hx
    · exact hc
    · exact List.mem_takeWhile_imp hx
  split at h
  · next body behind hsplit =>
    cases h
    split at hsplit
    · next hmark =>
      obtain ⟨happend, hmem⟩ := splitAtFirst_eq_some_iff.1 hsplit
      exact .inr (.inl ⟨body, rfl, hmark, hmem, happend⟩)
    · cases hsplit
  split at h
  · cases h
    exact .inr (.inr (.inl ⟨_, rfl, rfl, rfl⟩))
  · next hne =>
    cases h
    refine .inr (.inr (.inr ⟨rfl, rfl, fun heq => ?_⟩))
    cases cs with
    | nil => rfl
    | cons x xs => exact (hne x xs heq rfl).elim

theorem source_append_of_next (h : next c cs = (token, rest)) : token.source ++ rest = c :: cs := by
  obtain ⟨block, rfl, -, rfl⟩ | ⟨body, rfl, -, -, rfl⟩ | ⟨x, rfl, rfl, rfl⟩ | ⟨rfl, rfl, -⟩ := next_cases h
  · rfl
  · simp [source]
  · rfl
  · rw [source, List.cons_append, append_literalRun]

theorem flatMap_source_tokens (text : List Char) : (tokens text).flatMap source = text := by
  induction text using tokens.induct with
  | case1 => rw [tokens, List.flatMap_nil]
  | case2 c cs ih =>
      have hsource : (next c cs).1.source ++ (next c cs).2 = c :: cs := source_append_of_next rfl
      rw [tokens, List.flatMap_cons, ih, hsource]

theorem exists_digits_of_mem_tokens {text : List Char} (h : token ∈ tokens text) (hdigits : token.isDigits = true) :
    ∃ c block, token = digits (c :: block) ∧ ∀ x ∈ c :: block, DigitBlock.isPlaceholder x = true := by
  induction text using tokens.induct with
  | case1 =>
      rw [tokens] at h
      cases h
  | case2 c cs ih =>
      rw [tokens] at h
      rcases List.mem_cons.1 h with htoken | h
      · obtain ⟨block, rfl, hblock, -⟩ | ⟨body, rfl, -⟩ | ⟨x, rfl, -⟩ | ⟨rfl, -⟩ :=
          next_cases (Prod.ext htoken.symm rfl : next c cs = (token, (next c cs).2))
        · exact ⟨c, block, rfl, hblock⟩
        · cases hdigits
        · cases hdigits
        · cases hdigits
      · exact ih h

/-- Behind a token the scanner is outside quotes and escapes, unless the token is a literal run. Behind that it may be
in quotes, but not behind a backslash if the text goes on. -/
theorem run_source_of_next (h : next c cs = (token, rest)) :
    Scan.run .plain token.source = .plain
      ∨ token.isLiteral = true ∧ (InStep (Scan.run .plain token.source) ∨ rest = []) := by
  obtain ⟨block, rfl, hblock, -⟩ | ⟨body, rfl, hmark, hmem, -⟩ | ⟨x, rfl, -, -⟩ | ⟨rfl, rfl, hend⟩ := next_cases h
  · exact .inl (Scan.run_plain_of_isNeutral fun x hx => isNeutral_of_isPlaceholder (hblock x hx))
  · left
    simp [source, Scan.step, hmark, Scan.run_quoted hmem]
  · exact .inl rfl
  · refine .inr ⟨rfl, ?_⟩
    by_cases hc : c = '\\'
    · rw [hend hc]
      exact .inr rfl
    · have hplain : InStep .plain := trivial
      exact InStep.run_literalRun (hplain.step hc) cs

theorem stops_of_isLiteral (h : next c cs = (token, rest)) (hliteral : token.isLiteral = true) :
    Stops (fun x => !DigitBlock.isPlaceholder x) rest := by
  obtain ⟨block, rfl, -⟩ | ⟨body, rfl, -⟩ | ⟨x, rfl, -⟩ | ⟨-, rfl, -⟩ := next_cases h
  · cases hliteral
  · cases hliteral
  · cases hliteral
  · exact stops_literalRun cs

end Next

/-! ### Neighbours -/

theorem isDigits_next (c : Char) (cs : List Char) : (next c cs).1.isDigits = DigitBlock.isPlaceholder c := by
  unfold next
  cases DigitBlock.isPlaceholder c with
  | true => rfl
  | false =>
      rw [if_neg Bool.false_ne_true]
      split
      · rfl
      · split <;> rfl

theorem stops_next {c : Char} (hc : DigitBlock.isPlaceholder c = true) (cs : List Char) :
    Stops DigitBlock.isPlaceholder (next c cs).2 := by
  unfold next
  rw [if_pos hc]
  intro x hx
  have hhead := List.head?_dropWhile_not DigitBlock.isPlaceholder cs
  rwa [Option.mem_def.1 hx] at hhead

theorem isChain_tokens (text : List Char) :
    (tokens text).IsChain fun left right => ¬(left.isDigits = true ∧ right.isDigits = true) := by
  induction text using tokens.induct with
  | case1 =>
      rw [tokens]
      exact .nil
  | case2 c cs ih =>
      rw [tokens]
      cases hrest : (next c cs).2 with
      | nil =>
          rw [tokens]
          exact .singleton _
      | cons x xs =>
          rw [hrest, tokens] at ih
          rw [tokens]
          refine .cons_cons ?_ ih
          rw [isDigits_next, isDigits_next]
          rintro ⟨hc, hx⟩
          have hstops := stops_next hc cs x (by rw [hrest]; rfl)
          exact Bool.false_ne_true (hstops.symm.trans hx)

end CellFormat.Token
