import CellFormat.Proofs.Code.Splitting
/-!
# Cutting and joining

What the scanner does with a text can be said without the scanner: it is back where it began just if the text is
put together from characters that mean nothing to it, escapes and quoted runs. A cut is a semicolon behind such a
text. So the sections of a code are told from the code alone, as the one list of texts that the code joins, none
of which has a cut and all of which but the last close what they open.
-/

namespace CellFormat

/-- Whether a text closes every quoted run that it opens and ends in no pending escape. -/
inductive IsClosed : List Char → Prop where
  | nil : IsClosed []
  | neutral {c : Char} {rest : List Char} (hc : Scan.isNeutral c = true) (hrest : IsClosed rest) :
      IsClosed (c :: rest)
  | escape (c : Char) {rest : List Char} (hrest : IsClosed rest) : IsClosed ('\\' :: c :: rest)
  | quoted {mark : Char} {body rest : List Char} (hmark : mark = '"' ∨ mark = '\'') (hbody : mark ∉ body)
      (hrest : IsClosed rest) : IsClosed (mark :: (body ++ mark :: rest))

/-- Whether a semicolon stands in a text outside quotes and escapes. -/
def HasCut (text : List Char) : Prop := ∃ before behind, text = before ++ ';' :: behind ∧ IsClosed before

variable {text rest code : List Char} {state : Scan} {texts : List (List Char)}

/-! ### Closed texts and the scanner -/

theorem IsClosed.run (h : IsClosed text) : Scan.run .plain text = .plain := by
  induction h with
  | nil => rfl
  | neutral hc hrest ih => rw [Scan.run_cons, Scan.step_plain_of_isNeutral hc, ih]
  | escape c hrest ih => exact ih
  | @quoted mark body rest hmark hbody hrest ih =>
      have hopen : Scan.plain.step mark = .quoted mark := by rw [Scan.step, if_pos hmark]
      have hclose : (Scan.quoted mark).step mark = .plain := by rw [Scan.step, if_pos rfl]
      rw [Scan.run_cons, hopen, Scan.run_append, Scan.run_quoted hbody, Scan.run_cons, hclose, ih]

/-- A run of the scanner is read piece by piece: a character on its own, an escape, or a run up to its mark. -/
theorem isClosed_of_run {text : List Char} (h : Scan.run .plain text = .plain) : IsClosed text := by
  match text with
  | [] => exact .nil
  | c :: cs =>
    by_cases hc : Scan.isNeutral c = true
    · rw [Scan.run_cons, Scan.step_plain_of_isNeutral hc] at h
      exact .neutral hc (isClosed_of_run h)
    · by_cases hmark : c = '"' ∨ c = '\''
      · rw [Scan.run_cons, Scan.step, if_pos hmark] at h
        have hmem : c ∈ cs := by
          refine Decidable.byContradiction fun hnot => ?_
          rw [Scan.run_quoted hnot] at h
          cases h
        obtain ⟨body, rest, rfl, hbody⟩ := List.eq_append_cons_of_mem hmem
        rw [Scan.run_append, Scan.run_quoted hbody, Scan.run_cons, Scan.step, if_pos rfl] at h
        exact .quoted hmark hbody (isClosed_of_run h)
      · have hescape : c = '\\' := by
          rw [not_or] at hmark
          simpa [Scan.isNeutral, hmark] using hc
        subst hescape
        obtain ⟨x, rest, rfl⟩ : ∃ x rest, cs = x :: rest := by
          cases cs with
          | nil => cases h
          | cons x rest => exact ⟨x, rest, rfl⟩
        exact .escape x (isClosed_of_run h)
termination_by text.length

theorem isClosed_iff : IsClosed text ↔ Scan.run .plain text = .plain := ⟨IsClosed.run, isClosed_of_run⟩

instance : DecidablePred IsClosed := fun _ => decidable_of_iff _ isClosed_iff.symm

/-! ### Cuts and the scanner -/

theorem Uncut.of_append (h : Uncut state (text ++ rest)) : Uncut state text := by
  induction text generalizing state with
  | nil => rfl
  | cons c text ih =>
      obtain ⟨hc, hrest⟩ := uncut_cons_iff.1 h
      exact uncut_cons_iff.2 ⟨hc, ih hrest⟩

theorem uncut_iff_not_hasCut : Uncut .plain text ↔ ¬HasCut text := by
  constructor
  · rintro huncut ⟨before, behind, rfl, hbefore⟩
    rw [uncut_append_iff huncut.of_append, hbefore.run, uncut_cons_iff] at huncut
    exact huncut.1 ⟨rfl, rfl⟩
  · intro hcut
    rcases uncut_or_eq_append .plain text with huncut | ⟨before, behind, htext, -, hrun⟩
    · exact huncut
    · exact absurd ⟨before, behind, htext, isClosed_of_run hrun⟩ hcut

instance : DecidablePred HasCut := fun text =>
  have : Decidable (Uncut .plain text) := inferInstanceAs (Decidable (sectionTextsFrom .plain text = (text, [])))
  decidable_of_iff (¬Uncut .plain text) (by rw [uncut_iff_not_hasCut, Classical.not_not])

/-! ### Sections -/

/-- The sections of a code, told without the scanner. -/
theorem sectionTexts_eq_iff : sectionTexts code = texts ↔ texts ≠ [] ∧ joinSections texts = code
    ∧ (∀ text ∈ texts, ¬HasCut text) ∧ ∀ text ∈ texts.dropLast, IsClosed text := by
  constructor
  · rintro rfl
    refine ⟨sectionTexts_ne_nil code, joinSections_sectionTexts code, ?_, ?_⟩
    · intro text htext
      exact uncut_iff_not_hasCut.1 (uncut_of_mem_sectionTexts htext)
    · intro text htext
      exact isClosed_of_run (run_of_mem_dropLast htext)
  · rintro ⟨hne, rfl, huncut, hclosed⟩
    refine sectionTexts_joinSections hne ?_ ?_
    · intro text htext
      exact uncut_iff_not_hasCut.2 (huncut text htext)
    · intro text htext
      exact (hclosed text htext).run

/-- Cutting a code loses nothing and leaves nothing to cut, and it undoes joining for exactly the lists of texts
that a code can be cut into. -/
theorem cuts_undo_joins :
    (∀ code, joinSections (sectionTexts code) = code)
      ∧ (∀ code, ∀ text ∈ sectionTexts code, sectionTexts text = [text])
      ∧ ∀ texts, sectionTexts (joinSections texts) = texts ↔
        texts ≠ [] ∧ (∀ text ∈ texts, ¬HasCut text) ∧ ∀ text ∈ texts.dropLast, IsClosed text := by
  refine ⟨joinSections_sectionTexts, ?_, ?_⟩
  · intro code text htext
    exact sectionTexts_eq_singleton_iff.2 (uncut_of_mem_sectionTexts htext)
  · intro texts
    simp only [sectionTexts_eq_iff, true_and]

/-- Semicolons in quotes of both kinds and behind a backslash, and a last section that ends in quotes. -/
theorem cuts_undo_joins_unclosedLast :
    ("'a;\"b'".toList ∈ sectionTexts "0;'a;\"b';\\;;\";'".toList
        ∧ sectionTexts "'a;\"b'".toList = ["'a;\"b'".toList])
      ∧ sectionTexts (joinSections ["0".toList, "'a;\"b'".toList, "\\;".toList, "\";'".toList])
        = ["0".toList, "'a;\"b'".toList, "\\;".toList, "\";'".toList] := by
  obtain ⟨-, hsingle, hsections⟩ := cuts_undo_joins
  have hmem : "'a;\"b'".toList ∈ sectionTexts "0;'a;\"b';\\;;\";'".toList := by decide
  exact ⟨⟨hmem, hsingle _ _ hmem⟩, (hsections _).2 (by decide)⟩

end CellFormat
