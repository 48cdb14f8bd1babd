import CellFormat.Proofs.Code.Parser
import Mathlib.Data.List.TakeDrop
/-!
# Sections beyond the limit

A lenient reader goes on with the first sections of a code, as many as a format holds, and leaves the others out. But
it looks for condition tags in the whole code. So a tag in a surplus section still decides that the sections in front
of it get no conditions by their position, and the format is another one than that of the first sections alone.
-/

namespace CellFormat.Format

/-! ### Sections without tags -/

section Untagged

variable {options : ParseOptions} {alone : Bool} {positional : List Condition} {texts : List (List Char)}
  {placed : List ReadSection} {e : FormatError}

theorem readAll_eq_error_iff (other : List Condition) :
    readAll options alone positional texts = .error e ↔ readAll options alone other texts = .error e := by
  induction texts generalizing positional other with
  | nil => exact ⟨nofun, nofun⟩
  | cons text texts ih =>
      cases hkept : readKept options text with
      | error reason => simp [readAll, hkept, bind, Except.bind]
      | ok kept =>
          have htail := @ih positional.tail other.tail
          cases hleft : readAll options alone positional.tail texts <;>
            cases hright : readAll options alone other.tail texts <;>
            simp_all [readAll, bind, Except.bind, pure, Except.pure]

/-- Where all texts that have a position span a line feed, none of the conditions is used. -/
theorem readAll_of_lineFeeds (h : ∀ text ∈ texts.take positional.length, '\n' ∈ text) :
    readAll options alone positional texts = readAll options alone [] texts := by
  induction texts generalizing positional with
  | nil => rfl
  | cons text texts ih =>
      cases positional with
      | nil => rfl
      | cons condition positional =>
          have hline : '\n' ∈ text := h text List.mem_cons_self
          have hrest := ih fun t ht => h t (List.mem_cons_of_mem _ ht)
          rw [readAll, readAll, readKept, if_pos hline, List.tail_cons, hrest]
          cases options.strict <;> rfl

/-- Of texts without tags only those that have no position or span a line feed are placed under no condition. -/
theorem condition_eq_none_iff (h : readAll options false positional texts = .ok placed)
    (huntagged : ∀ text ∈ texts, ∀ said, readSection text = .ok said → said.condition = none) :
    (∀ s ∈ placed, s.condition = none) ↔ ∀ text ∈ texts.take positional.length, '\n' ∈ text := by
  induction texts generalizing positional placed with
  | nil =>
      cases h
      simp
  | cons text texts ih =>
      obtain ⟨kept, hkept, hrest⟩ := bind_eq_ok_iff.1 h
      obtain ⟨others, hothers, heq⟩ := bind_eq_ok_iff.1 hrest
      cases heq
      have hothers' := ih hothers fun t ht => huntagged t (List.mem_cons_of_mem _ ht)
      cases kept with
      | none =>
          have hline : '\n' ∈ text := by
            by_contra hnot
            rw [readKept, if_neg hnot] at hkept
            cases hread : readSection text <;> simp [hread, Except.map] at hkept
          cases positional with
          | nil => simpa using hothers'
          | cons condition positional => simpa [hline] using hothers'
      | some said =>
          obtain ⟨hline, hread⟩ := readKept_eq_some_iff.1 hkept
          have hnone := huntagged text List.mem_cons_self said hread
          cases positional with
          | nil => simpa [ReadSection.assign, hnone] using hothers'
          | cons condition positional => simp [ReadSection.assign, hnone, hline]

theorem branches_assemble_eq_nil_iff (placed : List ReadSection) :
    (assemble placed).branches = [] ↔ ∀ s ∈ placed, s.condition = none := by
  rw [← List.map_eq_nil_iff (f := Branch.condition), map_condition_assemble, List.filterMap_eq_nil_iff]

/-- Conditions for the positions make a difference to texts without tags, unless one of the texts is not right or
all that have a position span a line feed. -/
theorem map_assemble_readAll_eq_iff
    (huntagged : ∀ text ∈ texts, ∀ said, readSection text = .ok said → said.condition = none) :
    (readAll options false [] texts).map assemble = (readAll options false positional texts).map assemble
      ↔ (∃ e, (readAll options false positional texts).map assemble = .error e)
        ∨ ∀ text ∈ texts.take positional.length, '\n' ∈ text := by
  cases hplaced : readAll options false positional texts with
  | error e =>
      have hbare := (readAll_eq_error_iff []).1 hplaced
      simp [hbare, Except.map]
  | ok placed =>
      constructor
      · intro h
        refine .inr ((condition_eq_none_iff hplaced huntagged).1 ?_)
        cases hbare : readAll options false [] texts with
        | error e =>
            rw [hbare] at h
            cases h
        | ok bare =>
            rw [hbare] at h
            have hnone := (condition_eq_none_iff hbare huntagged).2 (by simp)
            rw [← branches_assemble_eq_nil_iff] at hnone ⊢
            rw [← hnone]
            exact congrArg Format.branches (Except.ok.inj h).symm
      · rintro (⟨e, he⟩ | hlines)
        · cases he
        · rw [← readAll_of_lineFeeds hlines, hplaced]

end Untagged

/-! ### The first sections alone -/

variable {code : List Char}

/-- The first sections of a code, as many as a format holds, as a code of their own. -/
def firstSections (code : List Char) : List Char := joinSections ((sectionTexts code).take maxSections)

theorem sectionTexts_firstSections (code : List Char) :
    sectionTexts (firstSections code) = (sectionTexts code).take maxSections := by
  refine sectionTexts_joinSections ?_ (fun text htext => ?_) (fun text htext => ?_)
  · rw [ne_eq, List.take_eq_nil_iff]
    exact fun h => h.elim nofun (sectionTexts_ne_nil code)
  · exact uncut_of_mem_sectionTexts (List.mem_of_mem_take htext)
  · rw [List.dropLast_take_eq_take_dropLast] at htext
    exact run_of_mem_dropLast (List.mem_of_mem_take htext)

theorem hasConditionTag_of_firstSections (h : hasConditionTag (firstSections code) = true) :
    hasConditionTag code = true := by
  rw [hasConditionTag_eq_any, sectionTexts_firstSections, List.any_eq_true] at h
  obtain ⟨text, htext, htag⟩ := h
  rw [hasConditionTag_eq_any]
  exact List.any_eq_true.2 ⟨text, List.mem_of_mem_take htext, htag⟩

/-- A lenient reader reads the same sections of a code with surplus sections and of its first sections alone; only
the conditions of the positions may differ. -/
theorem ofChars_lenient (table : Condition.Table) (hmany : maxSections < (sectionTexts code).length) :
    ofChars { strict := false, table } code
        = (readAll { strict := false, table } false (positionalConditions table code)
          ((sectionTexts code).take maxSections)).map assemble
      ∧ ofChars { strict := false, table } (firstSections code)
        = (readAll { strict := false, table } false (positionalConditions table (firstSections code))
          ((sectionTexts code).take maxSections)).map assemble := by
  have hfew : ∀ code, ¬Overfull { strict := false, table } code := fun code h => Bool.false_ne_true h.1
  have hlength : (sectionTexts (firstSections code)).length = maxSections := by
    rw [sectionTexts_firstSections, List.length_take, Nat.min_eq_left (Nat.le_of_lt hmany)]
  have halone : ((sectionTexts code).length == 1) = false := by
    rw [beq_eq_false_iff_ne]
    unfold maxSections at hmany
    omega
  constructor
  · rw [ofChars_eq (hfew code), halone]
  · rw [ofChars_eq (hfew (firstSections code)), hlength, sectionTexts_firstSections, List.take_take, Nat.min_self]
    rfl

/-- Surplus sections are ignored exactly in these cases: none of them has a condition tag, or one of the first
sections has a tag as well; the first sections alone are refused; or all of them that have a position in the table
span a line feed. -/
theorem surplusSections_ignored_iff (table : Condition.Table) (code : List Char)
    (hmany : maxSections < (sectionTexts code).length) :
    ofChars { strict := false, table } code = ofChars { strict := false, table } (firstSections code)
      ↔ (hasConditionTag code = true → hasConditionTag (firstSections code) = true)
        ∨ (∃ e, ofChars { strict := false, table } (firstSections code) = .error e)
        ∨ ∀ text ∈ (sectionTexts code).take table.conditions.length, '\n' ∈ text := by
  obtain ⟨hcode, hfirst⟩ := ofChars_lenient table hmany
  rw [hcode, hfirst]
  by_cases htags : hasConditionTag code = true → hasConditionTag (firstSections code) = true
  · have hsame : hasConditionTag code = hasConditionTag (firstSections code) :=
      Bool.eq_iff_iff.2 ⟨htags, hasConditionTag_of_firstSections⟩
    simp [positionalConditions, hsame]
  · -- The only tags are those of surplus sections.
    obtain ⟨htag, hnot⟩ := Classical.not_imp.1 htags
    have huntagged : ∀ text ∈ (sectionTexts code).take maxSections, ∀ said, readSection text = .ok said →
        said.condition = none := by
      rw [← sectionTexts_firstSections]
      exact fun text htext said => condition_of_readSection (Bool.eq_false_iff.2 hnot) htext
    have htake : ((sectionTexts code).take maxSections).take table.conditions.length
        = (sectionTexts code).take table.conditions.length := by
      rw [List.take_take, Nat.min_eq_left (length_conditions_le table)]
    have hpositional : positionalConditions table code = [] := if_pos htag
    have hpositional' : positionalConditions table (firstSections code) = table.conditions := if_neg hnot
    rw [hpositional, hpositional', map_assemble_readAll_eq_iff huntagged, htake, or_iff_right htags]

/-- A surplus section with a tag, behind one with a tag. -/
theorem surplusSections_ignored_tagged :
    maxSections < (sectionTexts "0;[>1]0.0;@;0;[=2]x;".toList).length
      ∧ ofChars { strict := false, table := .legacy } "0;[>1]0.0;@;0;[=2]x;".toList
        = ofChars { strict := false, table := .legacy } (firstSections "0;[>1]0.0;@;0;[=2]x;".toList) := by
  have hmany : maxSections < (sectionTexts "0;[>1]0.0;@;0;[=2]x;".toList).length := by decide
  refine ⟨hmany, (surplusSections_ignored_iff .legacy _ hmany).2 (.inl fun _ => ?_)⟩
  decide +kernel

/-- A tag in a surplus section takes the conditions of their positions from the sections in front of it. -/
theorem not_surplusSections_ignored :
    ¬∀ table code, maxSections < (sectionTexts code).length →
      ofChars { strict := false, table } code = ofChars { strict := false, table } (firstSections code) := by
  intro h
  have hdiffer : ofChars { strict := false, table := .standard } "0;0;0;0;[>1]0".toList
      ≠ ofChars { strict := false, table := .standard } (firstSections "0;0;0;0;[>1]0".toList) := by
    decide +kernel
  exact hdiffer (h .standard "0;0;0;0;[>1]0".toList (by decide))

end CellFormat.Format
