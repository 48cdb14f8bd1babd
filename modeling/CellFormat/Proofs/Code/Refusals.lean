import CellFormat.Except
import CellFormat.Proofs.Code.Placement
import CellFormat.Proofs.DigitBlock.Grammar
/-!
# What a section is refused for

The tags of a section are refused for a comparator or a threshold, the text behind them for a digit block, and a
whole section for a line feed. Whatever else can be wrong with a format is not found while a section is read.
-/

namespace CellFormat

variable {e : FormatError} {text : List Char}

/-- Whether the reason is one for which a section of a code is refused. -/
def FormatError.IsOfSection : FormatError → Prop
  | unknownComparator _ | missingComparator _ | nonNumericThreshold _ | nonFiniteThreshold _ => True
  | unexpectedBlock _ | malformedSection _ => True
  | _ => False

theorem kind_of_isOfSection (h : e.IsOfSection) : e.kind = .invalidFormat := by
  cases e <;> first | rfl | cases h

/-! ### Tags -/

theorem isOfSection_of_ofToken (h : Comparator.ofToken text = .error e) : e.IsOfSection := by
  unfold Comparator.ofToken at h
  split at h <;> cases h
  trivial

theorem isOfSection_of_make {comparator : Comparator} {threshold : Binary64}
    (h : Condition.make comparator threshold = .error e) : e.IsOfSection := by
  unfold Condition.make at h
  split at h
  · cases h
  split at h
  · split at h <;> cases h
  · cases h
    trivial

theorem isOfSection_of_readCondition (h : readCondition text = .error e) : e.IsOfSection := by
  rcases bind_eq_error_iff.1 h with htoken | ⟨comparator?, -, hvalue⟩
  · exact isOfSection_of_ofToken htoken
  · cases comparator? with
    | none =>
        cases hvalue
        trivial
    | some comparator =>
        dsimp only at hvalue
        split at hvalue
        · cases hvalue
          trivial
        · exact isOfSection_of_make hvalue

theorem isOfSection_of_readTag {header : Header} (h : header.readTag = .error e) : e.IsOfSection := by
  unfold Header.readTag at h
  split at h
  · cases h
  split at h
  · cases h
  split at h
  · rcases bind_eq_error_iff.1 h with hcondition | ⟨condition, -, hok⟩
    · exact isOfSection_of_readCondition hcondition
    · cases hok
  · cases h

theorem isOfSection_of_readTags {header : Header} {tags : Nat} (h : header.readTags tags = .error e) :
    e.IsOfSection := by
  induction tags generalizing header with
  | zero => cases h
  | succ tags ih =>
      rcases bind_eq_error_iff.1 h with htag | ⟨next?, -, hrest⟩
      · exact isOfSection_of_readTag htag
      · cases next? with
        | none => cases hrest
        | some next => exact ih hrest

/-! ### Parts -/

theorem isOfSection_of_toPart {token : Token} (h : token.toPart = .error e) : e.IsOfSection := by
  cases token with
  | digits block =>
      rcases bind_eq_error_iff.1 h with hread | ⟨read, -, hok⟩
      · rw [DigitBlock.error_of_read hread]
        trivial
      · cases hok
  | quoted mark body => cases h
  | escaped c => cases h
  | literal run => cases h

theorem isOfSection_of_readParts (h : readParts text = .error e) : e.IsOfSection := by
  obtain ⟨_, token, _, -, -, htoken⟩ := exists_of_mapM_eq_error h
  exact isOfSection_of_toPart htoken

/-! ### Sections -/

theorem isOfSection_of_readSection (h : readSection text = .error e) : e.IsOfSection := by
  rcases bind_eq_error_iff.1 h with hheader | ⟨header, -, hbody⟩
  · exact isOfSection_of_readTags hheader
  · rcases bind_eq_error_iff.1 hbody with hparts | ⟨parts, -, hok⟩
    · exact isOfSection_of_readParts hparts
    · cases hok

variable {options : ParseOptions} {alone : Bool} {positional : List Condition} {texts : List (List Char)}

theorem isOfSection_of_readKept (h : readKept options text = .error e) : e.IsOfSection := by
  unfold readKept at h
  split at h
  · split at h <;> cases h
    trivial
  · cases hread : readSection text with
    | ok s =>
        rw [hread] at h
        cases h
    | error reason =>
        rw [hread] at h
        cases h
        exact isOfSection_of_readSection hread

theorem isOfSection_of_readAll (h : readAll options alone positional texts = .error e) : e.IsOfSection := by
  induction texts generalizing positional with
  | nil => cases h
  | cons text texts ih =>
      rcases bind_eq_error_iff.1 h with hkept | ⟨kept, -, hrest⟩
      · exact isOfSection_of_readKept hkept
      · rcases bind_eq_error_iff.1 hrest with hothers | ⟨others, -, hok⟩
        · exact ih hothers
        · cases hok

/-! ### Codes -/

/-- A code is refused for one of its sections, or by a strict reader because there are too many of them. -/
theorem Format.error_of_ofChars {code : List Char} (h : ofChars options code = .error e) :
    Overfull options code ∧ e = .tooManySections (sectionTexts code).length maxSections (.ofList code)
      ∨ ¬Overfull options code ∧ e.IsOfSection := by
  by_cases hoverfull : Overfull options code
  · have hmany : (options.strict && decide (maxSections < (sectionTexts code).length)) = true := by
      simpa [Overfull] using hoverfull
    rw [ofChars, if_pos hmany] at h
    cases h
    exact .inl ⟨hoverfull, rfl⟩
  · rw [ofChars_eq hoverfull] at h
    cases hread : readAll options ((sectionTexts code).length == 1) (positionalConditions options.table code)
        ((sectionTexts code).take maxSections) with
    | ok placed =>
        rw [hread] at h
        cases h
    | error reason =>
        rw [hread] at h
        cases h
        exact .inr ⟨hoverfull, isOfSection_of_readAll hread⟩

end CellFormat
