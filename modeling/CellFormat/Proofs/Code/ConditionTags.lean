import CellFormat.Proofs.Code.Header
import CellFormat.Proofs.Code.Splitting
/-!
# Where a code has condition tags

The scan for condition tags walks over a whole code and looks for closing brackets beyond the section it is
in. It still agrees with the headers of the sections: a bracket group that spans a semicolon is no condition,
so the scan is the scan of each section on its own, and the tag that a header was read from is found by it.
-/

namespace CellFormat

/-! ### Characters of tags -/

theorem isNeutral_of_isAlphanum {c : Char} (hc : c.isAlphanum = true) : Scan.isNeutral c = true := by
  simp [Scan.isNeutral, ne_of_isAlphanum hc]

theorem isNeutral_of_mem_tag {content : List Char} (h : ∀ c ∈ content, Scan.isNeutral c = true) :
    ∀ c ∈ '[' :: content ++ [']'], Scan.isNeutral c = true := by
  intro c hc
  simp only [List.cons_append, List.mem_cons, List.mem_append, List.not_mem_nil, or_false] at hc
  rcases hc with rfl | hc | rfl
  · decide
  · exact h c hc
  · decide

theorem isNeutral_of_readCondition {content : List Char} {condition : Condition}
    (h : readCondition content = .ok condition) : ∀ c ∈ content, Scan.isNeutral c = true := by
  intro c hc
  have hne : ∀ x, isForeign x = true → isComparatorChar x = false → isBlank x = false → c ≠ x := by
    rintro x hforeign hcomparator hblank rfl
    exact not_mem_of_readCondition hforeign hcomparator hblank h hc
  have hdouble := hne '"' (by decide) (by decide) (by decide)
  have hsingle := hne '\'' (by decide) (by decide) (by decide)
  have hbackslash := hne '\\' (by decide) (by decide) (by decide)
  simp [Scan.isNeutral, hdouble, hsingle, hbackslash]

/-! ### Bracket groups -/

variable {state : Scan} {text rest content : List Char}

theorem closesCondition_append (h : ']' ∉ content) (behind : List Char) :
    closesCondition (content ++ ']' :: behind) = (readCondition content).isOk := by
  rw [closesCondition, splitAtFirst_append h]

theorem closesCondition_of_stops (hstops : Stops isComparatorChar text) : closesCondition text = false := by
  unfold closesCondition
  split
  · next content behind hsplit =>
    refine readCondition_of_stops fun c hc => hstops c ?_
    rw [(splitAtFirst_eq_some_iff.1 hsplit).1]
    cases content with
    | nil => cases hc
    | cons x xs => exact hc
  · rfl

theorem closesCondition_of_not_mem (h : ']' ∉ text) : closesCondition text = false := by
  rw [closesCondition, splitAtFirst_eq_none_iff.2 h]

theorem closesCondition_of_semicolon (h : ']' ∉ text) (rest : List Char) :
    closesCondition (text ++ ';' :: rest) = false := by
  cases hsplit : splitAtFirst ']' rest with
  | none =>
      refine closesCondition_of_not_mem ?_
      simpa [h] using splitAtFirst_eq_none_iff.1 hsplit
  | some groups =>
      obtain ⟨rfl, hmem⟩ := splitAtFirst_eq_some_iff.1 hsplit
      have hcontent : ']' ∉ text ++ ';' :: groups.1 := by
        simpa [h] using hmem
      have happend : text ++ ';' :: (groups.1 ++ ']' :: groups.2) = (text ++ ';' :: groups.1) ++ ']' :: groups.2 := by
        simp
      rw [happend, closesCondition_append hcontent]
      have hsemicolon : ';' ∈ text ++ ';' :: groups.1 := by simp
      exact readCondition_of_foreign (by decide) (by decide) (by decide) hsemicolon

/-- A group that spans a semicolon is no condition. -/
theorem closesCondition_append_semicolon (text rest : List Char) :
    closesCondition (text ++ ';' :: rest) = closesCondition text := by
  cases hsplit : splitAtFirst ']' text with
  | none =>
      have hmem := splitAtFirst_eq_none_iff.1 hsplit
      rw [closesCondition_of_semicolon hmem, closesCondition_of_not_mem hmem]
  | some groups =>
      obtain ⟨rfl, hmem⟩ := splitAtFirst_eq_some_iff.1 hsplit
      rw [List.append_assoc, List.cons_append, closesCondition_append hmem, closesCondition_append hmem]

/-! ### The scan -/

theorem hasConditionTagFrom_append_semicolon (state : Scan) (text rest : List Char) :
    hasConditionTagFrom state (text ++ ';' :: rest)
      = (hasConditionTagFrom state text || hasConditionTagFrom ((state.run text).step ';') rest) := by
  induction text generalizing state with
  | nil => simp [hasConditionTagFrom]
  | cons c text ih =>
      simp [hasConditionTagFrom, closesCondition_append_semicolon, ih, Bool.or_assoc]

theorem hasConditionTagFrom_append (h : hasConditionTagFrom (state.run text) rest = true) :
    hasConditionTagFrom state (text ++ rest) = true := by
  induction text generalizing state with
  | nil => exact h
  | cons c text ih =>
      rw [List.cons_append, hasConditionTagFrom, ih h, Bool.or_true]

theorem hasConditionTag_eq_any (code : List Char) :
    hasConditionTag code = (sectionTexts code).any hasConditionTag := by
  induction code using section_induction with
  | uncut code hcode => simp [sectionTexts_eq_singleton_iff.2 hcode]
  | cut first rest hfirst hrun ih =>
      have hstep : Scan.step .plain ';' = .plain := by decide
      rw [sectionTexts_append_semicolon hfirst hrun, List.any_cons, ← ih, hasConditionTag,
        hasConditionTagFrom_append_semicolon, hrun, hstep]
      rfl

/-! ### Headers -/

theorem isNeutral_of_isColorTag {color : Option Color} {tag : List Char} (h : IsColorTag color tag) :
    ∀ c ∈ tag, Scan.isNeutral c = true :=
  forall_mem_of_isColorTag (by decide) (by decide) (fun _ hc => isNeutral_of_isAlphanum hc) h

/-- The scan finds the tag of a condition wherever neutral characters stand in front of it. -/
theorem hasConditionTag_of_isConditionTag {condition : Condition} {tag : List Char}
    (hneutral : ∀ c ∈ text, Scan.isNeutral c = true) (h : IsConditionTag (some condition) tag) :
    hasConditionTag (text ++ tag ++ rest) = true := by
  obtain ⟨content, rfl, hcontent⟩ := h
  have hcloses : closesCondition (content ++ ']' :: rest) = true := by
    rw [closesCondition_append (not_mem_of_readCondition (by decide) (by decide) (by decide) hcontent), hcontent]
    rfl
  rw [List.append_assoc]
  refine hasConditionTagFrom_append ?_
  rw [Scan.run_plain_of_isNeutral hneutral, List.append_assoc, List.cons_append, hasConditionTagFrom]
  simp [hcloses]

section Spells

variable {header : Header} {tags : List Char} (hspells : header.Spells tags)

include hspells

theorem isNeutral_of_spells : ∀ c ∈ tags, Scan.isNeutral c = true :=
  Header.forall_mem_of_spells (by decide) (by decide) (fun _ hc => isNeutral_of_isAlphanum hc)
    (fun _ _ hcontent => isNeutral_of_readCondition hcontent) hspells

theorem hasConditionTag_of_spells (hsome : header.condition ≠ none) (rest : List Char) :
    hasConditionTag (tags ++ rest) = true := by
  obtain ⟨colorTag, conditionTag, hcolorTag, hconditionTag, htags⟩ := hspells
  obtain ⟨condition, hcondition⟩ := Option.ne_none_iff_exists'.1 hsome
  rw [hcondition] at hconditionTag
  rcases htags with rfl | rfl
  · exact hasConditionTag_of_isConditionTag (isNeutral_of_isColorTag hcolorTag) hconditionTag
  · rw [List.append_assoc]
    exact hasConditionTag_of_isConditionTag (List.forall_mem_nil _) hconditionTag

end Spells

theorem hasConditionTag_of_readHeader {header : Header} (hread : readHeader text = .ok header)
    (hsome : header.condition ≠ none) : hasConditionTag text = true := by
  obtain ⟨-, tags, hspells, rfl⟩ := readHeader_eq_ok_iff.1 hread
  exact hasConditionTag_of_spells hspells hsome header.body

/-! ### Texts without condition tags -/

/-- Whether no condition tag opens in a text that is scanned from `state` on, whatever comes behind it. -/
def Silent (state : Scan) (text : List Char) : Prop :=
  ∀ rest, hasConditionTagFrom state (text ++ rest) = hasConditionTagFrom (state.run text) rest

theorem silent_nil (state : Scan) : Silent state [] := fun _ => rfl

theorem Silent.append {left right : List Char} (hleft : Silent state left) (hright : Silent (state.run left) right) :
    Silent state (left ++ right) := by
  intro rest
  rw [List.append_assoc, hleft, hright, Scan.run_append]

theorem Silent.cons {c : Char} (hc : state ≠ .plain ∨ c ≠ '[') (h : Silent (state.step c) text) :
    Silent state (c :: text) := by
  intro rest
  have hopens : (state == .plain && c == '[') = false := by
    simpa [Decidable.imp_iff_not_or] using hc
  rw [List.cons_append, hasConditionTagFrom, hopens, Bool.false_and, Bool.false_or, h rest, Scan.run_cons]

theorem silent_of_not_mem (state : Scan) (h : '[' ∉ text) : Silent state text := by
  induction text generalizing state with
  | nil => exact silent_nil state
  | cons c text ih =>
      have hc : c ≠ '[' := fun heq => h (heq ▸ List.mem_cons_self)
      exact .cons (.inr hc) (ih _ fun hmem => h (List.mem_cons_of_mem _ hmem))

theorem silent_quoted {mark : Char} (h : mark ∉ text) : Silent (.quoted mark) text := by
  induction text with
  | nil => exact silent_nil _
  | cons c text ih =>
      have hc : c ≠ mark := fun heq => h (heq ▸ List.mem_cons_self)
      refine .cons (.inl nofun) ?_
      rw [Scan.step, if_neg hc]
      exact ih fun hmem => h (List.mem_cons_of_mem _ hmem)

/-- A bracket group that does not begin with a comparator is no condition. -/
theorem Silent.bracket (hstops : ∀ rest, Stops isComparatorChar (text ++ rest)) (h : Silent (state.step '[') text) :
    Silent state ('[' :: text) := by
  intro rest
  rw [List.cons_append, hasConditionTagFrom, closesCondition_of_stops (hstops rest), Bool.and_false,
    Bool.false_or, h rest, Scan.run_cons]

end CellFormat
