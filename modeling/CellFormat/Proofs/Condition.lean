import CellFormat.Condition
/-!
# Checked conditions

A condition is made of every comparator and every finite threshold, and of the text condition with any threshold at
all. What is kept of the threshold is a normal form, so a condition is made of itself.
-/

namespace CellFormat.Condition

attribute [ext] Condition

variable {comparator : Comparator} {threshold : Binary64} {condition : Condition}

/-- What is kept of a threshold: zero has no sign, and the text condition has no other threshold. -/
def keptThreshold (comparator : Comparator) (threshold : Binary64) : Binary64 :=
  if comparator = .isText ∨ threshold.isZero = true then .zero else threshold

theorem exists_make (h : comparator = .isText ∨ threshold.isFinite = true) :
    ∃ condition, make comparator threshold = .ok condition ∧ condition.comparator = comparator
      ∧ condition.threshold = keptThreshold comparator threshold := by
  unfold make keptThreshold
  by_cases htext : comparator = .isText
  · exact ⟨isText, dif_pos htext, htext.symm, (if_pos (.inl htext)).symm⟩
  · have hfinite : threshold.isFinite = true := h.resolve_left htext
    rw [dif_neg htext, dif_pos hfinite]
    by_cases hzero : threshold.isZero = true
    · exact ⟨againstZero comparator, dif_pos hzero, rfl, (if_pos (.inr hzero)).symm⟩
    · exact ⟨_, dif_neg hzero, rfl, (if_neg (not_or.2 ⟨htext, hzero⟩)).symm⟩

theorem accepted_of_make (h : make comparator threshold = .ok condition) :
    comparator = .isText ∨ threshold.isFinite = true := by
  refine Decidable.byContradiction fun hnot => ?_
  obtain ⟨htext, hfinite⟩ := not_or.1 hnot
  rw [make, dif_neg htext, dif_neg hfinite] at h
  cases h

theorem make_eq_ok_iff :
    make comparator threshold = .ok condition
      ↔ (comparator = .isText ∨ threshold.isFinite = true) ∧ condition.comparator = comparator
        ∧ condition.threshold = keptThreshold comparator threshold := by
  constructor
  · intro h
    obtain ⟨made, hmake, hcomparator, hthreshold⟩ := exists_make (accepted_of_make h)
    cases h.symm.trans hmake
    exact ⟨accepted_of_make h, hcomparator, hthreshold⟩
  · rintro ⟨haccepted, hcomparator, hthreshold⟩
    obtain ⟨made, hmake, hcomparator', hthreshold'⟩ := exists_make haccepted
    rw [hmake]
    exact congrArg _ (Condition.ext (hcomparator'.trans hcomparator.symm) (hthreshold'.trans hthreshold.symm))

theorem make_of_isZero (comparator : Comparator) (hzero : threshold.isZero = true) :
    make comparator threshold = .ok (againstZero comparator) := by
  refine make_eq_ok_iff.2 ⟨.inr ?_, rfl, (if_pos (.inr hzero)).symm⟩
  rw [Binary64.isFinite, eq_of_beq hzero]
  rfl

theorem make_self (condition : Condition) : make condition.comparator condition.threshold = .ok condition := by
  refine make_eq_ok_iff.2 ⟨.inr condition.finite, rfl, ?_⟩
  unfold keptThreshold
  split
  · next h => exact h.elim condition.text_zero condition.unsigned_zero
  · rfl

end CellFormat.Condition
