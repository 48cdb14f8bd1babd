import CellFormat.Proofs.Data.ReadBack
/-!
# Digit counts changed in place

The counts of a digit block are changed one by one. Four changes are made on a copy, which is checked before it takes
the place of the counts; the other two are made without a check, as they cannot take counts out of range. So all counts
that come about by reading, checking and changing are in range, a change is refused exactly when it would take them out
of range, and then nothing has changed.
-/

namespace CellFormat

/-! ### Checks -/

/-- Counts are refused as attributes, whichever of them it is for. -/
theorem DigitBlock.kind_of_make {minInteger minDecimal : UInt32} {maxInteger maxDecimal : Option UInt32}
    {grouping : Bool} {e : FormatError}
    (h : make minInteger maxInteger minDecimal maxDecimal grouping = .error e) : e.kind = .invalidAttribute := by
  unfold make at h
  split at h
  · split at h
    · cases h
      rfl
    · split at h <;> cases h
      rfl
  · cases h
    rfl

namespace DigitCounts

variable {counts candidate : DigitCounts}

theorem exists_check_iff : (∃ block, counts.check = .ok block) ↔ counts.InRange := by
  constructor
  · intro h
    obtain ⟨block, hcheck⟩ := h
    rw [← check_eq_ok_iff.1 hcheck]
    exact block.inRange_counts
  · intro h
    obtain ⟨hone, hinteger, hdecimal⟩ := h
    exact DigitBlock.exists_make counts.grouping hone hinteger hdecimal

/-- What becomes of counts when a candidate is to take their place: it does if it passes the check. -/
def replaceBy (counts candidate : DigitCounts) : Except FormatError Unit × DigitCounts :=
  match candidate.check with
  | .ok _ => (.ok (), candidate)
  | .error e => (.error e, counts)

theorem replaceBy_of_inRange (h : candidate.InRange) : counts.replaceBy candidate = (.ok (), candidate) := by
  obtain ⟨block, hcheck⟩ := exists_check_iff.2 h
  rw [replaceBy, hcheck]

theorem replaceBy_of_not_inRange (h : ¬candidate.InRange) : ∃ e, candidate.check = .error e
    ∧ e.kind = .invalidAttribute ∧ counts.replaceBy candidate = (.error e, counts) := by
  cases hcheck : candidate.check with
  | ok block => exact absurd (exists_check_iff.1 ⟨block, hcheck⟩) h
  | error e =>
      refine ⟨e, rfl, DigitBlock.kind_of_make hcheck, ?_⟩
      rw [replaceBy, hcheck]

/-! ### Changes in place -/

inductive Field where
  | minInteger
  | maxInteger
  | minDecimal
  | maxDecimal
  | grouping
deriving DecidableEq

/-- Whether two counts are the same in a field. -/
def Field.Agrees (counts other : DigitCounts) : Field → Prop
  | minInteger => counts.minInteger = other.minInteger
  | maxInteger => counts.maxInteger = other.maxInteger
  | minDecimal => counts.minDecimal = other.minDecimal
  | maxDecimal => counts.maxDecimal = other.maxDecimal
  | grouping => counts.grouping = other.grouping

theorem Field.agrees_refl (counts : DigitCounts) (field : Field) : field.Agrees counts counts := by
  cases field <;> exact rfl

/-- A change to counts, with the value that it writes. -/
inductive Edit where
  | setDecimalPlaces (places : UInt32)
  | setGrouping (grouping : Bool)
  | setMinInteger (digits : UInt32)
  | setMaxInteger (digits : Option UInt32)
  | setMinDecimal (digits : UInt32)
  | setMaxDecimal (digits : Option UInt32)

/-- The change made on a copy, which takes the place of the counts if it passes the check. -/
def update (change : DigitCounts → DigitCounts) : StateM DigitCounts (Except FormatError Unit) := do
  let candidate := change (← get)
  match candidate.check with
  | .ok _ =>
    set candidate
    return .ok ()
  | .error e => return .error e

theorem run_update (change : DigitCounts → DigitCounts) (counts : DigitCounts) :
    ((update change).run counts).run = counts.replaceBy (change counts) := by
  cases hcheck : (change counts).check <;> simp [update, replaceBy, hcheck]

namespace Edit

def fields : Edit → List Field
  | setDecimalPlaces _ => [.minDecimal, .maxDecimal]
  | setGrouping _ => [.grouping]
  | setMinInteger _ => [.minInteger]
  | setMaxInteger _ => [.maxInteger]
  | setMinDecimal _ => [.minDecimal]
  | setMaxDecimal _ => [.maxDecimal]

/-- The counts with the value written, in range or not. -/
def write (edit : Edit) (counts : DigitCounts) : DigitCounts :=
  match edit with
  | setDecimalPlaces places => { counts with minDecimal := places, maxDecimal := some places }
  | setGrouping grouping => { counts with grouping }
  | setMinInteger digits => { counts with minInteger := digits }
  | setMaxInteger digits => { counts with maxInteger := digits }
  | setMinDecimal digits => { counts with minDecimal := digits }
  | setMaxDecimal digits => { counts with maxDecimal := digits }

def isChecked : Edit → Bool
  | setDecimalPlaces _ | setGrouping _ => false
  | _ => true

/-- The change in place. -/
def run (edit : Edit) : StateM DigitCounts (Except FormatError Unit) :=
  if edit.isChecked then update edit.write
  else do
    modify edit.write
    return .ok ()

/-- The change as an operation on blocks. -/
def result (block : DigitBlock) : Edit → Except FormatError DigitBlock
  | setDecimalPlaces places => .ok (block.setDecimalPlaces places)
  | setGrouping grouping => .ok (block.setGrouping grouping)
  | setMinInteger digits => block.setMinInteger digits
  | setMaxInteger digits => block.setMaxInteger digits
  | setMinDecimal digits => block.setMinDecimal digits
  | setMaxDecimal digits => block.setMaxDecimal digits

variable {edit : Edit}

/-! ### What a change does -/

theorem run_of_isChecked (hchecked : edit.isChecked = true) (counts : DigitCounts) :
    (edit.run.run counts).run = counts.replaceBy (edit.write counts) := by
  rw [run, if_pos hchecked, run_update]

theorem run_of_unchecked (hunchecked : edit.isChecked = false) (counts : DigitCounts) :
    (edit.run.run counts).run = (.ok (), edit.write counts) := by
  rw [run, if_neg (Bool.eq_false_iff.1 hunchecked)]
  rfl

/-- What is written without a check is in range with all that it leaves as it is. -/
theorem inRange_write (hunchecked : edit.isChecked = false) (h : counts.InRange) : (edit.write counts).InRange := by
  obtain ⟨hone, hinteger, hdecimal⟩ := h
  cases edit with
  | setDecimalPlaces places =>
      refine ⟨hone, hinteger, ?_⟩
      intro n hn
      cases hn
      exact UInt32.le_refl places
  | setGrouping grouping => exact ⟨hone, hinteger, hdecimal⟩
  | setMinInteger digits => cases hunchecked
  | setMaxInteger digits => cases hunchecked
  | setMinDecimal digits => cases hunchecked
  | setMaxDecimal digits => cases hunchecked

/-- On counts in range every change goes as if it were checked. -/
theorem run_of_inRange (h : counts.InRange) (edit : Edit) :
    (edit.run.run counts).run = counts.replaceBy (edit.write counts) := by
  cases hchecked : edit.isChecked with
  | true => exact run_of_isChecked hchecked counts
  | false =>
      -- The check that is left out would have passed.
      rw [run_of_unchecked hchecked, replaceBy_of_inRange (inRange_write hchecked h)]

theorem agrees_write (counts : DigitCounts) {field : Field} (hfield : field ∉ edit.fields) :
    field.Agrees (edit.write counts) counts := by
  cases edit <;> cases field <;> first | exact rfl | simp [fields] at hfield

theorem agrees_run (counts : DigitCounts) {field : Field} (hfield : field ∉ edit.fields) :
    field.Agrees (edit.run.run counts).run.2 counts := by
  cases hchecked : edit.isChecked with
  | false =>
      rw [run_of_unchecked hchecked]
      exact agrees_write counts hfield
  | true =>
      rw [run_of_isChecked hchecked, replaceBy]
      split
      · exact agrees_write counts hfield
      · exact field.agrees_refl counts

theorem run_counts (block : DigitBlock) (edit : Edit) :
    (edit.run.run block.counts).run = match edit.result block with
      | .ok changed => (.ok (), changed.counts)
      | .error e => (.error e, block.counts) := by
  cases hchecked : edit.isChecked with
  | false =>
      rw [run_of_unchecked hchecked]
      cases edit <;> first | rfl | cases hchecked
  | true =>
      have hresult : (edit.write block.counts).check = edit.result block := by
        cases edit <;> first | rfl | cases hchecked
      rw [run_of_isChecked hchecked, replaceBy, hresult]
      cases hblock : edit.result block with
      | error e => rfl
      | ok changed =>
          have hcounts : changed.counts = edit.write block.counts := check_eq_ok_iff.1 (hresult.trans hblock)
          show (Except.ok (), edit.write block.counts) = (Except.ok (), changed.counts)
          rw [hcounts]

end Edit

/-! ### Counts that come about -/

/-- Whether counts come about: by being checked, as those of the block of integers, by reading a text or stored data,
and by changes, which may be refused or not. -/
inductive Reachable : DigitCounts → Prop where
  | new {counts : DigitCounts} {block : DigitBlock} (h : counts.check = .ok block) : Reachable counts
  | integer : Reachable DigitBlock.integer.counts
  | read {text : List Char} {block : DigitBlock} (h : DigitBlock.read text = .ok block) : Reachable block.counts
  | stored {d : Data} {block : DigitBlock} (h : DigitBlock.ofData d = .ok block) : Reachable block.counts
  | edit {counts : DigitCounts} (h : Reachable counts) (edit : Edit) : Reachable (edit.run.run counts).run.2

theorem inRange_run (h : counts.InRange) (edit : Edit) : (edit.run.run counts).run.2.InRange := by
  rw [Edit.run_of_inRange h, replaceBy]
  split
  · next block hcheck => exact exists_check_iff.1 ⟨block, hcheck⟩
  · exact h

theorem inRange_of_reachable (h : Reachable counts) : counts.InRange := by
  induction h with
  | new h => exact exists_check_iff.1 ⟨_, h⟩
  | integer => exact DigitBlock.integer.inRange_counts
  | read h => exact DigitBlock.inRange_counts _
  | stored h => exact DigitBlock.inRange_counts _
  | edit h edit ih => exact inRange_run ih edit

/-- All counts that come about are in range. A change writes its value if the counts are in range with it; if not, it
is refused as an attribute and the counts are as they were. No change touches a field that it does not name. The
changes without a check are always made, and counts in range stay so. On the counts of a block, changes in place come
to the operations on blocks. -/
theorem digitRanges_kept :
    (∀ counts, Reachable counts → counts.InRange ∧ ∀ edit : Edit,
        ((edit.write counts).InRange → (edit.run.run counts).run = (.ok (), edit.write counts))
          ∧ (¬(edit.write counts).InRange → ∃ e, (edit.write counts).check = .error e ∧ e.kind = .invalidAttribute
            ∧ (edit.run.run counts).run = (.error e, counts)))
      ∧ (∀ (edit : Edit) (counts : DigitCounts), ∀ field ∉ edit.fields,
        field.Agrees (edit.run.run counts).run.2 counts)
      ∧ (∀ edit : Edit, edit.isChecked = false → ∀ counts, (edit.run.run counts).run = (.ok (), edit.write counts)
        ∧ (counts.InRange → (edit.write counts).InRange))
      ∧ ∀ (block : DigitBlock) (edit : Edit), (edit.run.run block.counts).run = match edit.result block with
        | .ok changed => (.ok (), changed.counts)
        | .error e => (.error e, block.counts) := by
  refine ⟨?_, ?_, ?_, Edit.run_counts⟩
  · intro counts hreachable
    have hrange := inRange_of_reachable hreachable
    refine ⟨hrange, ?_⟩
    intro edit
    rw [Edit.run_of_inRange hrange]
    exact ⟨replaceBy_of_inRange, replaceBy_of_not_inRange⟩
  · intro edit counts field hfield
    exact Edit.agrees_run counts hfield
  · intro edit hunchecked counts
    exact ⟨Edit.run_of_unchecked hunchecked counts, Edit.inRange_write hunchecked⟩

/-- A block of exactly two decimals: one is too few for its greatest number alone, but not for both numbers. -/
theorem digitRanges_kept_twoDecimals :
    ∃ block, DigitBlock.read "#,##0.00".toList = .ok block ∧ block.counts.InRange
      ∧ (∃ e, e.kind = .invalidAttribute
        ∧ ((Edit.setMaxDecimal (some 1)).run.run block.counts).run = (.error e, block.counts))
      ∧ ((Edit.setMaxDecimal none).run.run block.counts).run = (.ok (), ⟨1, none, 2, none, true⟩)
      ∧ ((Edit.setDecimalPlaces 1).run.run block.counts).run = (.ok (), ⟨1, none, 1, some 1, true⟩)
      ∧ Field.minInteger.Agrees ((Edit.setMinDecimal 9).run.run block.counts).run.2 block.counts := by
  have hread : DigitBlock.read "#,##0.00".toList
      = .ok ((DigitBlock.integer.setDecimalPlaces 2).setGrouping true) := by
    decide +kernel
  obtain ⟨hkept, hframe, hunchecked, -⟩ := digitRanges_kept
  obtain ⟨hrange, hedit⟩ := hkept _ (.read hread)
  refine ⟨_, hread, hrange, ?_, ?_, (hunchecked (.setDecimalPlaces 1) rfl _).1, ?_⟩
  · obtain ⟨e, -, hkind, hrun⟩ := (hedit (.setMaxDecimal (some 1))).2 fun h => absurd (h.2.2 1 rfl) (by decide)
    exact ⟨e, hkind, hrun⟩
  · refine (hedit (.setMaxDecimal none)).1 ⟨UInt32.le_refl 1, ?_, ?_⟩ <;>
      · intro n hn
        cases hn
  · exact hframe (.setMinDecimal 9) _ .minInteger (by decide)

end DigitCounts

end CellFormat
