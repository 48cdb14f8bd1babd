import CellFormat.Proofs.Code.Parser
import CellFormat.Proofs.Code.Refusals
/-!
# What strict readers refuse

A reader asks whether it is strict at two points: once for the number of sections, and at each section that spans a
line feed. So on a code of few sections without a line feed it makes no difference. A strict reader refuses all other
codes, though not always for that reason, as one of the sections in front may be wrong in another way. Whatever a code
is refused for, it is an invalid format: the counts of a digit block, which are checked like those of any other block,
are never wrong.
-/

namespace CellFormat.Format

variable {options other : ParseOptions} {alone : Bool} {positional : List Condition} {texts : List (List Char)}
  {code : List Char} {f : Format} {e : FormatError}

/-! ### Sections without line feeds -/

theorem readKept_of_not_mem {text : List Char} (hline : '\n' ∉ text) :
    readKept options text = (readSection text).map some := if_neg hline

theorem readAll_congr (hlines : ∀ text ∈ texts, '\n' ∉ text) :
    readAll options alone positional texts = readAll other alone positional texts := by
  induction texts generalizing positional with
  | nil => rfl
  | cons text texts ih =>
      have htext := hlines text List.mem_cons_self
      have hrest := @ih positional.tail fun t ht => hlines t (List.mem_cons_of_mem _ ht)
      rw [readAll, readAll, readKept_of_not_mem htext, readKept_of_not_mem htext, hrest]

/-! ### Codes that both readers read alike -/

/-- Whether the code has no more sections than a format holds, and no line feed. -/
def IsPlain (code : List Char) : Prop := (sectionTexts code).length ≤ maxSections ∧ '\n' ∉ code

theorem IsPlain.not_overfull (h : IsPlain code) (options : ParseOptions) : ¬Overfull options code := by
  intro hoverfull
  exact Nat.not_lt.2 h.1 hoverfull.2

/-- On plain codes only the table of conditions makes a difference. -/
theorem IsPlain.ofChars_congr (h : IsPlain code) (htable : options.table = other.table) :
    ofChars options code = ofChars other code := by
  have hlines : ∀ text ∈ (sectionTexts code).take maxSections, '\n' ∉ text := by
    intro text htext hline
    exact h.2 ((mem_code_iff (by decide)).2 ⟨text, List.mem_of_mem_take htext, hline⟩)
  rw [ofChars_eq (h.not_overfull options), ofChars_eq (h.not_overfull other), htable]
  rw [readAll_congr hlines]

theorem isPlain_of_ofChars (hstrict : options.strict = true) (h : ofChars options code = .ok f) : IsPlain code := by
  refine ⟨?_, ?_⟩
  · refine Nat.not_lt.1 ?_
    intro hmany
    exact not_overfull_of_ofChars h ⟨hstrict, hmany⟩
  · intro hline
    obtain ⟨text, htext, hmem⟩ := (mem_code_iff (by decide)).1 hline
    exact (exists_readSection_of_ofChars hstrict h text htext).1 hmem

/-! ### Refusals -/

theorem kind_of_ofChars (h : ofChars options code = .error e) : e.kind = .invalidFormat := by
  rcases error_of_ofChars h with ⟨-, hmany⟩ | ⟨-, hsection⟩
  · rw [hmany]
    rfl
  · exact kind_of_isOfSection hsection

/-- A strict and a lenient reader come to the same on codes of at most four sections without line feeds, and a strict
reader refuses all others; so what it reads, a lenient one reads as well. Neither ever refuses a code for anything but
its format, not even where the counts of each digit block are checked. -/
theorem strict_agrees (table : Condition.Table) (code : List Char) :
    ((sectionTexts code).length ≤ 4 → '\n' ∉ code →
        ofChars { strict := true, table } code = ofChars { strict := false, table } code)
      ∧ (¬((sectionTexts code).length ≤ 4 ∧ '\n' ∉ code) → ∃ e, ofChars { strict := true, table } code = .error e)
      ∧ (∀ f, ofChars { strict := true, table } code = .ok f → ofChars { strict := false, table } code = .ok f)
      ∧ (∀ strict e, ofChars { strict, table } code = .error e → e.kind = .invalidFormat)
      ∧ ∀ block, DigitBlock.readChecked block = DigitBlock.read block := by
  refine ⟨?_, ?_, ?_, ?_, DigitBlock.readChecked_eq_read⟩
  · intro hfew hline
    exact IsPlain.ofChars_congr ⟨hfew, hline⟩ rfl
  · intro hnot
    cases hread : ofChars { strict := true, table } code with
    | ok f => exact absurd (isPlain_of_ofChars rfl hread) hnot
    | error e => exact ⟨e, rfl⟩
  · intro f hread
    have hsame : ofChars { strict := true, table } code = ofChars { strict := false, table } code :=
      (isPlain_of_ofChars rfl hread).ofChars_congr rfl
    rw [← hsame]
    exact hread
  · intro strict e hread
    exact kind_of_ofChars hread

/-- A code that both readers refuse, one with a quoted line feed, and one that both read. -/
theorem strict_agrees_quotedLineFeed :
    (∃ e, ofChars { strict := true, table := .standard } "0;[>x]0".toList = .error e
        ∧ ofChars { strict := false, table := .standard } "0;[>x]0".toList = .error e ∧ e.kind = .invalidFormat)
      ∧ (∃ e, ofChars { strict := true, table := .legacy } "0;\"a\nb\"".toList = .error e ∧ e.kind = .invalidFormat)
      ∧ ∃ f, ofChars { strict := true, table := .standard } "0;[Red]0.0".toList = .ok f
        ∧ ofChars { strict := false, table := .standard } "0;[Red]0.0".toList = .ok f := by
  refine ⟨?_, ?_, ?_⟩
  · obtain ⟨hsame, -, -, hkind, -⟩ := strict_agrees .standard "0;[>x]0".toList
    have hread : ofChars { strict := true, table := .standard } "0;[>x]0".toList
        = .error (.nonNumericThreshold "x") := by
      decide +kernel
    rw [← hsame (by decide) (by decide)]
    exact ⟨_, hread, hread, hkind true _ hread⟩
  · obtain ⟨-, hrefused, -, hkind, -⟩ := strict_agrees .legacy "0;\"a\nb\"".toList
    obtain ⟨e, hread⟩ := hrefused (by decide)
    exact ⟨e, hread, hkind true e hread⟩
  · obtain ⟨-, -, hlenient, -⟩ := strict_agrees .standard "0;[Red]0.0".toList
    have hread : ∃ f, ofChars { strict := true, table := .standard } "0;[Red]0.0".toList = .ok f := by
      refine ⟨⟨{}, [⟨.againstZero .lessThan, [.number .integer], none⟩,
        ⟨.againstZero .greaterThan, [.number (DigitBlock.integer.setDecimalPlaces 1)], some .red⟩]⟩, ?_⟩
      decide +kernel
    obtain ⟨f, hf⟩ := hread
    exact ⟨f, hf, hlenient f hf⟩

end CellFormat.Format
