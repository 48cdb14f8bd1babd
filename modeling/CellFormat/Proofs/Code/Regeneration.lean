import CellFormat.Proofs.Code.Printer
/-!
# Conditions of regenerated codes

A section that shows digits only is one digit block at most, since a run of placeholders is read to its end. So the
branches of a format without texts are read back from its code under their conditions. Two things can come in
between. A branch that is the only section of its code is no branch there, which happens to a branch beside an empty
primary section. And the digit blocks of several sections without a condition are parts of one primary section, which
is written with nothing between them: these are read as one block, or not at all.
-/

namespace CellFormat

variable {text code : List Char} {s : ReadSection} {f : Format}

/-! ### Parts without text -/

theorem isNumber_of_toPart {token : Token} {part : Part} (h : token.toPart = .ok part) :
    part.isNumber = token.isDigits := by
  cases token with
  | digits block =>
      obtain ⟨read, -, heq⟩ := bind_eq_ok_iff.1 h
      cases heq
      rfl
  | _ =>
      cases h
      rfl

theorem forall₂_of_mapM {tokens : List Token} {parts : List Part} (h : tokens.mapM Token.toPart = .ok parts) :
    List.Forall₂ (fun token part => token.toPart = .ok part) tokens parts := by
  induction tokens generalizing parts with
  | nil =>
      cases h
      exact .nil
  | cons token tokens ih =>
      rw [List.mapM_cons] at h
      obtain ⟨part, hpart, hrest⟩ := bind_eq_ok_iff.1 h
      obtain ⟨others, hothers, heq⟩ := bind_eq_ok_iff.1 hrest
      cases heq
      exact .cons hpart (ih hothers)

theorem map_isNumber_of_mapM {tokens : List Token} {parts : List Part} (h : tokens.mapM Token.toPart = .ok parts) :
    parts.map Part.isNumber = tokens.map Token.isDigits := by
  have hkinds : List.Forall₂ (· = ·) (tokens.map Token.isDigits) (parts.map Part.isNumber) :=
    List.forall₂_map_left_iff.2 (List.forall₂_map_right_iff.2
      ((forall₂_of_mapM h).imp fun _ _ hpart => (isNumber_of_toPart hpart).symm))
  rw [List.forall₂_eq_eq_eq] at hkinds
  exact hkinds.symm

theorem isChain_of_readParts {parts : List Part} (h : readParts text = .ok parts) :
    parts.IsChain fun left right => ¬(left.isNumber = true ∧ right.isNumber = true) := by
  have hchain : ((Token.tokens text).map Token.isDigits).IsChain fun left right => ¬(left = true ∧ right = true) :=
    (List.isChain_map Token.isDigits).2 (Token.isChain_tokens text)
  rw [← map_isNumber_of_mapM h] at hchain
  exact (List.isChain_map Part.isNumber).1 hchain

def Section.HasNoText (s : Section) : Prop := ∀ part ∈ s.parts, part.isNumber = true

instance : DecidablePred Section.HasNoText := fun s =>
  inferInstanceAs (Decidable (∀ part ∈ s.parts, part.isNumber = true))

theorem rereadable_of_isNumber {part : Part} (h : part.isNumber = true) : part.Rereadable := by
  cases part with
  | number block => trivial
  | text literal => cases h

/-! ### Sections of a code -/

namespace ReadSection

/-- What a section without text says is read back. -/
theorem rereadable_of_readSection (hread : readSection text = .ok s) (hnumbers : s.body.HasNoText) :
    s.Rereadable := by
  obtain ⟨header, hheader, hrest⟩ := bind_eq_ok_iff.1 hread
  obtain ⟨parts, hparts, heq⟩ := bind_eq_ok_iff.1 hrest
  have hwritable := Header.writable_of_readHeader hheader
  have hchain := isChain_of_readParts hparts
  cases heq
  refine ⟨⟨hwritable.color, ?_, fun part hpart => rereadable_of_isNumber (hnumbers part hpart)⟩, hwritable.condition⟩
  change parts.IsChain _
  change ∀ part ∈ parts, part.isNumber = true at hnumbers
  -- There is no room for a second part: it would be a number beside a number.
  cases parts with
  | nil => exact .nil
  | cons part parts =>
      cases parts with
      | nil => exact .singleton part
      | cons next parts =>
          refine absurd ⟨hnumbers part ?_, hnumbers next ?_⟩ (List.isChain_cons_cons.1 hchain).1
          · exact List.mem_cons_self
          · exact List.mem_cons_of_mem _ List.mem_cons_self

theorem nameable_of_readSection (hread : readSection text = .ok s) : ∀ color ∈ s.body.color, color.Nameable := by
  obtain ⟨header, hheader, hrest⟩ := bind_eq_ok_iff.1 hread
  obtain ⟨parts, -, heq⟩ := bind_eq_ok_iff.1 hrest
  cases heq
  exact (Header.writable_of_readHeader hheader).color

end ReadSection

namespace Format

def HasNoText (f : Format) : Prop := f.primary.HasNoText ∧ ∀ branch ∈ f.branches, branch.body.HasNoText

instance : DecidablePred HasNoText := fun f =>
  inferInstanceAs (Decidable (f.primary.HasNoText ∧ ∀ branch ∈ f.branches, branch.body.HasNoText))

/-! ### Formats of a code -/

/-- Whether the branches of a format can be written, and its primary section is digits and a colour. This is all
that a code without texts can describe. -/
structure FromDigits (f : Format) : Prop where
  few : f.sectionCount ≤ maxSections
  color : ∀ c ∈ f.primary.color, c.Nameable
  numbers : f.primary.HasNoText
  branches : ∀ branch ∈ f.branches, branch.body.Rereadable
  conditions : f.usesPositional Condition.Table.standard.conditions = true
    ∨ ∀ branch ∈ f.branches, branch.condition.comparator ≠ .isText

theorem nameable_primary (h : ofChars {} code = .ok f) : ∀ color ∈ f.primary.color, color.Nameable := by
  obtain ⟨placed, hread, rfl⟩ := exists_assemble_of_ofChars h
  obtain ⟨places, -, hplaces⟩ := places_of_readAll hread
  intro color hcolor
  obtain ⟨s, hs, hbody⟩ := List.mem_filterMap.1 (List.mem_of_getLast? hcolor)
  obtain ⟨i, -, text, said, -, hkept, rfl⟩ := exists_of_forall₂ hplaces s (List.mem_of_mem_filter hs)
  exact ReadSection.nameable_of_readSection (readKept_eq_some_iff.1 hkept).2 color hbody

theorem rereadable_branch (h : ofChars {} code = .ok f) (hnumbers : f.HasNoText) :
    ∀ branch ∈ f.branches, branch.body.Rereadable := by
  intro branch hbranch
  obtain ⟨places, -, ⟨-, hbranches⟩ | ⟨-, hbranches⟩⟩ := branches_of_ofChars h
  · obtain ⟨i, -, text, -, hread⟩ := exists_of_forall₂ hbranches branch hbranch
    exact (ReadSection.rereadable_of_readSection hread (hnumbers.2 branch hbranch)).body
  · obtain ⟨i, -, text, -, hread, -⟩ := exists_of_forall₂ hbranches branch hbranch
    exact (ReadSection.rereadable_of_readSection hread (hnumbers.2 branch hbranch)).body

/-- The conditions of branches are those of their places, or else they all have tags. -/
theorem usesPositional_or_tagged (h : ofChars {} code = .ok f) (hnumbers : f.HasNoText) :
    f.usesPositional Condition.Table.standard.conditions = true
      ∨ ∀ branch ∈ f.branches, branch.condition.comparator ≠ .isText := by
  obtain ⟨places, -, ⟨-, hbranches⟩ | ⟨htag, -⟩⟩ := branches_of_ofChars h
  · refine .inr fun branch hbranch => ?_
    obtain ⟨i, -, text, -, hread⟩ := exists_of_forall₂ hbranches branch hbranch
    exact (ReadSection.rereadable_of_readSection hread (hnumbers.2 branch hbranch)).condition _ rfl
  · have hfew : (sectionTexts code).length ≤ maxSections :=
      Nat.not_lt.1 fun hlt => not_overfull_of_ofChars h ⟨rfl, hlt⟩
    -- The only section of a code is no branch, so without a tag there are branches only in codes that are cut.
    rcases uncut_or_eq_append .plain code with huncut | ⟨first, rest, hcode, hfirst, hrun⟩
    · rw [(readKept_of_ofChars rfl huncut h).1]
      exact .inr nofun
    · have hleast : 2 ≤ (sectionTexts code).length := by
        have hpos := List.length_pos_iff.2 (sectionTexts_ne_nil rest)
        rw [hcode, sectionTexts_append_semicolon hfirst hrun, List.length_cons]
        omega
      obtain ⟨bodies, hlength, rfl⟩ := ofChars_positional h htag hleast hfew
      exact .inl (usesPositional_zipWith (hlength ▸ hleast) (hlength ▸ hfew))

theorem fromDigits_of_ofChars (h : ofChars {} code = .ok f) (hnumbers : f.HasNoText) : f.FromDigits where
  few := sectionCount_le_of_ofChars h
  color := nameable_primary h
  numbers := hnumbers.1
  branches := rereadable_branch h hnumbers
  conditions := usesPositional_or_tagged h hnumbers

end Format

/-! ### The primary section -/

namespace Section

variable {s : Section}

theorem isPlaceholder_of_mem_write (hnumbers : s.HasNoText) :
    ∀ c ∈ s.parts.flatMap Part.write, DigitBlock.isPlaceholder c = true := by
  intro c hc
  obtain ⟨part, hpart, hc⟩ := List.mem_flatMap.1 hc
  cases part with
  | number block => exact block.isPlaceholder_of_mem_write hc
  | text literal => cases hnumbers _ hpart

theorem rereadable_parts (hnumbers : s.HasNoText) : ∀ part ∈ s.parts, part.Rereadable :=
  fun part hpart => rereadable_of_isNumber (hnumbers part hpart)

theorem exists_readParts_iff {digits : List Char} (hdigits : ∀ c ∈ digits, DigitBlock.isPlaceholder c = true) :
    (∃ parts, readParts digits = .ok parts) ↔ ∃ block, DigitBlock.read digits = .ok block := by
  by_cases hne : digits = []
  · have hparts : readParts [] = .ok [] := by
      rw [readParts, Token.tokens]
      rfl
    rw [hne]
    exact iff_of_true ⟨[], hparts⟩ ⟨.integer, by decide +kernel⟩
  · have htokens := Token.tokens_digits hne hdigits (stops_nil _)
    rw [List.append_nil, Token.tokens] at htokens
    rw [readParts, htokens]
    cases hread : DigitBlock.read digits with
    | error e => simp [Token.toPart, hread, bind, Except.bind]
    | ok block => simp [Token.toPart, hread, bind, Except.bind, pure, Except.pure]

variable (hcolor : ∀ c ∈ s.color, c.Nameable) (hnumbers : s.HasNoText)
include hcolor hnumbers

theorem readSection_write_none : readSection (s.write none)
    = (readParts (s.parts.flatMap Part.write)).map fun parts => ⟨none, parts, s.color⟩ :=
  readSection_write hcolor (rereadable_parts hnumbers) nofun

theorem exists_readSection_iff : (∃ said, readSection (s.write none) = .ok said)
    ↔ ∃ block, DigitBlock.read (s.parts.flatMap Part.write) = .ok block := by
  rw [← exists_readParts_iff (isPlaceholder_of_mem_write hnumbers), readSection_write_none hcolor hnumbers]
  cases readParts (s.parts.flatMap Part.write) <;> simp [Except.map]

theorem condition_of_readSection_write {said : ReadSection} (hread : readSection (s.write none) = .ok said) :
    said.condition = none := by
  rw [readSection_write_none hcolor hnumbers] at hread
  cases hparts : readParts (s.parts.flatMap Part.write) with
  | error e => simp [hparts, Except.map] at hread
  | ok parts =>
      rw [hparts] at hread
      cases hread
      rfl

end Section

namespace Format

/-! ### Formats written again -/

/-- Whether the code of a format is read under the same conditions. -/
def KeepsConditions (f : Format) : Prop :=
  ∃ f', parse f.toCode = .ok f' ∧ f'.branches.map Branch.condition = f.branches.map Branch.condition

theorem keepsConditions_iff : f.KeepsConditions ↔ ∃ f', ofChars {} (joinSections f.writeSections) = .ok f'
    ∧ f'.branches.map Branch.condition = f.branches.map Branch.condition := by
  rw [KeepsConditions, parse, toCode, String.toList_ofList]

theorem isPiece_primary (h : f.FromDigits) : IsPiece (f.primary.write none) :=
  Section.isPiece_write h.color (Section.rereadable_parts h.numbers) nofun

theorem keepsConditions_of_alone (h : f.FromDigits) (hbranches : f.branches = []) :
    f.KeepsConditions ↔ ∃ said, readSection (f.primary.write none) = .ok said := by
  have hwrite : joinSections f.writeSections = f.primary.write none := by
    simp [writeSections, hbranches, joinSections]
  rw [keepsConditions_iff, hwrite, ofChars_of_uncut (isPiece_primary h).uncut, hbranches, readKept,
    if_neg (isPiece_primary h).one_line]
  cases readSection (f.primary.write none) <;> simp [Except.map]

/-- The condition of a branch is lost where the branch is the only section that is written. -/
theorem branches_of_lone {branch : Branch} {f' : Format} (hempty : f.primary.isEmpty = true)
    (hbranches : f.branches = [branch]) (htagged : branch.toReadSection.Rereadable)
    (hread : ofChars {} (joinSections f.writeSections) = .ok f') : f'.branches = [] := by
  have hpiece := ReadSection.isPiece_write htagged
  have hwrite : joinSections f.writeSections = branch.toReadSection.write := by
    simp [writeSections, usesPositional, hempty, hbranches, joinSections, ReadSection.write, Branch.toReadSection]
  rw [hwrite] at hread
  exact (readKept_of_ofChars rfl hpiece.uncut hread).1

/-- Branches beside an empty primary section are read again, unless there is only one. -/
theorem keepsConditions_of_isEmpty (h : f.FromDigits) (hempty : f.primary.isEmpty = true) :
    f.KeepsConditions ↔ f.branches.length ≠ 1 := by
  rw [keepsConditions_iff]
  constructor
  · rintro ⟨f', hread, hkept⟩ hone
    obtain ⟨branch, hbranch⟩ := List.length_eq_one_iff.1 hone
    have htagged : ∀ branch ∈ f.branches, branch.condition.comparator ≠ .isText :=
      h.conditions.resolve_left (by simp [usesPositional, hbranch])
    have hrereadable := rereadable_of_mem_branches h.branches htagged branch.toReadSection (by simp [hbranch])
    rw [branches_of_lone hempty hbranch hrereadable hread, hbranch] at hkept
    cases hkept
  · intro hne
    have hprimary : f.primary.Rereadable := by
      rw [isEmpty_eq_true hempty]
      exact Section.rereadable_empty
    have hformat : f.Rereadable :=
      ⟨h.few, hprimary, h.branches, h.conditions.imp_right fun htagged => ⟨htagged, fun hone => hne hone.1⟩⟩
    refine ⟨f.reread, ofChars_write hformat, ?_⟩
    simp [reread, Branch.reread]

/-! ### Branches beside a primary section -/

section Tagged

variable (h : f.FromDigits) (hempty : f.primary.isEmpty = false)

theorem writeSections_of_not_isEmpty (hempty : f.primary.isEmpty = false) : f.writeSections
    = (f.branches.map Branch.toReadSection).map ReadSection.write ++ [f.primary.write none] := by
  simp [writeSections, usesPositional, hempty, ReadSection.write, Branch.toReadSection]

include h hempty

theorem rereadable_of_not_isEmpty : ∀ s ∈ f.branches.map Branch.toReadSection, s.Rereadable :=
  rereadable_of_mem_branches h.branches (h.conditions.resolve_left (by simp [usesPositional, hempty]))

/-- The first branch has a tag, so that no section gets a condition by its position. -/
theorem ofChars_writeSections (hbranches : f.branches ≠ []) :
    ofChars {} (joinSections f.writeSections) = (readAll {} false [] f.writeSections).map assemble := by
  have hplaced := rereadable_of_not_isEmpty h hempty
  have hwrite := writeSections_of_not_isEmpty hempty
  have hpieces : ∀ text ∈ f.writeSections, IsPiece text := by
    intro text htext
    rw [hwrite] at htext
    rcases List.mem_append.1 htext with hbranch | hlast
    · exact ReadSection.isPiece_of_mem_map_write hplaced text hbranch
    · rw [List.mem_singleton.1 hlast]
      exact isPiece_primary h
  have hlength : f.writeSections.length = f.branches.length + 1 := by
    simp [hwrite]
  have hfew : f.branches.length + 1 ≤ maxSections := by
    simpa [sectionCount, hempty] using h.few
  have hpos := List.length_pos_iff.2 hbranches
  have htag : f.writeSections.any hasConditionTag = true := by
    obtain ⟨branch, branches, hcons⟩ := List.exists_cons_of_ne_nil hbranches
    have hfirst := ReadSection.hasConditionTag_write (hplaced branch.toReadSection (by simp [hcons]))
    rw [hwrite, hcons]
    simp [hfirst]
  rw [ofChars_of_isPiece hpieces (by omega) (by omega), htag, if_pos rfl]

/-- Branches beside a primary section are read again if the primary section is read at all. -/
theorem keepsConditions_of_tagged (hbranches : f.branches ≠ []) :
    f.KeepsConditions ↔ ∃ said, readSection (f.primary.write none) = .ok said := by
  have hwrite := writeSections_of_not_isEmpty hempty
  rw [keepsConditions_iff, ofChars_writeSections h hempty hbranches]
  constructor
  · rintro ⟨f', hread, -⟩
    cases hplaced : readAll {} false [] f.writeSections with
    | error e => simp [hplaced, Except.map] at hread
    | ok placed =>
        obtain ⟨read, hall⟩ := forall₂_of_readAll rfl hplaced
        have hmem : f.primary.write none ∈ f.writeSections := by simp [hwrite]
        obtain ⟨said, -, hsaid⟩ := exists_of_forall₂ hall.flip _ hmem
        exact ⟨said, (readKept_eq_some_iff.1 hsaid).2⟩
  · rintro ⟨said, hsaid⟩
    have hall : List.Forall₂ (fun text s => readKept {} text = .ok (some s)) f.writeSections
        ((f.branches.map Branch.toReadSection).map ReadSection.reread ++ [said]) := by
      rw [hwrite]
      refine List.rel_append (ReadSection.forall₂_write (rereadable_of_not_isEmpty h hempty)) (.cons ?_ .nil)
      exact readKept_eq_some_iff.2 ⟨(isPiece_primary h).one_line, hsaid⟩
    have hnone := Section.condition_of_readSection_write h.color h.numbers hsaid
    rw [readAll_of_forall₂ hall, mapIdx_assign_nil]
    refine ⟨_, rfl, ?_⟩
    rw [map_condition_assemble, List.filterMap_append]
    simp [ReadSection.reread, Branch.toReadSection, hnone, Function.comp_def]

end Tagged

/-! ### Regenerated codes -/

/-- A branch beside an empty primary section. -/
def loneBranch : Format := { branches := [⟨.againstZero .greaterThan, { parts := [.number .integer] }⟩] }

/-- A branch beside a primary section of two digit blocks with decimals. -/
def decimalsTwice : Format :=
  let decimals := DigitBlock.integer.setDecimalPlaces 1
  { loneBranch with primary := { parts := [.number decimals, .number decimals] } }

/-- The condition of a section that is written alone is not read, and two points do not make a digit block. -/
theorem not_keepsConditions :
    (parse "[>0]0;" = .ok loneBranch ∧ loneBranch.HasNoText ∧ ¬loneBranch.KeepsConditions)
      ∧ parse "[>0]0;0.0;0.0" = .ok decimalsTwice ∧ decimalsTwice.HasNoText ∧ ¬decimalsTwice.KeepsConditions := by
  have hlone : parse loneBranch.toCode = .ok ⟨⟨[.number .integer], none⟩, []⟩ := by decide +kernel
  have htwice : parse decimalsTwice.toCode = .error (.unexpectedBlock "0.00.0") := by decide +kernel
  refine ⟨⟨by decide +kernel, by decide, ?_⟩, by decide +kernel, by decide, ?_⟩
  · rintro ⟨f', hread, hkept⟩
    rw [hlone] at hread
    cases hread
    cases hkept
  · rintro ⟨f', hread, -⟩
    rw [htwice] at hread
    cases hread

/-- The code of a format that was read from a code and has no text keeps the conditions, unless there is one branch
beside an empty primary section, or the digit blocks of the primary section are no block when written side by side. -/
theorem keepsConditions_of_parse_iff {code : String} (h : parse code = .ok f) (hnumbers : f.HasNoText) :
    f.KeepsConditions ↔ ¬(f.branches.length = 1 ∧ f.primary.isEmpty = true)
      ∧ ∃ block, DigitBlock.read (f.primary.parts.flatMap Part.write) = .ok block := by
  have hdigits := fromDigits_of_ofChars h hnumbers
  rw [← Section.exists_readSection_iff hdigits.color hdigits.numbers]
  by_cases hbranches : f.branches = []
  · rw [keepsConditions_of_alone hdigits hbranches]
    simp [hbranches]
  · cases hempty : f.primary.isEmpty with
    | true =>
        have hprimary : ∃ said, readSection (f.primary.write none) = .ok said := by
          rw [Section.exists_readSection_iff hdigits.color hdigits.numbers, isEmpty_eq_true hempty]
          exact ⟨.integer, by decide +kernel⟩
        rw [keepsConditions_of_isEmpty hdigits hempty]
        simp [hprimary]
    | false =>
        rw [keepsConditions_of_tagged hdigits hempty hbranches]
        simp

/-- A branch beside a primary section of two digit blocks that make one together. -/
def integerTwice : Format := { loneBranch with primary := { parts := [.number .integer, .number .integer] } }

theorem keepsConditions_integerTwice :
    parse "[>0]0;0;0" = .ok integerTwice ∧ integerTwice.HasNoText ∧ integerTwice.KeepsConditions := by
  have hread : parse "[>0]0;0;0" = .ok integerTwice := by decide +kernel
  have hnumbers : integerTwice.HasNoText := by decide
  have hblock : ∃ block, DigitBlock.read (integerTwice.primary.parts.flatMap Part.write) = .ok block :=
    ⟨{ DigitBlock.integer with minInteger := 2, one_le_minInteger := by decide, minInteger_le := nofun },
      by decide +kernel⟩
  exact ⟨hread, hnumbers, (keepsConditions_of_parse_iff hread hnumbers).2 ⟨by decide, hblock⟩⟩

end Format

end CellFormat
