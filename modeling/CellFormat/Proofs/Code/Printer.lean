import CellFormat.Proofs.Code.Parser
import CellFormat.Proofs.Code.Pieces
/-!
# Formats read back

A format is written as a code that is read as the same format, if its texts do not run into what the code
says otherwise. Digit blocks come back in normal form, and a text with double quote marks that has to be
quoted comes back in pieces.
-/

namespace CellFormat

/-! ### Parts -/

namespace Part

def isNumber : Part → Bool
  | number _ => true
  | text _ => false

/-- The parts that a part is read as once it is written. -/
def reread : Part → List Part
  | number block => [number block.normal]
  | text literal =>
    if mustQuote literal.toList ∧ '"' ∈ literal.toList then quotedParts literal.toList else [text literal]

/-- Whether the part is read back. A text that is not quoted must not look like anything else. -/
def Rereadable : Part → Prop
  | number _ => True
  | text literal =>
    literal.toList ≠ [] ∧ '\n' ∉ literal.toList ∧ (mustQuote literal.toList = true ∨ IsBare literal.toList)

variable {part : Part} {rest : List Char}

theorem write_text_of_mustQuote {literal : String} (h : mustQuote literal.toList = true) :
    (text literal).write = quote literal.toList := by
  rw [write, writeText, if_pos h]

theorem write_text_of_bare {literal : String} (h : mustQuote literal.toList = false) :
    (text literal).write = literal.toList := by
  rw [write, writeText, h]
  rfl

theorem isBare_of_rereadable {literal : String} (h : (text literal).Rereadable)
    (hquote : mustQuote literal.toList = false) : IsBare literal.toList := by
  obtain ⟨-, -, hquote' | hbare⟩ := h
  · rw [hquote] at hquote'
    cases hquote'
  · exact hbare

theorem isPiece_write (h : part.Rereadable) : IsPiece part.write := by
  cases part with
  | number block => exact isPiece_block block
  | text literal =>
      cases hquote : mustQuote literal.toList with
      | true =>
          rw [write_text_of_mustQuote hquote]
          exact isPiece_quote h.2.1
      | false =>
          rw [write_text_of_bare hquote]
          exact isPiece_bare hquote (isBare_of_rereadable h hquote) h.2.1

theorem silent_write (h : part.Rereadable) : Silent .plain part.write := by
  cases part with
  | number block => exact silent_block block
  | text literal =>
      cases hquote : mustQuote literal.toList with
      | true =>
          rw [write_text_of_mustQuote hquote]
          exact silent_quote h.2.1
      | false =>
          rw [write_text_of_bare hquote]
          exact silent_of_bracket _ (isBare_of_rereadable h hquote).bracket

theorem head_write (h : part.Rereadable) :
    ∃ c cs, part.write = c :: cs ∧ DigitBlock.isPlaceholder c = part.isNumber := by
  cases part with
  | number block =>
      obtain ⟨c, cs, hwrite⟩ := List.exists_cons_of_ne_nil block.write_ne_nil
      refine ⟨c, cs, hwrite, block.isPlaceholder_of_mem_write ?_⟩
      rw [hwrite]
      exact List.mem_cons_self
  | text literal =>
      cases hquote : mustQuote literal.toList with
      | true =>
          obtain ⟨c, cs, hchars, hc⟩ := head_quote h.1
          rw [write_text_of_mustQuote hquote]
          refine ⟨c, cs, hchars, ?_⟩
          rcases hc with rfl | rfl <;> rfl
      | false =>
          obtain ⟨c, cs, hchars⟩ := List.exists_cons_of_ne_nil h.1
          rw [write_text_of_bare hquote]
          refine ⟨c, cs, hchars, not_placeholder_of_bare hquote c ?_⟩
          rw [hchars]
          exact List.mem_cons_self

theorem untagged_dollar (rest : List Char) : Header.Untagged ('[' :: '$' :: rest) := by
  intro content behind hgroup
  obtain ⟨heq, -⟩ := bracketGroup?_eq_some_iff.1 hgroup
  cases content with
  | nil => simp at heq
  | cons c cs =>
      have hc : '$' = c := by
        simp only [List.cons_append, List.cons.injEq, true_and] at heq
        exact heq.1
      rw [← hc]
      refine ⟨Option.eq_none_iff_forall_ne_some.2 fun color hname => ?_, stops_cons rfl _⟩
      cases Color.isAlphanum_of_ofName? hname '$' List.mem_cons_self

theorem untagged_write (h : part.Rereadable) (rest : List Char) : Header.Untagged (part.write ++ rest) := by
  cases part with
  | number block =>
      obtain ⟨c, cs, hwrite, hc⟩ := head_write h
      rw [hwrite]
      refine Header.untagged_of_head fun hhead => ?_
      cases hhead
      cases hc
  | text literal =>
      cases hquote : mustQuote literal.toList with
      | true =>
          obtain ⟨c, cs, hchars, hc⟩ := head_quote h.1
          rw [write_text_of_mustQuote hquote, hchars]
          refine Header.untagged_of_head fun hhead => ?_
          cases hhead
          rcases hc with hc | hc <;> cases hc
      | false =>
          have hbare := isBare_of_rereadable h hquote
          obtain ⟨c, cs, hchars⟩ := List.exists_cons_of_ne_nil h.1
          rw [write_text_of_bare hquote, hchars]
          by_cases hc : c = '['
          · have hhead := hbare.bracket [] cs (by rw [hchars, hc]; rfl)
            obtain ⟨behind, rfl⟩ : ∃ behind, cs = '$' :: behind := List.head?_eq_some_iff.1 hhead
            rw [hc]
            exact untagged_dollar _
          · exact Header.untagged_of_head fun hhead => hc (Option.some.inj hhead)

theorem quotedParts_of_not_mem {literal : String} (hne : literal.toList ≠ []) (h : '"' ∉ literal.toList) :
    quotedParts literal.toList = [text literal] := by
  simp [quotedParts, splitQuotes_of_not_mem h, runParts, hne]

def chars : Part → List Char
  | number _ => []
  | text literal => literal.toList

theorem flatMap_chars_runParts (run : List Char) : (runParts run).flatMap chars = run := by
  cases run with
  | nil => rfl
  | cons c cs => simp [runParts, chars]

theorem flatMap_chars_reread (literal : String) : (text literal).reread.flatMap chars = literal.toList := by
  by_cases h : mustQuote literal.toList ∧ '"' ∈ literal.toList
  · have hpieces : (quotedParts literal.toList).flatMap chars = literal.toList := by
      have hmark : ∀ run, (text "\"" :: runParts run).flatMap chars = '"' :: run := by
        intro run
        rw [List.flatMap_cons, flatMap_chars_runParts]
        rfl
      rw [quotedParts, List.flatMap_append, flatMap_chars_runParts, List.flatMap_assoc]
      simp only [hmark]
      exact splitQuotes_flatten _
    rwa [reread, if_pos h]
  · rw [reread, if_neg h]
    simp [chars]

/-- A written part is read as its parts where the next one is of the other kind. -/
theorem readsAs_write (h : part.Rereadable)
    (hrest : Stops (fun c => DigitBlock.isPlaceholder c == part.isNumber) rest) :
    ReadsAs part.write part.reread rest := by
  cases part with
  | number block =>
      refine readsAs_block block fun c hc => ?_
      simpa [isNumber] using hrest c hc
  | text literal =>
      cases hquote : mustQuote literal.toList with
      | true =>
          have hreread : (text literal).reread = quotedParts literal.toList := by
            by_cases hmark : '"' ∈ literal.toList
            · exact if_pos ⟨hquote, hmark⟩
            · rw [quotedParts_of_not_mem h.1 hmark]
              exact if_neg fun hmem => hmark hmem.2
          rw [write_text_of_mustQuote hquote, hreread]
          exact readsAs_quote _ _
      | false =>
          have hreread : (text literal).reread = [text (.ofList literal.toList)] := by
            rw [String.ofList_toList]
            refine if_neg fun hmem => ?_
            rw [hquote] at hmem
            cases hmem.1
          rw [write_text_of_bare hquote, hreread]
          refine readsAs_bare h.1 hquote (isBare_of_rereadable h hquote) fun c hc => ?_
          simpa [isNumber] using hrest c hc

end Part

/-! ### Sections -/

namespace Section

/-- Whether the section is read back. Parts of one kind side by side would run together. -/
structure Rereadable (s : Section) : Prop where
  color : ∀ c ∈ s.color, c.Nameable
  alternating : s.parts.IsChain fun left right => left.isNumber ≠ right.isNumber
  parts : ∀ part ∈ s.parts, part.Rereadable

def reread (s : Section) : Section := { s with parts := s.parts.flatMap Part.reread }

theorem rereadable_empty : Rereadable {} where
  color c hc := absurd hc (Option.not_mem_none c)
  alternating := .nil
  parts := List.forall_mem_nil _

variable {s : Section}

theorem readsAs_parts {parts : List Part}
    (halternating : parts.IsChain fun left right => left.isNumber ≠ right.isNumber)
    (hparts : ∀ part ∈ parts, part.Rereadable) :
    ReadsAs (parts.flatMap Part.write) (parts.flatMap Part.reread) [] := by
  induction parts with
  | nil => exact readsAs_nil []
  | cons part parts ih =>
      have hpart := hparts part List.mem_cons_self
      have htail : ∀ p ∈ parts, p.Rereadable := fun p hp => hparts p (List.mem_cons_of_mem _ hp)
      rw [List.flatMap_cons, List.flatMap_cons]
      cases parts with
      | nil => exact (Part.readsAs_write hpart (stops_nil _)).append (readsAs_nil [])
      | cons next parts =>
          obtain ⟨hne, hchain⟩ := List.isChain_cons_cons.1 halternating
          obtain ⟨c, cs, hwrite, hc⟩ := Part.head_write (htail next List.mem_cons_self)
          refine (Part.readsAs_write hpart ?_).append (ih hchain htail)
          rw [List.flatMap_cons, hwrite]
          refine stops_cons ?_ _
          rw [hc]
          exact beq_false_of_ne hne.symm

theorem readParts_flatMap_write (h : s.Rereadable) :
    readParts (s.parts.flatMap Part.write) = .ok s.reread.parts := by
  have hreads := readsAs_parts h.alternating h.parts
  have hnil : readParts [] = .ok [] := by
    rw [readParts, Token.tokens]
    rfl
  unfold ReadsAs at hreads
  rw [List.append_nil, hnil] at hreads
  simpa [Except.map, reread] using hreads

theorem untagged_parts (hparts : ∀ part ∈ s.parts, part.Rereadable) :
    Header.Untagged (s.parts.flatMap Part.write) := by
  cases hcons : s.parts with
  | nil => exact Header.untagged_of_head nofun
  | cons part parts =>
      rw [List.flatMap_cons]
      refine Part.untagged_write (hparts part ?_) _
      rw [hcons]
      exact List.mem_cons_self

variable {condition : Option Condition}

theorem readSection_write (hcolor : ∀ c ∈ s.color, c.Nameable) (hparts : ∀ part ∈ s.parts, part.Rereadable)
    (hcondition : ∀ c ∈ condition, c.comparator ≠ .isText) :
    readSection (s.write condition)
      = (readParts (s.parts.flatMap Part.write)).map fun parts => ⟨condition, parts, s.color⟩ := by
  rw [readSection, write, readHeader_write hcolor hcondition (untagged_parts hparts)]
  rfl

theorem isPiece_write (hcolor : ∀ c ∈ s.color, c.Nameable) (hparts : ∀ part ∈ s.parts, part.Rereadable)
    (hcondition : ∀ c ∈ condition, c.comparator ≠ .isText) : IsPiece (s.write condition) := by
  have hcolorTag : IsPiece (s.color.elim [] Color.writeTag) := by
    cases hsome : s.color with
    | none => exact .nil
    | some color => exact isPiece_colorTag (hcolor color hsome)
  have hconditionTag : IsPiece (condition.elim [] Condition.writeTag) := by
    cases condition with
    | none => exact .nil
    | some condition => exact isPiece_conditionTag (hcondition condition rfl)
  exact (hcolorTag.append hconditionTag).append (.flatMap fun part hpart => Part.isPiece_write (hparts part hpart))

theorem hasConditionTag_write_none (hcolor : ∀ c ∈ s.color, c.Nameable)
    (hparts : ∀ part ∈ s.parts, part.Rereadable) : hasConditionTag (s.write none) = false := by
  have hsilentParts : Silent .plain (s.parts.flatMap Part.write) :=
    silent_flatMap fun part hpart => ⟨Part.isPiece_write (hparts part hpart), Part.silent_write (hparts part hpart)⟩
  have hsilent : Silent .plain (s.write none) := by
    unfold write
    rw [Option.elim_none, List.append_nil]
    cases hsome : s.color with
    | none => exact hsilentParts
    | some color =>
        have hnameable := hcolor color hsome
        refine (silent_colorTag hnameable).append ?_
        rw [(isPiece_colorTag hnameable).run]
        exact hsilentParts
  have hwhole := hsilent []
  rwa [List.append_nil] at hwhole

end Section

/-! ### Codes of pieces -/

namespace Format

variable {texts : List (List Char)}

theorem sectionTexts_of_isPiece (hne : texts ≠ []) (h : ∀ text ∈ texts, IsPiece text) :
    sectionTexts (joinSections texts) = texts := by
  apply sectionTexts_joinSections hne
  · exact fun text ht => (h text ht).uncut
  · exact fun text ht => (h text ((List.dropLast_sublist _).subset ht)).run

/-- A code of at least two pieces is read piece by piece. -/
theorem ofChars_of_isPiece (h : ∀ text ∈ texts, IsPiece text) (hleast : 2 ≤ texts.length)
    (hmost : texts.length ≤ maxSections) :
    ofChars {} (joinSections texts)
      = (readAll {} false (if texts.any hasConditionTag then [] else Condition.Table.standard.conditions) texts).map
        assemble := by
  have hne : texts ≠ [] := by
    rintro rfl
    cases hleast
  have htexts := sectionTexts_of_isPiece hne h
  rw [← htexts] at hleast hmost
  have hcode := ofChars_of_sections .standard hleast hmost
  rwa [positionalConditions, hasConditionTag_eq_any, htexts] at hcode

end Format

/-! ### Sections under their conditions -/

namespace ReadSection

def write (s : ReadSection) : List Char := s.body.write s.condition

/-- Whether the section is read back under its condition. The text condition has no tag. -/
structure Rereadable (s : ReadSection) : Prop where
  body : s.body.Rereadable
  condition : ∀ c ∈ s.condition, c.comparator ≠ .isText

def reread (s : ReadSection) : ReadSection := { s with body := s.body.reread }

theorem rereadable_untagged {body : Section} (h : body.Rereadable) : Rereadable ⟨none, body⟩ where
  body := h
  condition c hc := absurd hc (Option.not_mem_none c)

variable {s : ReadSection} {placed : List ReadSection}

theorem readSection_write (h : s.Rereadable) : readSection s.write = .ok s.reread := by
  rw [write, Section.readSection_write h.body.color h.body.parts h.condition, Section.readParts_flatMap_write h.body]
  rfl

theorem isPiece_write (h : s.Rereadable) : IsPiece s.write :=
  Section.isPiece_write h.body.color h.body.parts h.condition

theorem hasConditionTag_write (h : s.Rereadable) : hasConditionTag s.write = s.condition.isSome := by
  cases hsome : s.condition with
  | none =>
      rw [write, hsome]
      exact Section.hasConditionTag_write_none h.body.color h.body.parts
  | some condition =>
      have hmem : s.write ∈ sectionTexts s.write := by
        rw [sectionTexts_eq_singleton_iff.2 (isPiece_write h).uncut]
        exact List.mem_singleton_self _
      refine hasConditionTag_of_headerCondition? hmem ?_
      rw [headerCondition?_of_readSection (readSection_write h), reread, hsome]
      exact Option.some_ne_none _

theorem isPiece_of_mem_map_write (h : ∀ s ∈ placed, s.Rereadable) : ∀ text ∈ placed.map write, IsPiece text := by
  intro text htext
  obtain ⟨s, hs, rfl⟩ := List.mem_map.1 htext
  exact isPiece_write (h s hs)

theorem forall₂_write (h : ∀ s ∈ placed, s.Rereadable) :
    List.Forall₂ (fun text s => readKept {} text = .ok (some s)) (placed.map write) (placed.map reread) := by
  refine List.forall₂_map_left_iff.2 (List.forall₂_map_right_iff.2 (List.forall₂_same.2 fun s hs => ?_))
  exact readKept_eq_some_iff.2 ⟨(isPiece_write (h s hs)).one_line, readSection_write (h s hs)⟩

theorem ofChars_joinSections (h : ∀ s ∈ placed, s.Rereadable) (hleast : 2 ≤ placed.length)
    (hmost : placed.length ≤ Format.maxSections) :
    Format.ofChars {} (joinSections (placed.map write)) = .ok (Format.assemble ((placed.map reread).mapIdx fun i s =>
      s.assign false (if placed.any (·.condition.isSome) then [] else Condition.Table.standard.conditions)[i]?)) := by
  have htags : (placed.map write).any hasConditionTag = placed.any (·.condition.isSome) := by
    rw [List.any_map, Bool.eq_iff_iff, List.any_eq_true, List.any_eq_true]
    refine exists_congr fun s => and_congr_right fun hs => ?_
    rw [Function.comp_apply, hasConditionTag_write (h s hs)]
  have hlength : (placed.map write).length = placed.length := List.length_map write
  rw [Format.ofChars_of_isPiece (isPiece_of_mem_map_write h) (hlength.symm ▸ hleast) (hlength.symm ▸ hmost),
    readAll_of_forall₂ (forall₂_write h), htags]
  rfl

end ReadSection

/-! ### Formats -/

def Branch.reread (branch : Branch) : Branch := { branch with body := branch.body.reread }

namespace Format

/-- Whether the format is read back. The text condition has no tag, and a code of one section no branches. -/
structure Rereadable (f : Format) : Prop where
  few : f.sectionCount ≤ maxSections
  primary : f.primary.Rereadable
  branches : ∀ branch ∈ f.branches, branch.body.Rereadable
  conditions : f.usesPositional Condition.Table.standard.conditions = true
    ∨ (∀ branch ∈ f.branches, branch.condition.comparator ≠ .isText)
      ∧ ¬(f.branches.length = 1 ∧ f.primary.isEmpty = true)

def reread (f : Format) : Format := ⟨f.primary.reread, f.branches.map Branch.reread⟩

variable {f : Format}

theorem isEmpty_eq_true {s : Section} (h : s.isEmpty = true) : s = {} := by
  obtain ⟨parts, color⟩ := s
  simp only [Section.isEmpty, Bool.and_eq_true, List.isEmpty_iff, Option.isNone_iff_eq_none] at h
  rw [h.1, h.2]

theorem zipWith_reread (branches : List Branch) (conditions : List Condition) :
    List.zipWith Branch.mk (branches.map Branch.condition ++ conditions) (branches.map fun b => b.body.reread)
      = branches.map Branch.reread := by
  induction branches with
  | nil => simp
  | cons branch branches ih => simp [ih, Branch.reread]

/-- Branches under the conditions of their places are written without tags. -/
theorem ofChars_write_positional (h : f.Rereadable)
    (hpositional : f.usesPositional Condition.Table.standard.conditions = true) :
    ofChars {} (joinSections f.writeSections) = .ok f.reread := by
  have hparts := hpositional
  simp only [usesPositional, Bool.and_eq_true, decide_eq_true_eq, List.isPrefixOf_iff_prefix] at hparts
  obtain ⟨⟨hempty, hleast⟩, conditions, hconditions⟩ := hparts
  have hbranches : f.branches.isEmpty = false := by
    cases hnil : f.branches with
    | nil => simp [hnil] at hleast
    | cons branch branches => rfl
  have hwrite : f.writeSections
      = ((f.branches.map Branch.body).map (ReadSection.mk none)).map ReadSection.write := by
    simp [writeSections, hpositional, hempty, hbranches, Function.comp_def, ReadSection.write]
  have hplaced : ∀ s ∈ (f.branches.map Branch.body).map (ReadSection.mk none), s.Rereadable := by
    simp only [List.map_map, List.mem_map]
    rintro s ⟨branch, hbranch, rfl⟩
    exact ReadSection.rereadable_untagged (h.branches branch hbranch)
  have hlength : f.branches.length ≤ Condition.Table.standard.conditions.length := by
    rw [← hconditions]
    simp
  have hmost : f.branches.length ≤ maxSections := Nat.le_trans hlength (length_conditions_le .standard)
  have hcode := ReadSection.ofChars_joinSections hplaced (by simpa using hleast) (by simpa using hmost)
  have hreread : ((f.branches.map Branch.body).map (ReadSection.mk none)).map ReadSection.reread
      = (f.branches.map fun branch => branch.body.reread).map (ReadSection.mk none) := by
    simp [ReadSection.reread]
  have hnone : ((f.branches.map Branch.body).map (ReadSection.mk none)).any (·.condition.isSome) = false := by
    simp
  have hprimary : f.primary.reread = {} := by
    rw [isEmpty_eq_true hempty]
    rfl
  rw [hreread, hnone, if_neg Bool.false_ne_true, mapIdx_assign_positional (by simpa using hlength),
    assemble_branches, ← hconditions, zipWith_reread] at hcode
  rw [hwrite, hcode, reread, hprimary]

/-- The primary section as it is placed behind branches: not at all if it is empty. -/
def primarySections (f : Format) : List ReadSection := if f.primary.isEmpty then [] else [⟨none, f.primary⟩]

theorem assemble_reread (f : Format) :
    assemble ((f.branches.map Branch.toReadSection ++ f.primarySections).map ReadSection.reread) = f.reread := by
  have hbranches : (f.branches.map Branch.toReadSection).map ReadSection.reread
      = (f.branches.map Branch.reread).map Branch.toReadSection := by
    simp [ReadSection.reread, Branch.reread, Branch.toReadSection]
  rw [List.map_append, hbranches, reread]
  cases hempty : f.primary.isEmpty with
  | true =>
      have hprimary : f.primary.reread = {} := by
        rw [isEmpty_eq_true hempty]
        rfl
      simp only [primarySections, hempty, if_true, List.map_nil, List.append_nil, assemble_branches, hprimary]
  | false =>
      simp only [primarySections, hempty, Bool.false_eq_true, if_false, List.map_cons, List.map_nil,
        ReadSection.reread, assemble_branches_append]

theorem rereadable_of_mem_primarySections (h : f.Rereadable) : ∀ s ∈ f.primarySections, s.Rereadable := by
  intro s hs
  unfold primarySections at hs
  split at hs
  · cases hs
  · rw [List.mem_singleton.1 hs]
    exact ReadSection.rereadable_untagged h.primary

theorem rereadable_of_mem_branches (hbodies : ∀ branch ∈ f.branches, branch.body.Rereadable)
    (hconditions : ∀ branch ∈ f.branches, branch.condition.comparator ≠ .isText) :
    ∀ s ∈ f.branches.map Branch.toReadSection, s.Rereadable := by
  intro s hs
  obtain ⟨branch, hbranch, rfl⟩ := List.mem_map.1 hs
  refine ⟨hbodies branch hbranch, fun c hc => ?_⟩
  cases hc
  exact hconditions branch hbranch

theorem ofChars_write_tagged (h : f.Rereadable) (hbranches : f.branches ≠ [])
    (hpositional : f.usesPositional Condition.Table.standard.conditions = false) :
    ofChars {} (joinSections f.writeSections) = .ok f.reread := by
  obtain ⟨hconditions, halone⟩ : (∀ branch ∈ f.branches, branch.condition.comparator ≠ .isText)
      ∧ ¬(f.branches.length = 1 ∧ f.primary.isEmpty = true) := by
    refine h.conditions.resolve_left fun htrue => ?_
    rw [hpositional] at htrue
    cases htrue
  have hwrite : f.writeSections
      = (f.branches.map Branch.toReadSection ++ f.primarySections).map ReadSection.write := by
    cases hempty : f.primary.isEmpty <;>
      simp [writeSections, primarySections, hpositional, hempty, hbranches, ReadSection.write, Branch.toReadSection]
  have hplaced : ∀ s ∈ f.branches.map Branch.toReadSection ++ f.primarySections, s.Rereadable := by
    intro s hs
    rcases List.mem_append.1 hs with hs | hs
    · exact rereadable_of_mem_branches h.branches hconditions s hs
    · exact rereadable_of_mem_primarySections h s hs
  have hpos := List.length_pos_iff.2 hbranches
  have hlength : (f.branches.map Branch.toReadSection ++ f.primarySections).length = f.sectionCount := by
    cases hempty : f.primary.isEmpty <;> simp [primarySections, sectionCount, hempty, hbranches]
  have hleast : 2 ≤ (f.branches.map Branch.toReadSection ++ f.primarySections).length := by
    cases hempty : f.primary.isEmpty with
    | true =>
        have hone : f.branches.length ≠ 1 := fun hone => halone ⟨hone, hempty⟩
        simp [primarySections, hempty]
        omega
    | false =>
        simp [primarySections, hempty]
        omega
  have hsome : (f.branches.map Branch.toReadSection ++ f.primarySections).any (·.condition.isSome) = true := by
    obtain ⟨branch, branches, hcons⟩ := List.exists_cons_of_ne_nil hbranches
    rw [hcons]
    rfl
  have hcode := ReadSection.ofChars_joinSections hplaced hleast (hlength.symm ▸ h.few)
  rw [hsome, if_pos rfl, mapIdx_assign_nil, assemble_reread] at hcode
  rw [hwrite, hcode]

theorem ofChars_write_alone (h : f.Rereadable) (hbranches : f.branches = []) :
    ofChars {} (joinSections f.writeSections) = .ok f.reread := by
  have hwrite : joinSections f.writeSections = ReadSection.write ⟨none, f.primary⟩ := by
    simp [writeSections, hbranches, joinSections, ReadSection.write]
  have hprimary := ReadSection.rereadable_untagged h.primary
  have hpiece := ReadSection.isPiece_write hprimary
  have hread := ReadSection.readSection_write hprimary
  rw [hwrite, ofChars_of_uncut hpiece.uncut, readKept_eq_some_iff.2 ⟨hpiece.one_line, hread⟩, reread, hbranches]
  rfl

theorem ofChars_write (h : f.Rereadable) : ofChars {} (joinSections f.writeSections) = .ok f.reread := by
  by_cases hbranches : f.branches = []
  · exact ofChars_write_alone h hbranches
  · cases hpositional : f.usesPositional Condition.Table.standard.conditions with
    | true => exact ofChars_write_positional h hpositional
    | false => exact ofChars_write_tagged h hbranches hpositional

/-- A format is read back from its code. Its texts come back in one part or in pieces that are the text
together, and its digit blocks as they are if they were read from a text that shows all of them. Digits are
counted in 32 bits, so this is said of texts shorter than such a count. -/
theorem parse_toCode (h : f.Rereadable) :
    parse f.toCode = .ok f.reread
      ∧ (∀ literal, (Part.text literal).reread.flatMap Part.chars = literal.toList)
      ∧ ∀ source block, source.length < 2 ^ 32 → DigitBlock.read source = .ok block →
        block.maxInteger ≠ some 1 → (Part.number block).reread = [.number block] := by
  refine ⟨?_, Part.flatMap_chars_reread, fun source block hlength hread hone => ?_⟩
  · rw [parse, toCode, String.toList_ofList]
    exact ofChars_write h
  · have hmax := DigitBlock.maxInteger_ne_minInteger_of_read hread hlength hone
    rw [Part.reread, DigitBlock.normal_of_read hread hmax]

def twoDigits : DigitBlock where
  minInteger := 2
  maxInteger := some 2
  minDecimal := 0
  maxDecimal := some 0
  grouping := false
  one_le_minInteger := by decide
  minInteger_le := fun _ hn => Option.mem_some.1 hn ▸ UInt32.le_refl 2
  minDecimal_le := DigitBlock.integer.minDecimal_le

/-- A count of digits starts again from zero where it runs out, so more optional digits than that show nothing:
such a block has its greatest number of digits equal to the least one, which is not written. -/
theorem parse_toCode_overflow :
    DigitBlock.read (.replicate (2 ^ 32) '#' ++ .replicate 2 '0') = .ok twoDigits
      ∧ twoDigits.maxInteger ≠ some 1
      ∧ Rereadable ⟨⟨[.number twoDigits], none⟩, []⟩
      ∧ parse (toCode ⟨⟨[.number twoDigits], none⟩, []⟩) ≠ .ok ⟨⟨[.number twoDigits], none⟩, []⟩ := by
  refine ⟨DigitBlock.read_integer_digits ?_, by decide, ?_, by decide +kernel⟩
  · exact DigitBlock.ofInteger?_eq_some_iff.2 ⟨2 ^ 32, 2, rfl, by decide, by decide, rfl, rfl, rfl⟩
  · have hprimary : Section.Rereadable ⟨[.number twoDigits], none⟩ := {
      color := nofun
      alternating := .singleton _
      parts := fun part hpart => List.mem_singleton.1 hpart ▸ trivial }
    exact {
      few := by decide
      primary := hprimary
      branches := nofun
      conditions := .inr ⟨nofun, by decide⟩ }

theorem isBare_currency : IsBare "[$-409]".toList where
  head := by decide
  bracket := by
    intro before behind heq
    cases before with
    | nil =>
        cases heq
        rfl
    | cons c before =>
        have hmem : '[' ∈ "$-409]".toList := by
          rw [show "$-409]".toList = before ++ '[' :: behind from (List.cons.inj heq).2]
          simp
        exact absurd hmem (by decide)
  run := by decide

/-- A red branch with a currency tag, and a primary section whose text is quoted in two pieces. The digits of both
are those of the block `0`. -/
theorem parse_toCode_currency :
    parse (toCode ⟨⟨[.text ";\"x", .number .integer], some (.indexed 5)⟩,
        [⟨.againstZero .lessThan, [.number .integer, .text "[$-409]"], some .red⟩]⟩)
      = .ok ⟨⟨[.text ";", .text "\"", .text "x", .number .integer], some (.indexed 5)⟩,
        [⟨.againstZero .lessThan, [.number .integer, .text "[$-409]"], some .red⟩]⟩
      ∧ (Part.number .integer).reread = [.number .integer] := by
  have hprimary : Section.Rereadable ⟨[.text ";\"x", .number .integer], some (.indexed 5)⟩ := {
    color := fun _ hc => Option.mem_some.1 hc ▸ ⟨by decide, by decide⟩
    alternating := by simp [Part.isNumber]
    parts := by
      intro part hpart
      rcases List.mem_pair.1 hpart with rfl | rfl
      · exact ⟨by decide, by decide, .inl (by decide +kernel)⟩
      · trivial }
  have hbody : Section.Rereadable ⟨[.number .integer, .text "[$-409]"], some .red⟩ := {
    color := fun _ hc => Option.mem_some.1 hc ▸ trivial
    alternating := by simp [Part.isNumber]
    parts := by
      intro part hpart
      rcases List.mem_pair.1 hpart with rfl | rfl
      · trivial
      · exact ⟨by decide, by decide, .inr isBare_currency⟩ }
  have hformat : Rereadable ⟨⟨[.text ";\"x", .number .integer], some (.indexed 5)⟩,
      [⟨.againstZero .lessThan, [.number .integer, .text "[$-409]"], some .red⟩]⟩ := {
    few := by decide
    primary := hprimary
    branches := fun branch hbranch => List.mem_singleton.1 hbranch ▸ hbody
    conditions := .inr ⟨fun branch hbranch => List.mem_singleton.1 hbranch ▸ nofun, by decide⟩ }
  have hinteger : DigitBlock.read ['0'] = .ok .integer := by decide +kernel
  constructor
  · exact (parse_toCode hformat).1.trans (by decide +kernel)
  · exact (parse_toCode hformat).2.2 ['0'] .integer (by decide) hinteger nofun

end Format

end CellFormat
