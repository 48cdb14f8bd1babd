import CellFormat.Proofs.Code.Parser
/-!
# Tags in either order

A header is refused for a condition that is not right, and for nothing else; what is read of its tags does not depend
on which of them comes first. The readers of a whole code do not notice the order either: a tag opens no quotes and
ends no section, and the scan for condition tags finds a condition in front of a colour and behind it. Only the wording
of a refusal can tell two such codes apart, since it repeats the text that was refused.
-/

namespace CellFormat

variable {options : ParseOptions} {alone : Bool} {positional : List Condition} {text rest : List Char}
  {e : FormatError} {color : Color} {condition : Condition} {colorTag conditionTag : List Char}

/-! ### Headers that are refused -/

theorem Header.readTag_eq_error_iff {h : Header} :
    h.readTag = .error e ↔ h.condition = none ∧ ∃ content behind, bracketGroup? h.body = some (content, behind)
      ∧ content.head?.any isComparatorChar = true ∧ readCondition content = .error e := by
  constructor
  · intro hread
    unfold readTag at hread
    split at hread
    · cases hread
    · next content behind hgroup =>
      split at hread
      · cases hread
      · split at hread
        · next hcondition =>
          simp only [Bool.and_eq_true, Option.isNone_iff_eq_none] at hcondition
          rcases bind_eq_error_iff.1 hread with herror | ⟨_, -, hok⟩
          · exact ⟨hcondition.1, content, behind, hgroup, hcondition.2, herror⟩
          · cases hok
        · cases hread
  · rintro ⟨hnone, content, behind, hgroup, hhead, herror⟩
    rw [readTag_of_comparator hgroup hhead hnone, herror]
    rfl

/-- A header is refused exactly for the condition that the text begins with, or that a colour tag is followed by. -/
theorem readHeader_eq_error_iff :
    readHeader text = .error e ↔ ∃ color tag content behind, IsColorTag color tag
      ∧ text = tag ++ ('[' :: content ++ ']' :: behind) ∧ ']' ∉ content
      ∧ content.head?.any isComparatorChar = true ∧ readCondition content = .error e := by
  constructor
  · intro hread
    obtain ⟨h, tags, htext, ⟨colorTag, conditionTag, hcolorTag, hconditionTag, htags⟩, herror⟩ :=
      Header.spells_of_readTags_error (Header.spells_nil text) hread
    obtain ⟨hnone, content, behind, hgroup, hhead, hcontent⟩ := Header.readTag_eq_error_iff.1 herror
    obtain ⟨hbody, hmem⟩ := bracketGroup?_eq_some_iff.1 hgroup
    -- There is no condition tag yet, or there would be none to read.
    rw [hnone] at hconditionTag
    obtain rfl : conditionTag = [] := hconditionTag
    obtain rfl : tags = colorTag := by simpa using htags
    exact ⟨h.color, tags, content, behind, hcolorTag, by rw [← hbody, ← htext], hmem, hhead, hcontent⟩
  · rintro ⟨color, tag, content, behind, htag, rfl, hmem, hhead, hcontent⟩
    have herror : Header.readTag ⟨color, none, '[' :: content ++ ']' :: behind⟩ = .error e :=
      Header.readTag_eq_error_iff.2 ⟨rfl, content, behind, bracketGroup?_append hmem behind, hhead, hcontent⟩
    obtain ⟨left, hleft, hread⟩ := Header.readTags_colorTag htag none ('[' :: content ++ ']' :: behind) 1
    obtain ⟨count, rfl⟩ := Nat.exists_eq_add_of_le' hleft
    rw [readHeader, hread, Header.readTags, herror]
    rfl

/-! ### Codes whose sections say the same -/

/-- What is placed depends on what the texts say only. -/
theorem toOption_readAll_congr {texts texts' : List (List Char)}
    (h : List.Forall₂ (fun text text' => (readKept options text).toOption = (readKept options text').toOption)
      texts texts') :
    (readAll options alone positional texts).toOption = (readAll options alone positional texts').toOption := by
  induction h generalizing positional with
  | nil => rfl
  | cons hkept _ ih => simp only [readAll, toOption_bind, hkept, ih]

theorem Format.toOption_ofChars_congr {code code' : List Char} (htag : hasConditionTag code = hasConditionTag code')
    (h : List.Forall₂ (fun text text' => (readKept options text).toOption = (readKept options text').toOption)
      (sectionTexts code) (sectionTexts code')) :
    (ofChars options code).toOption = (ofChars options code').toOption := by
  have hlength := h.length_eq
  have hoverfull : Overfull options code ↔ Overfull options code' := by
    rw [Overfull, Overfull, hlength]
  by_cases hmany : Overfull options code
  · have hnone : ∀ code, Overfull options code → (ofChars options code).toOption = none := by
      intro code hmany
      cases hread : ofChars options code with
      | error e => rfl
      | ok f => exact absurd hmany (not_overfull_of_ofChars hread)
    rw [hnone code hmany, hnone code' (hoverfull.1 hmany)]
  · have hpositional : positionalConditions options.table code = positionalConditions options.table code' := by
      rw [positionalConditions, positionalConditions, htag]
    rw [ofChars_eq hmany, ofChars_eq (mt hoverfull.2 hmany), toOption_map, toOption_map, hlength, hpositional,
      toOption_readAll_congr (List.forall₂_take maxSections h)]

/-! ### Tags that say the same -/

section Respell

variable {header : Header} {tags tags' : List Char}

theorem semicolon_not_mem_of_spells (hspells : header.Spells tags) : ';' ∉ tags := by
  have hne : ∀ c ∈ tags, c ≠ ';' := by
    refine Header.forall_mem_of_spells (by decide) (by decide) (fun c hc => ne_of_isAlphanum hc (by decide)) ?_ hspells
    rintro content condition hcontent c hc rfl
    exact not_mem_of_readCondition (by decide) (by decide) (by decide) hcontent hc
  exact fun hmem => hne ';' hmem rfl

theorem run_of_spells (hspells : header.Spells tags) (rest : List Char) :
    Scan.run .plain (tags ++ rest) = Scan.run .plain rest := by
  rw [Scan.run_append, Scan.run_plain_of_isNeutral (isNeutral_of_spells hspells)]

theorem uncut_iff_of_spells (hspells : header.Spells tags) : Uncut .plain (tags ++ rest) ↔ Uncut .plain rest := by
  rw [uncut_append_iff (uncut_of_not_mem .plain (semicolon_not_mem_of_spells hspells)),
    Scan.run_plain_of_isNeutral (isNeutral_of_spells hspells)]

variable (hdone : header.Done) (hspells : header.Spells tags) (hspells' : header.Spells tags')
  (hline : '\n' ∈ tags' ↔ '\n' ∈ tags)

include hdone hspells hspells' hline

theorem toOption_readKept_respell (options : ParseOptions) :
    (readKept options (tags' ++ header.body)).toOption = (readKept options (tags ++ header.body)).toOption := by
  have hsection : readSection (tags' ++ header.body) = readSection (tags ++ header.body) := by
    rw [readSection, readSection, Header.readHeader_of_spells hdone hspells, Header.readHeader_of_spells hdone hspells']
  have hlines : '\n' ∈ tags' ++ header.body ↔ '\n' ∈ tags ++ header.body := by
    simp only [List.mem_append, hline]
  unfold readKept
  by_cases h : '\n' ∈ tags ++ header.body
  · rw [if_pos h, if_pos (hlines.2 h)]
    cases options.strict <;> rfl
  · rw [if_neg h, if_neg (mt hlines.1 h), hsection]

/-- Codes in which the tags of a section with a condition are spelled differently are refused both, or describe the same
format. -/
theorem Format.toOption_ofChars_respell (hsome : header.condition ≠ none) (options : ParseOptions) {code : List Char}
    {before after : List (List Char)} (hcode : sectionTexts code = before ++ (tags ++ header.body) :: after) :
    sectionTexts (joinSections (before ++ (tags' ++ header.body) :: after)) = before ++ (tags' ++ header.body) :: after
      ∧ (ofChars options (joinSections (before ++ (tags' ++ header.body) :: after))).toOption
        = (ofChars options code).toOption := by
  have huncut : Uncut .plain (tags ++ header.body) :=
    uncut_of_mem_sectionTexts (hcode ▸ List.mem_append_right _ List.mem_cons_self)
  rw [uncut_iff_of_spells hspells, ← uncut_iff_of_spells hspells'] at huncut
  have hrun : Scan.run .plain (tags' ++ header.body) = Scan.run .plain (tags ++ header.body) := by
    rw [run_of_spells hspells, run_of_spells hspells']
  have hsections := sectionTexts_replace hcode huncut hrun
  refine ⟨hsections, toOption_ofChars_congr ?_ ?_⟩
  · rw [hasConditionTag_eq_any, hasConditionTag_eq_any, hsections, hcode]
    simp only [List.any_append, List.any_cons, hasConditionTag_of_spells hspells hsome,
      hasConditionTag_of_spells hspells' hsome, Bool.true_or, Bool.or_true]
  · rw [hsections, hcode]
    have hrefl : ∀ texts : List (List Char), List.Forall₂
        (fun text text' => (readKept options text).toOption = (readKept options text').toOption) texts texts :=
      fun texts => List.forall₂_same.2 fun _ _ => rfl
    exact List.rel_append (hrefl before)
      (.cons (toOption_readKept_respell hdone hspells hspells' hline options) (hrefl after))

end Respell

theorem Format.toOption_ofChars_swap (hcolor : IsColorTag (some color) colorTag)
    (hcondition : IsConditionTag (some condition) conditionTag) (options : ParseOptions) {code : List Char}
    {before after : List (List Char)}
    (hcode : sectionTexts code = before ++ (colorTag ++ conditionTag ++ rest) :: after) :
    sectionTexts (joinSections (before ++ (conditionTag ++ colorTag ++ rest) :: after))
        = before ++ (conditionTag ++ colorTag ++ rest) :: after
      ∧ (ofChars options (joinSections (before ++ (conditionTag ++ colorTag ++ rest) :: after))).toOption
        = (ofChars options code).toOption := by
  have hdone : Header.Done ⟨some color, some condition, rest⟩ := Header.done_of_both nofun nofun
  have hspells : Header.Spells ⟨some color, some condition, rest⟩ (colorTag ++ conditionTag) :=
    ⟨colorTag, conditionTag, hcolor, hcondition, .inl rfl⟩
  have hspells' : Header.Spells ⟨some color, some condition, rest⟩ (conditionTag ++ colorTag) :=
    ⟨colorTag, conditionTag, hcolor, hcondition, .inr rfl⟩
  have hline : '\n' ∈ conditionTag ++ colorTag ↔ '\n' ∈ colorTag ++ conditionTag := by
    simp only [List.mem_append, or_comm]
  exact toOption_ofChars_respell hdone hspells hspells' hline nofun options hcode

/-- Headers are read as far as they go, and in whatever order their tags are: a header is refused exactly for the
condition that the text begins with or that its colour tag is followed by, and otherwise splits the text into the tags
of its colour and its condition and a text that does not go on with a tag of a missing kind. So a code in which a
section begins with a colour tag and a condition tag describes the same format with the two exchanged, or is refused
with both. -/
theorem Format.tags_in_either_order :
    (∀ text e, readHeader text = .error e ↔ ∃ color tag content behind, IsColorTag color tag
        ∧ text = tag ++ ('[' :: content ++ ']' :: behind) ∧ ']' ∉ content
        ∧ content.head?.any isComparatorChar = true ∧ readCondition content = .error e)
      ∧ (∀ text (h : Header), readHeader text = .ok h ↔ h.Done ∧ ∃ tags, h.Spells tags ∧ text = tags ++ h.body)
      ∧ ∀ color condition colorTag conditionTag, IsColorTag (some color) colorTag →
        IsConditionTag (some condition) conditionTag → ∀ options code before rest after,
        sectionTexts code = before ++ (colorTag ++ conditionTag ++ rest) :: after →
        sectionTexts (joinSections (before ++ (conditionTag ++ colorTag ++ rest) :: after))
            = before ++ (conditionTag ++ colorTag ++ rest) :: after
          ∧ (ofChars options (joinSections (before ++ (conditionTag ++ colorTag ++ rest) :: after))).toOption
            = (ofChars options code).toOption :=
  ⟨fun _ _ => readHeader_eq_error_iff, fun _ _ => readHeader_eq_ok_iff,
    fun _ _ _ _ hcolor hcondition options _ _ _ _ hcode => toOption_ofChars_swap hcolor hcondition options hcode⟩

/-- The second section of three has two tags. -/
theorem Format.tags_in_either_order_second_section :
    (ofChars {} "0;[>0][Red]x;\"y\"".toList).toOption
      = some ⟨⟨[.number .integer, .text "y"], none⟩, [⟨.againstZero .greaterThan, [.text "x"], some .red⟩]⟩ := by
  have hcolor : IsColorTag (some .red) "[Red]".toList := ⟨"Red".toList, rfl, by decide +kernel⟩
  have hcondition : IsConditionTag (some (.againstZero .greaterThan)) "[>0]".toList :=
    ⟨">0".toList, rfl, by decide +kernel⟩
  have hswap := (tags_in_either_order.2.2 .red _ _ _ hcolor hcondition {} "0;[Red][>0]x;\"y\"".toList [['0']] ['x']
    ["\"y\"".toList] (by decide)).2
  exact hswap.trans (by decide +kernel)

end CellFormat
