import CellFormat.Proofs.Code.ConditionTags
import CellFormat.Proofs.Code.Placement
/-!
# A code is read section by section

What a section says does not depend on the sections around it; they only decide on the condition that it is
placed under. That is the one of its own tag, or the one of its position if the code has no condition tag at
all, so a format never has branches of both kinds.
-/

namespace CellFormat

def headerCondition? (text : List Char) : Option Condition :=
  match readHeader text with
  | .ok header => header.condition
  | .error _ => none

variable {options : ParseOptions} {code text : List Char} {e : FormatError} {f : Format}

theorem headerCondition?_of_readSection {s : ReadSection} (h : readSection text = .ok s) :
    headerCondition? text = s.condition := by
  obtain ⟨header, hheader, hparts⟩ := bind_eq_ok_iff.1 h
  obtain ⟨parts, -, heq⟩ := bind_eq_ok_iff.1 hparts
  cases heq
  rw [headerCondition?, hheader]

theorem hasConditionTag_of_headerCondition? (hmem : text ∈ sectionTexts code) (hne : headerCondition? text ≠ none) :
    hasConditionTag code = true := by
  unfold headerCondition? at hne
  split at hne
  · next header hheader =>
    rw [hasConditionTag_eq_any]
    exact List.any_eq_true.2 ⟨text, hmem, hasConditionTag_of_readHeader hheader hne⟩
  · exact absurd rfl hne

/-- Whether the branch is the section at place `i` of a code, under the condition of its own tag. -/
def Branch.IsTagged (code : List Char) (i : Nat) (branch : Branch) : Prop :=
  ∃ text, (sectionTexts code)[i]? = some text ∧ readSection text = .ok ⟨some branch.condition, branch.body⟩

/-- Whether the branch is the section at place `i` of a code, under the condition of that place. -/
def Branch.IsPositional (table : Condition.Table) (code : List Char) (i : Nat) (branch : Branch) : Prop :=
  ∃ text, (sectionTexts code)[i]? = some text ∧ readSection text = .ok ⟨none, branch.body⟩
    ∧ table.conditions[i]? = some branch.condition

namespace Format

/-! ### Sections on their own -/

theorem ofChars_of_uncut (h : Uncut .plain text) :
    ofChars options text = (readKept options text).map fun kept => ⟨(kept.map ReadSection.body).getD {}, []⟩ := by
  have htexts := sectionTexts_eq_singleton_iff.2 h
  have hfew : ¬Overfull options text := by
    simp [Overfull, htexts, maxSections]
  rw [ofChars_eq hfew, htexts]
  change (readAll options true _ [text]).map assemble = _
  cases hkept : readKept options text with
  | error e => simp [readAll, hkept, bind, Except.bind, Except.map]
  | ok kept =>
      cases kept with
      | none => simp [readAll, hkept, bind, Except.bind, Except.map, pure, Except.pure, assemble]
      | some s =>
          obtain ⟨condition, parts, color⟩ := s
          cases color <;>
            simp [readAll, hkept, bind, Except.bind, Except.map, pure, Except.pure, assemble, ReadSection.assign,
              List.filterMap_cons]

theorem readKept_eq_error_iff (h : Uncut .plain text) :
    ofChars options text = .error e ↔ readKept options text = .error e := by
  rw [ofChars_of_uncut h]
  cases readKept options text <;> simp [Except.map]

theorem exists_readKept_of_ofChars (h : Uncut .plain text) (hread : ofChars options text = .ok f) :
    ∃ kept, readKept options text = .ok kept := by
  rw [ofChars_of_uncut h] at hread
  cases hkept : readKept options text with
  | error e => simp [hkept, Except.map] at hread
  | ok kept => exact ⟨kept, rfl⟩

theorem readKept_of_ofChars (hstrict : options.strict = true) (h : Uncut .plain text)
    (hread : ofChars options text = .ok f) :
    f.branches = [] ∧ readKept options text = .ok (some ⟨headerCondition? text, f.primary⟩) := by
  obtain ⟨kept, hkept⟩ := exists_readKept_of_ofChars h hread
  obtain ⟨s, rfl⟩ := exists_of_readKept hstrict hkept
  rw [ofChars_of_uncut h, hkept] at hread
  cases hread
  rw [hkept, headerCondition?_of_readSection (readKept_eq_some_iff.1 hkept).2]
  exact ⟨rfl, rfl⟩

/-! ### Sections in a code -/

/-- The sections of a code as they are placed, where `formats` are those of the section texts on their own. -/
def placements (table : Condition.Table) (code : List Char) (formats : List Format) : List ReadSection :=
  ((sectionTexts code).zip formats).mapIdx fun i (text, f) =>
    { condition := headerCondition? text <|> if hasConditionTag code then none else table.conditions[i]?
      body := f.primary }

theorem ofChars_of_sections (table : Condition.Table) (hleast : 2 ≤ (sectionTexts code).length)
    (hmost : (sectionTexts code).length ≤ maxSections) :
    ofChars { strict := true, table } code
      = (readAll { strict := true, table } false (positionalConditions table code) (sectionTexts code)).map
        assemble := by
  have hfew : ¬Overfull { strict := true, table } code := fun h => Nat.not_lt.2 hmost h.2
  have halone : ((sectionTexts code).length == 1) = false := by
    rw [beq_eq_false_iff_ne]
    omega
  rw [ofChars_eq hfew, halone, List.take_of_length_le hmost]

theorem forall₂_zip {α β γ : Type} {R : α → β → Prop} {S : α → γ → Prop} {g : α × β → γ} {xs : List α}
    {ys : List β} (h : List.Forall₂ R xs ys) (hg : ∀ x ∈ xs, ∀ y, R x y → S x (g (x, y))) :
    List.Forall₂ S xs ((xs.zip ys).map g) := by
  induction h with
  | nil => exact .nil
  | cons hxy hrest ih =>
      exact .cons (hg _ List.mem_cons_self _ hxy) (ih fun x hx => hg x (List.mem_cons_of_mem _ hx))

theorem exists_of_forall₂ {α β : Type} {R : α → β → Prop} {xs : List α} {ys : List β} (h : List.Forall₂ R xs ys) :
    ∀ y ∈ ys, ∃ x ∈ xs, R x y := by
  induction h with
  | nil => exact nofun
  | @cons x y xs ys hxy hrest ih =>
      intro z hz
      rcases List.mem_cons.1 hz with rfl | hz
      · exact ⟨x, List.mem_cons_self, hxy⟩
      · obtain ⟨w, hw, hwz⟩ := ih z hz
        exact ⟨w, List.mem_cons_of_mem _ hw, hwz⟩

theorem exists_readSection_of_ofChars (hstrict : options.strict = true) (hread : ofChars options code = .ok f) :
    ∀ text ∈ sectionTexts code, '\n' ∉ text ∧ ∃ s, readSection text = .ok s := by
  have hfew := not_overfull_of_ofChars hread
  have htake : (sectionTexts code).take maxSections = sectionTexts code :=
    List.take_of_length_le (Nat.not_lt.1 fun hlt => hfew ⟨hstrict, hlt⟩)
  rw [ofChars_eq hfew, htake] at hread
  intro text htext
  cases hplaced : readAll options ((sectionTexts code).length == 1) (positionalConditions options.table code)
      (sectionTexts code) with
  | error e => simp [hplaced, Except.map] at hread
  | ok placed =>
      obtain ⟨said, hsaid⟩ := forall₂_of_readAll hstrict hplaced
      obtain ⟨s, -, hkept⟩ := exists_of_forall₂ hsaid.flip text htext
      obtain ⟨hline, hsaid⟩ := readKept_eq_some_iff.1 hkept
      exact ⟨hline, s, hsaid⟩

theorem assign_eq (table : Condition.Table) (code : List Char) (condition : Option Condition) (body : Section)
    (i : Nat) :
    ReadSection.assign false (positionalConditions table code)[i]? ⟨condition, body⟩
      = ⟨condition <|> if hasConditionTag code then none else table.conditions[i]?, body⟩ := by
  unfold positionalConditions
  cases hasConditionTag code <;> rfl

/-- A strict reader fails on a code with the first section that it fails on alone. Otherwise the format is
put together from those of the sections alone, each under the condition of its tag or its position. -/
theorem ofChars_sections (table : Condition.Table) (hleast : 2 ≤ (sectionTexts code).length)
    (hmost : (sectionTexts code).length ≤ maxSections) :
    (∀ before text behind e, sectionTexts code = before ++ text :: behind →
        (∀ t ∈ before, ∃ f, ofChars { strict := true, table } t = .ok f) →
        ofChars { strict := true, table } text = .error e → ofChars { strict := true, table } code = .error e)
      ∧ ∀ formats, List.Forall₂ (fun text f => ofChars { strict := true, table } text = .ok f)
          (sectionTexts code) formats →
        (∀ f ∈ formats, f.branches = [])
          ∧ ofChars { strict := true, table } code = .ok (assemble (placements table code formats)) := by
  rw [ofChars_of_sections table hleast hmost]
  refine ⟨fun before text behind e hsplit hbefore htext => ?_, fun formats hformats => ⟨?_, ?_⟩⟩
  · have huncut : ∀ t ∈ before ++ text :: behind, Uncut .plain t := by
      rw [← hsplit]
      exact fun t ht => uncut_of_mem_sectionTexts ht
    have hkept : ∀ t ∈ before, ∃ kept, readKept { strict := true, table } t = .ok kept := by
      intro t ht
      obtain ⟨f, hf⟩ := hbefore t ht
      exact exists_readKept_of_ofChars (huncut t (List.mem_append_left _ ht)) hf
    have herror := (readKept_eq_error_iff (huncut text (by simp))).1 htext
    rw [hsplit, readAll_append_error hkept herror]
    rfl
  · intro f hf
    obtain ⟨text, htext, hread⟩ := exists_of_forall₂ hformats f hf
    exact (readKept_of_ofChars rfl (uncut_of_mem_sectionTexts htext) hread).1
  · have hread : List.Forall₂ (fun text s => readKept { strict := true, table } text = .ok (some s))
        (sectionTexts code)
        (((sectionTexts code).zip formats).map fun pair => ⟨headerCondition? pair.1, pair.2.primary⟩) :=
      forall₂_zip hformats fun text htext f hf =>
        (readKept_of_ofChars rfl (uncut_of_mem_sectionTexts htext) hf).2
    rw [readAll_of_forall₂ hread, Except.map]
    refine congrArg Except.ok (congrArg assemble (List.mapIdx_eq_iff.2 fun i => ?_))
    simp [placements, assign_eq, Function.comp_def]

/-- A code with one tagged section, and one whose second section is no block. -/
theorem ofChars_three_sections :
    ofChars { strict := true, table := .standard } "[>0]0;[Red]x;y".toList
        = .ok ⟨⟨[.text "x", .text "y"], some .red⟩, [⟨.againstZero .greaterThan, [.number .integer], none⟩]⟩
      ∧ ofChars { strict := true, table := .standard } "0;0.0.0;[<]".toList
        = .error (.unexpectedBlock "0.0.0") := by
  constructor
  · have hsections := (@ofChars_sections "[>0]0;[Red]x;y".toList .standard (by decide) (by decide)).2
      [⟨⟨[.number .integer], none⟩, []⟩, ⟨⟨[.text "x"], some .red⟩, []⟩, ⟨⟨[.text "y"], none⟩, []⟩]
      (.cons (by decide +kernel) (.cons (by decide +kernel) (.cons (by decide +kernel) .nil)))
    rw [hsections.2]
    decide +kernel
  · exact (@ofChars_sections "0;0.0.0;[<]".toList .standard (by decide) (by decide)).1 [['0']] "0.0.0".toList
      ["[<]".toList] _ (by decide) (fun t ht => ⟨⟨⟨[.number .integer], none⟩, []⟩, by
        rw [List.mem_singleton.1 ht]
        decide +kernel⟩) (by decide +kernel)

/-! ### Conditions of one kind -/

theorem forall₂_filterMap {α β γ : Type} {R : α → β → Prop} {g : β → Option γ} {xs : List α} {ys : List β}
    (h : List.Forall₂ R xs ys) :
    ∃ xs' : List α, xs'.Sublist xs
      ∧ List.Forall₂ (fun x z => ∃ y, R x y ∧ g y = some z) xs' (ys.filterMap g) := by
  induction h with
  | nil => exact ⟨[], .slnil, .nil⟩
  | @cons x y xs ys hxy hrest ih =>
      obtain ⟨xs', hsublist, hforall⟩ := ih
      rw [List.filterMap_cons]
      cases hg : g y with
      | none => exact ⟨xs', .cons x hsublist, hforall⟩
      | some z => exact ⟨x :: xs', hsublist.cons_cons x, .cons ⟨y, hxy, hg⟩ hforall⟩

theorem exists_assemble_of_ofChars (h : ofChars options code = .ok f) :
    ∃ placed, readAll options ((sectionTexts code).length == 1) (positionalConditions options.table code)
      ((sectionTexts code).take maxSections) = .ok placed ∧ f = assemble placed := by
  rw [ofChars_eq (not_overfull_of_ofChars h)] at h
  cases hread : readAll options ((sectionTexts code).length == 1) (positionalConditions options.table code)
      ((sectionTexts code).take maxSections) with
  | error e => simp [hread, Except.map] at h
  | ok placed =>
      rw [hread] at h
      cases h
      exact ⟨placed, rfl, rfl⟩

theorem sectionCount_le_of_ofChars (h : ofChars options code = .ok f) : f.sectionCount ≤ maxSections := by
  obtain ⟨placed, hread, rfl⟩ := exists_assemble_of_ofChars h
  have hlength := length_le_of_readAll hread
  have htake := List.length_take_le maxSections (sectionTexts code)
  have hsize := size_assemble_le placed
  exact sectionCount_le_of_size (by omega)

theorem condition_of_branch? {alone : Bool} {position : Option Condition} {said : ReadSection} {branch : Branch}
    (h : (said.assign alone position).branch? = some branch) :
    (said.condition <|> position) = some branch.condition ∧ said.body = branch.body := by
  obtain ⟨condition, hcondition, rfl⟩ := Option.map_eq_some_iff.1 h
  cases alone with
  | true => cases hcondition
  | false => exact ⟨hcondition, rfl⟩

theorem getElem?_of_take {α : Type} {xs : List α} {n i : Nat} {x : α} (h : (xs.take n)[i]? = some x) :
    xs[i]? = some x := by
  rw [List.getElem?_take] at h
  split at h
  · exact h
  · cases h

theorem condition_of_readSection (htag : hasConditionTag code = false) (hmem : text ∈ sectionTexts code)
    {said : ReadSection} (hread : readSection text = .ok said) : said.condition = none := by
  rw [← headerCondition?_of_readSection hread]
  by_contra hne
  rw [hasConditionTag_of_headerCondition? hmem hne] at htag
  cases htag

/-- Whether a code has a condition tag decides for all branches where their conditions come from. -/
theorem branches_of_ofChars (h : ofChars options code = .ok f) :
    ∃ places : List Nat, places.Pairwise (· < ·)
      ∧ (hasConditionTag code = true ∧ List.Forall₂ (Branch.IsTagged code) places f.branches
        ∨ hasConditionTag code = false
          ∧ List.Forall₂ (Branch.IsPositional options.table code) places f.branches) := by
  obtain ⟨placed, hread, rfl⟩ := exists_assemble_of_ofChars h
  obtain ⟨all, hascending, hall⟩ := places_of_readAll hread
  obtain ⟨places, hsublist, hplaces⟩ := forall₂_filterMap (g := ReadSection.branch?) hall
  refine ⟨places, hascending.sublist hsublist, ?_⟩
  cases htag : hasConditionTag code with
  | true =>
      refine .inl ⟨rfl, hplaces.imp ?_⟩
      rintro i branch ⟨s, ⟨text, said, htext, hkept, rfl⟩, hbranch⟩
      obtain ⟨hcondition, hbody⟩ := condition_of_branch? hbranch
      have hnone : (positionalConditions options.table code)[i]? = none := by
        rw [positionalConditions, htag]
        rfl
      rw [hnone, Option.orElse_eq_orElse, Option.orElse_eq_or, Option.or_none] at hcondition
      refine ⟨text, getElem?_of_take htext, ?_⟩
      rw [← hcondition, ← hbody]
      exact (readKept_eq_some_iff.1 hkept).2
  | false =>
      refine .inr ⟨rfl, hplaces.imp ?_⟩
      rintro i branch ⟨s, ⟨text, said, htext, hkept, rfl⟩, hbranch⟩
      obtain ⟨hcondition, hbody⟩ := condition_of_branch? hbranch
      have hplace := getElem?_of_take htext
      have hsaid := (readKept_eq_some_iff.1 hkept).2
      have hnone := condition_of_readSection htag (List.mem_of_getElem? hplace) hsaid
      have htable : positionalConditions options.table code = options.table.conditions := by
        rw [positionalConditions, htag]
        rfl
      rw [hnone, htable] at hcondition
      refine ⟨text, hplace, ?_, hcondition⟩
      rw [← hnone, ← hbody]
      exact hsaid

/-! ### Codes without tags -/

theorem map_condition_zipWith (conditions : List Condition) (bodies : List Section) :
    (List.zipWith Branch.mk conditions bodies).map Branch.condition = conditions.take bodies.length := by
  induction bodies generalizing conditions with
  | nil => simp
  | cons body bodies ih =>
      cases conditions with
      | nil => simp
      | cons condition conditions => simp [ih]

theorem usesPositional_zipWith {conditions : List Condition} {bodies : List Section}
    (hleast : 2 ≤ bodies.length) (hmost : bodies.length ≤ conditions.length) :
    usesPositional ⟨{}, List.zipWith Branch.mk conditions bodies⟩ conditions = true := by
  have hlength : 2 ≤ (List.zipWith Branch.mk conditions bodies).length := by
    rw [List.length_zipWith]
    omega
  have hprefix : (conditions.take bodies.length).isPrefixOf conditions = true :=
    List.isPrefixOf_iff_prefix.2 (List.take_prefix _ _)
  simp only [usesPositional, map_condition_zipWith, hprefix, hlength]
  rfl

theorem length_conditions_le (table : Condition.Table) : table.conditions.length ≤ maxSections := by
  cases table <;> decide

theorem ofChars_positional {table : Condition.Table} (h : ofChars { strict := true, table } code = .ok f)
    (htag : hasConditionTag code = false) (hleast : 2 ≤ (sectionTexts code).length)
    (hmost : (sectionTexts code).length ≤ table.conditions.length) :
    ∃ bodies : List Section, bodies.length = (sectionTexts code).length
      ∧ f = ⟨{}, List.zipWith Branch.mk table.conditions bodies⟩ := by
  have hpositional : positionalConditions table code = table.conditions := by
    rw [positionalConditions, htag]
    rfl
  rw [ofChars_of_sections table hleast (Nat.le_trans hmost (length_conditions_le table)), hpositional] at h
  obtain ⟨read, hread⟩ : ∃ read, List.Forall₂
      (fun text s => readKept { strict := true, table } text = .ok (some s)) (sectionTexts code) read := by
    cases hplaced : readAll { strict := true, table } false table.conditions (sectionTexts code) with
    | error e => simp [hplaced, Except.map] at h
    | ok placed => exact forall₂_of_readAll rfl hplaced
  have hnone : (read.map ReadSection.body).map (ReadSection.mk none) = read := by
    rw [List.map_map]
    refine (List.map_congr_left fun s hs => ?_).trans (List.map_id read)
    obtain ⟨text, htext, hkept⟩ := exists_of_forall₂ hread s hs
    obtain ⟨condition, body⟩ := s
    cases condition_of_readSection htag htext (readKept_eq_some_iff.1 hkept).2
    rfl
  have hlength : (read.map ReadSection.body).length = (sectionTexts code).length := by
    rw [List.length_map, hread.length_eq]
  refine ⟨read.map ReadSection.body, hlength, ?_⟩
  rw [readAll_of_forall₂ hread, ← hnone, mapIdx_assign_positional (hlength ▸ hmost), Except.map,
    assemble_branches] at h
  cases h
  rfl

/-- The scan for condition tags goes section by section, and finds the tag of every condition that a header
has. So the branches of a format have conditions of one kind: all their own, or all those of their places.
In a code without a condition tag that is as long as the table at most, every section is a branch. -/
theorem conditionTags_agree (code : List Char) :
    hasConditionTag code = (sectionTexts code).any hasConditionTag
      ∧ (∀ text ∈ sectionTexts code, ∀ header condition, readHeader text = .ok header →
        header.condition = some condition → hasConditionTag code = true)
      ∧ (∀ options f, ofChars options code = .ok f → ∃ places : List Nat, places.Pairwise (· < ·)
        ∧ (hasConditionTag code = true ∧ List.Forall₂ (Branch.IsTagged code) places f.branches
          ∨ hasConditionTag code = false
            ∧ List.Forall₂ (Branch.IsPositional options.table code) places f.branches))
      ∧ ∀ table f, ofChars { strict := true, table } code = .ok f → hasConditionTag code = false →
        2 ≤ (sectionTexts code).length → (sectionTexts code).length ≤ table.conditions.length →
        f.primary = {} ∧ f.branches.length = (sectionTexts code).length
          ∧ f.usesPositional table.conditions = true := by
  refine ⟨hasConditionTag_eq_any code, ?_, fun options f h => branches_of_ofChars h, ?_⟩
  · intro text hmem header condition hread hcondition
    refine hasConditionTag_of_headerCondition? hmem ?_
    rw [headerCondition?, hread]
    intro hnone
    exact Option.some_ne_none condition (hcondition.symm.trans hnone)
  · intro table f h htag hleast hmost
    obtain ⟨bodies, hlength, rfl⟩ := ofChars_positional h htag hleast hmost
    rw [← hlength] at hleast hmost
    refine ⟨rfl, ?_, usesPositional_zipWith hleast hmost⟩
    rw [List.length_zipWith, hlength]
    omega

/-- A code whose only tag is in its last section, and one that has a tag in quotes only. -/
theorem conditionTags_agree_two_sections :
    hasConditionTag "0;[Red][>0]x".toList = true
      ∧ ∃ f, ofChars { strict := true, table := .standard } "0;\"[>0]\"".toList = .ok f
        ∧ f.primary = {} ∧ f.branches.length = 2
        ∧ f.usesPositional Condition.Table.standard.conditions = true := by
  constructor
  · exact (conditionTags_agree "0;[Red][>0]x".toList).2.1 "[Red][>0]x".toList (by decide)
      ⟨some .red, some (.againstZero .greaterThan), ['x']⟩ _ (by decide +kernel) rfl
  · have hread : ofChars { strict := true, table := .standard } "0;\"[>0]\"".toList
        = .ok ⟨{}, [⟨.againstZero .lessThan, [.number .integer], none⟩,
          ⟨.againstZero .greaterThan, [.text "[>0]"], none⟩]⟩ := by
      decide +kernel
    exact ⟨_, hread, (conditionTags_agree "0;\"[>0]\"".toList).2.2.2 .standard _ hread (by decide) (by decide)
      (by decide)⟩

end Format

end CellFormat
