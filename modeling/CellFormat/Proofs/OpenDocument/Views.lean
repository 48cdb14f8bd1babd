import CellFormat.Proofs.Code.Header
import CellFormat.Proofs.OpenDocument.References
/-!
# What the styles of a format tell

The styles of a format leave out its text branches, and of a block the greatest number of integer digits; of a
colour they keep the RGB value. All else can be read off them again: parts and maps differ in their tags, every
count and every text stands in an attribute of its own, and the text of a condition is read as the condition. So
two formats have the same styles exactly when they look the same without what is left out.
-/

namespace CellFormat

/-! ### Views -/

inductive PartView where
  | number (minInteger minDecimal : UInt32) (maxDecimal : Option UInt32) (grouping : Bool)
  | text (text : String)
deriving DecidableEq

/-- What a style says of a section: the RGB value of its colour, and its parts. -/
structure SectionView where
  color : Option String
  parts : List PartView
deriving DecidableEq

/-- What the styles of a format say of a branch. -/
structure BranchView where
  index : Nat
  comparator : Comparator
  threshold : Binary64
  body : SectionView
deriving DecidableEq

def Part.view : Part → PartView
  | .number block => .number block.minInteger block.minDecimal block.maxDecimal block.grouping
  | .text literal => .text literal

def Section.view (s : Section) : SectionView := ⟨s.color.map Color.rgb, s.parts.map Part.view⟩

def Branch.view (branch : Branch) (index : Nat) : BranchView :=
  ⟨index, branch.condition.comparator, branch.condition.threshold, branch.body.view⟩

namespace Format

/-- The branches that are not for text, with their indices. -/
def numericBranches (f : Format) : List (Branch × Nat) :=
  f.branches.zipIdx.filter fun (branch, _) => branch.condition.comparator ≠ .isText

def branchViews (f : Format) : List BranchView := f.numericBranches.map fun pair => pair.1.view pair.2

end Format

namespace OpenDocument

open Xml Element

/-! ### Counts, colours and parts -/

theorem countText_inj {m n : UInt32} : countText m = countText n ↔ m = n := by
  refine ⟨fun h => UInt32.toNat_inj.1 ?_, congrArg countText⟩
  have hdigits : writeNat m.toNat = writeNat n.toNat := by
    have hlists := congrArg String.toList h
    rwa [countText, countText, Nat.toList_repr, Nat.toList_repr] at hlists
  rw [← digitsValue_writeNat m.toNat, hdigits, digitsValue_writeNat]

theorem colorElement_inj {c d : Color} : colorElement c = colorElement d ↔ c.rgb = d.rgb := by
  refine ⟨fun h => ?_, fun h => by rw [colorElement, colorElement, h]⟩
  have hvalue : some ("#" ++ c.rgb) = some ("#" ++ d.rgb) := congrArg (·.getAttribute? "fo:color") h
  exact (String.append_right_inj _).1 (Option.some.inj hvalue)

section Number

variable (block : DigitBlock)

theorem decimalPlaces_numberElement :
    (numberElement block).getAttribute? "number:decimal-places" = block.maxDecimal.map countText := by
  obtain ⟨minInteger, maxInteger, minDecimal, maxDecimal, grouping, _, _, _⟩ := block
  cases maxDecimal <;> cases grouping <;> rfl

theorem minDecimalPlaces_numberElement :
    (numberElement block).getAttribute? "loext:min-decimal-places" = some (countText block.minDecimal) := by
  obtain ⟨minInteger, maxInteger, minDecimal, maxDecimal, grouping, _, _, _⟩ := block
  cases maxDecimal <;> cases grouping <;> rfl

theorem minIntegerDigits_numberElement :
    (numberElement block).getAttribute? "number:min-integer-digits" = some (countText block.minInteger) := by
  obtain ⟨minInteger, maxInteger, minDecimal, maxDecimal, grouping, _, _, _⟩ := block
  cases maxDecimal <;> cases grouping <;> rfl

theorem grouping_numberElement :
    ((numberElement block).getAttribute? "number:grouping").isSome = block.grouping := by
  obtain ⟨minInteger, maxInteger, minDecimal, maxDecimal, grouping, _, _, _⟩ := block
  cases maxDecimal <;> cases grouping <;> rfl

end Number

/-- A block is told by the element of it, up to the greatest number of integer digits. -/
theorem numberElement_inj {block block' : DigitBlock} :
    numberElement block = numberElement block' ↔ (Part.number block).view = (Part.number block').view := by
  simp only [Part.view, PartView.number.injEq]
  constructor
  · intro h
    have hminInteger := congrArg (·.getAttribute? "number:min-integer-digits") h
    have hminDecimal := congrArg (·.getAttribute? "loext:min-decimal-places") h
    have hmaxDecimal := congrArg (·.getAttribute? "number:decimal-places") h
    have hgrouping := congrArg (fun e => (e.getAttribute? "number:grouping").isSome) h
    simp only [minIntegerDigits_numberElement, Option.some.injEq, countText_inj] at hminInteger
    simp only [minDecimalPlaces_numberElement, Option.some.injEq, countText_inj] at hminDecimal
    simp only [decimalPlaces_numberElement] at hmaxDecimal
    simp only [grouping_numberElement] at hgrouping
    exact ⟨hminInteger, hminDecimal, Option.map_injective (fun _ _ => countText_inj.1) hmaxDecimal, hgrouping⟩
  · rintro ⟨hminInteger, hminDecimal, hmaxDecimal, hgrouping⟩
    rw [numberElement, numberElement, hminInteger, hminDecimal, hmaxDecimal, hgrouping]

theorem partElement_inj {part part' : Part} : partElement part = partElement part' ↔ part.view = part'.view := by
  have htag : "number:number" ≠ "number:text" := by decide
  cases part with
  | number block =>
      cases part' with
      | number block' => exact numberElement_inj
      | text literal => exact iff_of_false (fun h => htag (congrArg Element.tag h)) nofun
  | text literal =>
      cases part' with
      | number block => exact iff_of_false (fun h => htag (congrArg Element.tag h).symm) nofun
      | text literal' => simp [partElement, Part.view]

/-! ### Sections -/

theorem map_eq_map_iff_of_mem {α β γ : Type} {g : α → β} {v : α → γ} {xs ys : List α}
    (h : ∀ x ∈ xs, ∀ y ∈ ys, g x = g y ↔ v x = v y) : xs.map g = ys.map g ↔ xs.map v = ys.map v := by
  induction xs generalizing ys with
  | nil => cases ys <;> simp
  | cons x xs ih =>
      cases ys with
      | nil => simp
      | cons y ys =>
          have hhead := h x List.mem_cons_self y List.mem_cons_self
          have hrest := ih fun a ha b hb => h a (List.mem_cons_of_mem _ ha) b (List.mem_cons_of_mem _ hb)
          simp only [List.map_cons, List.cons.injEq, hhead, hrest]

/-- Two lists that are joined in front of the first value without `p` can be told from what they are joined to. -/
theorem append_inj_of_stops {β : Type} {p : β → Bool} {as as' bs bs' : List β} (has : ∀ x ∈ as, p x = true)
    (has' : ∀ x ∈ as', p x = true) (hbs : Stops p bs) (hbs' : Stops p bs') :
    as ++ bs = as' ++ bs' ↔ as = as' ∧ bs = bs' := by
  refine ⟨fun h => ⟨?_, ?_⟩, fun h => by rw [h.1, h.2]⟩
  · rw [← takeWhile_append_of_stops has hbs, h, takeWhile_append_of_stops has' hbs']
  · rw [← dropWhile_append_of_stops has hbs, h, dropWhile_append_of_stops has' hbs']

def isColor (e : Element) : Bool := e.tag == "style:text-properties"

theorem stops_isColor_parts (parts : List Part) : Stops isColor (parts.map partElement) := by
  intro e he
  obtain ⟨part, -, rfl⟩ := List.mem_map.1 (List.mem_of_mem_head? he)
  cases part <;> rfl

/-- The children of a style are told apart by their tags, so they give back the view of the section. -/
theorem children_sectionStyle_inj (name name' : String) {s t : Section} :
    (sectionStyle name s).children = (sectionStyle name' t).children ↔ s.view = t.view := by
  have hcolors : ∀ color : Option Color, ∀ e ∈ color.toList.map colorElement, isColor e = true := by
    intro color e he
    obtain ⟨c, -, rfl⟩ := List.mem_map.1 he
    rfl
  have hcolor : s.color.toList.map colorElement = t.color.toList.map colorElement
      ↔ s.color.map Color.rgb = t.color.map Color.rgb := by
    cases s.color <;> cases t.color <;> simp [colorElement_inj]
  have hparts : s.parts.map partElement = t.parts.map partElement ↔ s.parts.map Part.view = t.parts.map Part.view :=
    map_eq_map_iff_of_mem fun _ _ _ _ => partElement_inj
  show s.color.toList.map colorElement ++ s.parts.map partElement
    = t.color.toList.map colorElement ++ t.parts.map partElement ↔ _
  rw [append_inj_of_stops (hcolors s.color) (hcolors t.color) (stops_isColor_parts _) (stops_isColor_parts _),
    hcolor, hparts, Section.view, Section.view, SectionView.mk.injEq]

/-! ### Conditions -/

theorem conditionText?_eq (c : Condition) :
    conditionText? c = c.write?.map fun content => "value()" ++ String.ofList content := by
  rw [conditionText?, Condition.write?, Option.map_map]
  refine congrArg (Option.map · _) (funext fun symbol => ?_)
  rw [Function.comp_apply, String.ofList_append, String.ofList_toList, String.append_assoc]

theorem isSome_conditionText? (c : Condition) : (conditionText? c).isSome = decide (c.comparator ≠ .isText) := by
  rw [conditionText?, Option.isSome_map]
  cases c.comparator <;> rfl

/-- No two conditions have one text, as no two have one tag. -/
theorem conditionText?_inj {c d : Condition} (hc : c.comparator ≠ .isText) :
    conditionText? c = conditionText? d ↔ c = d := by
  have hinjective : Function.Injective fun content => "value()" ++ String.ofList content :=
    fun _ _ heq => String.ofList_injective ((String.append_right_inj _).1 heq)
  rw [conditionText?_eq, conditionText?_eq, (Option.map_injective hinjective).eq_iff, Condition.write?_inj hc]

/-! ### Formats -/

def hiddenStyle (name : String) (branch : Branch) (index : Nat) : Element :=
  (sectionStyle (branchName name index) branch.body).setAttribute "style:volatile" "true"

def branchMap (name : String) (branch : Branch) (index : Nat) : Element :=
  mapElement ((conditionText? branch.condition).getD "") (branchName name index)

theorem styledBranches_eq (f : Format) : styledBranches f = f.numericBranches.map fun pair =>
    (pair.2, (conditionText? pair.1.condition).getD "", pair.1.body) := by
  rw [styledBranches, Format.numericBranches]
  induction f.branches.zipIdx with
  | nil => rfl
  | cons pair pairs ih =>
      obtain ⟨branch, index⟩ := pair
      have hsome := isSome_conditionText? branch.condition
      cases htext : conditionText? branch.condition with
      | none => simp_all
      | some text => simp_all

theorem hiddenStyles_eq (f : Format) (name : String) :
    hiddenStyles f name = f.numericBranches.map fun pair => hiddenStyle name pair.1 pair.2 := by
  rw [hiddenStyles, styledBranches_eq, List.map_map]
  rfl

theorem branchMaps_eq (f : Format) (name : String) :
    branchMaps f name = f.numericBranches.map fun pair => branchMap name pair.1 pair.2 := by
  rw [branchMaps, styledBranches_eq, List.map_map]
  rfl

theorem children_hiddenStyle (name : String) (b : Branch) (i : Nat) :
    (hiddenStyle name b i).children = (sectionStyle (branchName name i) b.body).children := rfl

theorem hiddenStyle_inj {name : String} {b c : Branch} {i j : Nat} :
    hiddenStyle name b i = hiddenStyle name c j ↔ i = j ∧ b.body.view = c.body.view := by
  constructor
  · intro h
    have hname : some (branchName name i) = some (branchName name j) := congrArg name? h
    have hchildren := congrArg Element.children h
    rw [children_hiddenStyle, children_hiddenStyle, children_sectionStyle_inj] at hchildren
    exact ⟨branchName_injective name (Option.some.inj hname), hchildren⟩
  · rintro ⟨rfl, hview⟩
    have hchildren := (children_sectionStyle_inj (branchName name i) (branchName name i)).2 hview
    simp only [hiddenStyle, sectionStyle, setAttribute] at hchildren ⊢
    rw [hchildren]

theorem hiddenStyle_branchMap_inj {name : String} {b c : Branch} {i j : Nat} (hb : b.condition.comparator ≠ .isText)
    (hc : c.condition.comparator ≠ .isText) :
    (hiddenStyle name b i, branchMap name b i) = (hiddenStyle name c j, branchMap name c j)
      ↔ b.view i = c.view j := by
  obtain ⟨text, htext⟩ := Option.isSome_iff_exists.1 ((isSome_conditionText? b.condition).trans (decide_eq_true hb))
  obtain ⟨text', htext'⟩ := Option.isSome_iff_exists.1 ((isSome_conditionText? c.condition).trans (decide_eq_true hc))
  have hcondition : text = text' ↔ b.condition = c.condition := by
    rw [← conditionText?_inj hb, htext, htext', Option.some_inj]
  rw [Prod.mk.injEq, hiddenStyle_inj, Branch.view, Branch.view, BranchView.mk.injEq, branchMap, branchMap, htext,
    htext', Option.getD_some, Option.getD_some]
  constructor
  · rintro ⟨⟨rfl, hview⟩, hmap⟩
    have hvalue : some text = some text' := congrArg (·.getAttribute? "style:condition") hmap
    rw [hcondition.1 (Option.some.inj hvalue)]
    exact ⟨rfl, rfl, rfl, hview⟩
  · rintro ⟨rfl, hcomparator, hthreshold, hview⟩
    rw [hcondition.2 (Condition.eq_iff_toBits.2 ⟨hcomparator, Binary64.toBits_inj.2 hthreshold⟩)]
    exact ⟨⟨rfl, hview⟩, rfl⟩

theorem hiddenStyles_branchMaps_inj (f g : Format) (name : String) :
    hiddenStyles f name = hiddenStyles g name ∧ branchMaps f name = branchMaps g name
      ↔ f.branchViews = g.branchViews := by
  have hnumeric : ∀ f : Format, ∀ pair ∈ f.numericBranches, pair.1.condition.comparator ≠ .isText :=
    fun f pair hpair => of_decide_eq_true (List.mem_filter.1 hpair).2
  have hviews : f.numericBranches.map (fun pair => (hiddenStyle name pair.1 pair.2, branchMap name pair.1 pair.2))
      = g.numericBranches.map (fun pair => (hiddenStyle name pair.1 pair.2, branchMap name pair.1 pair.2))
      ↔ f.branchViews = g.branchViews :=
    map_eq_map_iff_of_mem fun x hx y hy => hiddenStyle_branchMap_inj (hnumeric f x hx) (hnumeric g y hy)
  rw [← hviews, hiddenStyles_eq, hiddenStyles_eq, branchMaps_eq, branchMaps_eq]
  constructor
  · rintro ⟨hhidden, hmaps⟩
    rw [← List.zip_map', ← List.zip_map', hhidden, hmaps]
  · intro h
    have hhidden := congrArg (List.map Prod.fst) h
    have hmaps := congrArg (List.map Prod.snd) h
    rw [List.map_map, List.map_map] at hhidden hmaps
    exact ⟨hhidden, hmaps⟩

theorem visibleStyle_inj {f g : Format} {name : String} :
    visibleStyle f name = visibleStyle g name
      ↔ f.primary.view = g.primary.view ∧ branchMaps f name = branchMaps g name := by
  have hsection : ∀ f : Format, ∀ e ∈ (sectionStyle name f.primary).children, (!isMap e) = true := by
    intro f e he
    rw [(leaf_of_mem_sectionStyle name f.primary e he).2]
    rfl
  have hmaps : ∀ f : Format, Stops (!isMap ·) (branchMaps f name) := by
    intro f e he
    simp only [(leaf_of_mem_branchMaps e (List.mem_of_mem_head? he)).2, Bool.not_true]
  have hchildren := append_inj_of_stops (hsection f) (hsection g) (hmaps f) (hmaps g)
  rw [children_sectionStyle_inj] at hchildren
  refine ⟨fun h => hchildren.1 (congrArg Element.children h), fun h => ?_⟩
  have hequal := hchildren.2 h
  simp only [visibleStyle, sectionStyle] at hequal ⊢
  rw [hequal]

/-- Two formats have the same styles exactly when they look the same without what styles leave out: the views of
their branches that are not for text are equal, and so are those of their primary sections. -/
theorem styles_eq_iff_views_eq (f g : Format) (name : String) :
    styles f name = styles g name ↔ f.branchViews = g.branchViews ∧ f.primary.view = g.primary.view := by
  rw [styles_eq, styles_eq, List.append_singleton_inj, visibleStyle_inj, ← hiddenStyles_branchMaps_inj f g name]
  constructor
  · rintro ⟨hhidden, hprimary, hmaps⟩
    exact ⟨⟨hhidden, hmaps⟩, hprimary⟩
  · rintro ⟨⟨hhidden, hmaps⟩, hprimary⟩
    exact ⟨hhidden, hprimary, hmaps⟩

end OpenDocument

end CellFormat
