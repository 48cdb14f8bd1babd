import CellFormat.Code.Header
import CellFormat.Code.Printer
import CellFormat.Except
import CellFormat.Proofs.Condition
import CellFormat.Proofs.Number.Text
import CellFormat.Proofs.Text.Cut
/-!
# Tags read back

A tag is told by its content: a colour name consists of letters and digits, a condition begins with a
comparator and has no semicolon in it. So no content is both, and what a header is written as is read as
that header, if the text behind it does not go on with a tag.
-/

namespace CellFormat

/-! ### Conditions -/

theorem isComparatorChar_of_mem_symbol {comparator : Comparator} {symbol : String}
    (h : comparator.symbol? = some symbol) : ∀ c ∈ symbol.toList, isComparatorChar c = true := by
  refine List.all_eq_true.1 ?_
  cases comparator <;> cases h <;> decide

theorem Comparator.ofToken_symbol {comparator : Comparator} {symbol : String}
    (h : comparator.symbol? = some symbol) : ofToken symbol.toList = .ok (some comparator) := by
  cases comparator <;> cases h <;> decide

theorem Condition.write?_eq_some {condition : Condition} {content : List Char}
    (h : condition.write? = some content) : ∃ symbol, condition.comparator.symbol? = some symbol
      ∧ content = symbol.toList ++ writeNumber condition.threshold := by
  obtain ⟨symbol, hsymbol, hcontent⟩ := Option.map_eq_some_iff.1 h
  exact ⟨symbol, hsymbol, hcontent.symm⟩

theorem Comparator.exists_symbol {comparator : Comparator} (h : comparator ≠ .isText) :
    ∃ symbol, comparator.symbol? = some symbol := by
  cases comparator with
  | isText => exact absurd rfl h
  | _ => exact ⟨_, rfl⟩

theorem Condition.writeTag_eq {condition : Condition} (h : condition.comparator ≠ .isText) :
    ∃ content, condition.write? = some content ∧ condition.writeTag = '[' :: content ++ [']'] := by
  obtain ⟨symbol, hsymbol⟩ := Comparator.exists_symbol h
  have hcontent : condition.write? = some (symbol.toList ++ writeNumber condition.threshold) := by
    rw [write?, hsymbol, Option.map_some]
  exact ⟨_, hcontent, by rw [writeTag, hcontent]⟩

theorem isComparatorChar_of_isNumberChar {c : Char} (hc : isNumberChar c = true) : isComparatorChar c = false := by
  have hless := ne_of_isNumberChar hc (by decide : isNumberChar '<' = false)
  have hgreater := ne_of_isNumberChar hc (by decide : isNumberChar '>' = false)
  have hequal := ne_of_isNumberChar hc (by decide : isNumberChar '=' = false)
  simp [isComparatorChar, hless, hgreater, hequal]

theorem isComparatorChar_of_isBlank {c : Char} (hc : isBlank c = true) : isComparatorChar c = false := by
  have hne : ∀ x, isBlank x = false → c ≠ x := by
    rintro x hx rfl
    rw [hc] at hx
    cases hx
  simp [isComparatorChar, hne '<' (by decide), hne '>' (by decide), hne '=' (by decide)]

theorem stops_writeNumber_append (x : Binary64) (rest : List Char) :
    Stops isComparatorChar (writeNumber x ++ rest) := by
  cases htext : writeNumber x with
  | nil => exact absurd htext (writeNumber_ne_nil x)
  | cons c cs =>
      have hc : isNumberChar c = true := isNumberChar_of_mem_writeNumber (htext ▸ List.mem_cons_self)
      exact stops_cons (isComparatorChar_of_isNumberChar hc) (cs ++ rest)

theorem isBlank_of_isNumberChar {c : Char} (hc : isNumberChar c = true) : isBlank c = false := by
  have hrange : 45 ≤ c.toNat ∧ c.toNat ≤ 101 := by
    simp only [isNumberChar, Bool.or_eq_true, beq_iff_eq] at hc
    rcases hc with ((hdigit | rfl) | rfl) | rfl
    · have hbounds := Char.isDigit_iff_toNat.1 hdigit
      simp only [Char.reduceToNat] at hbounds
      omega
    · decide
    · decide
    · decide
  simp only [isBlank, Bool.or_eq_false_iff, Bool.and_eq_false_iff, decide_eq_false_iff_not, beq_eq_false_iff_ne]
  omega

/-- A tag is read as the condition of its comparator and its number, whatever blanks are around the number. -/
theorem readCondition_padded {comparator : Comparator} {symbol : String} (hsymbol : comparator.symbol? = some symbol)
    {x : Binary64} (hfinite : x.isFinite = true) {front back : List Char} (hfront : ∀ c ∈ front, isBlank c = true)
    (hback : ∀ c ∈ back, isBlank c = true) :
    readCondition (symbol.toList ++ (front ++ writeNumber x ++ back)) = Condition.make comparator x := by
  have hchars := isComparatorChar_of_mem_symbol hsymbol
  have hstops : Stops isComparatorChar (front ++ writeNumber x ++ back) := by
    rw [List.append_assoc]
    cases front with
    | nil => exact stops_writeNumber_append x back
    | cons c front => exact stops_cons (isComparatorChar_of_isBlank (hfront c List.mem_cons_self)) _
  have htrim : trimBlanks (front ++ writeNumber x ++ back) = writeNumber x :=
    trimBlanks_append hfront hback (fun c hc => isBlank_of_isNumberChar (isNumberChar_of_mem_writeNumber hc))
      (writeNumber_ne_nil x)
  simp only [readCondition, takeWhile_append_of_stops hchars hstops, dropWhile_append_of_stops hchars hstops,
    Comparator.ofToken_symbol hsymbol, htrim, readNumber?_writeNumber hfinite]
  change Condition.make comparator (if x.isZero then .zero else x) = _
  split
  · next hzero => rw [Condition.make_of_isZero comparator hzero, Condition.make_of_isZero comparator rfl]
  · rfl

theorem readCondition_write {condition : Condition} {content : List Char}
    (h : condition.write? = some content) : readCondition content = .ok condition := by
  obtain ⟨symbol, hsymbol, rfl⟩ := Condition.write?_eq_some h
  have hread := readCondition_padded hsymbol condition.finite (List.forall_mem_nil _) (List.forall_mem_nil _)
  rwa [List.nil_append, List.append_nil, Condition.make_self] at hread

theorem Condition.write?_inj {c d : Condition} (hc : c.comparator ≠ .isText) : c.write? = d.write? ↔ c = d := by
  constructor
  · intro h
    obtain ⟨content, hcontent, -⟩ := writeTag_eq hc
    have hread := readCondition_write hcontent
    rw [readCondition_write (h.symm.trans hcontent)] at hread
    exact (Except.ok.inj hread).symm
  · exact congrArg write?

theorem readCondition_of_stops {content : List Char} (h : Stops isComparatorChar content) :
    (readCondition content).isOk = false := by
  have htake : content.takeWhile isComparatorChar = [] := by
    have happend := takeWhile_append_of_stops (fun x hx => nomatch hx : ∀ x ∈ [], isComparatorChar x = true) h
    exact happend
  rw [readCondition, htake]
  rfl

/-- A character that no number has is in no condition either, unless it can stand around the number. -/
theorem readCondition_of_foreign {x : Char} (hx : isForeign x = true) (hcomparator : isComparatorChar x = false)
    (hblank : isBlank x = false) {content : List Char} (h : x ∈ content) : (readCondition content).isOk = false := by
  have hvalue : x ∈ trimBlanks (content.dropWhile isComparatorChar) :=
    mem_trimBlanks hblank (mem_dropWhile hcomparator h)
  cases hread : readCondition content with
  | error e => rfl
  | ok condition =>
      obtain ⟨comparator?, -, hrest⟩ := bind_eq_ok_iff.1 hread
      cases comparator? with
      | none => cases hrest
      | some comparator => simp [readNumber?_of_foreign hx hvalue] at hrest

/-! ### Colours -/

namespace Color

/-- Whether the colour has a tag: a numbered one has its number in the palette. -/
def Nameable : Color → Prop
  | indexed number => 1 ≤ number ∧ number ≤ maxIndexed
  | _ => True

theorem ofName?_name_indexed : ∀ n ≤ 56, 1 ≤ n → ofName? ("Color" ++ n.repr).toList = some (indexed n.toUInt8) := by
  decide +kernel

theorem ofName?_name {color : Color} (h : color.Nameable) : ofName? color.name.toList = some color := by
  cases color with
  | indexed number =>
      have hone := UInt8.le_iff_toNat_le.1 h.1
      have hmax := UInt8.le_iff_toNat_le.1 h.2
      have hname := ofName?_name_indexed number.toNat hmax hone
      rwa [Nat.toUInt8_eq, UInt8.ofNat_toNat] at hname
  | _ => decide +kernel

theorem all_isAlphanum_named :
    (named.all fun color => (color.name.toList.map Char.toLower).all Char.isAlphanum) = true := by
  decide +kernel

theorem isAlphanum_of_ofName? {content : List Char} {color : Color} (h : ofName? content = some color) :
    ∀ c ∈ content, c.isAlphanum = true := by
  intro c hc
  have hlower : c.toLower ∈ content.map Char.toLower := List.mem_map_of_mem hc
  refine isAlphanum_of_toLower ?_
  simp only [ofName?] at h
  split at h
  · next found hfound =>
    have hname := List.find?_some hfound
    rw [beq_iff_eq] at hname
    rw [← hname] at hlower
    have hall := List.all_eq_true.1 all_isAlphanum_named found (List.mem_of_find?_eq_some hfound)
    exact List.all_eq_true.1 hall _ hlower
  · split at h
    · next digits hdigits =>
      rw [hdigits] at hlower
      simp only [ofDigits?] at h
      split at h
      · next hall =>
        simp only [Bool.and_eq_true, List.all_eq_true] at hall
        have hsplit : c.toLower ∈ ['c', 'o', 'l', 'o', 'r'] ++ digits := hlower
        rcases List.mem_append.1 hsplit with hstem | hdigit
        · have hall : ['c', 'o', 'l', 'o', 'r'].all Char.isAlphanum = true := by decide
          exact List.all_eq_true.1 hall _ hstem
        · rw [Char.isAlphanum, hall.1.1.1 _ hdigit, Bool.or_true]
      · cases h
    · cases h

end Color

/-! ### Single tags -/

theorem ne_of_isAlphanum {c x : Char} (hc : c.isAlphanum = true) (hx : x.isAlphanum = false) : c ≠ x := by
  rintro rfl
  rw [hc] at hx
  cases hx

theorem stops_of_ofName? {content : List Char} {color : Color} (h : Color.ofName? content = some color) :
    Stops isComparatorChar content := by
  intro c hc
  have halphanum := Color.isAlphanum_of_ofName? h c (List.mem_of_mem_head? hc)
  have hless := ne_of_isAlphanum halphanum (by decide : Char.isAlphanum '<' = false)
  have hgreater := ne_of_isAlphanum halphanum (by decide : Char.isAlphanum '>' = false)
  have hequal := ne_of_isAlphanum halphanum (by decide : Char.isAlphanum '=' = false)
  simp [isComparatorChar, hless, hgreater, hequal]

theorem any_head?_eq_false {content : List Char} (h : Stops isComparatorChar content) :
    content.head?.any isComparatorChar = false := by
  cases content with
  | nil => rfl
  | cons c cs => exact h c rfl

theorem bracketGroup?_append {content : List Char} (h : ']' ∉ content) (behind : List Char) :
    bracketGroup? ('[' :: content ++ ']' :: behind) = some (content, behind) := splitAtFirst_append h behind

theorem bracketGroup?_eq_some_iff {text content behind : List Char} :
    bracketGroup? text = some (content, behind) ↔ text = '[' :: content ++ ']' :: behind ∧ ']' ∉ content := by
  refine ⟨fun h => ?_, fun h => by rw [h.1, bracketGroup?_append h.2]⟩
  unfold bracketGroup? at h
  split at h
  · obtain ⟨happend, hmem⟩ := splitAtFirst_eq_some_iff.1 h
    exact ⟨by rw [happend]; rfl, hmem⟩
  · cases h

theorem not_mem_of_ofName? {x : Char} (hx : x.isAlphanum = false) {content : List Char} {color : Color}
    (h : Color.ofName? content = some color) : x ∉ content :=
  fun hmem => ne_of_isAlphanum (Color.isAlphanum_of_ofName? h x hmem) hx rfl

/-! ### Tags as texts -/

theorem head?_of_readCondition {content : List Char} {condition : Condition}
    (h : readCondition content = .ok condition) : content.head?.any isComparatorChar = true := by
  by_contra hnot
  have hstops : Stops isComparatorChar content := by
    intro c hc
    rw [Option.mem_def.1 hc] at hnot
    simpa using hnot
  have herror := readCondition_of_stops hstops
  rw [h] at herror
  cases herror

theorem not_mem_of_readCondition {x : Char} (hforeign : isForeign x = true) (hcomparator : isComparatorChar x = false)
    (hblank : isBlank x = false) {content : List Char} {condition : Condition}
    (h : readCondition content = .ok condition) : x ∉ content := by
  intro hmem
  have herror := readCondition_of_foreign hforeign hcomparator hblank hmem
  rw [h] at herror
  cases herror

/-- Whether a text is a tag of the colour. Without a colour there is no tag. -/
def IsColorTag (color : Option Color) (tag : List Char) : Prop :=
  match color with
  | none => tag = []
  | some color => ∃ name, tag = '[' :: name ++ [']'] ∧ Color.ofName? name = some color

/-- Whether a text is a tag of the condition. Without a condition there is no tag. -/
def IsConditionTag (condition : Option Condition) (tag : List Char) : Prop :=
  match condition with
  | none => tag = []
  | some condition => ∃ content, tag = '[' :: content ++ [']'] ∧ readCondition content = .ok condition

theorem isColorTag_writeTag {color : Option Color} (h : ∀ c ∈ color, c.Nameable) :
    IsColorTag color (color.elim [] Color.writeTag) := by
  cases color with
  | none => rfl
  | some color => exact ⟨color.name.toList, rfl, Color.ofName?_name (h color rfl)⟩

theorem isConditionTag_writeTag {condition : Option Condition} (h : ∀ c ∈ condition, c.comparator ≠ .isText) :
    IsConditionTag condition (condition.elim [] Condition.writeTag) := by
  cases condition with
  | none => rfl
  | some condition =>
      obtain ⟨content, hcontent, htag⟩ := Condition.writeTag_eq (h condition rfl)
      exact ⟨content, htag, readCondition_write hcontent⟩

/-- What holds of brackets, letters and digits holds of all characters of a colour tag. -/
theorem forall_mem_of_isColorTag {p : Char → Prop} (hopen : p '[') (hclose : p ']')
    (halphanum : ∀ c, c.isAlphanum = true → p c) {color : Option Color} {tag : List Char} (h : IsColorTag color tag) :
    ∀ c ∈ tag, p c := by
  cases color with
  | none =>
      obtain rfl : tag = [] := h
      exact List.forall_mem_nil p
  | some color =>
      obtain ⟨name, rfl, hname⟩ := h
      have hchars : ∀ c ∈ name, p c := fun c hc => halphanum c (Color.isAlphanum_of_ofName? hname c hc)
      exact List.forall_mem_cons.2 ⟨hopen, List.forall_mem_append.2 ⟨hchars, List.forall_mem_singleton.2 hclose⟩⟩

/-- What holds of brackets and of all characters of conditions holds of all characters of a condition tag. -/
theorem forall_mem_of_isConditionTag {p : Char → Prop} (hopen : p '[') (hclose : p ']')
    (hcontent : ∀ content condition, readCondition content = .ok condition → ∀ c ∈ content, p c)
    {condition : Option Condition} {tag : List Char} (h : IsConditionTag condition tag) : ∀ c ∈ tag, p c := by
  cases condition with
  | none =>
      obtain rfl : tag = [] := h
      exact List.forall_mem_nil p
  | some condition =>
      obtain ⟨content, rfl, hread⟩ := h
      have hchars := hcontent content condition hread
      exact List.forall_mem_cons.2 ⟨hopen, List.forall_mem_append.2 ⟨hchars, List.forall_mem_singleton.2 hclose⟩⟩

namespace Header

variable {h h' : Header}

/-- Whether the text behind the tags does not go on with a tag of a kind that there is none of yet. -/
structure Done (h : Header) : Prop where
  color : h.color = none → ∀ content behind, bracketGroup? h.body = some (content, behind) →
    Color.ofName? content = none
  condition : h.condition = none → ∀ content behind, bracketGroup? h.body = some (content, behind) →
    content.head?.any isComparatorChar = false

/-- Whether a text does not begin with a tag of either kind. -/
def Untagged (text : List Char) : Prop :=
  ∀ content behind, bracketGroup? text = some (content, behind) →
    Color.ofName? content = none ∧ Stops isComparatorChar content

theorem untagged_of_head {text : List Char} (h : text.head? ≠ some '[') : Untagged text := by
  intro content behind hgroup
  rw [(bracketGroup?_eq_some_iff.1 hgroup).1] at h
  exact absurd rfl h

theorem done_of_untagged {text : List Char} (h : Untagged text) (color : Option Color)
    (condition : Option Condition) : Done ⟨color, condition, text⟩ where
  color _ content behind hgroup := (h content behind hgroup).1
  condition _ content behind hgroup := any_head?_eq_false (h content behind hgroup).2

/-! ### Reading one tag -/

section Group

variable {content behind : List Char} (hgroup : bracketGroup? h.body = some (content, behind))

include hgroup

theorem readTag_of_ofName? {color : Color} (hname : Color.ofName? content = some color) (hnone : h.color = none) :
    h.readTag = .ok (some { h with color := some color, body := behind }) := by
  simp only [readTag, hgroup, hname, hnone]

/-- No colour has a name that begins with a comparator. -/
theorem readTag_of_comparator (hhead : content.head?.any isComparatorChar = true) (hnone : h.condition = none) :
    h.readTag = (readCondition content).map fun condition =>
      some { h with condition := some condition, body := behind } := by
  have hname : Color.ofName? content = none := by
    refine Option.eq_none_iff_forall_ne_some.2 fun color hcolor => ?_
    rw [any_head?_eq_false (stops_of_ofName? hcolor)] at hhead
    cases hhead
  simp only [readTag, hgroup, hname, hnone, hhead]
  cases readCondition content <;> rfl

end Group

theorem readTag_eq_none_iff : h.readTag = .ok none ↔ h.Done := by
  refine ⟨fun hread => ⟨fun hnone content behind hgroup => ?_, fun hnone content behind hgroup => ?_⟩, fun hdone => ?_⟩
  · refine Option.eq_none_iff_forall_ne_some.2 fun color hname => ?_
    rw [readTag_of_ofName? hgroup hname hnone] at hread
    cases hread
  · refine Bool.eq_false_iff.2 fun hhead => ?_
    rw [readTag_of_comparator hgroup hhead hnone] at hread
    cases hcondition : readCondition content <;> rw [hcondition] at hread <;> cases hread
  · unfold readTag
    split
    · rfl
    · next content behind hgroup =>
      split
      · next color hname hnone =>
        rw [hdone.color hnone content behind hgroup] at hname
        cases hname
      · refine if_neg fun hcondition => ?_
        simp only [Bool.and_eq_true, Option.isNone_iff_eq_none] at hcondition
        rw [hdone.condition hcondition.1 content behind hgroup] at hcondition
        cases hcondition.2

theorem readTag_eq_some (hread : h.readTag = .ok (some h')) :
    ∃ tag, h.body = tag ++ h'.body
      ∧ (h.color = none ∧ h'.condition = h.condition ∧ h'.color ≠ none ∧ IsColorTag h'.color tag
        ∨ h.condition = none ∧ h'.color = h.color ∧ h'.condition ≠ none ∧ IsConditionTag h'.condition tag) := by
  unfold readTag at hread
  split at hread
  · cases hread
  · next content behind hgroup =>
    obtain ⟨hbody, -⟩ := bracketGroup?_eq_some_iff.1 hgroup
    refine ⟨'[' :: content ++ [']'], ?_⟩
    split at hread
    · next color hname hnone =>
      cases hread
      exact ⟨by simp [hbody], .inl ⟨hnone, rfl, Option.some_ne_none _, content, rfl, hname⟩⟩
    · split at hread
      · next hcomparator =>
        simp only [Bool.and_eq_true, Option.isNone_iff_eq_none] at hcomparator
        obtain ⟨condition, hcondition, heq⟩ := bind_eq_ok_iff.1 hread
        cases heq
        exact ⟨by simp [hbody], .inr ⟨hcomparator.1, rfl, Option.some_ne_none _, content, rfl, hcondition⟩⟩
      · cases hread

theorem readTag_color {color : Color} {tag : List Char} (htag : IsColorTag (some color) tag)
    (condition : Option Condition) (body : List Char) :
    readTag ⟨none, condition, tag ++ body⟩ = .ok (some ⟨some color, condition, body⟩) := by
  obtain ⟨name, rfl, hname⟩ := htag
  refine readTag_of_ofName? ?_ hname rfl
  simpa using bracketGroup?_append (not_mem_of_ofName? (by decide) hname) body

theorem readTag_condition {condition : Condition} {tag : List Char} (htag : IsConditionTag (some condition) tag)
    (color : Option Color) (body : List Char) :
    readTag ⟨color, none, tag ++ body⟩ = .ok (some ⟨color, some condition, body⟩) := by
  obtain ⟨content, rfl, hcontent⟩ := htag
  have hgroup : bracketGroup? ('[' :: content ++ [']'] ++ body) = some (content, body) := by
    simpa using bracketGroup?_append (not_mem_of_readCondition (by decide) (by decide) (by decide) hcontent) body
  rw [readTag_of_comparator hgroup (head?_of_readCondition hcontent) rfl, hcontent]
  rfl

/-! ### Reading all tags -/

/-- Whether a text is the tags of a header, in either order. -/
def Spells (h : Header) (tags : List Char) : Prop :=
  ∃ colorTag conditionTag, IsColorTag h.color colorTag ∧ IsConditionTag h.condition conditionTag
    ∧ (tags = colorTag ++ conditionTag ∨ tags = conditionTag ++ colorTag)

def missing (h : Header) : Nat := h.color.elim 1 (fun _ => 0) + h.condition.elim 1 (fun _ => 0)

variable {tags text : List Char} {e : FormatError}

theorem forall_mem_of_spells {p : Char → Prop} (hopen : p '[') (hclose : p ']')
    (halphanum : ∀ c, c.isAlphanum = true → p c)
    (hcontent : ∀ content condition, readCondition content = .ok condition → ∀ c ∈ content, p c)
    (hspells : h.Spells tags) : ∀ c ∈ tags, p c := by
  obtain ⟨colorTag, conditionTag, hcolorTag, hconditionTag, htags⟩ := hspells
  have hcolor := forall_mem_of_isColorTag hopen hclose halphanum hcolorTag
  have hcondition := forall_mem_of_isConditionTag hopen hclose hcontent hconditionTag
  rcases htags with rfl | rfl
  · exact List.forall_mem_append.2 ⟨hcolor, hcondition⟩
  · exact List.forall_mem_append.2 ⟨hcondition, hcolor⟩

theorem spells_nil (text : List Char) : Spells ⟨none, none, text⟩ [] := ⟨[], [], rfl, rfl, .inl rfl⟩

/-- A tag that is read comes behind those that were, and is of a kind that there was none of. -/
theorem spells_of_readTag (hspells : h.Spells tags) (hread : h.readTag = .ok (some h')) :
    ∃ tag, h.body = tag ++ h'.body ∧ h'.Spells (tags ++ tag) ∧ h'.missing < h.missing := by
  obtain ⟨colorTag, conditionTag, hcolorTag, hconditionTag, htags⟩ := hspells
  obtain ⟨tag, hbody, hkind⟩ := readTag_eq_some hread
  refine ⟨tag, hbody, ?_⟩
  rcases hkind with ⟨hnone, hcondition, hsome, htag⟩ | ⟨hnone, hcolor, hsome, htag⟩
  · obtain ⟨color, hcolor⟩ := Option.ne_none_iff_exists'.1 hsome
    rw [hnone] at hcolorTag
    obtain rfl : colorTag = [] := hcolorTag
    obtain rfl : tags = conditionTag := by simpa using htags
    refine ⟨⟨tag, tags, htag, hcondition ▸ hconditionTag, .inr rfl⟩, ?_⟩
    simp [missing, hnone, hcolor, hcondition]
  · obtain ⟨condition, hcondition⟩ := Option.ne_none_iff_exists'.1 hsome
    rw [hnone] at hconditionTag
    obtain rfl : conditionTag = [] := hconditionTag
    obtain rfl : tags = colorTag := by simpa using htags
    refine ⟨⟨tags, tag, hcolor ▸ hcolorTag, htag, .inl rfl⟩, ?_⟩
    simp [missing, hnone, hcolor, hcondition]

theorem done_of_both (hcolor : h.color ≠ none) (hcondition : h.condition ≠ none) : h.Done where
  color hnone := absurd hnone hcolor
  condition hnone := absurd hnone hcondition

theorem done_of_missing (hmissing : h.missing = 0) : h.Done := by
  refine done_of_both (fun hnone => ?_) (fun hnone => ?_) <;> simp [missing, hnone] at hmissing

/-- The reader goes on until it is done, if it may read as many tags as there are kinds missing. -/
theorem spells_of_readTags {count : Nat} (hspells : h.Spells tags) (hmissing : h.missing ≤ count)
    (hread : h.readTags count = .ok h') : h'.Done ∧ ∃ more, h.body = more ++ h'.body ∧ h'.Spells (tags ++ more) := by
  induction count generalizing h tags with
  | zero =>
      cases hread
      exact ⟨done_of_missing (Nat.le_zero.1 hmissing), [], rfl, by rwa [List.append_nil]⟩
  | succ count ih =>
      obtain ⟨next?, hnext, hrest⟩ := bind_eq_ok_iff.1 hread
      cases next? with
      | none =>
          cases hrest
          exact ⟨readTag_eq_none_iff.1 hnext, [], rfl, by rwa [List.append_nil]⟩
      | some next =>
          obtain ⟨tag, hbody, hspells, hless⟩ := spells_of_readTag hspells hnext
          obtain ⟨hdone, more, hmore, hspells⟩ := ih hspells (by omega) hrest
          exact ⟨hdone, tag ++ more, by rw [hbody, hmore, List.append_assoc], by rwa [← List.append_assoc]⟩

/-- What the reader fails with is wrong with the tag behind those that it has read. -/
theorem spells_of_readTags_error {count : Nat} (hspells : h.Spells tags) (hread : h.readTags count = .error e) :
    ∃ (h' : Header) (more : List Char), h.body = more ++ h'.body ∧ h'.Spells (tags ++ more)
      ∧ h'.readTag = .error e := by
  induction count generalizing h tags with
  | zero => cases hread
  | succ count ih =>
      rcases bind_eq_error_iff.1 hread with herror | ⟨next?, hnext, hrest⟩
      · exact ⟨h, [], rfl, by rwa [List.append_nil], herror⟩
      · cases next? with
        | none => cases hrest
        | some next =>
            obtain ⟨tag, hbody, hspells, -⟩ := spells_of_readTag hspells hnext
            obtain ⟨h', more, hmore, hspells, herror⟩ := ih hspells hrest
            exact ⟨h', tag ++ more, by rw [hbody, hmore, List.append_assoc], by rwa [← List.append_assoc], herror⟩

theorem readTags_of_done (hdone : h.Done) (count : Nat) : h.readTags count = .ok h := by
  cases count with
  | zero => rfl
  | succ count =>
      rw [readTags, readTag_eq_none_iff.2 hdone]
      rfl

theorem readTags_of_readTag (hread : h.readTag = .ok (some h')) (count : Nat) :
    h.readTags (count + 1) = h'.readTags count := by
  rw [readTags, hread]
  rfl

theorem readTags_colorTag {color : Option Color} (htag : IsColorTag color tags) (condition : Option Condition)
    (body : List Char) (count : Nat) : ∃ left, count ≤ left
      ∧ readTags ⟨none, condition, tags ++ body⟩ (count + 1) = readTags ⟨color, condition, body⟩ left := by
  cases color with
  | none =>
      obtain rfl : tags = [] := htag
      exact ⟨count + 1, Nat.le_succ _, rfl⟩
  | some color => exact ⟨count, Nat.le_refl _, readTags_of_readTag (readTag_color htag condition body) count⟩

theorem readTags_conditionTag {condition : Option Condition} (htag : IsConditionTag condition tags)
    (color : Option Color) (body : List Char) (count : Nat) : ∃ left, count ≤ left
      ∧ readTags ⟨color, none, tags ++ body⟩ (count + 1) = readTags ⟨color, condition, body⟩ left := by
  cases condition with
  | none =>
      obtain rfl : tags = [] := htag
      exact ⟨count + 1, Nat.le_succ _, rfl⟩
  | some condition => exact ⟨count, Nat.le_refl _, readTags_of_readTag (readTag_condition htag color body) count⟩

theorem readHeader_of_spells (hdone : h.Done) (hspells : h.Spells tags) : readHeader (tags ++ h.body) = .ok h := by
  obtain ⟨colorTag, conditionTag, hcolorTag, hconditionTag, rfl | rfl⟩ := hspells
  · obtain ⟨left, hleft, hread⟩ := readTags_colorTag hcolorTag none (conditionTag ++ h.body) 1
    obtain ⟨count, rfl⟩ := Nat.exists_eq_add_of_le' hleft
    obtain ⟨last, -, hread'⟩ := readTags_conditionTag hconditionTag h.color h.body count
    rw [readHeader, List.append_assoc, hread, hread', readTags_of_done hdone]
  · obtain ⟨left, hleft, hread⟩ := readTags_conditionTag hconditionTag none (colorTag ++ h.body) 1
    obtain ⟨count, rfl⟩ := Nat.exists_eq_add_of_le' hleft
    obtain ⟨last, -, hread'⟩ := readTags_colorTag hcolorTag h.condition h.body count
    rw [readHeader, List.append_assoc, hread, hread', readTags_of_done hdone]

end Header

/-- A header is read off a text exactly if the text begins with its tags, in either order, and does not go on with a
tag of a kind that there is none of. -/
theorem readHeader_eq_ok_iff {text : List Char} {h : Header} :
    readHeader text = .ok h ↔ h.Done ∧ ∃ tags, h.Spells tags ∧ text = tags ++ h.body := by
  constructor
  · intro hread
    obtain ⟨hdone, tags, htext, hspells⟩ := Header.spells_of_readTags (Header.spells_nil text) (Nat.le_refl 2) hread
    exact ⟨hdone, tags, hspells, htext⟩
  · rintro ⟨hdone, tags, hspells, rfl⟩
    exact Header.readHeader_of_spells hdone hspells

theorem readHeader_write {color : Option Color} {condition : Option Condition} {body : List Char}
    (hcolor : ∀ c ∈ color, c.Nameable) (hcondition : ∀ c ∈ condition, c.comparator ≠ .isText)
    (hbody : Header.Untagged body) :
    readHeader (color.elim [] Color.writeTag ++ condition.elim [] Condition.writeTag ++ body)
      = .ok ⟨color, condition, body⟩ :=
  Header.readHeader_of_spells (Header.done_of_untagged hbody color condition)
    ⟨_, _, isColorTag_writeTag hcolor, isConditionTag_writeTag hcondition, .inl rfl⟩

theorem readHeader_eq_self_iff {text : List Char} :
    readHeader text = .ok ⟨none, none, text⟩ ↔ Header.Untagged text := by
  rw [readHeader_eq_ok_iff]
  constructor
  · rintro ⟨hdone, -⟩ content behind hgroup
    refine ⟨hdone.color rfl content behind hgroup, fun c hc => ?_⟩
    have hhead := hdone.condition rfl content behind hgroup
    rwa [Option.mem_def.1 hc, Option.any_some] at hhead
  · exact fun h => ⟨Header.done_of_untagged h none none, [], Header.spells_nil text, rfl⟩

/-! ### What tags can say -/

theorem Comparator.ne_isText_of_ofToken {token : List Char} {comparator : Comparator}
    (h : ofToken token = .ok (some comparator)) : comparator ≠ .isText := by
  rintro rfl
  unfold ofToken at h
  split at h <;> cases h

theorem ne_isText_of_readCondition {content : List Char} {condition : Condition}
    (h : readCondition content = .ok condition) : condition.comparator ≠ .isText := by
  obtain ⟨comparator?, htoken, hrest⟩ := bind_eq_ok_iff.1 h
  cases comparator? with
  | none => cases hrest
  | some comparator =>
      cases hvalue : readNumber? (trimBlanks (content.dropWhile isComparatorChar)) with
      | none => simp [hvalue] at hrest
      | some threshold =>
          simp only [hvalue] at hrest
          rw [(Condition.make_eq_ok_iff.1 hrest).2.1]
          exact Comparator.ne_isText_of_ofToken htoken

theorem Color.nameable_of_mem_named {color : Color} (h : color ∈ named) : color.Nameable := by
  cases color with
  | indexed number => simp [named] at h
  | _ => trivial

theorem Color.nameable_of_ofDigits? {digits : List Char} {color : Color} (h : ofDigits? digits = some color) :
    color.Nameable := by
  simp only [ofDigits?] at h
  split at h
  · next hdigits =>
    simp only [Bool.and_eq_true, decide_eq_true_eq] at hdigits
    obtain ⟨⟨-, hone⟩, hmost⟩ := hdigits
    have hnat : (Nat.ofDigitChars 10 digits 0).toUInt8.toNat = Nat.ofDigitChars 10 digits 0 := by
      rw [Nat.toUInt8_eq]
      exact UInt8.toNat_ofNat_of_lt' (Nat.lt_of_le_of_lt hmost (by decide))
    cases h
    exact ⟨UInt8.le_iff_toNat_le.2 (hnat.symm ▸ hone), UInt8.le_iff_toNat_le.2 (hnat.symm ▸ hmost)⟩
  · cases h

theorem Color.nameable_of_ofName? {content : List Char} {color : Color} (h : ofName? content = some color) :
    color.Nameable := by
  simp only [ofName?] at h
  split at h
  · next found hfound =>
    cases h
    exact nameable_of_mem_named (List.mem_of_find?_eq_some hfound)
  · split at h
    · exact nameable_of_ofDigits? h
    · cases h

namespace Header

/-- Whether the tags of a header can be written. -/
structure Writable (h : Header) : Prop where
  color : ∀ c ∈ h.color, c.Nameable
  condition : ∀ c ∈ h.condition, c.comparator ≠ .isText

theorem writable_of_readHeader {text : List Char} {h : Header} (hread : readHeader text = .ok h) : h.Writable := by
  obtain ⟨-, tags, ⟨colorTag, conditionTag, hcolorTag, hconditionTag, -⟩, -⟩ := readHeader_eq_ok_iff.1 hread
  constructor
  · intro color hcolor
    rw [Option.mem_def.1 hcolor] at hcolorTag
    obtain ⟨name, -, hname⟩ := hcolorTag
    exact Color.nameable_of_ofName? hname
  · intro condition hcondition
    rw [Option.mem_def.1 hcondition] at hconditionTag
    obtain ⟨content, -, hcontent⟩ := hconditionTag
    exact ne_isText_of_readCondition hcontent

end Header

end CellFormat
