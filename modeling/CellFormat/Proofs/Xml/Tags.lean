import CellFormat.Proofs.Xml.Nodes
import CellFormat.Proofs.Xml.Reader
/-!
# Attributes as they stand in a text

The reader refuses a key that the tag has before, and different keys have different names. So what it sets is new
each time, and the attributes of an element are those of its tag one by one, in the order in which they stand there.
What is read later adds texts and children to an element, but leaves its tag and its attributes. Together with the
runs of calls this is all that is known of attributes: however an element comes about, they are a map with an order.
-/

namespace CellFormat.Xml

/-! ### Tags as texts -/

/-- Whether a text says this name and this value: a key, an equals sign and the value in quotes, with white space
around the sign. -/
inductive SpellsAttribute : (text : Bytes) → (entry : String × String) → Prop where
  | mk {b mark : UInt8} {key front back value : Bytes} {name text : String} (hb : isSpace b = false)
      (hkey : ∀ x ∈ key, isKeyByte x = true) (hname : decode? (b :: key) = some name)
      (hfront : ∀ x ∈ front, isSpace x = true) (hback : ∀ x ∈ back, isSpace x = true)
      (hmark : isQuoteByte mark = true) (hvalue : mark ∉ value) (htext : decode? value = some text) :
      SpellsAttribute (b :: key ++ front ++ byte '=' :: (back ++ mark :: (value ++ [mark]))) (name, unescapeString text)

/-- Whether a text says these attributes one by one, with white space around them. -/
inductive SpellsAttributes : (text : Bytes) → (entries : List (String × String)) → Prop where
  | nil {blank : Bytes} (hblank : ∀ x ∈ blank, isSpace x = true) : SpellsAttributes blank []
  | cons {blank text rest : Bytes} {entry : String × String} {entries : List (String × String)}
      (hblank : ∀ x ∈ blank, isSpace x = true) (hentry : SpellsAttribute text entry)
      (hrest : SpellsAttributes rest entries) : SpellsAttributes (blank ++ text ++ rest) (entry :: entries)

/-- Whether the content of a tag says the name of an element and its attributes. -/
def SpellsTag (content : Bytes) (tag : String) (attributes : Attributes) : Prop :=
  ∃ name rest, content = name ++ rest ∧ (∀ x ∈ name, isSpace x = false) ∧ decode? name = some tag
    ∧ SpellsAttributes rest attributes.entries

/-- Whether a tag with this content stands in a text and opens an element, which it may close as well. -/
def TagIn (bs content : Bytes) : Prop :=
  ∃ closing ∈ [[byte '>'], [byte '/', byte '>']], byte '<' :: content ++ closing <:+: bs

/-- Whether a tag stands in a text that says the name of an element and its attributes. -/
def HasTag (bs : Bytes) (tag : String) (attributes : Attributes) : Prop :=
  ∃ content, TagIn bs content ∧ SpellsTag content tag attributes

theorem TagIn.mono {bs rest content : Bytes} (h : TagIn rest content) (hrest : rest <:+ bs) : TagIn bs content := by
  obtain ⟨closing, hclosing, hinfix⟩ := h
  exact ⟨closing, hclosing, hinfix.trans hrest.isInfix⟩

variable {size : Nat} {seen : List (Bytes × Nat)} {attributes result : Attributes} {b : UInt8}
  {bs rest key value behind content : Bytes} {name text : String} {e : Element}

/-! ### Reading attributes -/

/-- What is read as an attribute is a new key, and is spelled in front of what is behind it. -/
theorem spells_of_readAttribute (hb : isSpace b = false)
    (h : readAttribute size seen b bs = .ok (key, value, behind)) (hname : decode? key = some name)
    (htext : decode? value = some text) :
    seen.lookup key = none
      ∧ ∃ chunk, b :: bs = chunk ++ behind ∧ SpellsAttribute chunk (name, unescapeString text) := by
  obtain ⟨rfl, hseen, rest, mark, body, hsign, hmark, hquote, hvalue⟩ := readAttribute_eq_ok_iff.1 h
  obtain ⟨front, hfront, hfrontBlank⟩ := exists_run_of_dropWhile hsign
  obtain ⟨back, hback, hbackBlank⟩ := exists_run_of_dropWhile hmark
  obtain ⟨hbody, hfree⟩ := eq_append_of_splitAtFirst hvalue
  have hbs : bs = bs.takeWhile isKeyByte ++ (front ++ byte '=' :: (back ++ mark :: (value ++ mark :: behind))) := by
    rw [← hbody, ← hback, ← hfront, List.takeWhile_append_dropWhile]
  have hkey : ∀ x ∈ bs.takeWhile isKeyByte, isKeyByte x = true := fun x hx => List.mem_takeWhile_imp hx
  refine ⟨hseen, _, ?_, .mk hb hkey hname hfrontBlank hbackBlank hquote hfree htext⟩
  conv_lhs => rw [hbs]
  simp

/-- The names of the attributes so far are those of the keys so far. -/
def NamesSeen (attributes : Attributes) (seen : List (Bytes × Nat)) : Prop :=
  ∀ name ∈ attributes.names, ∃ pair ∈ seen, decode? pair.1 = some name

theorem NamesSeen.not_mem (h : NamesSeen attributes seen) (hkey : seen.lookup key = none)
    (hname : decode? key = some name) : name ∉ attributes.names := by
  intro hmem
  obtain ⟨pair, hpair, hdecode⟩ := h name hmem
  have hsame : key = pair.1 := (decode?_eq_some_iff.1 hname).trans (decode?_eq_some_iff.1 hdecode).symm
  have hne := List.lookup_eq_none_iff.1 hkey pair hpair
  rw [hsame] at hne
  simp at hne

theorem NamesSeen.set (h : NamesSeen attributes seen) (hfresh : name ∉ attributes.names)
    (hname : decode? key = some name) (value : String) (position : Nat) :
    NamesSeen (attributes.set name value) ((key, position) :: seen) := by
  intro x hx
  rw [Attributes.names_set, if_neg hfresh, List.mem_append, List.mem_singleton] at hx
  rcases hx with hx | rfl
  · obtain ⟨pair, hpair, hdecode⟩ := h x hx
    exact ⟨pair, List.mem_cons_of_mem _ hpair, hdecode⟩
  · exact ⟨(key, position), List.mem_cons_self, hname⟩

/-- Attributes that are read are spelled, and stand behind those so far. -/
theorem spells_of_readAttributes (h : readAttributes size seen attributes rest = .ok result)
    (hseen : NamesSeen attributes seen) :
    ∃ entries, result.entries = attributes.entries ++ entries ∧ SpellsAttributes rest entries := by
  induction seen, attributes, rest using readAttributes.induct size with
  | case1 seen attributes rest hnil =>
      rw [readAttributes_nil hnil] at h
      cases h
      obtain ⟨blank, hrest, hblank⟩ := exists_run_of_dropWhile hnil
      rw [List.append_nil] at hrest
      exact ⟨[], (List.append_nil _).symm, hrest ▸ .nil hblank⟩
  | case2 seen attributes rest b bs hcons reason hread =>
      rw [readAttributes_cons hcons, hread] at h
      cases h
  | case3 seen attributes rest b bs hcons key value behind hread ih =>
      rw [readAttributes_cons hcons, hread] at h
      obtain ⟨name, hname, h⟩ := bind_eq_ok_iff.1 h
      obtain ⟨text, htext, h⟩ := bind_eq_ok_iff.1 h
      rw [decode_eq_ok_iff] at hname htext
      have hb : isSpace b = false := by
        have hhead := List.head?_dropWhile_not isSpace rest
        simpa [hcons] using hhead
      obtain ⟨hkey, chunk, hchunk, hspells⟩ := spells_of_readAttribute hb hread hname htext
      have hfresh := hseen.not_mem hkey hname
      obtain ⟨entries, hentries, hbehind⟩ := ih name text h (hseen.set hfresh hname _ _)
      obtain ⟨blank, hrest, hblank⟩ := exists_run_of_dropWhile hcons
      refine ⟨(name, unescapeString text) :: entries, ?_, ?_⟩
      · rw [hentries, attributes.entries_set_of_not_mem hfresh, List.append_assoc, List.singleton_append]
      · rw [hrest, hchunk, ← List.append_assoc]
        exact .cons hblank hspells hbehind

theorem spells_of_ofTag (h : Element.ofTag content = .ok e) :
    SpellsTag content e.tag e.attributes ∧ e.children = [] := by
  obtain ⟨tag, htag, h⟩ := bind_eq_ok_iff.1 h
  obtain ⟨attributes, hattributes, h⟩ := bind_eq_ok_iff.1 h
  cases h
  obtain ⟨entries, hentries, hspells⟩ := spells_of_readAttributes hattributes nofun
  rw [List.nil_append] at hentries
  refine ⟨⟨_, _, List.takeWhile_append_dropWhile.symm, fun x hx => ?_, decode_eq_ok_iff.1 htag, ?_⟩, rfl⟩
  · simpa using List.mem_takeWhile_imp hx
  · rw [hentries]
    exact hspells

/-! ### Reading elements -/

namespace Markup

variable {markup : Markup}

/-- The content of a tag that opens an element. -/
def tag? : Markup → Option Bytes
  | opening content | empty content => some content
  | _ => none

theorem exists_closing_of_ofContent {chunk : Bytes} (h : (ofContent chunk).tag? = some content) (behind : Bytes) :
    ∃ closing ∈ [[byte '>'], [byte '/', byte '>']], chunk ++ byte '>' :: behind = content ++ closing ++ behind := by
  unfold ofContent at h
  split at h
  · next hslash =>
    cases h
    have hchunk : chunk.dropLast ++ [byte '/'] = chunk := List.dropLast_append_getLast? _ (eq_of_beq hslash)
    refine ⟨[byte '/', byte '>'], by simp, ?_⟩
    conv_lhs => rw [← hchunk]
    simp
  · cases h
    exact ⟨[byte '>'], by simp, by simp⟩

theorem tagIn_of_readAngle (h : readAngle bs = .ok (markup, behind)) (htag : markup.tag? = some content) :
    TagIn (byte '<' :: bs) content := by
  unfold readAngle at h
  split at h
  · cases h
  · split at h
    · obtain ⟨_, -, heq⟩ := bind_eq_ok_iff.1 h
      cases heq
      cases htag
    · split at h
      · obtain ⟨_, -, heq⟩ := bind_eq_ok_iff.1 h
        cases heq
        cases htag
      · split at h
        · obtain ⟨_, -, heq⟩ := bind_eq_ok_iff.1 h
          cases heq
          cases htag
        · obtain ⟨⟨chunk, behind⟩, hcontent, heq⟩ := bind_eq_ok_iff.1 h
          cases heq
          obtain ⟨closing, hclosing, hbs⟩ := exists_closing_of_ofContent htag behind
          rw [eq_append_of_tagContent hcontent, hbs]
          exact ⟨closing, hclosing, [], behind, rfl⟩

theorem tagIn_of_next (h : next b bs = .ok (markup, behind)) (htag : markup.tag? = some content) :
    TagIn (b :: bs) content := by
  unfold next at h
  split at h
  · next hangle =>
    rw [eq_of_beq hangle]
    exact tagIn_of_readAngle h htag
  · split at h
    · unfold readReference at h
      split at h
      · cases h
      · split at h <;> cases h
        cases htag
    · cases h
      cases htag

end Markup

variable {stack : List Element} {markup : Markup} {progress : Progress} {whole : Bytes}

def Progress.elements : Progress → List Element
  | complete e => [e]
  | opened stack => stack

theorem hasTags_close {p : String → Attributes → Prop} (he : e.HasTags p) (hstack : ∀ x ∈ stack, x.HasTags p) :
    ∀ x ∈ (Progress.close e stack).elements, x.HasTags p := by
  cases stack with
  | nil => exact List.forall_mem_singleton.2 he
  | cons parent rest =>
      obtain ⟨hparent, hrest⟩ := List.forall_mem_cons.1 hstack
      exact List.forall_mem_cons.2 ⟨hparent.addChild he, hrest⟩

theorem hasTags_ofTag (h : Element.ofTag content = .ok e) (hcontent : TagIn whole content) :
    e.HasTags (HasTag whole) := by
  obtain ⟨hspells, hchildren⟩ := spells_of_ofTag h
  exact Element.hasTags_of_childless ⟨content, hcontent, hspells⟩ hchildren

/-- A step of progress gives no element a tag that does not stand in the text. -/
theorem hasTags_step (h : Progress.step stack markup = .ok progress)
    (hmarkup : ∀ content, markup.tag? = some content → TagIn whole content)
    (hstack : ∀ x ∈ stack, x.HasTags (HasTag whole)) : ∀ x ∈ progress.elements, x.HasTags (HasTag whole) := by
  cases markup with
  | opening content =>
      obtain ⟨e, he, heq⟩ := bind_eq_ok_iff.1 h
      cases heq
      exact List.forall_mem_cons.2 ⟨hasTags_ofTag he (hmarkup content rfl), hstack⟩
  | empty content =>
      obtain ⟨e, he, heq⟩ := bind_eq_ok_iff.1 h
      cases heq
      exact hasTags_close (hasTags_ofTag he (hmarkup content rfl)) hstack
  | text content =>
      cases stack with
      | nil =>
          cases h
          exact nofun
      | cons e rest =>
          obtain ⟨text, -, heq⟩ := bind_eq_ok_iff.1 h
          cases heq
          obtain ⟨he, hrest⟩ := List.forall_mem_cons.1 hstack
          exact List.forall_mem_cons.2 ⟨he.appendText _, hrest⟩
  | reference name =>
      cases stack with
      | nil =>
          cases h
          exact nofun
      | cons e rest =>
          obtain ⟨text, -, heq⟩ := bind_eq_ok_iff.1 h
          cases heq
          obtain ⟨he, hrest⟩ := List.forall_mem_cons.1 hstack
          exact List.forall_mem_cons.2 ⟨he.appendText _, hrest⟩
  | closing name =>
      cases stack with
      | nil => cases h
      | cons e rest =>
          rw [Progress.step] at h
          split at h
          · cases h
            obtain ⟨he, hrest⟩ := List.forall_mem_cons.1 hstack
            exact hasTags_close he hrest
          · cases h
  | ignored =>
      cases h
      exact hstack

theorem hasTags_of_readElement {stack : List Element} {rest : Bytes} (h : readElement stack rest = .ok e)
    (hrest : rest <:+ whole) (hstack : ∀ x ∈ stack, x.HasTags (HasTag whole)) : e.HasTags (HasTag whole) := by
  match rest with
  | [] =>
    rw [readElement] at h
    cases h
  | b :: bs =>
    rw [readElement_eq] at h
    obtain ⟨⟨markup, behind⟩, hnext, h⟩ := bind_eq_ok_iff.1 h
    obtain ⟨progress, hstep, h⟩ := bind_eq_ok_iff.1 h
    have hbs : bs <:+ whole := (List.suffix_cons b bs).trans hrest
    have hbehind : behind <:+ bs := Markup.suffix_of_next hnext
    have hmarkup : ∀ content, markup.tag? = some content → TagIn whole content := fun content htag =>
      (Markup.tagIn_of_next hnext htag).mono hrest
    have helements := hasTags_step hstep hmarkup hstack
    cases progress with
    | complete e' =>
        cases h
        exact helements e List.mem_cons_self
    | opened stack' => exact hasTags_of_readElement h (hbehind.trans hbs) helements
termination_by rest.length
decreasing_by exact Nat.lt_succ_of_le hbehind.length_le

theorem hasTags_of_ofBytes (h : Element.ofBytes bs = .ok e) : e.HasTags (HasTag bs) := by
  unfold Element.ofBytes at h
  split at h
  · exact hasTags_of_readElement h (List.drop_suffix _ _) nofun
  · exact hasTags_of_readElement h (List.suffix_refl _) nofun

namespace Element

/-- The attributes of an element are a map with an order. On an element that is built by calls no name occurs twice,
the names are in the order in which they were first set, and what is found under a name is the last value that was
set for it; the calls that set no attribute leave the attributes as they are. On the elements in an element that is
read no name occurs twice, and the attributes are those of a tag in the text, in their order. -/
theorem attributes_orderedMap :
    (∀ (tag : String) (edits : List Edit), (build tag edits).attributes.names.Nodup
        ∧ (build tag edits).attributes.names = ((settings edits).map Prod.fst).eraseDups
        ∧ (∀ name, (build tag edits).getAttribute? name = (Attributes.valuesOf name (settings edits)).getLast?)
        ∧ ∀ edit : Edit, edit.attribute? = none →
          (edit.apply (build tag edits)).attributes = (build tag edits).attributes)
      ∧ ∀ (bs : Bytes) (e : Element), ofBytes bs = .ok e → ∀ node ∈ e.nodes,
        node.attributes.names.Nodup ∧ HasTag bs node.tag node.attributes := by
  refine ⟨fun tag edits => ?_, fun bs e h node hnode => ?_⟩
  · have hnames : (build tag edits).attributes.names = ((settings edits).map Prod.fst).eraseDups := by
      rw [attributes_build, Attributes.names_ofList]
    refine ⟨?_, hnames, fun name => ?_, fun edit hedit => ?_⟩
    · rw [hnames]
      exact nodup_eraseDups _
    · rw [getAttribute?, attributes_build, Attributes.get?_ofList]
    · exact attributes_apply hedit _
  · exact ⟨node.attributes.nodup, hasTags_of_ofBytes h node hnode⟩

/-- Calls that set an attribute again, with others in between. -/
def settingAgain : List Edit :=
  [.setAttribute "x" "1", .setText "t", .setAttribute "y" "2", .addChild { tag := "c" }, .setAttribute "x" "3"]

/-- An element with white space around the signs of its attributes and quotes of both kinds. -/
def spacedXml : Bytes := bytes "<a x = '1'\ty=\"&lt;\"><b x='2' /></a>"

def spacedChild : Element := { tag := "b", attributes := .ofList [("x", "2")] }

def spacedElement : Element :=
  { tag := "a", attributes := .ofList [("x", "1"), ("y", "<")], children := [spacedChild] }

/-- A name that is set twice keeps its place and has its last value, and a tag is read with white space in it. -/
theorem attributes_orderedMap_settingAgain :
    ((build "a" settingAgain).attributes.names = ["x", "y"]
        ∧ (build "a" settingAgain).getAttribute? "x" = some "3" ∧ (build "a" settingAgain).getAttribute? "z" = none)
      ∧ ((Edit.setText "").attribute? = none
        ∧ ((Edit.setText "").apply (build "a" settingAgain)).attributes = (build "a" settingAgain).attributes)
      ∧ ofBytes spacedXml = .ok spacedElement ∧ spacedChild ∈ spacedElement.nodes
        ∧ spacedChild.attributes.names.Nodup ∧ HasTag spacedXml "b" (.ofList [("x", "2")]) := by
  obtain ⟨hbuilt, hread⟩ := attributes_orderedMap
  obtain ⟨-, hnames, hvalues, hothers⟩ := hbuilt "a" settingAgain
  have hspaced : ofBytes spacedXml = .ok spacedElement := by decide +kernel
  have hchild : spacedChild ∈ spacedElement.nodes := by
    simp [spacedElement, spacedChild, nodes, nodesAll]
  exact ⟨⟨hnames.trans (by decide), (hvalues "x").trans (by decide), (hvalues "z").trans (by decide)⟩,
    ⟨rfl, hothers (.setText "") rfl⟩, hspaced, hchild, hread _ _ hspaced spacedChild hchild⟩

end Element

end CellFormat.Xml
