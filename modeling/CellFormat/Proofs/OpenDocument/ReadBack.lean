import CellFormat.OpenDocument.DocumentStyles
import CellFormat.Proofs.Xml.Reader
/-!
# Styles read back

The tags and attributes of styles are fixed names, and everything that a format brings along stands in values
and texts. So the styles of any format are read back as they were written, whatever the format's own texts and
the name of the style look like.
-/

namespace CellFormat.OpenDocument

open Xml

/-! ### Names of attributes -/

variable {tag name value : String} {attributes : Attributes} {pairs : List (String × String)}

theorem isName_of_mem_setEntry {entries : List (String × String)} (hname : isName name.toList = true)
    (hentries : ∀ entry ∈ entries, isName entry.1.toList = true) :
    ∀ entry ∈ setEntry name value entries, isName entry.1.toList = true := by
  induction entries with
  | nil =>
      intro entry hentry
      rw [List.mem_singleton.1 hentry]
      exact hname
  | cons head entries ih =>
      obtain ⟨key, old⟩ := head
      have hkey : isName key.toList = true := hentries (key, old) List.mem_cons_self
      have hrest := fun entry hentry => hentries entry (List.mem_cons_of_mem _ hentry)
      intro entry hentry
      rw [setEntry] at hentry
      split at hentry
      · rcases List.mem_cons.1 hentry with rfl | hentry
        · exact hkey
        · exact hrest entry hentry
      · rcases List.mem_cons.1 hentry with rfl | hentry
        · exact hkey
        · exact ih hrest entry hentry

theorem isNamed_set (h : Markup.IsNamed tag attributes) (hname : isName name.toList = true) :
    Markup.IsNamed tag (attributes.set name value) :=
  ⟨h.tag, isName_of_mem_setEntry hname h.attributes⟩

theorem isNamed_foldl_set (h : Markup.IsNamed tag attributes)
    (hpairs : ∀ pair ∈ pairs, isName pair.1.toList = true) :
    Markup.IsNamed tag (pairs.foldl (fun attributes (name, value) => attributes.set name value) attributes) := by
  induction pairs generalizing attributes with
  | nil => exact h
  | cons pair pairs ih =>
      apply ih (isNamed_set h (hpairs pair List.mem_cons_self))
      intro x hx
      exact hpairs x (List.mem_cons_of_mem _ hx)

theorem isNamed_ofList (htag : isName tag.toList = true) (hpairs : ∀ pair ∈ pairs, isName pair.1.toList = true) :
    Markup.IsNamed tag (.ofList pairs) :=
  isNamed_foldl_set ⟨htag, nofun⟩ hpairs

/-! ### Elements -/

theorem wellNamed_numberElement (block : DigitBlock) : (numberElement block).WellNamed := by
  refine .mk (isNamed_ofList (by decide) fun pair hpair => ?_) nofun
  rw [List.mem_append, List.mem_append, List.mem_map] at hpair
  rcases hpair with (⟨count, -, rfl⟩ | hpair) | hpair
  · show isName "number:decimal-places".toList = true
    decide
  · have hnames : [("loext:min-decimal-places", countText block.minDecimal),
        ("number:min-integer-digits", countText block.minInteger)].all (fun pair => isName pair.1.toList) = true := by
      show (isName "loext:min-decimal-places".toList && (isName "number:min-integer-digits".toList && true)) = true
      decide
    exact List.all_eq_true.1 hnames pair hpair
  · split at hpair
    · rw [List.mem_singleton.1 hpair]
      show isName "number:grouping".toList = true
      decide
    · cases hpair

theorem wellNamed_partElement (part : Part) : (partElement part).WellNamed := by
  cases part with
  | number block => exact wellNamed_numberElement block
  | text text => exact .mk ⟨by decide, nofun⟩ nofun

theorem wellNamed_colorElement (color : Color) : (colorElement color).WellNamed :=
  .mk (isNamed_ofList (by decide) (by simp; decide)) nofun

theorem wellNamed_mapElement (condition name : String) : (mapElement condition name).WellNamed :=
  .mk (isNamed_ofList (by decide) (by simp; decide)) nofun

/-! ### Styles -/

theorem isNamed_sectionStyle (name : String) (s : Section) :
    Markup.IsNamed "number:number-style" (sectionStyle name s).attributes :=
  isNamed_ofList (by decide) (by simp; decide)

theorem wellNamed_of_mem_sectionStyle {name : String} {s : Section} :
    ∀ child ∈ (sectionStyle name s).children, child.WellNamed := by
  intro child hchild
  rcases List.mem_append.1 hchild with hcolor | hpart
  · obtain ⟨color, -, rfl⟩ := List.mem_map.1 hcolor
    exact wellNamed_colorElement color
  · obtain ⟨part, -, rfl⟩ := List.mem_map.1 hpart
    exact wellNamed_partElement part

theorem wellNamed_styles {f : Format} {name : String} : ∀ e ∈ styles f name, e.WellNamed := by
  intro e he
  rcases List.mem_append.1 he with hhidden | hvisible
  · obtain ⟨⟨index, condition, body⟩, -, rfl⟩ := List.mem_map.1 hhidden
    exact .mk (isNamed_set (isNamed_sectionStyle _ body) (by decide)) wellNamed_of_mem_sectionStyle
  · rw [List.mem_singleton.1 hvisible]
    refine .mk (isNamed_sectionStyle name f.primary) fun child hchild => ?_
    rcases List.mem_append.1 hchild with hchild | hmap
    · exact wellNamed_of_mem_sectionStyle child hchild
    · obtain ⟨⟨index, condition, body⟩, -, rfl⟩ := List.mem_map.1 hmap
      exact wellNamed_mapElement condition _

theorem DocumentStyles.wellNamed_toElements (r : DocumentStyles) : ∀ e ∈ r.toElements, e.WellNamed := by
  intro e he
  obtain ⟨⟨id, f⟩, -, he⟩ := List.mem_flatMap.1 he
  exact wellNamed_styles e he

/-! ### The round trip -/

/-- A written element is read as what it was, whatever follows it. This includes all styles of a format, and the
styles of a document when they stand between a start tag and an end tag. -/
theorem ofBytes_toUTF8 :
    (∀ e : Element, e.WellNamed → ∀ rest : Bytes, Element.ofBytes (e.toXml.toUTF8.toList ++ rest) = .ok e)
      ∧ (∀ (f : Format) (name : String), ∀ e ∈ styles f name, ∀ rest : Bytes,
        Element.ofBytes (e.toXml.toUTF8.toList ++ rest) = .ok e)
      ∧ ∀ (r : DocumentStyles) (tag : String) (attributes : Attributes), Markup.IsNamed tag attributes →
        ∀ rest : Bytes,
          Element.ofBytes (("<" ++ .ofList (Markup.tagText tag attributes) ++ ">" ++ r.toXml ++ "</" ++ tag
            ++ ">").toUTF8.toList ++ rest) = .ok { tag, attributes, children := r.toElements } := by
  refine ⟨fun e => ofBytes_write, ?_, ?_⟩
  · intro f name e he
    exact ofBytes_write (wellNamed_styles e he)
  · intro r tag attributes hnamed rest
    have htext : "<" ++ .ofList (Markup.tagText tag attributes) ++ ">" ++ r.toXml ++ "</" ++ tag ++ ">"
        = String.ofList ('<' :: Markup.tagText tag attributes ++ ['>']
          ++ (Element.writeAll r.toElements ++ ('<' :: '/' :: tag.toList ++ ['>']))) := by
      rw [← String.toList_inj]
      simp [DocumentStyles.toXml]
    rw [htext, toList_toUTF8]
    exact ofBytes_writeAll hnamed r.wellNamed_toElements rest

/-- An element with values and texts that look like markup. -/
def tangled : Element where
  tag := "a:b"
  attributes := .ofList [("x-1", "\"<&>'"), ("_y", "&amp;lt; ")]
  text := " &amp;lt;b/>\n]]>"
  children := [{ tag := "c", text := "" }, { tag := "d.e", text := "&", children := [{ tag := "f" }] }]

theorem wellNamed_tangled : tangled.WellNamed := by
  have hempty : Element.WellNamed { tag := "c" } := .mk ⟨by decide, nofun⟩ nofun
  have hinner : Element.WellNamed { tag := "f" } := .mk ⟨by decide, nofun⟩ nofun
  have houter : Element.WellNamed { tag := "d.e", text := "&", children := [{ tag := "f" }] } :=
    .mk ⟨by decide, nofun⟩ (List.forall_mem_singleton.2 hinner)
  exact .mk (isNamed_ofList (by decide) (by simp; decide))
    (List.forall_mem_cons.2 ⟨hempty, List.forall_mem_singleton.2 houter⟩)

theorem ofBytes_tangled :
    (tangled.WellNamed ∧ Element.ofBytes (tangled.toXml.toUTF8.toList ++ [byte '<', 0xFF]) = .ok tangled)
      ∧ (sectionStyle "<" integerFormat.primary ∈ styles integerFormat "<"
        ∧ Element.ofBytes ((sectionStyle "<" integerFormat.primary).toXml.toUTF8.toList ++ [0xFF])
          = .ok (sectionStyle "<" integerFormat.primary))
      ∧ Markup.IsNamed "styles" {}
      ∧ Element.ofBytes (("<" ++ .ofList (Markup.tagText "styles" {}) ++ ">" ++ ({} : DocumentStyles).toXml ++ "</"
          ++ "styles" ++ ">").toUTF8.toList ++ [byte '<'])
        = .ok { tag := "styles", children := ({} : DocumentStyles).toElements } := by
  have hstyle : sectionStyle "<" integerFormat.primary ∈ styles integerFormat "<" := List.mem_singleton_self _
  have hnamed : Markup.IsNamed "styles" {} := ⟨by decide, nofun⟩
  obtain ⟨htrees, hstyles, hdocuments⟩ := ofBytes_toUTF8
  exact ⟨⟨wellNamed_tangled, htrees tangled wellNamed_tangled _⟩, ⟨hstyle, hstyles integerFormat "<" _ hstyle _⟩,
    hnamed, hdocuments {} "styles" {} hnamed _⟩

end CellFormat.OpenDocument
