import CellFormat.Proofs.Number.Text
import CellFormat.Proofs.Spreadsheet.FormatTable
import CellFormat.Proofs.Xml.Reader
/-!
# The table read back

The table is written from a template, and not as a tree. The template writes what the tree of the table would be
written as: its names are fixed, its numbers are digits, which escaping leaves alone, and its codes are escaped. So
the table is read back as that tree, whatever the codes look like.
-/

namespace CellFormat.FormatTable

open Xml

/-! ### The table as a tree -/

def entryElement (entry : Nat × String) : Element where
  tag := "numFmt"
  attributes := .ofList [("numFmtId", entry.1.repr), ("formatCode", entry.2)]

def toElement (t : FormatTable) : Element where
  tag := "numFmts"
  attributes := .ofList [("count", t.size.repr)]
  children := t.entries.map entryElement

theorem entries_entryElement (entry : Nat × String) :
    (entryElement entry).attributes.entries = [("numFmtId", entry.1.repr), ("formatCode", entry.2)] := rfl

theorem entries_toElement (t : FormatTable) : t.toElement.attributes.entries = [("count", t.size.repr)] := rfl

theorem wellNamed_entryElement (entry : Nat × String) : (entryElement entry).WellNamed := by
  have hnames : ∀ pair ∈ [("numFmtId", entry.1.repr), ("formatCode", entry.2)], isName pair.1.toList = true := by
    simp
    decide
  exact .mk ⟨by decide, hnames⟩ nofun

theorem wellNamed_toElement (t : FormatTable) : t.toElement.WellNamed := by
  have hnames : ∀ pair ∈ [("count", t.size.repr)], isName pair.1.toList = true := by
    simp
    decide
  refine .mk ⟨by decide, hnames⟩ fun child hchild => ?_
  obtain ⟨entry, -, rfl⟩ := List.mem_map.1 hchild
  exact wellNamed_entryElement entry

/-! ### The template writes the tree -/

theorem escapeChar_of_isDigit {c : Char} (hc : c.isDigit = true) : escapeChar c = [c] := by
  have hne : ∀ mark, mark.isDigit = false → c ≠ mark := by
    rintro mark hmark rfl
    exact Bool.false_ne_true (hmark.symm.trans hc)
  exact escapeChar_of_ne (hne _ rfl) (hne _ rfl) (hne _ rfl) (hne _ rfl) (hne _ rfl)

theorem escape_repr (n : Nat) : escape n.repr.toList = writeNat n := by
  have hdigits : ∀ c ∈ writeNat n, escapeChar c = [c] :=
    fun c hc => escapeChar_of_isDigit (isDigit_of_mem_writeNat hc)
  rw [Nat.toList_repr, ← writeNat, escape, List.flatMap_congr hdigits]
  exact List.flatMap_singleton' _

theorem writeEntry_eq (entry : Nat × String) : writeEntry entry = (entryElement entry).write := by
  have htree : entryElement entry = { tag := "numFmt", attributes := (entryElement entry).attributes } := rfl
  rw [htree, write_eq_of_isEmpty, Markup.tagText, entries_entryElement]
  unfold writeEntry
  simp only [List.flatMap_cons, List.flatMap_nil, Element.writeAttribute, escape_repr]
  simp

theorem flatMap_writeEntry (entries : List (Nat × String)) :
    entries.flatMap writeEntry = Element.writeAll (entries.map entryElement) := by
  induction entries with
  | nil => rfl
  | cons entry entries ih => rw [List.flatMap_cons, List.map_cons, Element.writeAll, writeEntry_eq, ih]

theorem toXml_eq {t : FormatTable} (h : t.isEmpty = false) : t.toXml = t.toElement.toXml := by
  have hentries : t.entries ≠ [] := by
    simpa [isEmpty, Registry.isEmpty, entries, Registry.indexed] using h
  have hchildren : ¬("".isEmpty && (t.entries.map entryElement).isEmpty) = true := by
    simpa using hentries
  have htree : t.toElement = ⟨"numFmts", t.toElement.attributes, "", t.entries.map entryElement⟩ := rfl
  rw [toXml, h, flatMap_writeEntry, Element.toXml, htree, write_eq_of_not_isEmpty hchildren, Markup.tagText,
    entries_toElement]
  simp only [List.flatMap_cons, List.flatMap_nil, Element.writeAttribute, escape_repr]
  simp [escapeText]

/-! ### The round trip -/

/-- The declaration of a format, with this id and this code. -/
structure Declares (e : Element) (entry : Nat × String) : Prop where
  tag : e.tag = "numFmt"
  attributes : e.attributes.entries = [("numFmtId", entry.1.repr), ("formatCode", entry.2)]
  text : e.text = ""
  children : e.children = []

theorem declares_entryElement (entry : Nat × String) : Declares (entryElement entry) entry :=
  ⟨rfl, entries_entryElement entry, rfl, rfl⟩

/-- Every table that a run leaves with formats in it is read back as their number and their declarations in order. -/
theorem ofBytes_toXml (fs : List Format) (h : (registerAll {} fs).isEmpty = false) :
    ∃ e, Element.ofBytes (registerAll {} fs).toXml.toUTF8.toList = .ok e
      ∧ e.tag = "numFmts" ∧ e.attributes.entries = [("count", (registerAll {} fs).size.repr)] ∧ e.text = ""
      ∧ List.Forall₂ Declares e.children (registerAll {} fs).entries := by
  refine ⟨(registerAll {} fs).toElement, ?_, rfl, entries_toElement _, rfl, ?_⟩
  · rw [toXml_eq h, ← List.append_nil (String.toUTF8 _).toList]
    exact ofBytes_write (wellNamed_toElement _) []
  · exact List.forall₂_map_left_iff.2 (List.forall₂_same.2 fun entry _ => declares_entryElement entry)

/-- A format whose code ends a value and a tag if it is not escaped. -/
def markupText : Format := { primary := { parts := [.text "\"/>&apos;<"] } }

theorem ofBytes_toXml_markupText :
    (registerAll {} [markupText, markupText]).isEmpty = false
      ∧ ∃ e child, Element.ofBytes (registerAll {} [markupText, markupText]).toXml.toUTF8.toList = .ok e
        ∧ e.attributes.entries = [("count", "1")] ∧ e.children = [child]
        ∧ Declares child (164, "\\\"\"/>&apos;<\"") := by
  have hrun : (registerAll {} [markupText, markupText]).isEmpty = false := by decide +kernel
  have hsize : (registerAll {} [markupText, markupText]).size.repr = "1" := by decide +kernel
  have hentries : (registerAll {} [markupText, markupText]).entries = [(164, "\\\"\"/>&apos;<\"")] := by
    decide +kernel
  obtain ⟨e, hread, -, hcount, -, hchildren⟩ := ofBytes_toXml _ hrun
  rw [hentries] at hchildren
  rw [hsize] at hcount
  obtain ⟨child, others, hchild, hothers, hall⟩ := List.forall₂_cons_right_iff.1 hchildren
  rw [List.forall₂_nil_right_iff.1 hothers] at hall
  exact ⟨hrun, e, child, hread, hcount, hall, hchild⟩

end CellFormat.FormatTable
