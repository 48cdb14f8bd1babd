import CellFormat.Xml.Escape
/-!
# Unescaping undoes escaping

Each character is written as itself or as its entity, and what it is written as is read as the character whatever
follows. An entity has no ampersand but the one that it begins with, and none of the marks that are escaped. So
escaped text has no marks, and ampersands only where its entities begin. Both are shown for any way to escape, and
so for attribute values and for texts.
-/

namespace CellFormat.Xml

/-! ### Entities -/

/-- The characters that have an entity, each with the name of its entity. -/
def entityNames : List (Char × List Char) :=
  [('&', "amp".toList), ('<', "lt".toList), ('>', "gt".toList), ('"', "quot".toList), ('\'', "apos".toList)]

def entity (name : List Char) : List Char := '&' :: name ++ [';']

/-- Whether an entity stands at the start of a text. -/
def StartsEntity (text : List Char) : Prop := ∃ pair ∈ entityNames, entity pair.2 <+: text

/-- Whether none of these marks stands in a text, and no ampersand but those that entities begin with. -/
structure Inert (marks text : List Char) : Prop where
  unmarked : ∀ c ∈ marks, c ∉ text
  ampersands : ∀ before behind, text = before ++ '&' :: behind → StartsEntity ('&' :: behind)

/-- Whether each character is written as its entity or as it is, and the ampersand and these marks are written as
their entities. -/
def Escapes (marks : List Char) (esc : Char → List Char) : Prop :=
  ∀ c, (∃ name, (c, name) ∈ entityNames ∧ esc c = entity name) ∨ esc c = [c] ∧ c ∉ '&' :: marks

variable {c : Char} {cs name marks text : List Char} {esc : Char → List Char}

theorem unescape_cons (hc : c ≠ '&') (cs : List Char) : unescape (c :: cs) = c :: unescape cs := by
  rw [unescape] <;> intros <;> contradiction

theorem unescape_of_not_mem (h : '&' ∉ cs) : unescape cs = cs := by
  induction cs with
  | nil => rfl
  | cons c cs ih =>
      have hc : c ≠ '&' := fun heq => h (heq ▸ List.mem_cons_self)
      rw [unescape_cons hc, ih fun hmem => h (List.mem_cons_of_mem _ hmem)]

theorem unescape_entity (h : (c, name) ∈ entityNames) (rest : List Char) :
    unescape (entity name ++ rest) = c :: unescape rest := by
  simp only [entityNames, List.mem_cons, Prod.mk.injEq, List.not_mem_nil, or_false] at h
  rcases h with ⟨rfl, rfl⟩ | ⟨rfl, rfl⟩ | ⟨rfl, rfl⟩ | ⟨rfl, rfl⟩ | ⟨rfl, rfl⟩ <;> rfl

/-! ### Any way to escape -/

theorem Escapes.unescape_append (h : Escapes marks esc) (c : Char) (rest : List Char) :
    unescape (esc c ++ rest) = c :: unescape rest := by
  rcases h c with ⟨name, hname, hesc⟩ | ⟨hesc, hc⟩
  · rw [hesc, unescape_entity hname]
  · rw [hesc]
    exact unescape_cons (fun hamp => hc (hamp ▸ List.mem_cons_self)) rest

theorem Escapes.unescape_flatMap (h : Escapes marks esc) (cs : List Char) : unescape (cs.flatMap esc) = cs := by
  induction cs with
  | nil => rfl
  | cons c cs ih => rw [List.flatMap_cons, h.unescape_append, ih]

namespace Inert

theorem nil : Inert marks [] := ⟨fun _ _ => List.not_mem_nil, by simp⟩

theorem cons (hmark : c ∉ marks) (hamp : c = '&' → StartsEntity (c :: text)) (h : Inert marks text) :
    Inert marks (c :: text) := by
  refine ⟨fun x hx hmem => ?_, fun before behind happend => ?_⟩
  · rcases List.mem_cons.1 hmem with rfl | hmem
    · exact hmark hx
    · exact h.unmarked x hx hmem
  · rcases List.cons_eq_append_iff.1 happend with ⟨-, hcons⟩ | ⟨before, -, htext⟩
    · obtain ⟨rfl, rfl⟩ := List.cons.inj hcons
      exact hamp rfl
    · exact h.ampersands before behind htext

theorem append (hrun : ∀ x ∈ cs, x ∉ '&' :: marks) (h : Inert marks text) : Inert marks (cs ++ text) := by
  induction cs with
  | nil => exact h
  | cons c cs ih =>
      have hc := hrun c List.mem_cons_self
      rw [List.mem_cons, not_or] at hc
      exact cons hc.2 (fun hamp => absurd hamp hc.1) (ih fun x hx => hrun x (List.mem_cons_of_mem _ hx))

/-- An entity brings no mark in if no mark stands in it, and its own ampersand only. -/
theorem entity_append (hname : (c, name) ∈ entityNames) (hmarks : ∀ m ∈ marks, m ∉ entity name)
    (h : Inert marks text) : Inert marks (entity name ++ text) := by
  have hstarts : StartsEntity (entity name ++ text) := ⟨(c, name), hname, List.prefix_append _ _⟩
  have hamp : '&' ∉ marks := fun hmem => hmarks _ hmem List.mem_cons_self
  have honce : '&' ∉ name ++ [';'] := (by decide : ∀ pair ∈ entityNames, '&' ∉ pair.2 ++ [';']) (c, name) hname
  refine cons hamp (fun _ => hstarts) (append (fun x hx hmem => ?_) h)
  rcases List.mem_cons.1 hmem with rfl | hmem
  · exact honce hx
  · exact hmarks x hmem (List.mem_cons_of_mem _ hx)

end Inert

theorem Escapes.inert_flatMap (h : Escapes marks esc) (hmarks : ∀ pair ∈ entityNames, ∀ m ∈ marks, m ∉ entity pair.2)
    (cs : List Char) : Inert marks (cs.flatMap esc) := by
  induction cs with
  | nil => exact .nil
  | cons c cs ih =>
      rw [List.flatMap_cons]
      rcases h c with ⟨name, hname, hesc⟩ | ⟨hesc, hc⟩
      · rw [hesc]
        exact ih.entity_append hname (hmarks _ hname)
      · rw [hesc]
        refine ih.append fun x hx => ?_
        rwa [List.mem_singleton.1 hx]

/-! ### Attribute values -/

theorem escapeChar_of_ne (hamp : c ≠ '&') (hless : c ≠ '<') (hgreater : c ≠ '>') (hdouble : c ≠ '"')
    (hsingle : c ≠ '\'') : escapeChar c = [c] := by
  unfold escapeChar
  split
  case h_6 => rfl
  all_goals contradiction

theorem escapes_escapeChar : Escapes ['<', '>', '"', '\''] escapeChar := by
  intro c
  by_cases hc : c ∈ ['&', '<', '>', '"', '\'']
  · left
    simp only [List.mem_cons, List.not_mem_nil, or_false] at hc
    rcases hc with rfl | rfl | rfl | rfl | rfl
    · exact ⟨"amp".toList, by decide, rfl⟩
    · exact ⟨"lt".toList, by decide, rfl⟩
    · exact ⟨"gt".toList, by decide, rfl⟩
    · exact ⟨"quot".toList, by decide, rfl⟩
    · exact ⟨"apos".toList, by decide, rfl⟩
  · right
    refine ⟨?_, hc⟩
    simp only [List.mem_cons, List.not_mem_nil, or_false, not_or] at hc
    obtain ⟨hamp, hless, hgreater, hdouble, hsingle⟩ := hc
    exact escapeChar_of_ne hamp hless hgreater hdouble hsingle

theorem unescape_escape (cs : List Char) : unescape (escape cs) = cs := escapes_escapeChar.unescape_flatMap cs

theorem inert_escape (cs : List Char) : Inert ['<', '>', '"', '\''] (escape cs) :=
  escapes_escapeChar.inert_flatMap (by simp [entityNames, entity]) cs

theorem quote_not_mem_escape (cs : List Char) : '"' ∉ escape cs := (inert_escape cs).unmarked '"' (by decide)

/-! ### Texts -/

/-- Whether a character is escaped in texts. -/
def isMarkupChar (c : Char) : Bool := c == '&' || c == '<' || c == '>'

theorem escapeTextChar_of_not (hc : isMarkupChar c = false) : escapeTextChar c = [c] := by
  simp only [isMarkupChar, Bool.or_eq_false_iff, beq_eq_false_iff_ne] at hc
  obtain ⟨⟨hamp, hless⟩, hgreater⟩ := hc
  unfold escapeTextChar
  split
  case h_4 => rfl
  all_goals contradiction

theorem exists_entity_of_isMarkupChar (hc : isMarkupChar c = true) :
    ∃ name, (c, name) ∈ entityNames ∧ escapeTextChar c = entity name := by
  simp only [isMarkupChar, Bool.or_eq_true, beq_iff_eq] at hc
  rcases hc with (rfl | rfl) | rfl
  · exact ⟨"amp".toList, by decide, rfl⟩
  · exact ⟨"lt".toList, by decide, rfl⟩
  · exact ⟨"gt".toList, by decide, rfl⟩

theorem escapes_escapeTextChar : Escapes ['<', '>'] escapeTextChar := by
  intro c
  cases hc : isMarkupChar c with
  | true => exact .inl (exists_entity_of_isMarkupChar hc)
  | false =>
      refine .inr ⟨escapeTextChar_of_not hc, fun hmem => ?_⟩
      simp only [isMarkupChar, Bool.or_eq_false_iff, beq_eq_false_iff_ne] at hc
      simp [hc] at hmem

/-- What a markup character is escaped to in texts: a name between an ampersand and a semicolon. -/
theorem escapeTextChar_of_isMarkupChar (hc : isMarkupChar c = true) :
    ∃ name, escapeTextChar c = '&' :: name ++ [';'] ∧ unescape ('&' :: name ++ [';']) = [c]
      ∧ name.all Char.isAlpha = true := by
  obtain ⟨name, hname, hescape⟩ := exists_entity_of_isMarkupChar hc
  have hunescape := unescape_entity hname []
  rw [List.append_nil] at hunescape
  exact ⟨name, hescape, hunescape, (by decide : ∀ pair ∈ entityNames, pair.2.all Char.isAlpha = true) (c, name) hname⟩

theorem escapeText_of_not (h : ∀ c ∈ cs, isMarkupChar c = false) : escapeText cs = cs := by
  induction cs with
  | nil => rfl
  | cons c cs ih =>
      rw [escapeText, List.flatMap_cons, escapeTextChar_of_not (h c List.mem_cons_self)]
      exact congrArg _ (ih fun x hx => h x (List.mem_cons_of_mem _ hx))

theorem plain_or_eq_append (cs : List Char) : (∀ c ∈ cs, isMarkupChar c = false)
    ∨ ∃ run c tail, cs = run ++ c :: tail ∧ (∀ x ∈ run, isMarkupChar x = false) ∧ isMarkupChar c = true := by
  induction cs with
  | nil => exact .inl nofun
  | cons c cs ih =>
      cases hc : isMarkupChar c with
      | true => exact .inr ⟨[], c, cs, rfl, nofun, hc⟩
      | false =>
          rcases ih with hplain | ⟨run, x, tail, rfl, hrun, hx⟩
          · exact .inl (List.forall_mem_cons.2 ⟨hc, hplain⟩)
          · exact .inr ⟨c :: run, x, tail, rfl, List.forall_mem_cons.2 ⟨hc, hrun⟩, hx⟩

theorem escapeText_append_cons {run : List Char} (hrun : ∀ x ∈ run, isMarkupChar x = false) (c : Char)
    (tail : List Char) : escapeText (run ++ c :: tail) = run ++ (escapeTextChar c ++ escapeText tail) := by
  rw [escapeText, List.flatMap_append, List.flatMap_cons]
  exact congrArg (· ++ _) (escapeText_of_not hrun)

/-! ### Escaped text -/

/-- Whatever a text looks like, its two escaped forms are read as the text, and nothing in them can be taken for
markup or for an entity that is none. -/
theorem escaped_inert (cs : List Char) :
    (unescape (escape cs) = cs ∧ Inert ['<', '>', '"', '\''] (escape cs))
      ∧ unescape (escapeText cs) = cs ∧ Inert ['<', '>'] (escapeText cs) :=
  ⟨⟨unescape_escape cs, inert_escape cs⟩, escapes_escapeTextChar.unescape_flatMap cs,
    escapes_escapeTextChar.inert_flatMap (by simp [entityNames, entity]) cs⟩

example : escape "&amp;lt;'&am".toList = "&amp;amp;lt;&apos;&amp;am".toList := by decide

end CellFormat.Xml
