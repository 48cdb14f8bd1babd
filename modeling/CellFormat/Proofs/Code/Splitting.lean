import CellFormat.Code.Splitting
/-!
# Sections are cut where they were joined

A code is either one section or a first section, a semicolon and a code behind it, which begins outside
quotes and escapes. What the rest of the library knows of the cuts follows from this one case distinction:
joining undoes cutting, each section is a code of one section, and cutting undoes joining for sections that
close what they open.
-/

namespace CellFormat

/-! ### States along a text -/

def Scan.run (state : Scan) (text : List Char) : Scan := text.foldl Scan.step state

namespace Scan

variable (state : Scan) (c : Char) (text rest : List Char)

@[simp] theorem run_nil : state.run [] = state := rfl

@[simp] theorem run_cons : state.run (c :: text) = (state.step c).run text := rfl

@[simp] theorem run_append : state.run (text ++ rest) = (state.run text).run rest := List.foldl_append

/-- Whether a character leaves a scanner outside quotes and escapes. -/
def isNeutral (c : Char) : Bool := c != '"' && c != '\'' && c != '\\'

theorem step_plain_of_isNeutral {c : Char} (hc : isNeutral c = true) : plain.step c = plain := by
  simp only [isNeutral, Bool.and_eq_true, bne_iff_ne] at hc
  simp [step, hc]

theorem run_plain_of_isNeutral {text : List Char} (h : ∀ c ∈ text, isNeutral c = true) :
    plain.run text = plain := by
  induction text with
  | nil => rfl
  | cons c text ih =>
      rw [run_cons, step_plain_of_isNeutral (h c List.mem_cons_self)]
      exact ih fun x hx => h x (List.mem_cons_of_mem _ hx)

theorem run_quoted {mark : Char} {text : List Char} (h : mark ∉ text) :
    (quoted mark).run text = quoted mark := by
  induction text with
  | nil => rfl
  | cons c text ih =>
      have hc : c ≠ mark := fun heq => h (heq ▸ List.mem_cons_self)
      rw [run_cons, step, if_neg hc]
      exact ih fun hmem => h (List.mem_cons_of_mem _ hmem)

theorem isNeutral_of_step {mark : Char} (hstate : ∀ m, state = quoted m → isNeutral m = false)
    (h : state.step c = quoted mark) : isNeutral mark = false := by
  cases state with
  | plain =>
      simp only [step] at h
      split at h
      · next hmark =>
        cases h
        rcases hmark with rfl | rfl <;> decide
      · split at h <;> cases h
  | escaped => cases h
  | quoted m =>
      simp only [step] at h
      split at h
      · cases h
      · exact hstate mark h

theorem isNeutral_of_run {mark : Char} (hstate : ∀ m, state = quoted m → isNeutral m = false)
    (h : state.run text = quoted mark) : isNeutral mark = false := by
  induction text generalizing state with
  | nil => exact hstate mark h
  | cons c text ih => exact ih _ (fun m hm => isNeutral_of_step state c hstate hm) h

theorem isNeutral_of_run_plain {text : List Char} {mark : Char} (h : plain.run text = quoted mark) :
    isNeutral mark = false := by
  refine isNeutral_of_run plain text (fun m hm => ?_) h
  cases hm

/-- Neutral characters open no run and close none. -/
theorem run_eq_quoted_iff {text : List Char} {mark : Char} (htext : ∀ c ∈ text, isNeutral c = true)
    (hmark : isNeutral mark = false) : state.run text = quoted mark ↔ state = quoted mark := by
  induction text generalizing state with
  | nil => rfl
  | cons c text ih =>
      have hc := htext c List.mem_cons_self
      rw [run_cons, ih _ fun x hx => htext x (List.mem_cons_of_mem _ hx)]
      cases state with
      | plain => rw [step_plain_of_isNeutral hc]
      | escaped => exact ⟨nofun, nofun⟩
      | quoted m =>
          by_cases hclose : c = m
          · have hne : m ≠ mark := by
              rintro rfl
              rw [hclose, hmark] at hc
              cases hc
            simp [step, hclose, hne]
          · rw [step, if_neg hclose]

end Scan

/-! ### Texts without a cut -/

/-- Whether a text that is scanned from `state` on is part of one section. -/
def Uncut (state : Scan) (text : List Char) : Prop := sectionTextsFrom state text = (text, [])

variable {state : Scan} {c : Char} {text rest : List Char}

theorem uncut_cons_iff :
    Uncut state (c :: text) ↔ ¬(state = .plain ∧ c = ';') ∧ Uncut (state.step c) text := by
  unfold Uncut
  rw [sectionTextsFrom]
  split
  · next h => simp [h]
  · next h => simp [h, Prod.ext_iff]

theorem sectionTextsFrom_append (h : Uncut state text) (rest : List Char) :
    sectionTextsFrom state (text ++ rest)
      = (text ++ (sectionTextsFrom (state.run text) rest).1, (sectionTextsFrom (state.run text) rest).2) := by
  induction text generalizing state with
  | nil => rfl
  | cons c text ih =>
      obtain ⟨hc, htext⟩ := uncut_cons_iff.1 h
      rw [List.cons_append, sectionTextsFrom, if_neg hc, ih htext]
      rfl

theorem uncut_append_iff (h : Uncut state text) :
    Uncut state (text ++ rest) ↔ Uncut (state.run text) rest := by
  unfold Uncut
  rw [sectionTextsFrom_append h]
  simp [Prod.ext_iff]

theorem uncut_of_not_mem (state : Scan) (h : ';' ∉ text) : Uncut state text := by
  induction text generalizing state with
  | nil => rfl
  | cons c text ih =>
      have hc : ¬c = ';' := fun heq => h (heq ▸ List.mem_cons_self)
      refine uncut_cons_iff.2 ⟨fun hcut => hc hcut.2, ih _ fun hmem => h (List.mem_cons_of_mem _ hmem)⟩

theorem uncut_quoted {mark : Char} (h : mark ∉ text) : Uncut (.quoted mark) text := by
  induction text with
  | nil => rfl
  | cons c text ih =>
      have hc : c ≠ mark := fun heq => h (heq ▸ List.mem_cons_self)
      refine uncut_cons_iff.2 ⟨fun hcut => (nomatch hcut.1), ?_⟩
      rw [Scan.step, if_neg hc]
      exact ih fun hmem => h (List.mem_cons_of_mem _ hmem)

theorem sectionTexts_eq_singleton_iff : sectionTexts text = [text] ↔ Uncut .plain text := by
  simp [sectionTexts, Uncut, Prod.ext_iff]

theorem sectionTexts_append_semicolon (h : Uncut .plain text) (hrun : Scan.run .plain text = .plain)
    (rest : List Char) : sectionTexts (text ++ ';' :: rest) = text :: sectionTexts rest := by
  rw [sectionTexts, sectionTextsFrom_append h, hrun, sectionTextsFrom, if_pos ⟨rfl, rfl⟩]
  simp [sectionTexts]

/-! ### The first cut -/

/-- A text is uncut, or its first cut is at a semicolon that stands outside quotes and escapes. -/
theorem uncut_or_eq_append (state : Scan) (text : List Char) :
    Uncut state text ∨ ∃ first rest, text = first ++ ';' :: rest ∧ Uncut state first
      ∧ state.run first = .plain := by
  induction text generalizing state with
  | nil => exact .inl rfl
  | cons c text ih =>
      by_cases hc : state = .plain ∧ c = ';'
      · exact .inr ⟨[], text, by rw [hc.2]; rfl, rfl, hc.1⟩
      · rcases ih (state.step c) with huncut | ⟨first, rest, rfl, hfirst, hrun⟩
        · exact .inl (uncut_cons_iff.2 ⟨hc, huncut⟩)
        · exact .inr ⟨c :: first, rest, rfl, uncut_cons_iff.2 ⟨hc, hfirst⟩, hrun⟩

/-- What holds of every code of one section, and of a code if it holds of what is behind its first section,
holds of all codes. -/
theorem section_induction {P : List Char → Prop} (uncut : ∀ text, Uncut .plain text → P text)
    (cut : ∀ first rest, Uncut .plain first → Scan.run .plain first = .plain → P rest →
      P (first ++ ';' :: rest)) (code : List Char) : P code := by
  rcases uncut_or_eq_append .plain code with h | ⟨first, rest, hcode, hfirst, hrun⟩
  · exact uncut code h
  · have hlength : rest.length < code.length := by
      rw [hcode, List.length_append, List.length_cons]
      omega
    rw [hcode]
    exact cut first rest hfirst hrun (section_induction uncut cut rest)
termination_by code.length

theorem sectionTexts_ne_nil (code : List Char) : sectionTexts code ≠ [] := nofun

theorem uncut_of_mem_sectionTexts {code : List Char} (h : text ∈ sectionTexts code) : Uncut .plain text := by
  induction code using section_induction with
  | uncut code hcode =>
      rw [sectionTexts_eq_singleton_iff.2 hcode, List.mem_singleton] at h
      rwa [h]
  | cut first rest hfirst hrun ih =>
      rw [sectionTexts_append_semicolon hfirst hrun, List.mem_cons] at h
      rcases h with rfl | h
      · exact hfirst
      · exact ih h

theorem run_of_mem_dropLast {code : List Char} (h : text ∈ (sectionTexts code).dropLast) :
    Scan.run .plain text = .plain := by
  induction code using section_induction with
  | uncut code hcode =>
      rw [sectionTexts_eq_singleton_iff.2 hcode] at h
      cases h
  | cut first rest hfirst hrun ih =>
      rw [sectionTexts_append_semicolon hfirst hrun,
        List.dropLast_cons_of_ne_nil (sectionTexts_ne_nil rest), List.mem_cons] at h
      rcases h with rfl | h
      · exact hrun
      · exact ih h

theorem joinSections_cons (text : List Char) {texts : List (List Char)} (h : texts ≠ []) :
    joinSections (text :: texts) = text ++ ';' :: joinSections texts := by
  cases texts with
  | nil => exact absurd rfl h
  | cons next texts => rfl

theorem joinSections_sectionTexts (code : List Char) : joinSections (sectionTexts code) = code := by
  induction code using section_induction with
  | uncut code hcode => rw [sectionTexts_eq_singleton_iff.2 hcode, joinSections]
  | cut first rest hfirst hrun ih =>
      rw [sectionTexts_append_semicolon hfirst hrun, joinSections_cons _ (sectionTexts_ne_nil rest), ih]

theorem mem_joinSections {c : Char} (hc : c ≠ ';') {texts : List (List Char)} :
    c ∈ joinSections texts ↔ ∃ text ∈ texts, c ∈ text := by
  induction texts with
  | nil => simp [joinSections]
  | cons text texts ih =>
      by_cases htexts : texts = []
      · simp [htexts, joinSections]
      · simp [joinSections_cons text htexts, hc, ih]

/-- What cuts a code into sections takes nothing away but semicolons. -/
theorem mem_code_iff {code : List Char} {c : Char} (hc : c ≠ ';') :
    c ∈ code ↔ ∃ text ∈ sectionTexts code, c ∈ text := by
  rw [← mem_joinSections hc, joinSections_sectionTexts]

/-- Cutting undoes joining for texts of one section each, all but the last of which close what they open. -/
theorem sectionTexts_joinSections {texts : List (List Char)} (hne : texts ≠ [])
    (huncut : ∀ text ∈ texts, Uncut .plain text)
    (hrun : ∀ text ∈ texts.dropLast, Scan.run .plain text = .plain) :
    sectionTexts (joinSections texts) = texts := by
  induction texts with
  | nil => exact absurd rfl hne
  | cons text texts ih =>
      have htext := huncut text List.mem_cons_self
      by_cases htexts : texts = []
      · rw [htexts, joinSections, sectionTexts_eq_singleton_iff.2 htext]
      · have hlast : (text :: texts).dropLast = text :: texts.dropLast := List.dropLast_cons_of_ne_nil htexts
        rw [hlast] at hrun
        rw [joinSections_cons text htexts,
          sectionTexts_append_semicolon htext (hrun text List.mem_cons_self),
          ih htexts (fun t ht => huncut t (List.mem_cons_of_mem _ ht))
            fun t ht => hrun t (List.mem_cons_of_mem _ ht)]

/-- A section may be replaced by a text without a cut that leaves the scanner where the section did. -/
theorem sectionTexts_replace {code text' : List Char} {before after : List (List Char)}
    (h : sectionTexts code = before ++ text :: after) (huncut : Uncut .plain text')
    (hrun : Scan.run .plain text' = Scan.run .plain text) :
    sectionTexts (joinSections (before ++ text' :: after)) = before ++ text' :: after := by
  have hsections : ∀ t ∈ before ++ text :: after, Uncut .plain t := fun t ht => uncut_of_mem_sectionTexts (h ▸ ht)
  have hclosed : ∀ t ∈ (before ++ text :: after).dropLast, Scan.run .plain t = .plain := fun t ht =>
    run_of_mem_dropLast (h ▸ ht)
  rw [List.dropLast_append_of_ne_nil (List.cons_ne_nil _ _)] at hclosed
  refine sectionTexts_joinSections (by simp) (fun t ht => ?_) (fun t ht => ?_)
  · rcases List.mem_append.1 ht with ht | ht
    · exact hsections t (List.mem_append_left _ ht)
    · rcases List.mem_cons.1 ht with rfl | ht
      · exact huncut
      · exact hsections t (List.mem_append_right _ (List.mem_cons_of_mem _ ht))
  · rw [List.dropLast_append_of_ne_nil (List.cons_ne_nil _ _)] at ht
    rcases List.mem_append.1 ht with ht | ht
    · exact hclosed t (List.mem_append_left _ ht)
    · cases after with
      | nil => cases ht
      | cons next after =>
          rcases List.mem_cons.1 ht with rfl | ht
          · rw [hrun]
            exact hclosed text (List.mem_append_right _ List.mem_cons_self)
          · exact hclosed t (List.mem_append_right _ (List.mem_cons_of_mem _ ht))

end CellFormat
