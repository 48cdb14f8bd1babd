import CellFormat.Text.Blank
import CellFormat.Text.Cut
import Mathlib.Data.List.TakeWhile
/-!
# Where a text is cut

A text that is written as a run and what follows it is cut again between the two, if what follows cannot go
on with the run. This is how every reader of the library gets back to the pieces that a writer put together.
-/

namespace CellFormat

variable {α : Type}

/-! ### Runs -/

/-- Whether no run of `p` goes on with this text. -/
def Stops (p : α → Bool) (rest : List α) : Prop := ∀ x ∈ rest.head?, p x = false

theorem stops_nil (p : α → Bool) : Stops p [] := nofun

theorem stops_cons {p : α → Bool} {x : α} (hx : p x = false) (rest : List α) : Stops p (x :: rest) := by
  intro y hy
  cases hy
  exact hx

variable {p : α → Bool} {run rest : List α}

theorem takeWhile_append_of_stops (hrun : ∀ x ∈ run, p x = true) (hrest : Stops p rest) :
    (run ++ rest).takeWhile p = run := by
  rw [List.takeWhile_append_of_pos hrun]
  cases rest with
  | nil => simp
  | cons x rest => simp [hrest x rfl]

theorem dropWhile_append_of_stops (hrun : ∀ x ∈ run, p x = true) (hrest : Stops p rest) :
    (run ++ rest).dropWhile p = rest := by
  rw [List.dropWhile_append_of_pos hrun]
  cases rest with
  | nil => rfl
  | cons x rest => simp [hrest x rfl]

theorem exists_run_of_dropWhile {xs : List α} (h : xs.dropWhile p = rest) :
    ∃ run, xs = run ++ rest ∧ ∀ x ∈ run, p x = true := by
  refine ⟨xs.takeWhile p, ?_, fun x => List.mem_takeWhile_imp⟩
  rw [← h, List.takeWhile_append_dropWhile]

/-! ### Blanks -/

theorem dropWhile_eq_self {p : α → Bool} {xs : List α} (h : ∀ x ∈ xs, p x = false) : xs.dropWhile p = xs := by
  cases xs with
  | nil => rfl
  | cons x xs => simp [h x List.mem_cons_self]

theorem mem_dropWhile {p : α → Bool} {x : α} (hx : p x = false) {xs : List α} (h : x ∈ xs) :
    x ∈ xs.dropWhile p := by
  rw [← List.takeWhile_append_dropWhile (p := p) (l := xs), List.mem_append] at h
  rcases h with h | h
  · rw [List.mem_takeWhile_imp h] at hx
    cases hx
  · exact h

theorem trimBlanks_append {front cs back : List Char} (hfront : ∀ c ∈ front, isBlank c = true)
    (hback : ∀ c ∈ back, isBlank c = true) (hcs : ∀ c ∈ cs, isBlank c = false) (hne : cs ≠ []) :
    trimBlanks (front ++ cs ++ back) = cs := by
  have hhead : Stops isBlank (cs ++ back) := by
    cases cs with
    | nil => exact absurd rfl hne
    | cons c cs => exact stops_cons (hcs c List.mem_cons_self) (cs ++ back)
  have hlast : Stops isBlank cs.reverse := fun c hc => hcs c (List.mem_reverse.1 (List.mem_of_mem_head? hc))
  have hback' : ∀ c ∈ back.reverse, isBlank c = true := fun c hc => hback c (List.mem_reverse.1 hc)
  rw [trimBlanks, List.append_assoc, dropWhile_append_of_stops hfront hhead, List.reverse_append,
    dropWhile_append_of_stops hback' hlast, List.reverse_reverse]

theorem mem_trimBlanks {c : Char} (hc : isBlank c = false) {cs : List Char} (h : c ∈ cs) :
    c ∈ trimBlanks cs := by
  have hfront : c ∈ cs.dropWhile isBlank := mem_dropWhile hc h
  exact List.mem_reverse.2 (mem_dropWhile hc (List.mem_reverse.2 hfront))

/-! ### Marks -/

variable [DecidableEq α] {stop : α} {xs before behind : List α}

theorem splitAtFirst_append (h : stop ∉ before) (behind : List α) :
    splitAtFirst stop (before ++ stop :: behind) = some (before, behind) := by
  induction before with
  | nil => simp [splitAtFirst]
  | cons x before ih =>
      have hne : x ≠ stop := fun heq => h (heq ▸ List.mem_cons_self)
      simp [splitAtFirst, hne, ih fun hmem => h (List.mem_cons_of_mem _ hmem)]

theorem eq_append_of_splitAtFirst (h : splitAtFirst stop xs = some (before, behind)) :
    xs = before ++ stop :: behind ∧ stop ∉ before := by
  induction xs generalizing before with
  | nil => cases h
  | cons x xs ih =>
      simp only [splitAtFirst] at h
      split at h
      · next hstop =>
        cases h
        exact ⟨by rw [hstop]; rfl, List.not_mem_nil⟩
      · next hne =>
        obtain ⟨⟨first, rest⟩, hrest, heq⟩ := Option.map_eq_some_iff.1 h
        cases heq
        obtain ⟨happend, hmem⟩ := ih hrest
        refine ⟨by rw [happend]; rfl, fun hstop => ?_⟩
        rcases List.mem_cons.1 hstop with heq | hstop
        · exact hne heq.symm
        · exact hmem hstop

theorem splitAtFirst_eq_some_iff :
    splitAtFirst stop xs = some (before, behind) ↔ xs = before ++ stop :: behind ∧ stop ∉ before := by
  refine ⟨eq_append_of_splitAtFirst, fun h => ?_⟩
  rw [h.1]
  exact splitAtFirst_append h.2 behind

theorem splitAtFirst_eq_none_iff : splitAtFirst stop xs = none ↔ stop ∉ xs := by
  induction xs with
  | nil => simp [splitAtFirst]
  | cons x xs ih =>
      by_cases hx : x = stop
      · simp [splitAtFirst, hx]
      · simp [splitAtFirst, hx, ih, Ne.symm hx]

end CellFormat
