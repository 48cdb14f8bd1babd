import CellFormat.Proofs.Code.Parser
import CellFormat.Proofs.Code.Refusals
/-!
# The limit on sections

A format is changed in place by two operations, which look at its number of sections in different ways. On formats
that keep the limit they come to the same: a change is refused exactly when it would go beyond the limit, and then
nothing has changed. So all formats that come out of the reader and of changes keep the limit, and the reader
itself, which fills up the primary section without looking, always has room for the branch that comes next.
-/

namespace CellFormat.Format

/-! ### Changes in place -/

/-- A change to a format. -/
inductive Edit where
  | addBranch (condition : Condition) (body : Section)
  | setPrimary (primary : Section)

namespace Edit

/-- The format with the change made, whether or not there is room for it. -/
def target (f : Format) : Edit → Format
  | addBranch condition body => { f with branches := f.branches ++ [⟨condition, body⟩] }
  | setPrimary primary => { f with primary }

/-- The change in place. Where it is refused, the format stays behind as it is by then. -/
def run : Edit → StateM Format (Except FormatError Unit)
  | addBranch condition body => do
    if maxSections ≤ (← get).sectionCount then
      return .error (.sectionLimit maxSections)
    else
      modify fun f => { f with branches := f.branches ++ [⟨condition, body⟩] }
      return .ok ()
  | setPrimary primary => do
    if !primary.isEmpty && maxSections ≤ (← get).branches.length then
      return .error (.sectionLimit maxSections)
    else
      modify fun f => { f with primary }
      return .ok ()

/-- The change as an operation on values. -/
def result (f : Format) : Edit → Except FormatError Format
  | addBranch condition body => f.addBranch condition body
  | setPrimary primary => f.setPrimary primary

/-- A change in place comes to the operation on values: where that fails, nothing has changed. -/
theorem run_eq (f : Format) (edit : Edit) : (edit.run.run f).run = match edit.result f with
    | .ok g => (.ok (), g)
    | .error e => (.error e, f) := by
  cases edit with
  | addBranch condition body =>
      by_cases hfull : maxSections ≤ f.sectionCount <;>
        simp [run, result, Format.addBranch, hfull]
  | setPrimary primary =>
      by_cases hfull : primary.isEmpty = false ∧ maxSections ≤ f.branches.length <;>
        simp [run, result, Format.setPrimary, hfull]

theorem sectionCount_addBranch (f : Format) (condition : Condition) (body : Section) :
    maxSections < (target f (.addBranch condition body)).sectionCount ↔ maxSections ≤ f.sectionCount := by
  have hsize : (target f (.addBranch condition body)).size = f.size + 1 := by
    rw [target, size, size, List.length_append, List.length_singleton, Nat.add_right_comm]
  rw [sectionCount_eq_max, sectionCount_eq_max, hsize]
  unfold maxSections
  omega

theorem sectionCount_setPrimary {f : Format} (hf : f.sectionCount ≤ maxSections) (primary : Section) :
    maxSections < (target f (.setPrimary primary)).sectionCount
      ↔ primary.isEmpty = false ∧ maxSections ≤ f.branches.length := by
  have hlength : f.branches.length ≤ maxSections := (Nat.le_add_right _ _).trans hf
  have hsize : (target f (.setPrimary primary)).size = f.branches.length + (!primary.isEmpty).toNat := rfl
  rw [sectionCount_eq_max, hsize]
  unfold maxSections at hlength ⊢
  cases primary.isEmpty with
  | false =>
      simp only [Bool.not_false, Bool.toNat_true, true_and]
      omega
  | true =>
      simp only [Bool.not_true, Bool.toNat_false, Bool.true_eq_false, false_and, iff_false]
      omega

/-- On formats that keep the limit, a change is refused exactly when it would go beyond the limit. -/
theorem result_eq {f : Format} (hf : f.sectionCount ≤ maxSections) (edit : Edit) :
    edit.result f = if maxSections < (edit.target f).sectionCount then .error (.sectionLimit maxSections)
      else .ok (edit.target f) := by
  cases edit with
  | addBranch condition body =>
      simp only [sectionCount_addBranch]
      rfl
  | setPrimary primary =>
      simp only [sectionCount_setPrimary hf, result, Format.setPrimary, Bool.and_eq_true, Bool.not_eq_true',
        decide_eq_true_eq]
      rfl

theorem run_of_sectionCount_le {f : Format} (hf : f.sectionCount ≤ maxSections) (edit : Edit) :
    (edit.run.run f).run = if maxSections < (edit.target f).sectionCount then (.error (.sectionLimit maxSections), f)
      else (.ok (), edit.target f) := by
  rw [run_eq, result_eq hf]
  by_cases hover : maxSections < (edit.target f).sectionCount
  · simp only [if_pos hover]
  · simp only [if_neg hover]

end Edit

/-! ### Formats that come about -/

/-- Whether a format comes about by reading a code or with a primary section alone, and by changes to it, which may
fail or not. -/
inductive Reachable : Format → Prop where
  | new (primary : Section) : Reachable { primary }
  | read {options : ParseOptions} {code : List Char} {f : Format} (h : ofChars options code = .ok f) : Reachable f
  | edit {f : Format} (h : Reachable f) (edit : Edit) : Reachable (edit.run.run f).run.2

theorem sectionCount_le_of_reachable {f : Format} (h : Reachable f) : f.sectionCount ≤ maxSections := by
  induction h with
  | new primary =>
      simp [sectionCount, maxSections]
  | read h => exact sectionCount_le_of_ofChars h
  | edit h edit ih =>
      rw [Edit.run_of_sectionCount_le ih]
      split
      · exact ih
      · next hroom => exact Nat.not_lt.1 hroom

/-! ### Room in the reader -/

section Reader

variable {options : ParseOptions} {alone : Bool} {positional : List Condition} {texts behind : List (List Char)}
  {code : List Char} {f g : Format}

/-- The reader goes on behind a part of the sections with the format that it has made of them. -/
theorem placeAll_append (h : placeAll options alone f positional texts = .ok g) :
    placeAll options alone f positional (texts ++ behind)
      = placeAll options alone g (positional.drop texts.length) behind := by
  induction texts generalizing f positional with
  | nil =>
      cases h
      rfl
  | cons text texts ih =>
      rw [List.cons_append, placeAll]
      rw [placeAll] at h
      by_cases hline : '\n' ∈ text
      · rw [if_pos hline] at h ⊢
        split at h
        · cases h
        · next hlenient =>
            rw [if_neg hlenient, ih h, List.drop_tail]
            rfl
      · rw [if_neg hline] at h ⊢
        obtain ⟨s, hread, hplaced⟩ := bind_eq_ok_iff.1 h
        obtain ⟨f', hplace, hrest⟩ := bind_eq_ok_iff.1 hplaced
        have happend := ih hrest
        rw [hread]
        change (f.place _ s.body >>= _) = _
        rw [hplace, List.length_cons, ← List.drop_tail]
        exact happend

theorem size_le_of_placeAll (hroom : f.size + texts.length ≤ maxSections)
    (h : placeAll options alone f positional texts = .ok g) : g.size ≤ f.size + texts.length := by
  rw [placeAll_eq hroom] at h
  cases hread : readAll options alone positional texts with
  | error e =>
      rw [hread] at h
      cases h
  | ok placed =>
      rw [hread] at h
      cases h
      have hsize := size_foldl_put_le f placed
      have hlength := length_le_of_readAll hread
      show (placed.foldl put f).size ≤ _
      omega

theorem addBranch_of_placeAll (hfew : texts.length < maxSections)
    (h : placeAll options alone {} positional texts = .ok g) (condition : Condition) (body : Section) :
    g.addBranch condition body = .ok { g with branches := g.branches ++ [⟨condition, body⟩] } := by
  have hempty : ({} : Format).size = 0 := rfl
  have hsize := size_le_of_placeAll (by omega) h
  exact if_neg (Nat.not_le.2 (sectionCount_lt (by omega)))

theorem ofChars_ne_sectionLimit (options : ParseOptions) (code : List Char) (limit : Nat) :
    ofChars options code ≠ .error (.sectionLimit limit) := by
  intro h
  rcases error_of_ofChars h with ⟨-, hmany⟩ | ⟨-, hsection⟩
  · cases hmany
  · exact hsection

end Reader

/-! ### The limit -/

/-- What the reader makes of the sections of a code from the place `i` on, if it has made `f` of those in front. -/
def placeFrom (options : ParseOptions) (code : List Char) (f : Format) (i : Nat) (texts : List (List Char)) :
    Except FormatError Format :=
  placeAll options ((sectionTexts code).length == 1) f ((positionalConditions options.table code).drop i) texts

/-- Every format that comes about keeps the limit, and a change to it is refused exactly when the changed format
would not; where it is refused, the format stays as it was. The format that the reader goes on with at a section has
room for one more branch, and no code is refused because there is none. -/
theorem sectionLimit_kept :
    (∀ f, Reachable f → f.sectionCount ≤ maxSections
      ∧ ∀ edit : Edit, (edit.run.run f).run = if maxSections < (edit.target f).sectionCount
        then (.error (.sectionLimit maxSections), f) else (.ok (), edit.target f))
    ∧ (∀ options code limit, ofChars options code ≠ .error (.sectionLimit limit))
    ∧ ∀ options code before text behind f, (sectionTexts code).take maxSections = before ++ text :: behind →
      placeFrom options code {} 0 before = .ok f →
      placeFrom options code {} 0 (before ++ text :: behind)
          = placeFrom options code f before.length (text :: behind)
        ∧ ∀ condition body,
          f.addBranch condition body = .ok { f with branches := f.branches ++ [⟨condition, body⟩] } := by
  refine ⟨fun f hf => ?_, ofChars_ne_sectionLimit, ?_⟩
  · have hlimit := sectionCount_le_of_reachable hf
    exact ⟨hlimit, Edit.run_of_sectionCount_le hlimit⟩
  · intro options code before text behind f hsplit hplaced
    have hlength := congrArg List.length hsplit
    have htake := List.length_take_le maxSections (sectionTexts code)
    rw [List.length_append, List.length_cons] at hlength
    exact ⟨placeAll_append hplaced, addBranch_of_placeAll (by omega) hplaced⟩

/-- A code of four sections, which leaves no room for a primary section, and a reader in front of the last one of
another such code. -/
theorem sectionLimit_kept_fourSections :
    (∃ f, ofChars {} "0;0;0;@".toList = .ok f ∧ Reachable f ∧ f.sectionCount ≤ maxSections
      ∧ ((Edit.setPrimary ⟨[.text "x"], none⟩).run.run f).run = (.error (.sectionLimit maxSections), f)
      ∧ ((Edit.setPrimary {}).run.run f).run = (.ok (), f))
    ∧ ∃ f, (sectionTexts "[Red][>0]0;0;0;@".toList).take maxSections
        = ["[Red][>0]0".toList, ['0'], ['0']] ++ ['@'] :: []
      ∧ placeFrom {} "[Red][>0]0;0;0;@".toList {} 0 ["[Red][>0]0".toList, ['0'], ['0']] = .ok f
      ∧ f.addBranch .isText {} = .ok { f with branches := f.branches ++ [⟨.isText, {}⟩] } := by
  constructor
  · have hread : ofChars {} "0;0;0;@".toList = .ok ⟨{}, [⟨.againstZero .lessThan, [.number .integer], none⟩,
        ⟨.againstZero .greaterThan, [.number .integer], none⟩, ⟨.againstZero .equal, [.number .integer], none⟩,
        ⟨.isText, [.text "@"], none⟩]⟩ := by
      decide +kernel
    obtain ⟨hlimit, hedit⟩ := sectionLimit_kept.1 _ (.read hread)
    exact ⟨_, hread, .read hread, hlimit, hedit (.setPrimary ⟨[.text "x"], none⟩), hedit (.setPrimary {})⟩
  · have hsplit : (sectionTexts "[Red][>0]0;0;0;@".toList).take maxSections
        = ["[Red][>0]0".toList, ['0'], ['0']] ++ ['@'] :: [] := by
      decide
    have hplaced : placeFrom {} "[Red][>0]0;0;0;@".toList {} 0 ["[Red][>0]0".toList, ['0'], ['0']]
        = .ok ⟨⟨[.number .integer, .number .integer], none⟩,
          [⟨.againstZero .greaterThan, [.number .integer], some .red⟩]⟩ := by
      decide +kernel
    exact ⟨_, hsplit, hplaced, (sectionLimit_kept.2.2 _ _ _ _ _ _ hsplit hplaced).2 .isText {}⟩

end CellFormat.Format
