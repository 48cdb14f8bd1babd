import CellFormat.Code.Parser
import CellFormat.Except
import Mathlib.Data.List.Forall2
/-!
# Reading and placing are separate

The loop over the sections of a code reads a section, places it and goes on. A code that is read has no more
sections than a format holds, so placing never fails, and the loop is the same as reading all sections first
and putting together what they say.
-/

namespace CellFormat

/-! ### What the sections say -/

/-- What a section text says; nothing if it is left out. -/
def readKept (options : ParseOptions) (text : List Char) : Except FormatError (Option ReadSection) :=
  if '\n' ∈ text then
    if options.strict then .error (.malformedSection (.ofList text)) else .ok none
  else (readSection text).map some

/-- The section with the condition that it is placed under. -/
def ReadSection.assign (alone : Bool) (position : Option Condition) (s : ReadSection) : ReadSection :=
  { s with condition := if alone then none else s.condition <|> position }

/-- What is placed of the texts, where `positional` are the conditions of the sections that have no tag. -/
def readAll (options : ParseOptions) (alone : Bool) (positional : List Condition) :
    List (List Char) → Except FormatError (List ReadSection)
  | [] => .ok []
  | text :: texts => do
    let kept ← readKept options text
    let others ← readAll options alone positional.tail texts
    return (kept.map (ReadSection.assign alone positional.head?)).toList ++ others

variable {options : ParseOptions} {alone : Bool} {positional : List Condition} {text : List Char}
  {texts : List (List Char)} {read placed : List ReadSection} {e : FormatError}

theorem readKept_eq_some_iff {s : ReadSection} :
    readKept options text = .ok (some s) ↔ '\n' ∉ text ∧ readSection text = .ok s := by
  unfold readKept
  by_cases hline : '\n' ∈ text
  · cases options.strict <;> simp [hline]
  · cases readSection text <;> simp [hline, Except.map]

theorem exists_of_readKept (hstrict : options.strict = true) {kept : Option ReadSection}
    (h : readKept options text = .ok kept) : ∃ s, kept = some s := by
  unfold readKept at h
  by_cases hline : '\n' ∈ text
  · simp [hline, hstrict] at h
  · rw [if_neg hline] at h
    cases hread : readSection text with
    | error e => simp [hread, Except.map] at h
    | ok s =>
        rw [hread] at h
        cases h
        exact ⟨s, rfl⟩

/-- The first text that is not right decides. -/
theorem readAll_append_error {before behind : List (List Char)}
    (hbefore : ∀ t ∈ before, ∃ kept, readKept options t = .ok kept) (htext : readKept options text = .error e) :
    readAll options alone positional (before ++ text :: behind) = .error e := by
  induction before generalizing positional with
  | nil =>
      rw [List.nil_append, readAll, htext]
      rfl
  | cons t before ih =>
      obtain ⟨kept, hkept⟩ := hbefore t List.mem_cons_self
      rw [List.cons_append, readAll, hkept]
      change readAll options alone positional.tail (before ++ text :: behind) >>= _ = _
      rw [ih fun t ht => hbefore t (List.mem_cons_of_mem _ ht)]
      rfl

/-- Sections that are all kept are placed by their position. -/
theorem readAll_of_forall₂ (h : List.Forall₂ (fun text s => readKept options text = .ok (some s)) texts read) :
    readAll options alone positional texts
      = .ok (read.mapIdx fun i s => s.assign alone positional[i]?) := by
  induction h generalizing positional with
  | nil => rfl
  | @cons text s texts read hkept hrest ih =>
      rw [readAll, hkept]
      change readAll options alone positional.tail texts >>= _ = _
      rw [ih, List.mapIdx_cons]
      simp [bind, Except.bind, pure, Except.pure, List.head?_eq_getElem?]

theorem forall₂_of_readAll (hstrict : options.strict = true)
    (h : readAll options alone positional texts = .ok placed) :
    ∃ read, List.Forall₂ (fun text s => readKept options text = .ok (some s)) texts read := by
  induction texts generalizing positional placed with
  | nil => exact ⟨[], .nil⟩
  | cons text texts ih =>
      obtain ⟨kept, hkept, hrest⟩ := bind_eq_ok_iff.1 h
      obtain ⟨others, hothers, -⟩ := bind_eq_ok_iff.1 hrest
      obtain ⟨s, rfl⟩ := exists_of_readKept hstrict hkept
      obtain ⟨read, hread⟩ := ih hothers
      exact ⟨s :: read, .cons hkept hread⟩

theorem length_le_of_readAll (h : readAll options alone positional texts = .ok placed) :
    placed.length ≤ texts.length := by
  induction texts generalizing positional placed with
  | nil =>
      cases h
      exact Nat.le_refl _
  | cons text texts ih =>
      obtain ⟨kept, -, hrest⟩ := bind_eq_ok_iff.1 h
      obtain ⟨others, hothers, heq⟩ := bind_eq_ok_iff.1 hrest
      have hle := ih hothers
      cases heq
      cases kept <;> simp <;> omega

theorem places_of_readAll (h : readAll options alone positional texts = .ok placed) :
    ∃ places : List Nat, places.Pairwise (· < ·) ∧ List.Forall₂ (fun i s => ∃ text said, texts[i]? = some text
      ∧ readKept options text = .ok (some said) ∧ s = said.assign alone positional[i]?) places placed := by
  induction texts generalizing positional placed with
  | nil =>
      cases h
      exact ⟨[], .nil, .nil⟩
  | cons text texts ih =>
      obtain ⟨kept, hkept, hrest⟩ := bind_eq_ok_iff.1 h
      obtain ⟨others, hothers, heq⟩ := bind_eq_ok_iff.1 hrest
      cases heq
      obtain ⟨places, hascending, hplaces⟩ := ih hothers
      have hascending' : (places.map (· + 1)).Pairwise (· < ·) :=
        List.pairwise_map.2 (hascending.imp fun hlt => Nat.succ_lt_succ hlt)
      have hplaces' : List.Forall₂ (fun i s => ∃ t said, (text :: texts)[i]? = some t
          ∧ readKept options t = .ok (some said) ∧ s = said.assign alone positional[i]?)
          (places.map (· + 1)) others := by
        refine List.forall₂_map_left_iff.2 (hplaces.imp fun i s hs => ?_)
        rwa [List.getElem?_cons_succ, ← List.getElem?_tail]
      cases kept with
      | none => exact ⟨_, hascending', hplaces'⟩
      | some said =>
          refine ⟨0 :: places.map (· + 1), List.pairwise_cons.2 ⟨?_, hascending'⟩, .cons ?_ hplaces'⟩
          · intro i hi
            obtain ⟨j, -, rfl⟩ := List.mem_map.1 hi
            omega
          · exact ⟨text, said, rfl, hkept, by rw [List.head?_eq_getElem?]⟩

/-! ### What they make up -/

def ReadSection.branch? (s : ReadSection) : Option Branch := s.condition.map fun condition => ⟨condition, s.body⟩

@[simp] theorem ReadSection.branch?_none (body : Section) : branch? ⟨none, body⟩ = none := rfl

@[simp] theorem ReadSection.branch?_some (condition : Condition) (body : Section) :
    branch? ⟨some condition, body⟩ = some ⟨condition, body⟩ := rfl

def Branch.toReadSection (branch : Branch) : ReadSection := ⟨some branch.condition, branch.body⟩

@[simp] theorem Branch.condition_toReadSection (branch : Branch) :
    branch.toReadSection.condition = some branch.condition := rfl

@[simp] theorem Branch.branch?_toReadSection (branch : Branch) : branch.toReadSection.branch? = some branch := rfl

namespace Format

/-- The format of sections under their conditions. Those without one make up the primary section, in the
last colour among them. -/
def assemble (placed : List ReadSection) : Format where
  primary :=
    { parts := (placed.filter (·.condition.isNone)).flatMap (·.body.parts)
      color := ((placed.filter (·.condition.isNone)).filterMap (·.body.color)).getLast? }
  branches := placed.filterMap ReadSection.branch?

/-- The format with one more section, for which there is room. -/
def put (f : Format) (s : ReadSection) : Format :=
  match s.condition with
  | some condition => { f with branches := f.branches ++ [⟨condition, s.body⟩] }
  | none => f.extendPrimary s.body

theorem foldl_put (f : Format) (placed : List ReadSection) :
    placed.foldl put f = ⟨⟨f.primary.parts ++ (assemble placed).primary.parts,
      (assemble placed).primary.color <|> f.primary.color⟩, f.branches ++ (assemble placed).branches⟩ := by
  induction placed generalizing f with
  | nil => simp [assemble]
  | cons s placed ih =>
      rw [List.foldl_cons, ih]
      obtain ⟨condition, body⟩ := s
      cases condition with
      | some condition => simp [put, assemble]
      | none =>
          cases hcolor : body.color with
          | none => simp [put, extendPrimary, assemble, hcolor, List.filterMap_cons]
          | some color => simp [put, extendPrimary, assemble, hcolor, List.filterMap_cons, List.getLast?_cons]

theorem foldl_put_empty (placed : List ReadSection) : placed.foldl put {} = assemble placed := by
  rw [foldl_put]
  simp

theorem assemble_branches (branches : List Branch) :
    assemble (branches.map Branch.toReadSection) = ⟨{}, branches⟩ := by
  simp [assemble, Function.comp_def]

theorem assemble_branches_append (branches : List Branch) (primary : Section) :
    assemble (branches.map Branch.toReadSection ++ [⟨none, primary⟩]) = ⟨primary, branches⟩ := by
  obtain ⟨parts, color⟩ := primary
  cases color <;> simp [assemble, Function.comp_def, List.filterMap_cons]

theorem map_condition_assemble (placed : List ReadSection) :
    (assemble placed).branches.map Branch.condition = placed.filterMap (·.condition) := by
  rw [assemble, List.map_filterMap]
  refine List.filterMap_congr fun s _ => ?_
  rw [ReadSection.branch?]
  cases s.condition <;> rfl

theorem mapIdx_assign_nil (read : List ReadSection) :
    read.mapIdx (fun i s => s.assign false ([] : List Condition)[i]?) = read := by
  refine List.mapIdx_eq_iff.2 fun i => ?_
  cases read[i]? <;> simp [ReadSection.assign]

theorem mapIdx_assign_positional {conditions : List Condition} {bodies : List Section}
    (h : bodies.length ≤ conditions.length) :
    (bodies.map (ReadSection.mk none)).mapIdx (fun i s => s.assign false conditions[i]?)
      = (List.zipWith Branch.mk conditions bodies).map Branch.toReadSection := by
  induction bodies generalizing conditions with
  | nil => simp
  | cons body bodies ih =>
      cases conditions with
      | nil => cases h
      | cons condition conditions =>
          have hlength : bodies.length ≤ conditions.length := Nat.le_of_succ_le_succ h
          have hrest := ih hlength
          simp only [List.map_cons, List.mapIdx_cons, List.getElem?_cons_succ, hrest, List.zipWith_cons_cons]
          rfl

/-! ### Room -/

/-- The number of sections that a format takes up, where an empty primary one never counts. -/
def size (f : Format) : Nat := f.branches.length + (!f.primary.isEmpty).toNat

/-- A format that takes up no section has one nevertheless. -/
theorem sectionCount_eq_max (f : Format) : f.sectionCount = max f.size 1 := by
  unfold sectionCount size
  cases hprimary : f.primary.isEmpty with
  | false => exact (Nat.max_eq_left (Nat.le_add_left 1 f.branches.length)).symm
  | true =>
      cases hbranches : f.branches with
      | nil => rfl
      | cons branch branches => exact (Nat.max_eq_left (Nat.le_add_left 1 branches.length)).symm

theorem sectionCount_lt {f : Format} (h : f.size < maxSections) : f.sectionCount < maxSections := by
  rw [sectionCount_eq_max]
  exact Nat.max_lt.2 ⟨h, by decide⟩

theorem place_eq {f : Format} (s : ReadSection) (h : f.size < maxSections) :
    f.place s.condition s.body = .ok (f.put s) := by
  obtain ⟨condition, body⟩ := s
  cases condition with
  | some condition => exact if_neg (Nat.not_le.2 (sectionCount_lt h))
  | none => rfl

theorem size_put_le (f : Format) (s : ReadSection) : (f.put s).size ≤ f.size + 1 := by
  obtain ⟨condition, body⟩ := s
  cases condition with
  | some condition =>
      change (f.branches ++ [(⟨condition, body⟩ : Branch)]).length + (!f.primary.isEmpty).toNat ≤ _
      rw [List.length_append, List.length_singleton, size]
      omega
  | none =>
      have hle := Bool.toNat_le (!(f.extendPrimary body).primary.isEmpty)
      change f.branches.length + (!(f.extendPrimary body).primary.isEmpty).toNat ≤ _
      rw [size]
      omega

theorem size_foldl_put_le (f : Format) (placed : List ReadSection) :
    (placed.foldl put f).size ≤ f.size + placed.length := by
  induction placed generalizing f with
  | nil => exact Nat.le_refl _
  | cons s placed ih =>
      have hstep := size_put_le f s
      have hrest := ih (f.put s)
      rw [List.foldl_cons, List.length_cons]
      omega

theorem size_assemble_le (placed : List ReadSection) : (assemble placed).size ≤ placed.length := by
  have hsize := size_foldl_put_le {} placed
  rw [foldl_put_empty] at hsize
  exact Nat.le_trans hsize (Nat.le_of_eq (Nat.zero_add _))

theorem sectionCount_le_of_size {f : Format} (h : f.size ≤ maxSections) : f.sectionCount ≤ maxSections := by
  rw [sectionCount_eq_max]
  exact Nat.max_le.2 ⟨h, by decide⟩

/-- Where there is room for all sections, they are all read before they are put together. -/
theorem placeAll_eq {f : Format} (h : f.size + texts.length ≤ maxSections) :
    placeAll options alone f positional texts
      = (readAll options alone positional texts).map fun placed => placed.foldl put f := by
  induction texts generalizing f positional with
  | nil => rfl
  | cons text texts ih =>
      rw [List.length_cons] at h
      rw [placeAll, readAll, readKept]
      by_cases hline : '\n' ∈ text
      · rw [if_pos hline, if_pos hline]
        cases hstrict : options.strict with
        | true => rfl
        | false =>
            rw [if_neg Bool.false_ne_true, if_neg Bool.false_ne_true, ih (by omega)]
            cases readAll options alone positional.tail texts <;> rfl
      · rw [if_neg hline, if_neg hline]
        cases hread : readSection text with
        | error e => rfl
        | ok s =>
            have hplace := place_eq (s.assign alone positional.head?) (by omega : f.size < maxSections)
            have hsize := size_put_le f (s.assign alone positional.head?)
            change (f.place (s.assign alone positional.head?).condition (s.assign alone positional.head?).body
              >>= _) = _
            rw [hplace]
            change placeAll options alone _ positional.tail texts = _
            rw [ih (by omega)]
            cases readAll options alone positional.tail texts <;> rfl

/-- Whether a code has more sections than the options allow. -/
def Overfull (options : ParseOptions) (code : List Char) : Prop :=
  options.strict = true ∧ maxSections < (sectionTexts code).length

def positionalConditions (table : Condition.Table) (code : List Char) : List Condition :=
  if hasConditionTag code then [] else table.conditions

theorem ofChars_eq {code : List Char} (h : ¬Overfull options code) :
    ofChars options code = (readAll options ((sectionTexts code).length == 1)
      (positionalConditions options.table code) ((sectionTexts code).take maxSections)).map assemble := by
  have hfew : ¬((options.strict && decide (maxSections < (sectionTexts code).length)) = true) := by
    simpa [Overfull] using h
  have hroom : (({} : Format).size + ((sectionTexts code).take maxSections).length) ≤ maxSections := by
    rw [List.length_take]
    exact Nat.le_trans (Nat.le_of_eq (Nat.zero_add _)) (Nat.min_le_left maxSections (sectionTexts code).length)
  rw [ofChars, if_neg hfew, placeAll_eq hroom]
  simp only [foldl_put_empty]
  rfl

theorem not_overfull_of_ofChars {code : List Char} {f : Format} (h : ofChars options code = .ok f) :
    ¬Overfull options code := by
  intro hoverfull
  have hfew : (options.strict && decide (maxSections < (sectionTexts code).length)) = true := by
    simpa [Overfull] using hoverfull
  rw [ofChars, if_pos hfew] at h
  cases h

end Format

end CellFormat
