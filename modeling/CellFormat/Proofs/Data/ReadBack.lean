import CellFormat.Data.Decode
import CellFormat.Data.Encode
import CellFormat.Except
import CellFormat.Proofs.Condition
import CellFormat.Proofs.DigitBlock
/-!
# Stored formats read back

What is stored of a format, or of a piece of one, is read as that format or piece. Digit counts and thresholds that
are stored by others are checked before they become part of one: counts out of range are refused, and a threshold is
brought into its normal form or refused.
-/

namespace CellFormat

/-! ### Values and fields -/

namespace Data

variable {α β : Type} {readFirst : Data → Except DecodeError α} {readSecond : Data → Except DecodeError β}

theorem readBelow_natCast {bound n : Nat} (h : n < bound) : readBelow bound (.integer n) = .ok n := if_pos h

theorem readCount_countData (count : UInt32) : readCount (countData count) = .ok count := by
  have hread : readBelow UInt32.size (countData count) = .ok count.toNat := readBelow_natCast count.toNat_lt
  rw [readCount, hread]
  exact congrArg _ (UInt32.ofNat_toNat)

theorem readNullable_elim {write : α → Data} (hread : ∀ a, readFirst (write a) = .ok a)
    (hnull : ∀ a, write a ≠ .null) (a? : Option α) : readNullable readFirst (a?.elim .null write) = .ok a? := by
  cases a? with
  | none => rfl
  | some a =>
      change readNullable readFirst (write a) = _
      unfold readNullable
      split
      · next hnone => exact absurd hnone (hnull a)
      · rw [hread]
        rfl

theorem readList_map {write : α → Data} (hread : ∀ a, readFirst (write a) = .ok a) (as : List α) :
    readList readFirst (.array (as.map write)) = .ok as := by
  induction as with
  | nil => rfl
  | cons a as ih =>
      change (as.map write).mapM readFirst = .ok as at ih
      rw [readList, List.map_cons, List.mapM_cons, hread, ih]
      rfl

/-- Two fields are read in the order of their names, but not into another place. -/
theorem readPair_object {first second : String} (hne : second ≠ first) {d e : Data} {a : α} {b : β}
    (hfirst : readFirst d = .ok a) (hsecond : readSecond e = .ok b) :
    readPair first second readFirst readSecond (.object [(first, d), (second, e)]) = .ok (some a, some b) := by
  have hlookup : [(first, d), (second, e)].lookup first = some d := by simp
  have hlookup' : [(first, d), (second, e)].lookup second = some e := by
    simp [List.lookup_cons, beq_false_of_ne hne]
  simp only [readPair, hlookup, hlookup', readPresent, hfirst, hsecond]
  split <;> rfl

theorem checked_eq_ok_iff {result : Except FormatError α} {a : α} : checked result = .ok a ↔ result = .ok a := by
  cases result with
  | ok b => exact ⟨fun h => congrArg _ (Except.ok.inj h), fun h => congrArg _ (Except.ok.inj h)⟩
  | error e => exact ⟨nofun, nofun⟩

end Data

open Data

/-! ### Pieces of formats -/

theorem Comparator.ofName?_name (comparator : Comparator) : ofName? comparator.name = some comparator := by
  cases comparator <;> decide

theorem Comparator.ofData_toData (comparator : Comparator) : ofData comparator.toData = .ok comparator := by
  change required (ofName? comparator.name) = _
  rw [ofName?_name]
  rfl

theorem Condition.ofData_toData (condition : Condition) : ofData condition.toData = .ok condition := by
  have hpair := readPair_object (by decide : "threshold" ≠ "comparator")
    (Comparator.ofData_toData condition.comparator) (rfl : readReal (.real condition.threshold) = _)
  rw [ofData, toData, hpair]
  change checked (make condition.comparator condition.threshold) = _
  rw [make_self]
  rfl

theorem Color.ofData_toData (color : Color) : ofData color.toData = .ok color := by
  cases color with
  | indexed number =>
      have hread : readBelow UInt8.size (.integer number.toNat) = .ok number.toNat :=
        readBelow_natCast number.toNat_lt
      change (readBelow UInt8.size (.integer number.toNat) >>= fun n => .ok (indexed (.ofNat n))) = _
      rw [hread]
      exact congrArg (fun n => Except.ok (indexed n)) UInt8.ofNat_toNat
  | _ => decide

/-- The counts of a digit block before they are checked. -/
structure DigitCounts where
  minInteger : UInt32
  maxInteger : Option UInt32
  minDecimal : UInt32
  maxDecimal : Option UInt32
  grouping : Bool

def DigitCounts.ofData (d : Data) : Except DecodeError DigitCounts := do
  let fields ← readFields ["min_integer_digits", "max_integer_digits", "min_decimal_digits",
    "max_decimal_digits", "grouping"] d
  match fields with
  | [minInteger, maxInteger, minDecimal, maxDecimal, grouping] =>
    let minInteger ← readCount (← required minInteger)
    let maxInteger ← readPresent (readNullable readCount) maxInteger
    let minDecimal ← readCount (← required minDecimal)
    let maxDecimal ← readPresent (readNullable readCount) maxDecimal
    let grouping ← readBool (← required grouping)
    return ⟨minInteger, maxInteger.join, minDecimal, maxDecimal.join, grouping⟩
  | _ => .error .shape

/-- Whether at least one integer digit is shown and no greatest number is below the least one. -/
def DigitCounts.InRange (counts : DigitCounts) : Prop :=
  1 ≤ counts.minInteger ∧ (∀ n ∈ counts.maxInteger, counts.minInteger ≤ n)
    ∧ ∀ n ∈ counts.maxDecimal, counts.minDecimal ≤ n

def DigitCounts.check (counts : DigitCounts) : Except FormatError DigitBlock :=
  DigitBlock.make counts.minInteger counts.maxInteger counts.minDecimal counts.maxDecimal counts.grouping

def DigitBlock.counts (block : DigitBlock) : DigitCounts where
  minInteger := block.minInteger
  maxInteger := block.maxInteger
  minDecimal := block.minDecimal
  maxDecimal := block.maxDecimal
  grouping := block.grouping

theorem DigitCounts.check_eq_ok_iff {counts : DigitCounts} {block : DigitBlock} :
    counts.check = .ok block ↔ block.counts = counts := by
  rw [check, DigitBlock.make_eq_ok_iff, DigitBlock.counts, mk.injEq]

theorem DigitBlock.inRange_counts (block : DigitBlock) : block.counts.InRange :=
  ⟨block.one_le_minInteger, block.minInteger_le, block.minDecimal_le⟩

theorem DigitBlock.ofData_eq (d : Data) :
    ofData d = DigitCounts.ofData d >>= fun counts => checked counts.check := by
  rw [ofData, DigitCounts.ofData, bind_assoc]
  refine bind_congr fun fields => ?_
  match fields with
  | [minInteger, maxInteger, minDecimal, maxDecimal, grouping] =>
      simp only [bind_assoc, pure_bind]
      rfl
  | [] | [_] | [_, _] | [_, _, _] | [_, _, _, _] | _ :: _ :: _ :: _ :: _ :: _ :: _ => rfl

theorem DigitBlock.ofData_eq_ok_iff {d : Data} {block : DigitBlock} :
    ofData d = .ok block ↔ DigitCounts.ofData d = .ok block.counts := by
  rw [ofData_eq, bind_eq_ok_iff]
  simp only [checked_eq_ok_iff, DigitCounts.check_eq_ok_iff]
  exact ⟨fun ⟨counts, hcounts, heq⟩ => heq ▸ hcounts, fun h => ⟨_, h, rfl⟩⟩

theorem DigitCounts.ofData_toData (block : DigitBlock) : ofData block.toData = .ok block.counts := by
  have hmaximum : ∀ maximum : Option UInt32,
      readPresent (readNullable readCount) (some (maximum.elim .null countData)) = .ok (some maximum) := by
    intro maximum
    rw [readPresent, readNullable_elim readCount_countData nofun]
    rfl
  have hfields : readFields ["min_integer_digits", "max_integer_digits", "min_decimal_digits",
      "max_decimal_digits", "grouping"] block.toData
      = .ok [some (countData block.minInteger), some (block.maxInteger.elim .null countData),
        some (countData block.minDecimal), some (block.maxDecimal.elim .null countData),
        some (.bool block.grouping)] := by
    simp [readFields, DigitBlock.toData, List.lookup_cons]
  rw [ofData, hfields]
  simp only [hmaximum, required, readCount_countData, readBool, bind, Except.bind]
  rfl

theorem DigitBlock.ofData_toData (block : DigitBlock) : ofData block.toData = .ok block :=
  ofData_eq_ok_iff.2 (DigitCounts.ofData_toData block)

theorem textOfData_textData (text : String) : textOfData (textData text) = .ok text := by
  have hfields : readFields ["text"] (textData text) = .ok [some (.string text)] := by
    simp [readFields, textData, List.lookup_cons]
  rw [textOfData, hfields]
  rfl

theorem Part.ofData_toData (part : Part) : ofData part.toData = .ok part := by
  cases part with
  | number block =>
      change (DigitBlock.ofData block.toData >>= fun block => .ok (number block)) = _
      rw [DigitBlock.ofData_toData]
      rfl
  | text literal =>
      change (textOfData (textData literal) >>= fun literal => .ok (text literal)) = _
      rw [textOfData_textData]
      rfl

theorem Section.ofData_toData (s : Section) : ofData s.toData = .ok s := by
  have hcolor : ∀ color : Color, color.toData ≠ .null := by
    intro color
    cases color <;> exact nofun
  have hpair := readPair_object (by decide : "color" ≠ "parts") (readList_map Part.ofData_toData s.parts)
    (readNullable_elim Color.ofData_toData hcolor s.color)
  rw [ofData, toData, hpair]
  rfl

theorem Branch.ofData_toData (branch : Branch) : ofData branch.toData = .ok branch := by
  have hpair := readPair_object (by decide : "section" ≠ "condition") (Condition.ofData_toData branch.condition)
    (Section.ofData_toData branch.body)
  rw [ofData, toData, hpair]
  rfl

theorem Format.ofData_toData (f : Format) : ofData f.toData = .ok f := by
  have hpair := readPair_object (by decide : "branches" ≠ "primary") (Section.ofData_toData f.primary)
    (readList_map Branch.ofData_toData f.branches)
  rw [ofData, toData, hpair]
  rfl

/-! ### What stored formats contain -/

/-- The comparator and the threshold that a condition is read from, before they are checked. -/
def Condition.readUnchecked (d : Data) : Except DecodeError (Comparator × Binary64) := do
  let (comparator, threshold) ← readPair "comparator" "threshold" Comparator.ofData readReal d
  let comparator ← required comparator
  let threshold ← required threshold
  return (comparator, threshold)

theorem Condition.ofData_eq (d : Data) :
    ofData d = readUnchecked d >>= fun (comparator, threshold) => checked (make comparator threshold) := by
  simp only [ofData, readUnchecked, bind_assoc, pure_bind]

/-- Whether the threshold is finite, and zero without a sign where it is zero and where it does not count. -/
def Condition.IsNormal (condition : Condition) : Prop :=
  condition.threshold.isFinite = true ∧ (condition.threshold.isZero = true → condition.threshold.negative = false)
    ∧ (condition.comparator = .isText → condition.threshold = .zero)

theorem Condition.isNormal (condition : Condition) : condition.IsNormal :=
  ⟨condition.finite, fun hzero => congrArg Binary64.negative (condition.unsigned_zero hzero), condition.text_zero⟩

def Part.block? : Part → Option DigitBlock
  | number block => some block
  | text _ => none

def Section.blocks (s : Section) : List DigitBlock := s.parts.filterMap Part.block?

def Format.blocks (f : Format) : List DigitBlock :=
  f.primary.blocks ++ f.branches.flatMap fun branch => branch.body.blocks

/-- How the values of a type are stored, and the digit blocks and conditions in a value. -/
structure Storage (α : Type) where
  read : Data → Except DecodeError α
  write : α → Data
  blocks : α → List DigitBlock
  conditions : α → List Condition

namespace Storage

def ofFormat : Storage Format :=
  ⟨Format.ofData, Format.toData, Format.blocks, fun f => f.branches.map Branch.condition⟩

def ofBranch : Storage Branch :=
  ⟨Branch.ofData, Branch.toData, fun branch => branch.body.blocks, fun branch => [branch.condition]⟩

def ofSection : Storage Section := ⟨Section.ofData, Section.toData, Section.blocks, fun _ => []⟩

def ofPart : Storage Part := ⟨Part.ofData, Part.toData, fun part => part.block?.toList, fun _ => []⟩

def ofDigitBlock : Storage DigitBlock := ⟨DigitBlock.ofData, DigitBlock.toData, fun block => [block], fun _ => []⟩

def ofCondition : Storage Condition :=
  ⟨Condition.ofData, Condition.toData, fun _ => [], fun condition => [condition]⟩

variable {α : Type} (storage : Storage α)

/-- Whether all that is read is valid, and is read again from what is written for it. -/
def Sound : Prop :=
  ∀ d a, storage.read d = .ok a → (∀ block ∈ storage.blocks a, block.counts.InRange)
    ∧ (∀ condition ∈ storage.conditions a, condition.IsNormal) ∧ storage.read (storage.write a) = .ok a

variable {storage}

theorem sound_of_lossless (h : ∀ a, storage.read (storage.write a) = .ok a) : storage.Sound :=
  fun _ a _ => ⟨fun block _ => block.inRange_counts, fun condition _ => condition.isNormal, h a⟩

/-- Digit blocks are read exactly from counts in range, and conditions exactly from a finite threshold or for text,
in which case they have the normal form of the threshold. So all that is read of a format or its pieces is valid,
and it is read again from what is written for it. Every format is read from what is written for it. -/
theorem stored_formats_sound :
    (∀ d block, DigitBlock.ofData d = .ok block
        ↔ ∃ counts, DigitCounts.ofData d = .ok counts ∧ counts.InRange ∧ block.counts = counts)
      ∧ (∀ d condition, Condition.ofData d = .ok condition
        ↔ ∃ comparator threshold, Condition.readUnchecked d = .ok (comparator, threshold)
          ∧ (comparator = .isText ∨ threshold.isFinite = true) ∧ condition.comparator = comparator
          ∧ condition.threshold = Condition.keptThreshold comparator threshold)
      ∧ ofFormat.Sound ∧ ofBranch.Sound ∧ ofSection.Sound ∧ ofPart.Sound ∧ ofDigitBlock.Sound ∧ ofCondition.Sound
      ∧ ∀ f : Format, Format.ofData f.toData = .ok f := by
  refine ⟨fun d block => ?_, fun d condition => ?_, sound_of_lossless Format.ofData_toData,
    sound_of_lossless Branch.ofData_toData, sound_of_lossless Section.ofData_toData,
    sound_of_lossless Part.ofData_toData, sound_of_lossless DigitBlock.ofData_toData,
    sound_of_lossless Condition.ofData_toData, Format.ofData_toData⟩
  · rw [DigitBlock.ofData_eq_ok_iff]
    constructor
    · exact fun h => ⟨block.counts, h, block.inRange_counts, rfl⟩
    · rintro ⟨counts, hcounts, -, rfl⟩
      exact hcounts
  · rw [Condition.ofData_eq, bind_eq_ok_iff]
    simp only [Prod.exists, checked_eq_ok_iff, Condition.make_eq_ok_iff]

/-- A format stored by hand: fields in another order, one that is not known, lists in place of objects, greatest
numbers left out or null, and the negative zero. -/
def handwritten : Data :=
  .object [
    ("branches", .array [.array [
      .object [("threshold", .real ⟨true, 0, Binary64.zero.rank_lt⟩), ("comparator", .object [("LessThan", .null)])],
      .object [("parts", .array [.object [("Text", .object [("text", .string "x")])]])]]]),
    ("name", .string "by hand"),
    ("primary", .object [
      ("color", .object [("Indexed", .integer 7)]),
      ("parts", .array [
        .object [("Number", .array [.integer 2, .null, .integer 0, .integer 3, .bool true])],
        .object [("Number", .object [("grouping", .bool false), ("min_decimal_digits", .integer 1),
          ("min_integer_digits", .integer 1)])]])])]

theorem stored_formats_sound_handwritten :
    ∃ f, Format.ofData handwritten = .ok f ∧ f.blocks.length = 2 ∧ (∀ block ∈ f.blocks, block.counts.InRange)
      ∧ f.branches.map Branch.condition = [.againstZero .lessThan] ∧ Format.ofData f.toData = .ok f := by
  have hread : (Format.ofData handwritten).isOk = true := by decide +kernel
  cases hformat : Format.ofData handwritten with
  | error e =>
      rw [hformat] at hread
      cases hread
  | ok f =>
      obtain ⟨hblocks, -, hlossless⟩ := stored_formats_sound.2.2.1 handwritten f hformat
      have hcontent : (Format.ofData handwritten).map (fun f => (f.blocks.length, f.branches.map Branch.condition))
          = .ok (2, [.againstZero .lessThan]) := by
        decide +kernel
      rw [hformat] at hcontent
      obtain ⟨hlength, hconditions⟩ := Prod.mk.inj (Except.ok.inj hcontent)
      exact ⟨f, rfl, hlength, hblocks, hconditions, hlossless⟩

end Storage

end CellFormat
