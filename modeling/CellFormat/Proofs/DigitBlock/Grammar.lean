import CellFormat.Proofs.DigitBlock
/-!
# The grammar of digit blocks

Without its commas a digit block is optional digits, then required ones, and behind a point required digits, then
optional ones. The reader never says so: it cuts at the first point, counts two runs on either side and looks whether
they are all there is. Every text of this shape is a block, whose counts pass the checks that every block has to pass,
and every other text is refused. Of the commas it matters only whether there is one.
-/

namespace CellFormat.DigitBlock

/-- The digits of a block: those in front of the point, optional ones first, and those behind it, required ones first.
Without a point there are none behind it. -/
structure Pattern where
  optional : Nat
  required : Nat
  decimals : Option (Nat × Nat)

namespace Pattern

variable (pattern : Pattern) (grouping : Bool)

def decimalText : List Char :=
  match pattern.decimals with
  | none => []
  | some (required, optional) => '.' :: (List.replicate required '0' ++ List.replicate optional '#')

/-- The pattern as it is written without commas. -/
def text : List Char :=
  List.replicate pattern.optional '#' ++ List.replicate pattern.required '0' ++ pattern.decimalText

/-! ### Counts -/

/-- The least and the greatest number of decimals: at least one if there is a point. -/
def decimalCounts : Nat × Nat :=
  match pattern.decimals with
  | none => (0, 0)
  | some (required, optional) => (max required 1, max (required + optional) 1)

/-- The greatest number of integer digits, which optional digits give a block that is not grouped. -/
def maxInteger : Option Nat :=
  if 0 < pattern.optional ∧ grouping = false then some (pattern.optional + pattern.required) else none

/-- The block with these counts, of which no more is kept than a count can hold, and which are checked. -/
def toBlock : Except FormatError DigitBlock :=
  make (leastDigits pattern.required)
    ((pattern.maxInteger grouping).map fun digits => max (.ofNat digits) (leastDigits pattern.required))
    (match pattern.decimals with
      | none => 0
      | some (required, _) => leastDigits required)
    (match pattern.decimals with
      | none => some 0
      | some (required, optional) => some (max (.ofNat (required + optional)) (leastDigits required)))
    grouping

/-- The counts of a pattern pass the checks, even where they run over. -/
theorem exists_toBlock : ∃ block, pattern.toBlock grouping = .ok block := by
  refine exists_make grouping (one_le_leastDigits pattern.required) (fun n hn => ?_) ?_
  · obtain ⟨digits, -, rfl⟩ := Option.map_eq_some_iff.1 hn
    exact le_max_right _ _
  · cases pattern.decimals with
    | none =>
        rintro n ⟨⟩
        exact UInt32.le_refl 0
    | some counts =>
        rintro n ⟨⟩
        exact le_max_right _ _

theorem toNat_leastDigits {zeros : Nat} (h : zeros < 2 ^ 32) : (leastDigits zeros).toNat = max zeros 1 := by
  rw [leastDigits, toNat_max, toNat_ofNat_of_lt h, UInt32.toNat_one]

variable {pattern grouping}

/-- A text that a count can hold is read as the very counts of its pattern. -/
theorem counts_of_toBlock {block : DigitBlock} (hlength : pattern.text.length < 2 ^ 32)
    (h : pattern.toBlock grouping = .ok block) :
    block.grouping = grouping ∧ block.minInteger.toNat = max pattern.required 1
      ∧ block.maxInteger.map UInt32.toNat = pattern.maxInteger grouping
      ∧ block.minDecimal.toNat = pattern.decimalCounts.1
      ∧ block.maxDecimal.map UInt32.toNat = some pattern.decimalCounts.2 := by
  obtain ⟨hminInteger, hmaxInteger, hminDecimal, hmaxDecimal, hgrouping⟩ := make_eq_ok_iff.1 h
  obtain ⟨optional, required, decimals⟩ := pattern
  simp only [text, List.length_append, List.length_replicate] at hlength
  have hinteger : optional + required < 2 ^ 32 := by omega
  have hrequired : required < 2 ^ 32 := by omega
  refine ⟨hgrouping, ?_, ?_, ?_, ?_⟩
  · rw [hminInteger]
    exact toNat_leastDigits hrequired
  · rw [hmaxInteger, maxInteger]
    split
    · next hoptional =>
      have hpos : 0 < optional := hoptional.1
      simp only [Option.map_some, toNat_max, toNat_leastDigits hrequired, toNat_ofNat_of_lt hinteger,
        Option.some.injEq]
      omega
    · rfl
  · rw [hminDecimal]
    cases decimals with
    | none => rfl
    | some counts =>
        simp only [decimalText, List.length_cons, List.length_append, List.length_replicate] at hlength
        exact toNat_leastDigits (by omega)
  · rw [hmaxDecimal]
    cases decimals with
    | none => rfl
    | some counts =>
        simp only [decimalText, List.length_cons, List.length_append, List.length_replicate] at hlength
        simp only [Option.map_some, decimalCounts, toNat_max, toNat_leastDigits (by omega : counts.1 < 2 ^ 32),
          toNat_ofNat_of_lt (by omega : counts.1 + counts.2 < 2 ^ 32), Option.some.injEq]
        omega

end Pattern

/-! ### The reader -/

variable {cs : List Char} {block : DigitBlock} {pattern : Pattern}

theorem toOption_read (cs : List Char) : (read cs).toOption = ofPlaceholders? cs := by
  unfold read
  cases ofPlaceholders? cs <;> rfl

theorem read_eq_ok_iff : read cs = .ok block ↔ ofPlaceholders? cs = some block := by
  unfold read
  cases ofPlaceholders? cs <;> simp

theorem error_of_read {e : FormatError} (h : read cs = .error e) : e = .unexpectedBlock (.ofList cs) := by
  unfold read at h
  split at h <;> cases h
  rfl

/-- Of the commas a block shows only whether there are any. -/
theorem ofPlaceholders?_congr {other : List Char} (hbare : other.filter (· != ',') = cs.filter (· != ','))
    (hcomma : other.contains ',' = cs.contains ',') : ofPlaceholders? other = ofPlaceholders? cs := by
  simp only [ofPlaceholders?, hbare, hcomma]

theorem takeWhile_text (pattern : Pattern) :
    pattern.text.takeWhile (· != '.')
        = List.replicate pattern.optional '#' ++ List.replicate pattern.required '0'
      ∧ pattern.text.dropWhile (· != '.') = pattern.decimalText := by
  have hinteger : ∀ c ∈ List.replicate pattern.optional '#' ++ List.replicate pattern.required '0',
      (c != '.') = true := by
    intro c hc
    rcases List.mem_append.1 hc with hc | hc <;> rw [List.eq_of_mem_replicate hc] <;> rfl
  have hpoint : Stops (· != '.') pattern.decimalText := by
    unfold Pattern.decimalText
    split
    · exact stops_nil _
    · exact stops_cons rfl _
  exact ⟨takeWhile_append_of_stops hinteger hpoint, dropWhile_append_of_stops hinteger hpoint⟩

theorem read_of_pattern (hbare : cs.filter (· != ',') = pattern.text)
    (h : pattern.toBlock (cs.contains ',') = .ok block) : read cs = .ok block := by
  obtain ⟨hminInteger, hmaxInteger, hminDecimal, hmaxDecimal, hgrouping⟩ := make_eq_ok_iff.1 h
  obtain ⟨htake, hdrop⟩ := takeWhile_text pattern
  have hwhole : ofInteger? (cs.contains ',')
      (List.replicate pattern.optional '#' ++ List.replicate pattern.required '0')
      = some (block.setDecimalPlaces 0) := by
    refine ofInteger?_eq_some_iff.2 ⟨_, _, rfl, hminInteger, ?_, rfl, rfl, hgrouping⟩
    change block.maxInteger = _
    rw [hmaxInteger, Pattern.maxInteger]
    cases cs.contains ',' <;> by_cases hpos : 0 < pattern.optional <;> simp [hpos]
  rw [read_eq_ok_iff]
  simp only [ofPlaceholders?, hbare, htake, hdrop, hwhole]
  unfold Pattern.decimalText
  cases hdecimals : pattern.decimals with
  | none =>
      rw [hdecimals] at hminDecimal hmaxDecimal
      exact congrArg some (DigitBlock.ext rfl rfl hminDecimal.symm hmaxDecimal.symm rfl)
  | some counts =>
      rw [hdecimals] at hminDecimal hmaxDecimal
      exact withDecimals?_eq_some_iff.2 ⟨_, _, rfl, hminDecimal, hmaxDecimal, rfl, rfl, rfl⟩

/-! ### Counting first -/

/-- The pattern of a text, whose sides are counted on their own. -/
def pattern? (cs : List Char) : Option Pattern := do
  let bare := cs.filter (· != ',')
  let (optional, required) ← runs? '#' '0' (bare.takeWhile (· != '.'))
  match bare.dropWhile (· != '.') with
  | [] => some ⟨optional, required, none⟩
  | _ :: decimals => (runs? '0' '#' decimals).map fun counts => ⟨optional, required, some counts⟩

/-- The reader that has the counts of its text checked, as all counts are that a block is made of. -/
def readChecked (cs : List Char) : Except FormatError DigitBlock :=
  match pattern? cs with
  | some pattern => pattern.toBlock (cs.contains ',')
  | none => .error (.unexpectedBlock (.ofList cs))

theorem text_of_pattern? (h : pattern? cs = some pattern) : cs.filter (· != ',') = pattern.text := by
  obtain ⟨⟨optional, required⟩, hinteger, hrest⟩ := Option.bind_eq_some_iff.1 h
  have happend := List.takeWhile_append_dropWhile (p := (· != '.')) (l := cs.filter (· != ','))
  have hhead := List.head?_dropWhile_not (· != '.') (cs.filter (· != ','))
  rw [eq_replicate_of_runs? hinteger] at happend
  dsimp only at hrest
  split at hrest
  · next hnone =>
    cases hrest
    rw [← happend, hnone]
    rfl
  · next point decimals hsome =>
    obtain ⟨counts, hdecimals, rfl⟩ := Option.map_eq_some_iff.1 hrest
    rw [hsome] at happend hhead
    have hpoint : point = '.' := by simpa using hhead
    rw [← happend, hpoint, eq_replicate_of_runs? hdecimals]
    rfl

theorem exists_pattern?_of_read (h : read cs = .ok block) : ∃ pattern, pattern? cs = some pattern := by
  obtain ⟨whole, hwhole, hdecimals⟩ := Option.bind_eq_some_iff.1 (read_eq_ok_iff.1 h)
  obtain ⟨⟨optional, required⟩, hinteger, -⟩ := Option.bind_eq_some_iff.1 hwhole
  cases hpoint : (cs.filter (· != ',')).dropWhile (· != '.') with
  | nil => exact ⟨⟨optional, required, none⟩, by simp [pattern?, hinteger, hpoint]⟩
  | cons point decimals =>
      rw [hpoint] at hdecimals
      obtain ⟨counts, hcounts, -⟩ := Option.bind_eq_some_iff.1 hdecimals
      exact ⟨⟨optional, required, some counts⟩, by simp [pattern?, hinteger, hpoint, hcounts]⟩

theorem exists_pattern_of_read (h : read cs = .ok block) :
    ∃ pattern : Pattern, cs.filter (· != ',') = pattern.text := by
  obtain ⟨pattern, hpattern⟩ := exists_pattern?_of_read h
  exact ⟨pattern, text_of_pattern? hpattern⟩

/-- The check never refuses what the reader has counted. -/
theorem readChecked_eq_read (cs : List Char) : readChecked cs = read cs := by
  unfold readChecked
  cases hpattern : pattern? cs with
  | some pattern =>
      obtain ⟨block, hblock⟩ := pattern.exists_toBlock (cs.contains ',')
      rw [read_of_pattern (text_of_pattern? hpattern) hblock]
      exact hblock
  | none =>
      cases hread : read cs with
      | ok block =>
          obtain ⟨pattern, hsome⟩ := exists_pattern?_of_read hread
          rw [hsome] at hpattern
          cases hpattern
      | error e => rw [error_of_read hread]

/-! ### What is read -/

/-- A text is read as a block exactly if it has the shape of a pattern without its commas, and then it is read as the
block of the pattern, with grouping if there is a comma. Digits are counted in 32 bits, so the counts are those of the
pattern for texts shorter than such a count, which texts of so many bytes are as well. Every other text is refused as
no code, never for its counts. With one comma at least, it does not matter how many there are, nor where. -/
theorem read_iff_pattern (cs : List Char) (hlength : cs.length < 2 ^ 32) :
    (∀ pattern : Pattern, cs.filter (· != ',') = pattern.text →
        ∃ block, read cs = .ok block ∧ pattern.toBlock (cs.contains ',') = .ok block
          ∧ block.grouping = cs.contains ',' ∧ block.minInteger.toNat = max pattern.required 1
          ∧ block.maxInteger.map UInt32.toNat = pattern.maxInteger (cs.contains ',')
          ∧ block.minDecimal.toNat = pattern.decimalCounts.1
          ∧ block.maxDecimal.map UInt32.toNat = some pattern.decimalCounts.2)
      ∧ ((∀ pattern : Pattern, cs.filter (· != ',') ≠ pattern.text) →
        read cs = .error (.unexpectedBlock (.ofList cs)))
      ∧ (∀ e, read cs = .error e → e.kind = .invalidFormat)
      ∧ ∀ other : List Char, ',' ∈ cs → ',' ∈ other → other.filter (· != ',') = cs.filter (· != ',') →
        (read other).toOption = (read cs).toOption := by
  refine ⟨fun pattern hbare => ?_, fun hnone => ?_, fun e he => ?_, fun other hcs hother hbare => ?_⟩
  · obtain ⟨block, hblock⟩ := pattern.exists_toBlock (cs.contains ',')
    have hshort : pattern.text.length < 2 ^ 32 := by
      rw [← hbare]
      exact Nat.lt_of_le_of_lt (List.length_filter_le _ cs) hlength
    exact ⟨block, read_of_pattern hbare hblock, hblock, Pattern.counts_of_toBlock hshort hblock⟩
  · cases hread : read cs with
    | ok block =>
        obtain ⟨pattern, hbare⟩ := exists_pattern_of_read hread
        exact absurd hbare (hnone pattern)
    | error e => rw [error_of_read hread]
  · rw [error_of_read he]
    rfl
  · rw [toOption_read, toOption_read]
    refine ofPlaceholders?_congr hbare ?_
    rw [List.contains_iff_mem.2 hother, List.contains_iff_mem.2 hcs]

/-- A grouped block with its commas in odd places, and a text with two points. -/
theorem read_iff_pattern_oddCommas :
    (∃ block, read "#,,0.0,#".toList = .ok block ∧ block.grouping = true ∧ block.maxInteger = none
        ∧ block.minDecimal.toNat = 1 ∧ block.maxDecimal.map UInt32.toNat = some 2)
      ∧ (read ",#0.0#".toList).toOption = (read "#,,0.0,#".toList).toOption := by
  have hread := read_iff_pattern "#,,0.0,#".toList (by decide)
  obtain ⟨block, hblock, -, hgrouping, -, hmaxInteger, hminDecimal, hmaxDecimal⟩ :=
    hread.1 ⟨1, 1, some (1, 1)⟩ (by decide)
  refine ⟨⟨block, hblock, hgrouping, ?_, hminDecimal, hmaxDecimal⟩, ?_⟩
  · exact Option.map_eq_none_iff.1 hmaxInteger
  · exact hread.2.2.2 ",#0.0#".toList (by decide) (by decide) (by decide)

end CellFormat.DigitBlock
