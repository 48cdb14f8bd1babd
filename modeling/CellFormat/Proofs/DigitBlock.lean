import CellFormat.DigitBlock
import CellFormat.Proofs.Text.Cut
import Mathlib.Algebra.Group.Nat.Defs
/-!
# Digit blocks read back

A written block is read as its normal form, in which the greatest number of integer digits is given only
where a text can show it. A block that was read from a text is its own normal form, but for the texts that
say nothing: a single optional digit, and more digits than a count can hold.
-/

namespace CellFormat.DigitBlock

attribute [ext] DigitBlock

/-! ### Checked counts -/

theorem below?_eq_none {minimum : UInt32} {maximum : Option UInt32} (h : ∀ n ∈ maximum, minimum ≤ n) :
    below? minimum maximum = none := by
  rw [below?, Option.filter_eq_none_iff]
  intro n hn
  rw [decide_eq_true_eq, UInt32.not_lt]
  exact h n hn

theorem make_eq_ok_iff {minInteger minDecimal : UInt32} {maxInteger maxDecimal : Option UInt32} {grouping : Bool}
    {block : DigitBlock} :
    make minInteger maxInteger minDecimal maxDecimal grouping = .ok block
      ↔ block.minInteger = minInteger ∧ block.maxInteger = maxInteger ∧ block.minDecimal = minDecimal
        ∧ block.maxDecimal = maxDecimal ∧ block.grouping = grouping := by
  constructor
  · intro h
    unfold make at h
    split at h
    · split at h
      · cases h
      · split at h
        · cases h
        · cases h
          exact ⟨rfl, rfl, rfl, rfl, rfl⟩
    · cases h
  · rintro ⟨rfl, rfl, rfl, rfl, rfl⟩
    rw [make, dif_pos block.one_le_minInteger]
    split
    · next n hbelow =>
      rw [below?_eq_none block.minInteger_le] at hbelow
      cases hbelow
    · split
      · next n hbelow =>
        rw [below?_eq_none block.minDecimal_le] at hbelow
        cases hbelow
      · rfl

theorem exists_make {minInteger minDecimal : UInt32} {maxInteger maxDecimal : Option UInt32} (grouping : Bool)
    (hone : 1 ≤ minInteger) (hinteger : ∀ n ∈ maxInteger, minInteger ≤ n)
    (hdecimal : ∀ n ∈ maxDecimal, minDecimal ≤ n) :
    ∃ block, make minInteger maxInteger minDecimal maxDecimal grouping = .ok block :=
  ⟨⟨minInteger, maxInteger, minDecimal, maxDecimal, grouping, hone, hinteger, hdecimal⟩,
    make_eq_ok_iff.2 ⟨rfl, rfl, rfl, rfl, rfl⟩⟩

/-! ### Counts -/

theorem max_eq_right {a b : UInt32} (h : a ≤ b) : max a b = b := if_pos h

theorem max_eq_left {a b : UInt32} (h : b ≤ a) : max a b = a := by
  by_cases hle : a ≤ b
  · rw [max_eq_right hle]
    exact UInt32.le_antisymm h hle
  · exact if_neg hle

theorem one_le_leastDigits (zeros : Nat) : 1 ≤ leastDigits zeros := by
  unfold leastDigits
  by_cases h : UInt32.ofNat zeros ≤ 1
  · rw [max_eq_right h]
    exact UInt32.le_refl 1
  · rw [max_eq_left (UInt32.le_of_lt (UInt32.not_le.1 h))]
    exact UInt32.le_of_lt (UInt32.not_le.1 h)

theorem toNat_ofNat_of_lt {n : Nat} (h : n < 2 ^ 32) : (UInt32.ofNat n).toNat = n := by
  rw [UInt32.toNat_ofNat', Nat.mod_eq_of_lt h]

theorem toNat_max (a b : UInt32) : (max a b).toNat = max a.toNat b.toNat := by
  by_cases h : a ≤ b
  · rw [max_eq_right h, Nat.max_eq_right (UInt32.le_iff_toNat_le.1 h)]
  · have hle := UInt32.le_of_lt (UInt32.not_le.1 h)
    rw [max_eq_left hle, Nat.max_eq_left (UInt32.le_iff_toNat_le.1 hle)]

/-! ### Runs of two placeholders -/

variable {first second : Char}

theorem runs?_replicate (hne : first ≠ second) (m n : Nat) :
    runs? first second (List.replicate m first ++ List.replicate n second) = some (m, n) := by
  have hfirst : ∀ c ∈ List.replicate m first, (c == first) = true := by
    intro c hc
    rw [List.eq_of_mem_replicate hc, beq_self_eq_true]
  have hsecond : Stops (· == first) (List.replicate n second) := by
    intro c hc
    rw [List.eq_of_mem_replicate (List.mem_of_mem_head? hc)]
    exact beq_false_of_ne (Ne.symm hne)
  simp [runs?, dropWhile_append_of_stops hfirst hsecond]

theorem eq_replicate_of_all {c : Char} {cs : List Char} (h : cs.all (· == c) = true) :
    cs = List.replicate cs.length c :=
  List.eq_replicate_of_mem fun x hx => eq_of_beq (List.all_eq_true.1 h x hx)

theorem eq_replicate_of_runs? {cs : List Char} {m n : Nat} (h : runs? first second cs = some (m, n)) :
    cs = List.replicate m first ++ List.replicate n second := by
  simp only [runs?] at h
  split at h
  · next hall =>
    cases h
    have htake : (cs.takeWhile (· == first)).length = cs.length - (cs.dropWhile (· == first)).length := by
      have happend := congrArg List.length (List.takeWhile_append_dropWhile (p := (· == first)) (l := cs))
      rw [List.length_append] at happend
      omega
    rw [← htake, ← eq_replicate_of_all hall, ← eq_replicate_of_all List.all_takeWhile,
      List.takeWhile_append_dropWhile]
  · cases h

/-! ### The integer side -/

variable (block : DigitBlock)

theorem filter_writePositions (n : Nat) :
    (block.writePositions n).filter (· != ',')
      = List.replicate (n - block.minInteger.toNat) '#'
        ++ List.replicate (min n block.minInteger.toNat) '0' := by
  induction n with
  | zero => simp [writePositions]
  | succ n ih =>
      have hcomma : (if block.grouping && 0 < n && n % 3 == 0 then [','] else []).filter (· != ',') = [] := by
        split <;> rfl
      rw [writePositions, List.cons_append, List.filter_cons, List.filter_append, hcomma, ih, List.nil_append]
      by_cases hn : n < block.minInteger.toNat
      · have hzero : n + 1 - block.minInteger.toNat = 0 := by omega
        have hprev : n - block.minInteger.toNat = 0 := by omega
        have hmin : min (n + 1) block.minInteger.toNat = min n block.minInteger.toNat + 1 := by omega
        rw [if_pos hn, hzero, hprev, hmin, List.replicate_succ]
        rfl
      · have hsucc : n + 1 - block.minInteger.toNat = n - block.minInteger.toNat + 1 := by omega
        have hmin : min (n + 1) block.minInteger.toNat = min n block.minInteger.toNat := by omega
        rw [if_neg hn, hsucc, hmin, List.replicate_succ]
        rfl

theorem comma_mem_writePositions (n : Nat) :
    ',' ∈ block.writePositions n ↔ block.grouping = true ∧ 4 ≤ n := by
  induction n with
  | zero => simp [writePositions]
  | succ n ih =>
      have hhead : ',' ≠ (if n < block.minInteger.toNat then '0' else '#') := by
        split <;> decide
      simp only [writePositions, List.cons_append, List.mem_cons, hhead, false_or, List.mem_append, ih]
      cases block.grouping with
      | false => simp
      | true =>
          by_cases hn : 0 < n ∧ n % 3 = 0
          · simp [hn.1, hn.2]
            omega
          · have hfalse : (decide (0 < n) && n % 3 == 0) = false := by
              simpa using hn
            simp [hfalse]
            omega

theorem minInteger_le_width : block.minInteger.toNat ≤ block.width := by
  have hle : block.minInteger ≤ block.maxInteger.getD block.minInteger := by
    cases hmax : block.maxInteger with
    | none => exact UInt32.le_refl _
    | some n => exact block.minInteger_le n hmax
  have hnat := UInt32.le_iff_toNat_le.1 hle
  unfold width
  dsimp only
  split
  · omega
  · exact hnat

theorem mem_writePositions {n : Nat} {c : Char} (hc : c ∈ block.writePositions n) :
    c = '0' ∨ c = '#' ∨ c = ',' := by
  induction n with
  | zero => cases hc
  | succ n ih =>
      simp only [writePositions, List.cons_append, List.mem_cons, List.mem_append] at hc
      rcases hc with hc | hc | hc
      · split at hc
        · exact .inl hc
        · exact .inr (.inl hc)
      · split at hc
        · exact .inr (.inr (List.mem_singleton.1 hc))
        · cases hc
      · exact ih hc

/-! ### The two sides of the point -/

theorem ofInteger?_eq_some_iff {grouping : Bool} {digits : List Char} {block : DigitBlock} :
    ofInteger? grouping digits = some block ↔ ∃ optional required,
      digits = List.replicate optional '#' ++ List.replicate required '0'
        ∧ block.minInteger = leastDigits required
        ∧ block.maxInteger = (if 0 < optional && !grouping
            then some (max (.ofNat (optional + required)) (leastDigits required)) else none)
        ∧ block.minDecimal = 0 ∧ block.maxDecimal = some 0 ∧ block.grouping = grouping := by
  constructor
  · intro h
    obtain ⟨⟨optional, required⟩, hruns, heq⟩ := Option.bind_eq_some_iff.1 h
    cases heq
    have hdigits := eq_replicate_of_runs? hruns
    refine ⟨optional, required, hdigits, rfl, ?_, rfl, rfl, rfl⟩
    simp [hdigits]
  · rintro ⟨optional, required, rfl, hminInteger, hmaxInteger, hminDecimal, hmaxDecimal, hgrouping⟩
    have hruns := runs?_replicate (by decide : '#' ≠ '0') optional required
    refine Option.bind_eq_some_iff.2 ⟨(optional, required), hruns, congrArg some ?_⟩
    refine DigitBlock.ext hminInteger.symm ?_ hminDecimal.symm hmaxDecimal.symm hgrouping.symm
    simp [hmaxInteger]

theorem withDecimals?_eq_some_iff {block block' : DigitBlock} {digits : List Char} :
    block.withDecimals? digits = some block' ↔ ∃ required optional,
      digits = List.replicate required '0' ++ List.replicate optional '#'
        ∧ block'.minDecimal = leastDigits required
        ∧ block'.maxDecimal = some (max (.ofNat (required + optional)) (leastDigits required))
        ∧ block'.minInteger = block.minInteger ∧ block'.maxInteger = block.maxInteger
        ∧ block'.grouping = block.grouping := by
  constructor
  · intro h
    obtain ⟨⟨required, optional⟩, hruns, heq⟩ := Option.bind_eq_some_iff.1 h
    cases heq
    have hdigits := eq_replicate_of_runs? hruns
    refine ⟨required, optional, hdigits, rfl, ?_, rfl, rfl, rfl⟩
    simp [hdigits]
  · rintro ⟨required, optional, rfl, hminDecimal, hmaxDecimal, hminInteger, hmaxInteger, hgrouping⟩
    have hruns := runs?_replicate (by decide : '0' ≠ '#') required optional
    refine Option.bind_eq_some_iff.2 ⟨(required, optional), hruns, congrArg some ?_⟩
    refine DigitBlock.ext hminInteger.symm hmaxInteger.symm hminDecimal.symm ?_ hgrouping.symm
    simp [hmaxDecimal]

/-! ### Normal forms -/

/-- The number of decimals that a block may show. Without a greatest number it is the least one. -/
def mostDecimals : UInt32 := block.maxDecimal.getD block.minDecimal

theorem minDecimal_le_mostDecimals : block.minDecimal ≤ block.mostDecimals := by
  cases hmax : block.maxDecimal with
  | none =>
      rw [mostDecimals, hmax]
      exact UInt32.le_refl _
  | some n =>
      rw [mostDecimals, hmax]
      exact block.minDecimal_le n hmax

/-- The block that the text of a block stands for. A text shows a greatest number of integer digits only
above the least one and without grouping, and at least one decimal behind a point. -/
def normal : DigitBlock where
  minInteger := block.minInteger
  maxInteger := if block.grouping then none else block.maxInteger.filter (block.minInteger < ·)
  minDecimal := if block.mostDecimals = 0 then 0 else max block.minDecimal 1
  maxDecimal := some block.mostDecimals
  grouping := block.grouping
  one_le_minInteger := block.one_le_minInteger
  minInteger_le := by
    intro n hn
    split at hn
    · cases hn
    · exact block.minInteger_le n (Option.mem_filter_iff.1 hn).1
  minDecimal_le := by
    rintro n hn
    cases hn
    split
    · next hzero =>
      rw [hzero]
      exact UInt32.le_refl 0
    · next hne =>
      have hle := UInt32.le_iff_toNat_le.1 block.minDecimal_le_mostDecimals
      have hpos : block.mostDecimals.toNat ≠ 0 := fun h => hne (UInt32.toNat_inj.1 h)
      rw [UInt32.le_iff_toNat_le, toNat_max, UInt32.toNat_one]
      omega

theorem leastDigits_toNat (n : UInt32) : leastDigits n.toNat = max n 1 := by
  rw [leastDigits, UInt32.ofNat_toNat]

theorem leastDigits_minInteger : leastDigits block.minInteger.toNat = block.minInteger := by
  rw [leastDigits_toNat, max_eq_left block.one_le_minInteger]

theorem filter_write :
    block.write.filter (· != ',')
      = List.replicate (block.width - block.minInteger.toNat) '#'
        ++ List.replicate block.minInteger.toNat '0'
        ++ (if 0 < block.mostDecimals.toNat then
            '.' :: List.replicate block.minDecimal.toNat '0'
              ++ List.replicate (block.mostDecimals.toNat - block.minDecimal.toNat) '#'
          else []) := by
  have hwidth := block.minInteger_le_width
  rw [write, List.filter_append, filter_writePositions, Nat.min_eq_right hwidth]
  refine congrArg _ ?_
  unfold mostDecimals
  split
  · simp
  · rfl

theorem contains_comma_write : block.write.contains ',' = block.grouping := by
  have hdecimals : ',' ∉ (if 0 < (block.maxDecimal.getD block.minDecimal).toNat then
      '.' :: List.replicate block.minDecimal.toNat '0'
        ++ List.replicate ((block.maxDecimal.getD block.minDecimal).toNat - block.minDecimal.toNat) '#'
      else []) := by
    split
    · simp [List.mem_replicate]
    · exact List.not_mem_nil
  have hmem : ',' ∈ block.write ↔ block.grouping = true := by
    rw [write, List.mem_append, or_iff_left hdecimals, comma_mem_writePositions]
    refine ⟨And.left, fun h => ⟨h, ?_⟩⟩
    simp only [width, h, if_true]
    omega
  rw [Bool.eq_iff_iff, List.contains_iff_mem, hmem]

theorem ofInteger?_write :
    ∃ whole, ofInteger? block.grouping (List.replicate (block.width - block.minInteger.toNat) '#'
        ++ List.replicate block.minInteger.toNat '0') = some whole
      ∧ whole.minInteger = block.minInteger ∧ whole.maxInteger = block.normal.maxInteger
      ∧ whole.minDecimal = 0 ∧ whole.maxDecimal = some 0 ∧ whole.grouping = block.grouping := by
  let whole : DigitBlock := { block.normal with
    minDecimal := 0
    maxDecimal := some 0
    minDecimal_le := fun _ hn => Option.mem_some.1 hn ▸ UInt32.le_refl 0 }
  refine ⟨whole, ofInteger?_eq_some_iff.2 ⟨_, _, rfl, ?_, ?_, rfl, rfl, rfl⟩, rfl, rfl, rfl, rfl, rfl⟩
  · rw [leastDigits_minInteger]
    rfl
  · have hwidth := block.minInteger_le_width
    rw [leastDigits_minInteger, Nat.sub_add_cancel hwidth]
    change (if block.grouping then none else block.maxInteger.filter (block.minInteger < ·)) = _
    cases hgrouping : block.grouping with
    | true => simp
    | false =>
        have hdigits : block.width = (block.maxInteger.getD block.minInteger).toNat := by
          simp [width, hgrouping]
        rw [hdigits, UInt32.ofNat_toNat]
        cases hmax : block.maxInteger with
        | none => simp
        | some n =>
            have hle := block.minInteger_le n hmax
            by_cases hlt : block.minInteger < n
            · have hnat := UInt32.lt_iff_toNat_lt.1 hlt
              simp [Option.filter, hlt, max_eq_left hle]
              omega
            · have hnat := mt UInt32.lt_iff_toNat_lt.2 hlt
              simp [Option.filter, hlt]
              omega

theorem read_write : read block.write = .ok block.normal := by
  have hinteger : ∀ c ∈ List.replicate (block.width - block.minInteger.toNat) '#'
      ++ List.replicate block.minInteger.toNat '0', (c != '.') = true := by
    intro c hc
    rcases List.mem_append.1 hc with hc | hc <;> rw [List.eq_of_mem_replicate hc] <;> rfl
  obtain ⟨whole, hwhole, hminInteger, hmaxInteger, hminDecimal, hmaxDecimal, hgrouping⟩ :=
    block.ofInteger?_write
  have hplaceholders : ofPlaceholders? block.write = some block.normal := by
    simp only [ofPlaceholders?, filter_write, contains_comma_write]
    by_cases hmost : 0 < block.mostDecimals.toNat
    · have hne : block.mostDecimals ≠ 0 := by
        intro hzero
        rw [hzero] at hmost
        cases hmost
      have hpoint : ∀ rest : List Char, Stops (· != '.') ('.' :: rest) := fun rest => stops_cons rfl rest
      have hle := UInt32.le_iff_toNat_le.1 block.minDecimal_le_mostDecimals
      rw [if_pos hmost, List.cons_append, takeWhile_append_of_stops hinteger (hpoint _),
        dropWhile_append_of_stops hinteger (hpoint _), hwhole]
      refine withDecimals?_eq_some_iff.2 ⟨_, _, rfl, ?_, ?_, hminInteger.symm, hmaxInteger.symm,
        hgrouping.symm⟩
      · rw [leastDigits_toNat]
        exact if_neg hne
      · have hmin : max block.minDecimal 1 ≤ block.mostDecimals := by
          rw [UInt32.le_iff_toNat_le, toNat_max, UInt32.toNat_one]
          omega
        rw [leastDigits_toNat, Nat.add_sub_cancel' hle, UInt32.ofNat_toNat, max_eq_left hmin]
        rfl
    · have hzero : block.mostDecimals = 0 := UInt32.toNat_inj.1 (by
        rw [UInt32.toNat_zero]
        omega)
      rw [if_neg hmost, takeWhile_append_of_stops hinteger (stops_nil _),
        dropWhile_append_of_stops hinteger (stops_nil _), hwhole]
      refine congrArg some (DigitBlock.ext hminInteger hmaxInteger ?_ ?_ hgrouping)
      · exact hminDecimal.trans (if_pos hzero).symm
      · exact hmaxDecimal.trans (congrArg some hzero.symm)
  rw [read, hplaceholders]

theorem isPlaceholder_of_mem_write {c : Char} (hc : c ∈ block.write) : isPlaceholder c = true := by
  rcases List.mem_append.1 hc with hc | hc
  · rcases block.mem_writePositions hc with rfl | rfl | rfl <;> rfl
  · split at hc
    · simp only [List.cons_append, List.mem_cons, List.mem_append, List.mem_replicate] at hc
      rcases hc with rfl | ⟨-, rfl⟩ | ⟨-, rfl⟩ <;> rfl
    · cases hc

theorem write_ne_nil : block.write ≠ [] := by
  have hone := UInt32.le_iff_toNat_le.1 block.one_le_minInteger
  rw [UInt32.toNat_one] at hone
  have hwidth := block.minInteger_le_width
  obtain ⟨n, hn⟩ : ∃ n, block.width = n + 1 := ⟨block.width - 1, by omega⟩
  rw [write, hn, writePositions]
  simp

/-! ### Blocks read from a text -/

variable {block}

theorem read_integer_digits {optional required : Nat}
    (h : ofInteger? false (.replicate optional '#' ++ .replicate required '0') = some block) :
    read (.replicate optional '#' ++ .replicate required '0') = .ok block := by
  have hdigits : ∀ c ∈ List.replicate optional '#' ++ List.replicate required '0', c = '#' ∨ c = '0' := by
    intro c hc
    exact (List.mem_append.1 hc).imp List.eq_of_mem_replicate List.eq_of_mem_replicate
  generalize List.replicate optional '#' ++ List.replicate required '0' = digits at h hdigits ⊢
  have hcomma : ∀ c ∈ digits, (c != ',') = true := by
    intro c hc
    rcases hdigits c hc with rfl | rfl <;> rfl
  have hpoint : ∀ c ∈ digits, (c != '.') = true := by
    intro c hc
    rcases hdigits c hc with rfl | rfl <;> rfl
  have hgrouping : digits.contains ',' = false := by
    rw [List.contains_eq_mem, decide_eq_false_iff_not]
    exact fun hmem => bne_iff_ne.1 (hcomma ',' hmem) rfl
  have htake := takeWhile_append_of_stops hpoint (stops_nil _)
  have hdrop := dropWhile_append_of_stops hpoint (stops_nil _)
  rw [List.append_nil] at htake hdrop
  have hplaceholders : ofPlaceholders? digits = some block := by
    simp only [ofPlaceholders?, hgrouping, List.filter_eq_self.2 hcomma, htake, hdrop, h]
    rfl
  rw [read, hplaceholders]

/-- What the digits in front of the point and the text behind it tell of a block. -/
theorem of_read {source : List Char} (h : read source = .ok block) :
    ∃ optional required : Nat, optional + required ≤ source.length
      ∧ block.minInteger = leastDigits required
      ∧ block.maxInteger = (if 0 < optional && !block.grouping
          then some (max (.ofNat (optional + required)) (leastDigits required)) else none)
      ∧ (block.minDecimal = 0 ∧ block.maxDecimal = some 0
        ∨ 1 ≤ block.minDecimal ∧ ∃ n, block.maxDecimal = some n) := by
  have hplaceholders : ofPlaceholders? source = some block := by
    unfold read at h
    split at h
    · next hsome =>
      cases h
      exact hsome
    · cases h
  obtain ⟨whole, hwhole, hdecimals⟩ := Option.bind_eq_some_iff.1 hplaceholders
  obtain ⟨optional, required, hdigits, hminInteger, hmaxInteger, hminDecimal, hmaxDecimal, hgrouping⟩ :=
    ofInteger?_eq_some_iff.1 hwhole
  have hlength : optional + required ≤ source.length := by
    have hle := ((List.takeWhile_sublist (· != '.')).trans
      (List.filter_sublist (p := (· != ',')) (l := source))).length_le
    rw [hdigits] at hle
    simpa using hle
  refine ⟨optional, required, hlength, ?_⟩
  split at hdecimals
  · cases hdecimals
    rw [hgrouping]
    exact ⟨hminInteger, hmaxInteger, .inl ⟨hminDecimal, hmaxDecimal⟩⟩
  · obtain ⟨zeros, hashes, -, hleast, hmost, hminInteger', hmaxInteger', hgrouping'⟩ :=
      withDecimals?_eq_some_iff.1 hdecimals
    rw [hminInteger', hmaxInteger', hgrouping', hgrouping]
    refine ⟨hminInteger, hmaxInteger, .inr ⟨?_, _, hmost⟩⟩
    rw [hleast]
    exact one_le_leastDigits zeros

/-- A block that was read is its own normal form, unless its greatest number of integer digits is the least
one. -/
theorem normal_of_read {source : List Char} (h : read source = .ok block)
    (hmax : block.maxInteger ≠ some block.minInteger) : block.normal = block := by
  obtain ⟨optional, required, -, hminInteger, hmaxInteger, hdecimals⟩ := of_read h
  refine DigitBlock.ext rfl ?_ ?_ ?_ rfl
  · change (if block.grouping then none else block.maxInteger.filter (block.minInteger < ·)) = _
    cases hgrouping : block.grouping with
    | true => simp [hmaxInteger, hgrouping]
    | false =>
        cases hsome : block.maxInteger with
        | none => rfl
        | some n =>
            have hle := block.minInteger_le n hsome
            have hne : block.minInteger ≠ n := by
              rintro rfl
              exact hmax hsome
            simp [Option.filter, UInt32.lt_of_le_of_ne hle hne]
  · change (if block.mostDecimals = 0 then 0 else max block.minDecimal 1) = _
    rcases hdecimals with ⟨hzero, hnone⟩ | ⟨hone, n, hsome⟩
    · simp [mostDecimals, hnone, hzero]
    · have hne : block.mostDecimals ≠ 0 := by
        intro hzero
        have hle := UInt32.le_iff_toNat_le.1 (UInt32.le_trans hone block.minDecimal_le_mostDecimals)
        rw [hzero] at hle
        simp at hle
      rw [if_neg hne, max_eq_left hone]
  · change some block.mostDecimals = _
    rcases hdecimals with ⟨-, hsome⟩ | ⟨-, n, hsome⟩
    · rw [mostDecimals, hsome, Option.getD_some]
    · rw [mostDecimals, hsome, Option.getD_some]

/-- A greatest number of digits that a count can hold is above the least one, but for a single optional
digit. -/
theorem maxInteger_ne_minInteger_of_read {source : List Char} (h : read source = .ok block)
    (hlength : source.length < 2 ^ 32) (hone : block.maxInteger ≠ some 1) :
    block.maxInteger ≠ some block.minInteger := by
  obtain ⟨optional, required, hle, hminInteger, hmaxInteger, -⟩ := of_read h
  intro heq
  rw [heq] at hmaxInteger hone
  split at hmaxInteger
  · next hoptional =>
    have hpos : 0 < optional := by
      simp only [Bool.and_eq_true, decide_eq_true_eq] at hoptional
      exact hoptional.1
    have hne : block.minInteger.toNat ≠ 1 := fun h => hone (congrArg some (UInt32.toNat_inj.1 h))
    have hnat := congrArg UInt32.toNat (Option.some.inj hmaxInteger)
    rw [hminInteger] at hne hnat
    simp only [leastDigits, toNat_max, toNat_ofNat_of_lt (by omega : required < 2 ^ 32),
      toNat_ofNat_of_lt (by omega : optional + required < 2 ^ 32), UInt32.toNat_one] at hne hnat
    omega
  · cases hmaxInteger

end CellFormat.DigitBlock
