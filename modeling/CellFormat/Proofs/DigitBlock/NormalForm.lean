import CellFormat.Proofs.DigitBlock
/-!
# What a written block says

The text of a digit block shows some of its counts and stands for the others by a rule, so a written block is read
as a normal form of it. With grouping, commas cut the text of the integer side into threes from the right. There are
always enough positions for one comma, since a text without a comma would be read as a block without grouping.
-/

namespace CellFormat.DigitBlock

variable (block : DigitBlock)

/-! ### Commas -/

/-- The commas stand in front of every three positions, counted from the units digit. What is in front of the first
comma is what is left over. -/
theorem splitOn_writePositions (hgrouping : block.grouping = true) (n : Nat) :
    ∃ lead threes, (block.writePositions (n + 1)).splitOn ',' = lead :: threes ∧ lead.length = n % 3 + 1
      ∧ ∀ three ∈ threes, three.length = 3 := by
  have hdigit : ∀ n, ((if n < block.minInteger.toNat then '0' else '#') == ',') = false := by
    intro n
    split <;> rfl
  induction n with
  | zero =>
      refine ⟨[if 0 < block.minInteger.toNat then '0' else '#'], [], ?_, rfl, List.forall_mem_nil _⟩
      rw [writePositions, writePositions]
      simp [List.splitOn_cons_eq_if_modifyHead, hdigit]
  | succ n ih =>
      obtain ⟨lead, threes, hsplit, hlead, hthrees⟩ := ih
      rw [writePositions, List.cons_append, List.splitOn_cons_eq_if_modifyHead, hdigit, hgrouping]
      by_cases hn : (n + 1) % 3 = 0
      · -- A comma: the positions behind it are the next three.
        refine ⟨[if n + 1 < block.minInteger.toNat then '0' else '#'], lead :: threes, ?_, ?_, ?_⟩
        · simp [hn, List.splitOn_cons_eq_if_modifyHead, hsplit]
        · rw [hn, List.length_singleton]
        · refine List.forall_mem_cons.2 ⟨?_, hthrees⟩
          omega
      · refine ⟨(if n + 1 < block.minInteger.toNat then '0' else '#') :: lead, threes, ?_, ?_, hthrees⟩
        · simp [hn, hsplit]
        · rw [List.length_cons, hlead]
          omega

def integerText : List Char := block.write.takeWhile (· != '.')

theorem integerText_eq : block.integerText = block.writePositions block.width := by
  refine takeWhile_append_of_stops (fun c hc => ?_) ?_
  · rcases block.mem_writePositions hc with rfl | rfl | rfl <;> rfl
  · split
    · exact stops_cons rfl _
    · exact stops_nil _

theorem length_filter_integerText : (block.integerText.filter (· != ',')).length = block.width := by
  have hwidth := block.minInteger_le_width
  rw [integerText_eq, filter_writePositions, List.length_append, List.length_replicate, List.length_replicate]
  omega

theorem four_le_width (hgrouping : block.grouping = true) : 4 ≤ block.width := by
  simp only [width, hgrouping, if_true]
  omega

/-- With grouping the integer side is cut into threes, behind one to three positions that lead. -/
theorem splitOn_integerText (hgrouping : block.grouping = true) :
    ∃ lead threes, block.integerText.splitOn ',' = lead :: threes ∧ 1 ≤ lead.length ∧ lead.length ≤ 3
      ∧ ∀ three ∈ threes, three.length = 3 := by
  have hfour := block.four_le_width hgrouping
  obtain ⟨n, hn⟩ : ∃ n, block.width = n + 1 := ⟨block.width - 1, by omega⟩
  obtain ⟨lead, threes, hsplit, hlead, hthrees⟩ := block.splitOn_writePositions hgrouping n
  refine ⟨lead, threes, ?_, ?_, ?_, hthrees⟩
  · rw [integerText_eq, hn, hsplit]
  · omega
  · omega

/-! ### The normal form -/

theorem mostDecimals_eq_max : block.mostDecimals = max (block.maxDecimal.getD block.minDecimal) block.minDecimal :=
  (max_eq_left block.minDecimal_le_mostDecimals).symm

theorem maxInteger_normal_eq_some_iff {n : UInt32} :
    block.normal.maxInteger = some n
      ↔ block.grouping = false ∧ block.maxInteger = some n ∧ block.minInteger < n := by
  change (if block.grouping then none else block.maxInteger.filter (block.minInteger < ·)) = some n ↔ _
  cases block.grouping <;> simp [Option.filter_eq_some_iff]

theorem decimals_normal :
    (block.normal.minDecimal, block.normal.maxDecimal)
      = if block.mostDecimals = 0 then (0, some 0) else (max block.minDecimal 1, some block.mostDecimals) := by
  change ((if block.mostDecimals = 0 then 0 else max block.minDecimal 1), some block.mostDecimals) = _
  split
  · next hzero => rw [hzero]
  · rfl

/-- What is written for a block is read as a block of the same grouping and the same least number of integer digits.
The greatest number is kept where it is above the least one and there is no grouping. Decimals are kept but for an
optional first one, which becomes a required one. With grouping there are at least four positions in front of the
point, in threes behind one to three that lead; without it there is no comma. -/
theorem read_write_eq_normal :
    (∃ q most, most = max (block.maxDecimal.getD block.minDecimal) block.minDecimal ∧ read block.write = .ok q
        ∧ q.grouping = block.grouping ∧ q.minInteger = block.minInteger
        ∧ (∀ n, q.maxInteger = some n
          ↔ block.grouping = false ∧ block.maxInteger = some n ∧ block.minInteger < n)
        ∧ (q.minDecimal, q.maxDecimal) = if most = 0 then (0, some 0) else (max block.minDecimal 1, some most))
      ∧ (block.grouping = true → 4 ≤ (block.integerText.filter (· != ',')).length
        ∧ ∃ lead threes, block.integerText.splitOn ',' = lead :: threes ∧ 1 ≤ lead.length ∧ lead.length ≤ 3
          ∧ ∀ three ∈ threes, three.length = 3)
      ∧ (block.grouping = false → ',' ∉ block.write) := by
  refine ⟨⟨block.normal, block.mostDecimals, block.mostDecimals_eq_max, block.read_write, rfl, rfl,
    fun n => block.maxInteger_normal_eq_some_iff, block.decimals_normal⟩, fun hgrouping => ⟨?_, ?_⟩, fun hplain => ?_⟩
  · rw [length_filter_integerText]
    exact block.four_le_width hgrouping
  · exact block.splitOn_integerText hgrouping
  · have hcomma := block.contains_comma_write
    rw [hplain] at hcomma
    rwa [List.contains_eq_mem, decide_eq_false_iff_not] at hcomma

end CellFormat.DigitBlock
