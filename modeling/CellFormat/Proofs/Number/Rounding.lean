import CellFormat.Number.Rounding
import Mathlib.Tactic.Ring
/-!
# Exact values round to themselves

A quotient that is a binary64 value has the rank of that value, whichever numerator and denominator it is
written with. So a decimal number that is exactly a value rounds to it, and zeros at the end of the digits of
a decimal change nothing.
-/

namespace CellFormat

/-! ### Quotients -/

theorem roundDiv_mul_right (num den : Nat) {k : Nat} (hk : 0 < k) :
    roundDiv (num * k) (den * k) = roundDiv num den := by
  have hmod : 2 * (num * k % (den * k)) = 2 * (num % den) * k := by
    rw [Nat.mul_mod_mul_right, Nat.mul_assoc]
  have hlt : den * k < 2 * (num % den) * k ↔ den < 2 * (num % den) :=
    Nat.mul_lt_mul_right hk
  have heq : 2 * (num % den) * k = den * k ↔ 2 * (num % den) = den :=
    Nat.mul_left_inj (Nat.ne_of_gt hk)
  simp only [roundDiv, hmod, Nat.mul_div_mul_right _ _ hk, hlt, beq_eq_decide, heq]

theorem roundDiv_mul_cancel (quotient : Nat) {den : Nat} (hden : 0 < den) :
    roundDiv (quotient * den) den = quotient := by
  simp [roundDiv, Nat.mul_div_cancel _ hden, Nat.ne_of_lt hden]

namespace Binary64

theorem nearestRank_mul_right (num den : Nat) {k : Nat} (hk : 0 < k) :
    nearestRank (num * k) (den * k) = nearestRank num den := by
  have hscaled : num * k * unitsPerOne = num * unitsPerOne * k := Nat.mul_right_comm ..
  simp only [nearestRank, hscaled, Nat.mul_div_mul_right _ _ hk]
  rw [Nat.mul_right_comm den, roundDiv_mul_right _ _ hk]

/-! ### The binade of a value -/

variable {x : Binary64}

theorem units_of_rank_lt (h : x.rank < binadeSize) : x.units = x.rank := by
  have hexponent : x.exponent = 0 := by
    rw [exponent, Nat.div_eq_of_lt h]
  rw [units, hexponent, significand, if_pos h]
  exact Nat.mul_one _

theorem log2_units_of_rank_lt (h : x.rank < binadeSize) : x.units.log2 - 52 = 0 := by
  rw [units_of_rank_lt h]
  by_cases hzero : x.rank = 0
  · rw [hzero, Nat.log2_zero]
  · have hlog : x.rank.log2 < 52 := (Nat.log2_lt hzero).2 h
    omega

theorem significand_of_le_rank (h : binadeSize ≤ x.rank) :
    x.significand = binadeSize + x.rank % binadeSize := by
  rw [significand, if_neg (Nat.not_lt.2 h)]

theorem le_significand (h : binadeSize ≤ x.rank) : binadeSize ≤ x.significand := by
  rw [significand_of_le_rank h]
  exact Nat.le_add_right ..

theorem significand_lt (x : Binary64) : x.significand < 2 * binadeSize := by
  unfold significand
  split
  · omega
  · have hmod : x.rank % binadeSize < binadeSize := Nat.mod_lt _ (by decide)
    omega

theorem log2_units_of_le_rank (h : binadeSize ≤ x.rank) : x.units.log2 = 52 + x.exponent := by
  have hpos : 0 < Nat.pow 2 x.exponent := Nat.two_pow_pos _
  have hlower : 2 ^ (52 + x.exponent) ≤ x.units := by
    rw [Nat.pow_add]
    exact Nat.mul_le_mul_right _ (le_significand h)
  have hupper : x.units < 2 ^ (52 + x.exponent + 1) := by
    rw [show 52 + x.exponent + 1 = 53 + x.exponent by omega, Nat.pow_add]
    exact Nat.mul_lt_mul_of_pos_right x.significand_lt hpos
  have hne : x.units ≠ 0 := Nat.ne_of_gt (Nat.lt_of_lt_of_le (Nat.two_pow_pos _) hlower)
  exact (Nat.log2_eq_iff hne).2 ⟨hlower, hupper⟩

theorem rank_of_le_rank (h : binadeSize ≤ x.rank) :
    x.exponent * binadeSize + x.significand = x.rank := by
  rw [significand_of_le_rank h, exponent]
  have hdiv := Nat.div_add_mod x.rank binadeSize
  have hpos : 1 ≤ x.rank / binadeSize := (Nat.one_le_div_iff (by decide)).2 h
  have hmul := Nat.sub_add_cancel hpos
  calc (x.rank / binadeSize - 1) * binadeSize + (binadeSize + x.rank % binadeSize)
      = (x.rank / binadeSize - 1 + 1) * binadeSize + x.rank % binadeSize := by ring
    _ = binadeSize * (x.rank / binadeSize) + x.rank % binadeSize := by rw [hmul, Nat.mul_comm]
    _ = x.rank := hdiv

theorem nearestRank_eq_rank {num den : Nat} (hden : 0 < den) (h : num * unitsPerOne = x.units * den) :
    nearestRank num den = x.rank := by
  simp only [nearestRank, h, Nat.mul_div_cancel _ hden]
  by_cases hrank : x.rank < binadeSize
  · rw [log2_units_of_rank_lt hrank, units_of_rank_lt hrank, Nat.zero_mul, Nat.zero_add]
    rw [show den * Nat.pow 2 0 = den from Nat.mul_one den, roundDiv_mul_cancel _ hden]
  · have hle : binadeSize ≤ x.rank := Nat.not_lt.1 hrank
    have hpos : 0 < Nat.pow 2 x.exponent := Nat.two_pow_pos _
    rw [log2_units_of_le_rank hle, Nat.add_sub_cancel_left, units,
      Nat.mul_right_comm, Nat.mul_assoc, roundDiv_mul_cancel _ (Nat.mul_pos hden hpos), rank_of_le_rank hle]

/-! ### Decimals -/

theorem two_pow_le_ten_pow (n : Nat) : 2 ^ (3 * n) ≤ 10 ^ n := by
  rw [Nat.pow_mul]
  exact Nat.pow_le_pow_left (by decide) n

theorem log2_mul_two_pow {n : Nat} (hn : n ≠ 0) (k : Nat) : (n * Nat.pow 2 k).log2 = n.log2 + k := by
  have hpos : 0 < 2 ^ k := Nat.two_pow_pos k
  refine (Nat.log2_eq_iff (Nat.mul_ne_zero hn (Nat.ne_of_gt hpos))).2 ⟨?_, ?_⟩
  · rw [Nat.pow_add]
    exact Nat.mul_le_mul_right _ (Nat.log2_self_le hn)
  · rw [Nat.add_right_comm, Nat.pow_add]
    exact Nat.mul_lt_mul_of_pos_right Nat.lt_log2_self hpos

/-- The exponent is named here so that no later step tries to evaluate the power. -/
theorem unitsPerOne_eq_two_pow : ∃ k, unitsPerOne = Nat.pow 2 k ∧ k = 1074 := by
  unfold unitsPerOne
  exact ⟨_, rfl, rfl⟩

theorem unitsPerOne_pos : 0 < unitsPerOne := by
  obtain ⟨k, hk, _⟩ := unitsPerOne_eq_two_pow
  rw [hk]
  exact Nat.two_pow_pos k

theorem log2_mul_unitsPerOne {n : Nat} (hn : n ≠ 0) : (n * unitsPerOne).log2 = n.log2 + 1074 := by
  obtain ⟨k, hk, hexponent⟩ := unitsPerOne_eq_two_pow
  rw [hk, log2_mul_two_pow hn, hexponent]

theorem units_ne_zero (h : x.rank ≠ 0) : x.units ≠ 0 := by
  have hpos : 0 < Nat.pow 2 x.exponent := Nat.two_pow_pos _
  refine Nat.ne_of_gt (Nat.mul_pos ?_ hpos)
  unfold significand
  split
  · exact Nat.pos_of_ne_zero h
  · exact Nat.add_pos_left (by decide) _

theorem units_zero : zero.units = 0 := by decide

theorem units_eq_zero_iff : x.units = 0 ↔ x.isZero = true := by
  rw [isZero, beq_iff_eq]
  constructor
  · intro h
    by_contra hrank
    exact units_ne_zero hrank h
  · intro h
    rw [units_of_rank_lt (by rw [h]; decide), h]

theorem nearestRank_zero {den : Nat} (hden : 0 < den) : nearestRank 0 den = 0 :=
  @nearestRank_eq_rank zero 0 den hden (by rw [units_zero, Nat.zero_mul, Nat.zero_mul])

theorem ofDecimal_natCast (negative : Bool) (digits : Nat) {places : Nat} (hplaces : places ≤ 400) :
    ofDecimal negative digits places = saturate negative (nearestRank (digits * 10 ^ places) 1) := by
  refine congrArg (saturate negative) ?_
  split
  · next hdigits => rw [hdigits, Nat.zero_mul, nearestRank_zero Nat.one_pos]
  · exact if_neg (Nat.not_lt.2 hplaces)

theorem ofDecimal_negSucc (negative : Bool) {digits places : Nat}
    (hplaces : 3 * (places + 1) ≤ digits.log2 + 1101) :
    ofDecimal negative digits (.negSucc places)
      = saturate negative (nearestRank digits (10 ^ (places + 1))) := by
  refine congrArg (saturate negative) ?_
  split
  · next hdigits => rw [hdigits, nearestRank_zero (Nat.pow_pos (by decide))]
  · exact if_neg (Nat.not_lt.2 hplaces)

theorem exponent_le (hfinite : x.isFinite = true) : x.exponent ≤ 2045 := by
  have hrank : x.rank < infinityRank := of_decide_eq_true hfinite
  have hdiv : x.rank / binadeSize < 2047 := Nat.div_lt_of_lt_mul hrank
  rw [exponent]
  omega

theorem log2_units_lt (hfinite : x.isFinite = true) : x.units.log2 < 2098 := by
  have hexponent := exponent_le hfinite
  by_cases hrank : x.rank < binadeSize
  · have hlog := log2_units_of_rank_lt hrank
    omega
  · rw [log2_units_of_le_rank (Nat.not_lt.1 hrank)]
    omega

theorem saturate_rank (hfinite : x.isFinite = true) : saturate x.negative x.rank = x := by
  have hle : x.rank ≤ infinityRank := Nat.le_of_lt (of_decide_eq_true hfinite)
  obtain ⟨negative, rank, hrank⟩ := x
  simp only [saturate, Nat.min_eq_left hle]

/-- A whole number that is the magnitude of a finite value is not so long that it is settled by its length. -/
theorem places_le_of_units {digits places : Nat} (hfinite : x.isFinite = true)
    (h : digits * 10 ^ places * unitsPerOne = x.units) (hdigits : digits ≠ 0) : places ≤ 400 := by
  have hne : digits * 10 ^ places ≠ 0 := Nat.mul_ne_zero hdigits (Nat.ne_of_gt (Nat.pow_pos (by decide)))
  have hlog := log2_units_lt hfinite
  rw [← h, log2_mul_unitsPerOne hne] at hlog
  have hpow : 2 ^ (3 * places) ≤ digits * 10 ^ places :=
    Nat.le_trans (two_pow_le_ten_pow places) (Nat.le_mul_of_pos_left _ (Nat.pos_of_ne_zero hdigits))
  have hplaces := (Nat.le_log2 hne).2 hpow
  omega

/-- A fraction that is the magnitude of a value other than zero is not so small that it is settled by its
length. -/
theorem places_le_of_units_mul {digits places : Nat} (hdigits : digits ≠ 0)
    (h : digits * unitsPerOne = x.units * 10 ^ places) : 3 * places ≤ digits.log2 + 1074 := by
  have hne : digits * unitsPerOne ≠ 0 := Nat.mul_ne_zero hdigits (Nat.ne_of_gt unitsPerOne_pos)
  have hunits : 0 < x.units := by
    refine Nat.pos_of_ne_zero fun hzero => hne ?_
    rw [h, hzero, Nat.zero_mul]
  rw [← log2_mul_unitsPerOne hdigits, Nat.le_log2 hne, h]
  exact Nat.le_trans (two_pow_le_ten_pow places) (Nat.le_mul_of_pos_left _ hunits)

theorem ofDecimal_eq {digits up down : Nat} (hfinite : x.isFinite = true) (hdigits : digits ≠ 0)
    (h : digits * 10 ^ up * unitsPerOne = x.units * 10 ^ down) :
    ofDecimal x.negative digits (up - down) = x := by
  refine Eq.trans ?_ (saturate_rank hfinite)
  rcases Nat.lt_or_ge up down with hlt | hge
  · obtain ⟨places, rfl⟩ := Nat.exists_eq_add_of_lt hlt
    have hcancel : digits * unitsPerOne = x.units * 10 ^ (places + 1) := by
      apply Nat.eq_of_mul_eq_mul_right (Nat.pow_pos (n := up) (by decide : 0 < 10))
      rw [Nat.mul_right_comm, h, Nat.mul_assoc, ← Nat.pow_add,
        show up + places + 1 = places + 1 + up by omega]
    have hplaces := places_le_of_units_mul hdigits hcancel
    have hexponent : (up : Int) - (up + places + 1 : Nat) = .negSucc places := by omega
    rw [hexponent, ofDecimal_negSucc _ (by omega), nearestRank_eq_rank (Nat.pow_pos (by decide)) hcancel]
  · obtain ⟨places, rfl⟩ := Nat.exists_eq_add_of_le hge
    have hcancel : digits * 10 ^ places * unitsPerOne = x.units := by
      apply Nat.eq_of_mul_eq_mul_right (Nat.pow_pos (n := down) (by decide : 0 < 10))
      rw [← h, Nat.pow_add, Nat.mul_right_comm, Nat.mul_assoc digits, Nat.mul_comm (10 ^ places)]
    have hplaces := places_le_of_units hfinite hcancel hdigits
    have hexponent : ((down + places : Nat) : Int) - down = places := by omega
    rw [hexponent, ofDecimal_natCast _ _ hplaces,
      nearestRank_eq_rank Nat.one_pos (by rw [Nat.mul_one, hcancel])]

/-- Zeros at the end of a whole number and behind its point count for nothing. -/
theorem ofDecimal_point_zero (negative : Bool) (digits : Nat) {places : Nat} (hplaces : places ≤ 400) :
    ofDecimal negative (digits * 10 ^ (places + 1)) (-1) = ofDecimal negative digits places := by
  have hscaled : digits * 10 ^ (places + 1) = digits * 10 ^ places * 10 := by
    rw [Nat.pow_succ, Nat.mul_assoc]
  rw [ofDecimal_natCast _ _ hplaces, show (-1 : Int) = .negSucc 0 from rfl,
    ofDecimal_negSucc _ (by omega), hscaled]
  exact congrArg (saturate negative) (nearestRank_mul_right _ 1 (by decide))

end Binary64

end CellFormat
