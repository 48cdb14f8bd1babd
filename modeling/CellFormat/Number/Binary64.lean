/-!
# Binary64 values

A value of the IEEE 754 format binary64 as a sign and a rank, the place of its magnitude among all
magnitudes in ascending order. Ranks carry over from one binade into the next, so rounding is arithmetic on
natural numbers, and two values are equal exactly when their bit patterns are.
-/

namespace CellFormat

structure Binary64 where
  negative : Bool
  rank : Nat
  rank_lt : rank < 0x8000000000000000
deriving DecidableEq

namespace Binary64

/-- The weight of the sign in a bit pattern, and the number of ranks. -/
def signWeight : Nat := 0x8000000000000000

/-- The number of ranks in a binade. -/
def binadeSize : Nat := 0x10000000000000

/-- The rank of infinity; the ranks above it stand for no number. -/
def infinityRank : Nat := 0x7FF0000000000000

theorem infinityRank_lt : infinityRank < signWeight := by decide

/-- The value of the given sign and rank; a rank beyond infinity is infinity. -/
def saturate (negative : Bool) (rank : Nat) : Binary64 :=
  ⟨negative, min rank infinityRank, Nat.lt_of_le_of_lt (Nat.min_le_right ..) infinityRank_lt⟩

def zero : Binary64 := ⟨false, 0, by decide⟩

def infinity (negative : Bool) : Binary64 := ⟨negative, infinityRank, infinityRank_lt⟩

def nan : Binary64 := ⟨false, 0x7FF8000000000000, by decide⟩

def isFinite (x : Binary64) : Bool := x.rank < infinityRank

def isNaN (x : Binary64) : Bool := infinityRank < x.rank

def isZero (x : Binary64) : Bool := x.rank == 0

/-- The whole number that a power of two is multiplied by. Below the first full binade it is the rank. -/
def significand (x : Binary64) : Nat :=
  if x.rank < binadeSize then x.rank else binadeSize + x.rank % binadeSize

/-- The power of two that the significand counts, in steps of the least magnitude. -/
def exponent (x : Binary64) : Nat := x.rank / binadeSize - 1

/-- How often the least magnitude, two to the power -1074, is in the magnitude of a finite value. -/
def units (x : Binary64) : Nat := x.significand * Nat.pow 2 x.exponent

def unitsPerOne : Nat := Nat.pow 2 1074

/-! ### Bit patterns -/

def ofBits (bits : UInt64) : Binary64 :=
  ⟨signWeight ≤ bits.toNat, bits.toNat % signWeight, Nat.mod_lt _ (by decide)⟩

def toBits (x : Binary64) : UInt64 :=
  .ofNat ((if x.negative then signWeight else 0) + x.rank)

theorem toBits_ofBits (bits : UInt64) : (ofBits bits).toBits = bits := by
  have hlt := bits.toNat_lt
  apply UInt64.toNat_inj.1
  by_cases h : signWeight ≤ bits.toNat
  · simp only [toBits, ofBits, h, decide_true, if_true, UInt64.toNat_ofNat']
    unfold signWeight at *
    omega
  · simp only [toBits, ofBits, h, decide_false, Bool.false_eq_true, if_false, UInt64.toNat_ofNat']
    unfold signWeight at *
    omega

theorem ofBits_toBits (x : Binary64) : ofBits x.toBits = x := by
  obtain ⟨negative, rank, hrank⟩ := x
  cases negative <;> simp only [toBits, ofBits, signWeight, UInt64.toNat_ofNat', mk.injEq] <;> simp <;> omega

theorem toBits_inj {x y : Binary64} : x.toBits = y.toBits ↔ x = y :=
  ⟨fun h => by rw [← ofBits_toBits x, h, ofBits_toBits], congrArg toBits⟩

end Binary64

end CellFormat
