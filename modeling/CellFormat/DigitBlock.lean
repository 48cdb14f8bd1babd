import CellFormat.Error
/-!
# Digit blocks

A digit block such as `#,##0.00` says how many digits a number shows on either side of its point. Every
block shows an integer digit, and no greatest number of digits is below the least one; whatever would break
this is refused and leaves the block as it was.
-/

namespace CellFormat

/-- How many digits are shown on each side of the point, and whether thousands are set apart. Without a greatest
number any number of digits may be shown. -/
structure DigitBlock where
  minInteger : UInt32
  maxInteger : Option UInt32
  minDecimal : UInt32
  maxDecimal : Option UInt32
  grouping : Bool
  one_le_minInteger : 1 ≤ minInteger
  minInteger_le : ∀ n ∈ maxInteger, minInteger ≤ n
  minDecimal_le : ∀ n ∈ maxDecimal, minDecimal ≤ n
deriving DecidableEq

namespace DigitBlock

/-- The block of integers, which shows at least one digit and no decimals. -/
def integer : DigitBlock where
  minInteger := 1
  maxInteger := none
  minDecimal := 0
  maxDecimal := some 0
  grouping := false
  one_le_minInteger := UInt32.le_refl 1
  minInteger_le := nofun
  minDecimal_le := fun _ hn => Option.mem_some.1 hn ▸ UInt32.le_refl 0

/-- The greatest number of digits, if it is below the least one. -/
def below? (minimum : UInt32) (maximum : Option UInt32) : Option UInt32 :=
  maximum.filter (· < minimum)

theorem le_of_below?_eq_none {minimum : UInt32} {maximum : Option UInt32}
    (h : below? minimum maximum = none) : ∀ n ∈ maximum, minimum ≤ n := by
  intro n hn
  simp only [below?, Option.filter_eq_none_iff, decide_eq_true_eq, UInt32.not_lt] at h
  exact h n hn

/-- The block with these digit counts, which are looked at from left to right. -/
def make (minInteger : UInt32) (maxInteger : Option UInt32) (minDecimal : UInt32) (maxDecimal : Option UInt32)
    (grouping : Bool) : Except FormatError DigitBlock :=
  if hone : 1 ≤ minInteger then
    match hinteger : below? minInteger maxInteger with
    | some n => .error (.maximumBelowMinimum .integer n minInteger)
    | none =>
      match hdecimal : below? minDecimal maxDecimal with
      | some n => .error (.maximumBelowMinimum .decimal n minDecimal)
      | none => .ok {
          minInteger, maxInteger, minDecimal, maxDecimal, grouping
          one_le_minInteger := hone
          minInteger_le := le_of_below?_eq_none hinteger
          minDecimal_le := le_of_below?_eq_none hdecimal }
  else .error .noIntegerDigit

/-! ### Changing a block -/

/-- The block with exactly this many decimals. -/
def setDecimalPlaces (block : DigitBlock) (places : UInt32) : DigitBlock :=
  { block with
    minDecimal := places
    maxDecimal := some places
    minDecimal_le := fun _ hn => Option.mem_some.1 hn ▸ UInt32.le_refl places }

def setGrouping (block : DigitBlock) (grouping : Bool) : DigitBlock :=
  { block with grouping }

def setMinInteger (block : DigitBlock) (digits : UInt32) : Except FormatError DigitBlock :=
  make digits block.maxInteger block.minDecimal block.maxDecimal block.grouping

def setMaxInteger (block : DigitBlock) (digits : Option UInt32) : Except FormatError DigitBlock :=
  make block.minInteger digits block.minDecimal block.maxDecimal block.grouping

def setMinDecimal (block : DigitBlock) (digits : UInt32) : Except FormatError DigitBlock :=
  make block.minInteger block.maxInteger digits block.maxDecimal block.grouping

def setMaxDecimal (block : DigitBlock) (digits : Option UInt32) : Except FormatError DigitBlock :=
  make block.minInteger block.maxInteger block.minDecimal digits block.grouping

/-! ### Reading a block -/

def isPlaceholder (c : Char) : Bool := c == '#' || c == '0' || c == '.' || c == ','

/-- The lengths of a run of `first` and of a run of `second` that make up the whole text. -/
def runs? (first second : Char) (cs : List Char) : Option (Nat × Nat) :=
  let rest := cs.dropWhile (· == first)
  if rest.all (· == second) then some (cs.length - rest.length, rest.length) else none

theorem le_max_right (a b : UInt32) : b ≤ max a b := by
  simp only [Max.max]
  split
  · exact UInt32.le_refl b
  · next h => exact UInt32.le_of_lt (UInt32.not_le.1 h)

/-- The least number of digits on a side of a block with so many zeros. -/
def leastDigits (zeros : Nat) : UInt32 := max (.ofNat zeros) 1

/-- The block without decimals that shows these integer digits: optional ones, then required ones. Only a
block without grouping keeps its greatest number of digits. -/
def ofInteger? (grouping : Bool) (digits : List Char) : Option DigitBlock := do
  let (optional, required) ← runs? '#' '0' digits
  let least := leastDigits required
  some { integer with
    minInteger := least
    maxInteger := if 0 < optional && !grouping then some (max (.ofNat digits.length) least) else none
    grouping
    one_le_minInteger := (le_max_right ..)
    minInteger_le := by
      intro n hn
      split at hn
      · exact Option.mem_some.1 hn ▸ (le_max_right ..)
      · simp at hn }

/-- The block with decimals as given behind its point: required digits, of which there is at least one, then
optional ones. -/
def withDecimals? (block : DigitBlock) (digits : List Char) : Option DigitBlock := do
  let (required, _) ← runs? '0' '#' digits
  let least := leastDigits required
  some { block with
    minDecimal := least
    maxDecimal := some (max (.ofNat digits.length) least)
    minDecimal_le := fun _ hn => Option.mem_some.1 hn ▸ (le_max_right ..) }

/-- The block that a text of placeholders describes. Commas count only as the wish for grouping, wherever
they are. -/
def ofPlaceholders? (cs : List Char) : Option DigitBlock := do
  let bare := cs.filter (· != ',')
  let block ← ofInteger? (cs.contains ',') (bare.takeWhile (· != '.'))
  match bare.dropWhile (· != '.') with
  | [] => some block
  | _ :: decimals => block.withDecimals? decimals

def read (cs : List Char) : Except FormatError DigitBlock :=
  match ofPlaceholders? cs with
  | some block => .ok block
  | none => .error (.unexpectedBlock (.ofList cs))

/-! ### Writing a block -/

/-- The digit positions of the integer side from the one with `positions - 1` others behind it, with a comma
in front of every three positions if they are grouped. -/
def writePositions (block : DigitBlock) : (positions : Nat) → List Char
  | 0 => []
  | n + 1 =>
    (if n < block.minInteger.toNat then '0' else '#')
      :: (if block.grouping && 0 < n && n % 3 == 0 then [','] else []) ++ block.writePositions n

/-- The number of positions of the integer side. With grouping there are enough for one comma. -/
def width (block : DigitBlock) : Nat :=
  let digits := (block.maxInteger.getD block.minInteger).toNat
  if block.grouping then max digits 4 else digits

/-- The block as placeholders. Without a greatest number of digits no optional ones are shown. -/
def write (block : DigitBlock) : List Char :=
  let least := block.minDecimal.toNat
  let most := (block.maxDecimal.getD block.minDecimal).toNat
  block.writePositions block.width
    ++ (if 0 < most then '.' :: List.replicate least '0' ++ List.replicate (most - least) '#' else [])

end DigitBlock

end CellFormat
