import CellFormat.Number.Text
import CellFormat.Proofs.Number.Shortest
import CellFormat.Proofs.Text.Cut
/-!
# Numbers read back from their text

Every layout of a number, plain or with an exponent, is read as the decimal that was laid out. Since the
decimal rounds back to the value, the text of a finite value is read as the value.
-/

namespace CellFormat

/-! ### Runs of digits -/

theorem isDigit_of_mem_writeNat {n : Nat} {c : Char} (hc : c ∈ writeNat n) : c.isDigit = true :=
  Nat.isDigit_of_mem_toDigits (by decide) (by decide) hc

theorem isDigit_of_mem_take {n i : Nat} {c : Char} (hc : c ∈ (writeNat n).take i) : c.isDigit = true :=
  isDigit_of_mem_writeNat (List.mem_of_mem_take hc)

theorem isDigit_of_mem_drop {n i : Nat} {c : Char} (hc : c ∈ (writeNat n).drop i) : c.isDigit = true :=
  isDigit_of_mem_writeNat (List.mem_of_mem_drop hc)

theorem writeNat_ne_nil (n : Nat) : writeNat n ≠ [] := Nat.toDigits_ne_nil

@[simp] theorem digitsValue_writeNat (n : Nat) : digitsValue (writeNat n) = n :=
  Nat.ofDigitChars_ten_toDigits

theorem digitsValue_append_zeros (digits : List Char) (places : Nat) :
    digitsValue (digits ++ List.replicate places '0') = digitsValue digits * 10 ^ places := by
  rw [digitsValue, Nat.ofDigitChars_append, Nat.ofDigitChars_replicate_zero, Nat.mul_comm]
  rfl

theorem digitsValue_zeros_append (places : Nat) (digits : List Char) :
    digitsValue (List.replicate places '0' ++ digits) = digitsValue digits := by
  rw [digitsValue, Nat.ofDigitChars_append, Nat.ofDigitChars_replicate_zero, Nat.mul_zero]
  rfl

theorem isDigit_of_mem_zeros {places : Nat} {c : Char} (hc : c ∈ List.replicate places '0') :
    c.isDigit = true := by
  rw [List.eq_of_mem_replicate hc]
  rfl

/-! ### Signs and exponents -/

theorem readSign_of_isDigit {c : Char} (hc : c.isDigit = true) (cs : List Char) :
    readSign (c :: cs) = (false, c :: cs) := by
  unfold readSign
  split
  · next heq =>
    cases heq
    cases hc
  · next heq =>
    cases heq
    cases hc
  · rfl

theorem readSign_writeNat (n : Nat) : readSign (writeNat n) = (false, writeNat n) := by
  cases hdigits : writeNat n with
  | nil => exact absurd hdigits (writeNat_ne_nil n)
  | cons c cs => exact readSign_of_isDigit (isDigit_of_mem_writeNat (hdigits ▸ List.mem_cons_self)) cs

theorem readSign_writeInt (n : Int) : readSign (writeInt n) = (decide (n < 0), writeNat n.natAbs) := by
  by_cases hn : n < 0
  · simp [writeInt, hn, readSign]
  · simp [writeInt, hn, readSign_writeNat]

theorem readExponent?_writeInt (n : Int) : readExponent? ('e' :: writeInt n) = some n := by
  have hdigits : (writeNat n.natAbs).all Char.isDigit = true :=
    List.all_eq_true.2 fun _ hc => isDigit_of_mem_writeNat hc
  have hne : (writeNat n.natAbs).isEmpty = false := by
    simp [writeNat_ne_nil]
  have hvalue : (if n < 0 then -(n.natAbs : Int) else n.natAbs) = n := by
    split <;> omega
  simp only [readExponent?, readSign_writeInt, hdigits, hne, digitsValue_writeNat, decide_eq_true_eq, hvalue]
  rfl

/-! ### Magnitudes -/

variable {digits rest : List Char} {exponent : Int}

theorem readMagnitude?_whole (negative : Bool) (hdigits : ∀ c ∈ digits, c.isDigit = true)
    (hne : digits ≠ []) (hexponent : readExponent? rest = some exponent) (hstops : Stops Char.isDigit rest)
    (hpoint : rest.head? ≠ some '.') :
    readMagnitude? negative (digits ++ rest)
      = some (.ofDecimal negative (digitsValue digits) exponent) := by
  have hfraction : readFraction rest = ([], rest) := by
    unfold readFraction
    split
    · exact absurd rfl hpoint
    · rfl
  simp [readMagnitude?, takeWhile_append_of_stops hdigits hstops,
    dropWhile_append_of_stops hdigits hstops, hfraction, hexponent, hne]

theorem readMagnitude?_point (negative : Bool) (digits fraction : List Char)
    (hdigits : ∀ c ∈ digits, c.isDigit = true) (hfraction : ∀ c ∈ fraction, c.isDigit = true)
    (hne : digits ≠ []) (hexponent : readExponent? rest = some exponent) (hstops : Stops Char.isDigit rest) :
    readMagnitude? negative (digits ++ '.' :: (fraction ++ rest))
      = some (.ofDecimal negative (digitsValue (digits ++ fraction)) (exponent - fraction.length)) := by
  have hpoint : Stops Char.isDigit ('.' :: (fraction ++ rest)) := stops_cons rfl _
  simp [readMagnitude?, takeWhile_append_of_stops hdigits hpoint, dropWhile_append_of_stops hdigits hpoint,
    readFraction, takeWhile_append_of_stops hfraction hstops, dropWhile_append_of_stops hfraction hstops,
    hexponent, hne]

theorem readExponent?_nil : readExponent? [] = some 0 := rfl

theorem readMagnitude?_plain (negative : Bool) (digits fraction : List Char)
    (hdigits : ∀ c ∈ digits, c.isDigit = true) (hfraction : ∀ c ∈ fraction, c.isDigit = true)
    (hne : digits ≠ []) :
    readMagnitude? negative (digits ++ '.' :: fraction)
      = some (.ofDecimal negative (digitsValue (digits ++ fraction)) (-fraction.length)) := by
  have hread := readMagnitude?_point negative digits fraction hdigits hfraction hne readExponent?_nil
    (stops_nil _)
  rwa [List.append_nil, Int.zero_sub] at hread

theorem readMagnitude?_writeNat (negative : Bool) (n : Nat) :
    readMagnitude? negative (writeNat n) = some (.ofDecimal negative n 0) := by
  have hread := readMagnitude?_whole negative (fun _ => isDigit_of_mem_writeNat) (writeNat_ne_nil n)
    readExponent?_nil (stops_nil _) nofun
  rwa [List.append_nil, digitsValue_writeNat] at hread

/-! ### The four layouts -/

theorem readMagnitude?_zerosBehind (negative : Bool) (n : Nat) {places : Nat} (hplaces : places ≤ 400) :
    readMagnitude? negative (writeNat n ++ List.replicate places '0' ++ ['.', '0'])
      = some (.ofDecimal negative n places) := by
  have hread := readMagnitude?_plain negative (writeNat n ++ List.replicate places '0')
    (List.replicate 1 '0') (fun c hc => (List.mem_append.1 hc).elim isDigit_of_mem_writeNat isDigit_of_mem_zeros)
    (fun _ => isDigit_of_mem_zeros) (by simp [writeNat_ne_nil])
  have hvalue : digitsValue (writeNat n ++ List.replicate places '0' ++ List.replicate 1 '0')
      = n * 10 ^ (places + 1) := by
    rw [List.append_assoc, List.replicate_append_replicate, digitsValue_append_zeros, digitsValue_writeNat]
  rw [hvalue] at hread
  exact hread.trans (congrArg some (Binary64.ofDecimal_point_zero negative n hplaces))

theorem readMagnitude?_pointAmong (negative : Bool) (n : Nat) {point : Nat} (hpos : 0 < point)
    (hpoint : point ≤ (writeNat n).length) :
    readMagnitude? negative ((writeNat n).take point ++ '.' :: (writeNat n).drop point)
      = some (.ofDecimal negative n (point - (writeNat n).length)) := by
  have hne : (writeNat n).take point ≠ [] := by
    rw [← List.length_pos_iff, List.length_take]
    omega
  have hread := readMagnitude?_plain negative _ ((writeNat n).drop point) (fun _ => isDigit_of_mem_take)
    (fun _ => isDigit_of_mem_drop) hne
  rw [List.take_append_drop, digitsValue_writeNat, List.length_drop] at hread
  rw [hread]
  congr 2
  omega

theorem readMagnitude?_zerosInFront (negative : Bool) (n places : Nat) :
    readMagnitude? negative ('0' :: '.' :: List.replicate places '0' ++ writeNat n)
      = some (.ofDecimal negative n (-(places + (writeNat n).length : Nat))) := by
  have hread := readMagnitude?_plain negative (List.replicate 1 '0')
    (List.replicate places '0' ++ writeNat n) (fun _ => isDigit_of_mem_zeros)
    (fun c hc => (List.mem_append.1 hc).elim isDigit_of_mem_zeros isDigit_of_mem_writeNat) (by simp)
  rw [← List.append_assoc, List.replicate_append_replicate, digitsValue_zeros_append, digitsValue_writeNat,
    List.length_append, List.length_replicate] at hread
  exact hread

theorem readMagnitude?_scientific (negative : Bool) (n : Nat) (exponent : Int) :
    readMagnitude? negative ((writeNat n).take 1
        ++ (if ((writeNat n).drop 1).isEmpty then [] else '.' :: (writeNat n).drop 1)
        ++ 'e' :: writeInt exponent)
      = some (.ofDecimal negative n (exponent - ((writeNat n).length - 1 : Nat))) := by
  have hlength : 0 < (writeNat n).length := List.length_pos_iff.2 (writeNat_ne_nil n)
  have htake : ∀ c ∈ (writeNat n).take 1, c.isDigit = true := fun _ => isDigit_of_mem_take
  have hne : (writeNat n).take 1 ≠ [] := by
    rw [← List.length_pos_iff, List.length_take]
    omega
  have hexponent := readExponent?_writeInt exponent
  have hstops : Stops Char.isDigit ('e' :: writeInt exponent) := stops_cons rfl _
  have hsplit := List.take_append_drop 1 (writeNat n)
  rw [← List.length_drop]
  by_cases hempty : (writeNat n).drop 1 = []
  · rw [hempty, List.append_nil] at hsplit
    simp only [hempty, List.isEmpty_nil, if_true, List.append_nil, List.length_nil]
    rw [readMagnitude?_whole negative htake hne hexponent hstops (by simp), hsplit, digitsValue_writeNat]
    simp
  · have hread := readMagnitude?_point negative _ ((writeNat n).drop 1) htake
      (fun _ => isDigit_of_mem_drop) hne hexponent hstops
    rw [hsplit, digitsValue_writeNat] at hread
    rw [if_neg (by simpa using hempty), List.append_assoc, List.cons_append, hread]

/-- However a decimal is laid out, it is read as the value that it rounds to. -/
theorem readMagnitude?_write (negative : Bool) (d : Decimal) :
    readMagnitude? negative (NumberLayout.threshold.write d)
      = some (.ofDecimal negative d.digits d.exponent) := by
  obtain ⟨n, exponent⟩ := d
  have hlength : 0 < (writeNat n).length := List.length_pos_iff.2 (writeNat_ne_nil n)
  simp only [NumberLayout.write, NumberLayout.threshold]
  by_cases hwhole : 0 ≤ exponent ∧ (writeNat n).length + exponent ≤ 16
  · obtain ⟨places, rfl⟩ := Int.eq_ofNat_of_zero_le hwhole.1
    rw [if_pos hwhole, Int.toNat_natCast, readMagnitude?_zerosBehind negative n (by omega)]
  rw [if_neg hwhole]
  by_cases hpoint : 0 < (writeNat n).length + exponent ∧ (writeNat n).length + exponent ≤ 16
  · rw [if_pos hpoint, readMagnitude?_pointAmong negative n (by omega) (by omega)]
    congr 2
    omega
  rw [if_neg hpoint]
  by_cases hzeros : (writeNat n).length + exponent ≤ 0 ∧ -((writeNat n).length + exponent) ≤ 4
  · rw [if_pos hzeros, readMagnitude?_zerosInFront]
    congr 2
    omega
  rw [if_neg hzeros, readMagnitude?_scientific]
  congr 2
  omega

/-! ### The characters of a number -/

def isNumberChar (c : Char) : Bool := c.isDigit || c == '.' || c == '-' || c == 'e'

theorem isNumberChar_of_isDigit {c : Char} (hc : c.isDigit = true) : isNumberChar c = true := by
  simp [isNumberChar, hc]

theorem isNumberChar_of_mem_writeInt {n : Int} {c : Char} (hc : c ∈ writeInt n) : isNumberChar c = true := by
  rcases List.mem_append.1 hc with hsign | hdigit
  · split at hsign
    · rw [List.mem_singleton.1 hsign]
      rfl
    · cases hsign
  · exact isNumberChar_of_isDigit (isDigit_of_mem_writeNat hdigit)

theorem isNumberChar_of_mem_write {layout : NumberLayout} {d : Decimal} {c : Char}
    (hc : c ∈ layout.write d) : isNumberChar c = true := by
  have hdigits : ∀ c ∈ writeNat d.digits, isNumberChar c = true :=
    fun _ hc => isNumberChar_of_isDigit (isDigit_of_mem_writeNat hc)
  have hzeros : ∀ n, ∀ c ∈ List.replicate n '0', isNumberChar c = true :=
    fun _ _ hc => isNumberChar_of_isDigit (isDigit_of_mem_zeros hc)
  have htake : ∀ n, ∀ c ∈ (writeNat d.digits).take n, isNumberChar c = true :=
    fun _ c hc => hdigits c (List.mem_of_mem_take hc)
  have hdrop : ∀ n, ∀ c ∈ (writeNat d.digits).drop n, isNumberChar c = true :=
    fun _ c hc => hdigits c (List.mem_of_mem_drop hc)
  simp only [NumberLayout.write] at hc
  split at hc
  · simp only [List.mem_append, List.mem_cons, List.not_mem_nil, or_false] at hc
    rcases hc with (hc | hc) | rfl | rfl
    · exact hdigits c hc
    · exact hzeros _ c hc
    · rfl
    · rfl
  split at hc
  · simp only [List.mem_append, List.mem_cons] at hc
    rcases hc with hc | rfl | hc
    · exact htake _ c hc
    · rfl
    · exact hdrop _ c hc
  split at hc
  · simp only [List.mem_append, List.cons_append, List.mem_cons] at hc
    rcases hc with rfl | rfl | hc | hc
    · rfl
    · rfl
    · exact hzeros _ c hc
    · exact hdigits c hc
  · simp only [List.mem_append, List.mem_cons] at hc
    rcases hc with (hc | hc) | rfl | hc
    · exact htake _ c hc
    · split at hc
      · cases hc
      · rcases List.mem_cons.1 hc with rfl | hc
        · rfl
        · exact hdrop _ c hc
    · rfl
    · exact isNumberChar_of_mem_writeInt hc

def StartsWithDigit (cs : List Char) : Prop := ∃ c rest, cs = c :: rest ∧ c.isDigit = true

theorem startsWithDigit_append {cs : List Char} (hdigits : ∀ c ∈ cs, c.isDigit = true) (hne : cs ≠ [])
    (rest : List Char) : StartsWithDigit (cs ++ rest) := by
  cases cs with
  | nil => exact absurd rfl hne
  | cons c cs => exact ⟨c, cs ++ rest, rfl, hdigits c List.mem_cons_self⟩

theorem startsWithDigit_writeNat (n : Nat) : StartsWithDigit (writeNat n) := by
  rw [← List.append_nil (writeNat n)]
  exact startsWithDigit_append (fun _ => isDigit_of_mem_writeNat) (writeNat_ne_nil n) []

theorem startsWithDigit_write (layout : NumberLayout) (d : Decimal) : StartsWithDigit (layout.write d) := by
  have hlength : 0 < (writeNat d.digits).length := List.length_pos_iff.2 (writeNat_ne_nil _)
  have htake : ∀ n, 0 < n → (writeNat d.digits).take n ≠ [] := by
    intro n hn
    rw [← List.length_pos_iff, List.length_take]
    omega
  simp only [NumberLayout.write]
  split
  · rw [List.append_assoc]
    exact startsWithDigit_append (fun _ => isDigit_of_mem_writeNat) (writeNat_ne_nil _) _
  split
  · next hpoint => exact startsWithDigit_append (fun _ => isDigit_of_mem_take) (htake _ (by omega)) _
  split
  · exact ⟨'0', _, rfl, rfl⟩
  · rw [List.append_assoc]
    exact startsWithDigit_append (fun _ => isDigit_of_mem_take) (htake 1 Nat.one_pos) _

/-! ### Numbers -/

theorem toLower_of_isDigit {c : Char} (hc : c.isDigit = true) : c.toLower = c := by
  simp only [Char.isDigit, Bool.and_eq_true, decide_eq_true_eq] at hc
  unfold Char.toLower
  split
  · next h =>
    have hle := UInt32.le_trans h.1 hc.2
    exact absurd hle (by decide)
  · rfl

theorem readNamed?_eq_none (negative : Bool) {cs : List Char} (h : StartsWithDigit cs) :
    readNamed? negative cs = none := by
  obtain ⟨c, rest, rfl, hc⟩ := h
  have hne : ∀ x : Char, x.isDigit = false → c.toLower ≠ x := by
    rintro x hx rfl
    rw [toLower_of_isDigit hc, hc] at hx
    cases hx
  have hi := hne 'i' rfl
  have hn := hne 'n' rfl
  simp [readNamed?, hi, hn]

theorem readNumber?_of_startsWithDigit {cs : List Char} (h : StartsWithDigit cs) :
    readNumber? cs = readMagnitude? false cs := by
  have hnamed := readNamed?_eq_none false h
  obtain ⟨c, rest, rfl, hc⟩ := h
  simp [readNumber?, readSign_of_isDigit hc, hnamed]

theorem readNumber?_minus {cs : List Char} (h : StartsWithDigit cs) :
    readNumber? ('-' :: cs) = readMagnitude? true cs := by
  simp [readNumber?, readSign, readNamed?_eq_none true h]

theorem readNumber?_signed (negative : Bool) {cs : List Char} (h : StartsWithDigit cs) :
    readNumber? (if negative then '-' :: cs else cs) = readMagnitude? negative cs := by
  cases negative
  · exact readNumber?_of_startsWithDigit h
  · exact readNumber?_minus h

namespace Binary64

variable {x : Binary64}

theorem whole?_eq_some {n : Nat} (h : x.whole? = some n) : n * unitsPerOne = x.units := by
  simp only [whole?] at h
  split at h
  · next hwhole =>
    cases h
    exact Nat.div_mul_cancel (Nat.dvd_of_mod_eq_zero hwhole.1)
  · cases h

/-- The text of the magnitude of a value, in front of which only a sign can stand. -/
def writeMagnitude (x : Binary64) : List Char :=
  match x.whole? with
  | some whole => writeNat whole
  | none => NumberLayout.threshold.write x.shortest

theorem startsWithDigit_writeMagnitude (x : Binary64) : StartsWithDigit x.writeMagnitude := by
  unfold writeMagnitude
  split
  · exact startsWithDigit_writeNat _
  · exact startsWithDigit_write _ _

theorem readMagnitude?_writeMagnitude (hfinite : x.isFinite = true) (hzero : x.isZero = false) :
    readMagnitude? x.negative x.writeMagnitude = some x := by
  unfold writeMagnitude
  split
  · next n hn =>
    have hunits := whole?_eq_some hn
    have hne : n ≠ 0 := by
      rintro rfl
      rw [Nat.zero_mul] at hunits
      exact units_ne_zero (ne_of_beq_false hzero) hunits.symm
    have hexact : n * 10 ^ 0 * unitsPerOne = x.units * 10 ^ 0 := by
      rw [Nat.pow_zero, Nat.mul_one, Nat.mul_one, hunits]
    have hread := ofDecimal_eq hfinite hne hexact
    rw [Int.sub_self] at hread
    rw [readMagnitude?_writeNat, hread]
  · rw [readMagnitude?_write, ofDecimal_shortest hfinite hzero]

end Binary64

theorem writeNumber_eq (x : Binary64) :
    writeNumber x = if x.negative && !x.isZero then '-' :: x.writeMagnitude else x.writeMagnitude := rfl

theorem writeNumber_of_isZero {x : Binary64} (hzero : x.isZero = true) : writeNumber x = ['0'] := by
  have hwhole : x.whole? = some 0 := by
    simp [Binary64.whole?, Binary64.units_eq_zero_iff.2 hzero]
  rw [writeNumber_eq, hzero, Bool.not_true, Bool.and_false, Binary64.writeMagnitude, hwhole]
  rfl

theorem writeNumber_ne_nil (x : Binary64) : writeNumber x ≠ [] := by
  obtain ⟨c, rest, hmagnitude, -⟩ := x.startsWithDigit_writeMagnitude
  rw [writeNumber_eq, hmagnitude]
  split <;> exact List.cons_ne_nil _ _

/-- The text of a finite value is read as the value. Only a zero loses its sign. -/
theorem readNumber?_writeNumber {x : Binary64} (hfinite : x.isFinite = true) :
    readNumber? (writeNumber x) = some (if x.isZero then .zero else x) := by
  cases hx : x.isZero with
  | true =>
      rw [writeNumber_of_isZero hx, if_pos rfl]
      decide
  | false =>
      have hread := readNumber?_signed x.negative x.startsWithDigit_writeMagnitude
      rw [writeNumber_eq, hx, Bool.not_false, Bool.and_true, hread]
      exact Binary64.readMagnitude?_writeMagnitude hfinite hx

theorem isNumberChar_of_mem_writeNumber {x : Binary64} {c : Char} (hc : c ∈ writeNumber x) :
    isNumberChar c = true := by
  have hmagnitude : ∀ c ∈ x.writeMagnitude, isNumberChar c = true := by
    intro c hc
    unfold Binary64.writeMagnitude at hc
    split at hc
    · exact isNumberChar_of_isDigit (isDigit_of_mem_writeNat hc)
    · exact isNumberChar_of_mem_write hc
  rw [writeNumber_eq] at hc
  split at hc
  · rcases List.mem_cons.1 hc with rfl | hc
    · rfl
    · exact hmagnitude c hc
  · exact hmagnitude c hc

theorem ne_of_isNumberChar {c x : Char} (hc : isNumberChar c = true) (hx : isNumberChar x = false) :
    c ≠ x := by
  rintro rfl
  rw [hc] at hx
  cases hx

/-! ### Whole numbers -/

namespace Binary64

variable {x : Binary64}

/-- How often the least magnitude is in a finite value, below zero for a negative one. -/
def signedUnits (x : Binary64) : Int := if x.negative then -x.units else x.units

theorem units_of_signedUnits {n : Int} (h : x.signedUnits = n * unitsPerOne) : x.units = n.natAbs * unitsPerOne := by
  have habs := congrArg Int.natAbs h
  rw [Int.natAbs_mul, Int.natAbs_natCast] at habs
  rw [← habs, signedUnits]
  split <;> simp

theorem whole?_of_units {n : Nat} (h : x.units = n * unitsPerOne) (hn : n ≤ 2 * binadeSize) : x.whole? = some n := by
  have hdiv : x.units / unitsPerOne = n := by rw [h, Nat.mul_div_cancel _ unitsPerOne_pos]
  have hmod : x.units % unitsPerOne = 0 := by rw [h, Nat.mul_mod_left]
  simp only [whole?, hdiv, hmod, hn, and_self, if_true]

theorem signed_iff {n : Int} (h : x.signedUnits = n * unitsPerOne) : (x.negative && !x.isZero) = decide (n < 0) := by
  have hpos : (0 : Int) < unitsPerOne := Int.natCast_pos.2 unitsPerOne_pos
  have hsign : n < 0 ↔ x.signedUnits < 0 := by
    rw [h]
    exact ⟨fun hn => Int.mul_neg_of_neg_of_pos hn hpos, fun hn => Int.neg_of_mul_neg_left hn hpos⟩
  rw [Bool.eq_iff_iff, decide_eq_true_iff, hsign, signedUnits, Bool.and_eq_true, Bool.not_eq_true',
    ← Bool.not_eq_true, ← units_eq_zero_iff]
  cases x.negative <;> simp

end Binary64

/-- A whole number of moderate size is written as the number, without a point and without an exponent. -/
theorem writeNumber_of_integer {x : Binary64} {n : Int} (h : x.signedUnits = n * Binary64.unitsPerOne)
    (hn : n.natAbs ≤ 2 ^ 53) : writeNumber x = (toString n).toList := by
  have hwhole : x.whole? = some n.natAbs := Binary64.whole?_of_units (Binary64.units_of_signedUnits h) hn
  have hmagnitude : x.writeMagnitude = writeNat n.natAbs := by
    rw [Binary64.writeMagnitude, hwhole]
  rw [writeNumber_eq, Binary64.signed_iff h, hmagnitude]
  cases n with
  | ofNat n => exact String.toList_ofList.symm
  | negSucc n =>
      rw [if_pos (decide_eq_true (Int.negSucc_lt_zero n))]
      change '-' :: writeNat (n + 1) = ("-" ++ .ofList (writeNat (n + 1))).toList
      rw [String.toList_append, String.toList_ofList (l := writeNat (n + 1))]
      rfl

/-! ### Texts that are no number

A text with a character that no number has is no number, however it goes on. -/

/-- Whether no number has the character: it is neither a letter nor a digit, and no sign and no point. -/
def isForeign (c : Char) : Bool := !c.isAlphanum && c != '+' && c != '-' && c != '.'

theorem isAlphanum_of_toLower {c : Char} (h : c.toLower.isAlphanum = true) : c.isAlphanum = true := by
  unfold Char.toLower at h
  split at h
  · next hupper =>
    have hisUpper : c.isUpper = true := decide_eq_true hupper
    unfold Char.isAlphanum Char.isAlpha
    rw [hisUpper]
    rfl
  · exact h

section Foreign

variable {x : Char} {cs : List Char} (hx : isForeign x = true)

include hx

theorem isAlphanum_of_isForeign : x.isAlphanum = false := by
  simp only [isForeign, Bool.and_eq_true, Bool.not_eq_true'] at hx
  exact hx.1.1.1

theorem isDigit_of_isForeign : x.isDigit = false := by
  have halphanum := isAlphanum_of_isForeign hx
  rw [Char.isAlphanum, Bool.or_eq_false_iff] at halphanum
  exact halphanum.2

theorem ne_of_isForeign {c : Char} (hc : isForeign c = false) : x ≠ c := by
  rintro rfl
  rw [hx] at hc
  cases hc

theorem mem_readSign_of_foreign (h : x ∈ cs) : x ∈ (readSign cs).2 := by
  unfold readSign
  split
  · exact List.mem_of_ne_of_mem (ne_of_isForeign hx (by decide)) h
  · exact List.mem_of_ne_of_mem (ne_of_isForeign hx (by decide)) h
  · exact h

theorem readNamed?_of_foreign (negative : Bool) (h : x ∈ cs) : readNamed? negative cs = none := by
  have hmem : x.toLower ∈ cs.map Char.toLower := List.mem_map_of_mem h
  have hname : ∀ name : List Char, name.all Char.isAlphanum = true → cs.map Char.toLower ≠ name := by
    rintro name hname rfl
    have halphanum := isAlphanum_of_toLower (List.all_eq_true.1 hname _ hmem)
    rw [isAlphanum_of_isForeign hx] at halphanum
    cases halphanum
  simp only [readNamed?, hname "inf".toList (by decide), hname "infinity".toList (by decide),
    hname "nan".toList (by decide), decide_false, Bool.or_false, Bool.false_eq_true, if_false]

theorem readExponent?_of_foreign (h : x ∈ cs) : readExponent? cs = none := by
  cases cs with
  | nil => cases h
  | cons mark rest =>
      rcases List.mem_cons.1 h with rfl | hrest
      · have hmark : x.toLower ≠ 'e' := by
          intro heq
          have halphanum : x.isAlphanum = true := isAlphanum_of_toLower (heq ▸ by decide)
          rw [isAlphanum_of_isForeign hx] at halphanum
          cases halphanum
        simp [readExponent?, hmark]
      · have hdigits : (readSign rest).2.all Char.isDigit = false :=
          List.all_eq_false.2 ⟨x, mem_readSign_of_foreign hx hrest, by simp [isDigit_of_isForeign hx]⟩
        simp [readExponent?, hdigits]

theorem mem_readFraction_of_foreign (h : x ∈ cs) : x ∈ (readFraction cs).2 := by
  unfold readFraction
  split
  · exact mem_dropWhile (isDigit_of_isForeign hx) (List.mem_of_ne_of_mem (ne_of_isForeign hx (by decide)) h)
  · exact h

theorem readMagnitude?_of_foreign (negative : Bool) (h : x ∈ cs) : readMagnitude? negative cs = none := by
  have hrest : x ∈ (readFraction (cs.dropWhile Char.isDigit)).2 :=
    mem_readFraction_of_foreign hx (mem_dropWhile (isDigit_of_isForeign hx) h)
  simp [readMagnitude?, readExponent?_of_foreign hx hrest]

theorem readNumber?_of_foreign (h : x ∈ cs) : readNumber? cs = none := by
  have hrest := mem_readSign_of_foreign hx h
  simp [readNumber?, readNamed?_of_foreign hx _ hrest, readMagnitude?_of_foreign hx _ hrest]

end Foreign

end CellFormat
