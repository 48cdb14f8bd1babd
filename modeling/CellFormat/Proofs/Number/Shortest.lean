import CellFormat.Number.Shortest
import CellFormat.Proofs.Number.Rounding
/-!
# The shortest decimal reads back

The search for the shortest decimal takes only decimals that round back to the value, or ends with the whole
expansion of the value, which is exact.
-/

namespace CellFormat

theorem Decimal.exists_dropZeros (digits : Nat) (exponent : Int) :
    ∃ zeros : Nat, (dropZeros digits exponent).digits * 10 ^ zeros = digits
      ∧ (dropZeros digits exponent).exponent = exponent + zeros := by
  fun_induction dropZeros digits exponent with
  | case1 digits exponent hzero ih =>
      obtain ⟨zeros, hdigits, hexponent⟩ := ih
      refine ⟨zeros + 1, ?_, ?_⟩
      · rw [Nat.pow_succ, ← Nat.mul_assoc, hdigits]
        exact Nat.div_mul_cancel (Nat.dvd_of_mod_eq_zero hzero.2)
      · rw [hexponent]
        omega
  | case2 digits exponent _ => exact ⟨0, Nat.mul_one _, (Int.add_zero _).symm⟩

namespace Binary64

variable {x : Binary64}

theorem five_pow_mul_unitsPerOne (n : Nat) : n * Nat.pow 5 1074 * unitsPerOne = n * 10 ^ 1074 := by
  obtain ⟨k, hk, hexponent⟩ := unitsPerOne_eq_two_pow
  rw [← hexponent, hk, Nat.mul_assoc]
  exact congrArg _ (Nat.mul_pow 5 2 k).symm

theorem isReadFrom_iff {d : Decimal} :
    x.isReadFrom d = true ↔ ofDecimal x.negative d.digits d.exponent = x :=
  beq_iff_eq

/-- The expansion of a value rounds to the value, since it is the value. -/
theorem ofDecimal_exactDigits (hfinite : x.isFinite = true) (hzero : x.isZero = false) :
    x.isReadFrom (.dropZeros x.exactDigits leastExponent) = true := by
  obtain ⟨zeros, hdigits, hexponent⟩ := Decimal.exists_dropZeros x.exactDigits leastExponent
  have hunits : x.units ≠ 0 := units_ne_zero (ne_of_beq_false hzero)
  have hexact : x.exactDigits * unitsPerOne = x.units * 10 ^ 1074 := five_pow_mul_unitsPerOne _
  have hne : (Decimal.dropZeros x.exactDigits leastExponent).digits ≠ 0 := by
    intro hnone
    rw [← hdigits, hnone, Nat.zero_mul, Nat.zero_mul] at hexact
    exact Nat.mul_ne_zero hunits (Nat.ne_of_gt (Nat.pow_pos (by decide))) hexact.symm
  have hplaces : leastExponent + zeros = (zeros : Int) - (1074 : Nat) := by
    unfold leastExponent
    omega
  rw [isReadFrom_iff, hexponent, hplaces]
  exact ofDecimal_eq hfinite hne (by rw [hdigits, hexact])

theorem isReadFrom_shortestFrom (hfinite : x.isFinite = true) (hzero : x.isZero = false) (places : Nat) :
    x.isReadFrom (x.shortestFrom places) = true := by
  induction places with
  | zero => exact ofDecimal_exactDigits hfinite hzero
  | succ places ih =>
      simp only [shortestFrom]
      cases hfound : List.find? x.isReadFrom _ with
      | none => exact ih
      | some d => exact List.find?_some hfound

/-- The shortest decimal of a finite value other than zero rounds back to the value. -/
theorem ofDecimal_shortest (hfinite : x.isFinite = true) (hzero : x.isZero = false) :
    ofDecimal x.negative x.shortest.digits x.shortest.exponent = x :=
  isReadFrom_iff.1 (isReadFrom_shortestFrom hfinite hzero _)

end Binary64

end CellFormat
