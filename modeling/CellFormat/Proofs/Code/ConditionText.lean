import CellFormat.Proofs.Code.Header
/-!
# Conditions as text

A comparator and a threshold behind it are read as the condition of the two, whichever of its three forms the threshold
is written in: zero without a sign, a whole number of moderate size as the number, everything else with the fewest
digits that read back. Blanks around the threshold change nothing. So what is written for a condition tells it from all
others that can be written.
-/

namespace CellFormat

/-- The text of a comparator and a finite threshold is read as their condition, with any blanks in front of the
threshold and behind it. Conditions that can be written are equal exactly if their texts are. A whole number up to the
greatest whose neighbours are exact too is written as an integer. -/
theorem conditionText_readsBack :
    (∀ comparator : Comparator, comparator ≠ .isText → ∃ symbol, comparator.symbol? = some symbol
        ∧ ∀ x : Binary64, x.isFinite = true → ∃ condition, Condition.make comparator x = .ok condition
          ∧ ∀ front back : List Char, (∀ c ∈ front, isBlank c = true) → (∀ c ∈ back, isBlank c = true) →
            readCondition (symbol.toList ++ (front ++ writeNumber x ++ back)) = .ok condition)
      ∧ (∀ c d : Condition, c.comparator ≠ .isText → d.comparator ≠ .isText → (c = d ↔ c.write? = d.write?))
      ∧ ∀ (x : Binary64) (n : Int), x.signedUnits = n * Binary64.unitsPerOne → n.natAbs ≤ 2 ^ 53 →
        writeNumber x = (toString n).toList := by
  refine ⟨?_, ?_, ?_⟩
  · intro comparator hcomparator
    obtain ⟨symbol, hsymbol⟩ := Comparator.exists_symbol hcomparator
    refine ⟨symbol, hsymbol, ?_⟩
    intro x hfinite
    obtain ⟨condition, hmake, -⟩ := @Condition.exists_make comparator x (.inr hfinite)
    refine ⟨condition, hmake, ?_⟩
    intro front back hfront hback
    rw [readCondition_padded hsymbol hfinite hfront hback, hmake]
  · intro c d hc _
    exact (Condition.write?_inj hc).symm
  · intro x n hvalue hn
    exact writeNumber_of_integer hvalue hn

/-- A threshold with odd blanks around it, two thresholds next to each other, and the least number that is written as an
integer. -/
theorem conditionText_readsBack_padded :
    (∃ condition, Condition.make .greaterOrEqual (.ofBits 0xbfe0000000000000) = .ok condition
        ∧ readCondition ">=\u00a0-0.5 \t".toList = .ok condition)
      ∧ (∃ c d, Condition.make .equal (.ofBits 0x3fb999999999999a) = .ok c
        ∧ Condition.make .equal (.ofBits 0x3fb999999999999b) = .ok d
        ∧ c.write? = some "=0.1".toList ∧ d.write? = some "=0.10000000000000002".toList ∧ c ≠ d)
      ∧ writeNumber (.ofBits 0xc340000000000000) = "-9007199254740992".toList := by
  obtain ⟨hread, hequal, hinteger⟩ := conditionText_readsBack
  refine ⟨?_, ?_, ?_⟩
  · obtain ⟨symbol, hsymbol, hfinite⟩ := hread .greaterOrEqual (by decide)
    obtain ⟨condition, hmake, hpadded⟩ := hfinite (.ofBits 0xbfe0000000000000) (by decide)
    have htext : symbol.toList ++ ("\u00a0".toList ++ writeNumber (.ofBits 0xbfe0000000000000) ++ " \t".toList)
        = ">=\u00a0-0.5 \t".toList := by
      cases hsymbol
      decide +kernel
    refine ⟨condition, hmake, ?_⟩
    rw [← htext]
    exact hpadded _ _ (List.all_eq_true.1 (by decide)) (List.all_eq_true.1 (by decide))
  · obtain ⟨c, hc, hcomparator, hthreshold⟩ :=
      @Condition.exists_make .equal (.ofBits 0x3fb999999999999a) (.inr (by decide))
    obtain ⟨d, hd, hcomparator', hthreshold'⟩ :=
      @Condition.exists_make .equal (.ofBits 0x3fb999999999999b) (.inr (by decide))
    have hwrite : c.write? = some "=0.1".toList := by
      rw [Condition.write?, hcomparator, hthreshold]
      decide +kernel
    have hwrite' : d.write? = some "=0.10000000000000002".toList := by
      rw [Condition.write?, hcomparator', hthreshold']
      decide +kernel
    refine ⟨c, d, hc, hd, hwrite, hwrite', ?_⟩
    intro hsame
    have htexts := (hequal c d (by rw [hcomparator]; decide) (by rw [hcomparator']; decide)).1 hsame
    rw [hwrite, hwrite'] at htexts
    exact absurd htexts (by decide)
  · exact hinteger (.ofBits 0xc340000000000000) (-9007199254740992) (by decide +kernel) (by decide)

end CellFormat
