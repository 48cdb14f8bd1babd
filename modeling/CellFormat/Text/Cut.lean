/-!
# Cutting a text at a mark

The two halves of a list around the first place where a mark stands, for texts and for bytes.
-/

namespace CellFormat

variable {α : Type} [DecidableEq α]

/-- What is in front of the first `stop` and what is behind it. -/
def splitAtFirst (stop : α) : List α → Option (List α × List α)
  | [] => none
  | x :: xs =>
    if x = stop then some ([], xs)
    else (splitAtFirst stop xs).map fun (before, behind) => (x :: before, behind)

theorem length_lt_of_splitAtFirst {stop : α} {xs before behind : List α}
    (h : splitAtFirst stop xs = some (before, behind)) : behind.length < xs.length := by
  induction xs generalizing before with
  | nil => cases h
  | cons x xs ih =>
    simp only [splitAtFirst] at h
    split at h
    · cases h
      exact Nat.lt_succ_self _
    · obtain ⟨⟨first, rest⟩, hrest, heq⟩ := Option.map_eq_some_iff.1 h
      cases heq
      exact Nat.lt_succ_of_lt (ih hrest)

/-- What is behind the first place where all of `mark` stands. -/
def behindFirst (mark : List α) : List α → Option (List α)
  | [] => none
  | x :: xs => if mark.isPrefixOf (x :: xs) then some ((x :: xs).drop mark.length) else behindFirst mark xs

theorem suffix_of_behindFirst {mark xs behind : List α} (h : behindFirst mark xs = some behind) :
    behind <:+ xs := by
  induction xs with
  | nil => cases h
  | cons x xs ih =>
    simp only [behindFirst] at h
    split at h
    · cases h
      exact List.drop_suffix _ _
    · exact (ih h).trans (List.suffix_cons _ _)

end CellFormat
