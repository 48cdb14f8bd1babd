import CellFormat.Registry.Basic
import Mathlib.Data.List.Basic
import Mathlib.Data.List.Induction
/-!
# Values in the order of their first registration

Registering a value adds it to a registry or leaves the registry as it is. So a registry in which values were
registered in turn holds their first occurrences, and the index of a value is the number of different values
in front of its first one. Whatever is registered later stands behind, and changes no index.
-/

namespace CellFormat

variable {α : Type} [DecidableEq α]

/-! ### First occurrences -/

theorem eraseDups_concat (as : List α) (a : α) :
    (as ++ [a]).eraseDups = if a ∈ as then as.eraseDups else as.eraseDups ++ [a] := by
  rw [List.eraseDups_append]
  by_cases ha : a ∈ as
  · have hnone : [a].removeAll as = [] := by simp [List.removeAll, ha]
    rw [if_pos ha, hnone, List.eraseDups_nil, List.append_nil]
  · have hone : [a].removeAll as = [a] := by simp [List.removeAll, ha]
    rw [if_neg ha, hone, List.eraseDups_cons, List.filter_nil, List.eraseDups_nil]

theorem nodup_eraseDups (as : List α) : as.eraseDups.Nodup := by
  induction as using List.reverseRecOn with
  | nil => exact List.nodup_nil
  | append_singleton as a ih =>
      rw [eraseDups_concat]
      split
      · exact ih
      · next ha =>
        refine List.nodup_append.2 ⟨ih, by simp, fun x hx y hy hxy => ha ?_⟩
        rwa [← List.mem_singleton.1 hy, ← hxy, ← List.mem_eraseDups]

theorem eraseDups_prefix_append (as bs : List α) : as.eraseDups <+: (as ++ bs).eraseDups := by
  rw [List.eraseDups_append]
  exact List.prefix_append _ _

theorem idxOf_eraseDups_append {as : List α} {a : α} (ha : a ∈ as) (bs : List α) :
    (as ++ bs).eraseDups.idxOf a = as.eraseDups.idxOf a := by
  rw [List.eraseDups_append, List.idxOf_append_of_mem (List.mem_eraseDups.2 ha)]

/-- The place of a value is the number of different values in front of it. -/
theorem idxOf_eraseDups_cons {before : List α} {a : α} (ha : a ∉ before) (behind : List α) :
    (before ++ a :: behind).eraseDups.idxOf a = before.eraseDups.length := by
  have hconcat : before ++ a :: behind = (before ++ [a]) ++ behind := by simp
  have hmem : a ∈ before ++ [a] := List.mem_append_right _ List.mem_cons_self
  have hnot : a ∉ before.eraseDups := fun hmem => ha (List.mem_eraseDups.1 hmem)
  rw [hconcat, idxOf_eraseDups_append hmem, eraseDups_concat, if_neg ha, List.idxOf_append_of_notMem hnot]
  simp

namespace Registry

/-! ### One registration -/

variable (r : Registry α) {a : α} {index : Nat}

theorem mem_entries_of_find? (h : r.find? a = some index) : a ∈ r.entries := by
  by_contra hnot
  rw [(r.find?_eq_none_iff a).2 hnot] at h
  cases h

theorem register_of_find? (h : r.find? a = some index) : r.register a = (index, r) := by
  unfold register
  split
  · next hfound =>
      cases h.symm.trans hfound
      rfl
  · next hfound => cases h.symm.trans hfound

theorem register_of_notMem (h : a ∉ r.entries) : r.register a = (r.size, r.push a h) := by
  unfold register
  split
  · next hfound => exact absurd (r.mem_entries_of_find? hfound) h
  · rfl

theorem entries_register (a : α) :
    (r.register a).2.entries = if a ∈ r.entries then r.entries else r.entries ++ [a] := by
  cases hfound : r.find? a with
  | some index => rw [r.register_of_find? hfound, if_pos (r.mem_entries_of_find? hfound)]
  | none =>
      have hnot := (r.find?_eq_none_iff a).1 hfound
      rw [r.register_of_notMem hnot, if_neg hnot, push]

theorem index_register (a : α) : (r.register a).1 = (r.register a).2.entries.idxOf a := by
  cases hfound : r.find? a with
  | some index =>
      have hplace : r.entries.idxOf? a = some index := r.agrees a ▸ hfound
      rw [r.register_of_find? hfound, List.idxOf_eq_getD_idxOf?, hplace, Option.getD_some]
  | none =>
      have hnot := (r.find?_eq_none_iff a).1 hfound
      rw [r.register_of_notMem hnot, push, List.idxOf_append_of_notMem hnot]
      simp [size]

/-! ### Registrations in turn -/

def registerAll (as : List α) : Registry α := as.foldl (fun r a => (r.register a).2) r

theorem registerAll_concat (as : List α) (a : α) :
    r.registerAll (as ++ [a]) = ((r.registerAll as).register a).2 := by
  rw [registerAll, List.foldl_append]
  rfl

theorem registerAll_append (as bs : List α) : r.registerAll (as ++ bs) = (r.registerAll as).registerAll bs :=
  List.foldl_append

theorem entries_registerAll (as : List α) : (({} : Registry α).registerAll as).entries = as.eraseDups := by
  induction as using List.reverseRecOn with
  | nil => rfl
  | append_singleton as a ih =>
      rw [registerAll_concat, entries_register, ih, eraseDups_concat]
      simp only [List.mem_eraseDups]

/-- A value is given its place among the first occurrences. -/
theorem index_registerAll (as : List α) (a : α) :
    ((({} : Registry α).registerAll as).register a).1 = (as ++ [a]).eraseDups.idxOf a := by
  rw [index_register, ← registerAll_concat, entries_registerAll]

/-! ### Lookups -/

/-- The two sides of a registry agree: a value is found under the index that leads to it. -/
theorem find?_eq_some_iff : r.find? a = some index ↔ r.get? index = some a := by
  rw [find?, r.agrees, get?, List.idxOf?_eq_some_iff, List.getElem?_eq_some_iff]
  refine exists_congr fun hindex => and_iff_left_of_imp ?_
  rintro rfl earlier hlt heq
  exact List.pairwise_iff_getElem.1 r.nodup earlier index (Nat.lt_trans hlt hindex) hindex hlt heq

theorem get?_register (h : r.get? index = some a) (b : α) : (r.register b).2.get? index = some a := by
  rw [get?, entries_register]
  split
  · exact h
  · rw [List.getElem?_append_left (List.getElem?_eq_some_iff.1 h).1]
    exact h

theorem get?_registerAll (h : r.get? index = some a) (as : List α) : (r.registerAll as).get? index = some a := by
  induction as generalizing r with
  | nil => exact h
  | cons b as ih => exact ih (r.register b).2 (r.get?_register h b)

theorem get?_index_register (a : α) : (r.register a).2.get? (r.register a).1 = some a := by
  have hmem : a ∈ (r.register a).2.entries := by
    rw [entries_register]
    split
    · assumption
    · exact List.mem_append_right _ List.mem_cons_self
  rw [index_register, get?, List.getElem?_idxOf hmem]

/-- A registry is the list of first occurrences of what was registered, and its lookup agrees with the list: after
every run on a new registry, and for the call that comes next. -/
theorem registerAll_firstOccurrences (as : List α) :
    (registerAll {} as).entries = as.eraseDups ∧ (registerAll {} as).entries.Nodup
      ∧ (∀ a index, (registerAll {} as).find? a = some index ↔ (registerAll {} as).get? index = some a)
      ∧ (∀ a, (registerAll {} as).find? a = none ↔ a ∉ as)
      ∧ (∀ a behind, ((registerAll {} as).register a).1 = (as ++ a :: behind).eraseDups.idxOf a)
      ∧ (∀ a behind, (((registerAll {} as).register a).2.registerAll behind).get? ((registerAll {} as).register a).1
        = some a)
      ∧ ∀ a, ((registerAll {} as).register a).2.size = (registerAll {} as).size + if a ∈ as then 0 else 1 := by
  have hentries : (registerAll {} as).entries = as.eraseDups := entries_registerAll as
  have hmem : ∀ a, a ∈ (registerAll {} as).entries ↔ a ∈ as := fun a => hentries ▸ List.mem_eraseDups
  refine ⟨hentries, (registerAll {} as).nodup, fun a index => find?_eq_some_iff _, fun a => ?_, fun a behind => ?_,
    fun a behind => ?_, fun a => ?_⟩
  · rw [find?_eq_none_iff, hmem]
  · have hlast : a ∈ as ++ [a] := List.mem_append_right _ List.mem_cons_self
    rw [index_registerAll, ← idxOf_eraseDups_append hlast behind, List.append_assoc, List.singleton_append]
  · exact get?_registerAll _ (get?_index_register _ a) behind
  · rw [size, entries_register, size]
    simp only [hmem]
    split <;> simp

end Registry

end CellFormat
