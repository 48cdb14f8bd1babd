import CellFormat.Proofs.Registry.FirstOccurrences
import CellFormat.Proofs.Spreadsheet.Builtin
import CellFormat.Spreadsheet.FormatTable
import Mathlib.Algebra.Group.Nat.Defs
/-!
# The ids of a run of registrations

A built-in format has the id whose code describes it, and leaves the table as it is. All other formats of a run
are put into one registry in turn, so the id of such a format is its place among their first occurrences, counted
from the least id of a declared format on. As long as the ids do not run over, this tells any two formats apart.
-/

namespace CellFormat.FormatTable

open Builtin

variable {f : Format} {fs before behind : List Format}

/-- The formats of a run that are declared, in the order of their first registration. -/
def customs (fs : List Format) : List Format := (fs.filter (¬IsFormat ·)).eraseDups

def registerAll (t : FormatTable) (fs : List Format) : FormatTable := fs.foldl (fun t f => (t.register f).2) t

/-- The id that a format is given when it is registered after these on a new table. -/
def idAfter (before : List Format) (f : Format) : Nat := ((registerAll {} before).register f).1

/-! ### One registration -/

theorem register_of_describes {id : Nat} (h : Describes id f) (t : FormatTable) : t.register f = (id, t) := by
  rw [register, id?_eq_some_iff.2 h]

theorem register_of_not_isFormat (h : ¬IsFormat f) (t : FormatTable) :
    t.register f = (customId (t.custom.register f).1, ⟨(t.custom.register f).2⟩) := by
  rw [register, id?_eq_none_iff.2 h]
  cases hfound : t.custom.find? f with
  | none => rfl
  | some index =>
      rw [Registry.register_of_find? t.custom hfound]

theorem describes_lt {id : Nat} (h : Describes id f) : id < firstCustomId := by
  have hids : ∀ entry ∈ codes, entry.1 < firstCustomId := by decide
  obtain ⟨code, hcode, -⟩ := h
  exact hids (id, code) ((lookup_eq_some_iff_mem nodup_ids).1 hcode)

/-! ### Runs -/

theorem custom_registerAll (t : FormatTable) (fs : List Format) :
    (t.registerAll fs).custom = t.custom.registerAll (fs.filter (¬IsFormat ·)) := by
  induction fs generalizing t with
  | nil => rfl
  | cons f fs ih =>
      show ((t.register f).2.registerAll fs).custom = _
      rw [ih]
      by_cases hf : IsFormat f
      · obtain ⟨id, hid⟩ := isFormat_iff.1 hf
        rw [register_of_describes hid, List.filter_cons_of_neg (by simpa using hf)]
      · rw [register_of_not_isFormat hf, List.filter_cons_of_pos (by simpa using hf)]
        rfl

theorem entries_custom_registerAll (fs : List Format) : (registerAll {} fs).custom.entries = customs fs := by
  rw [custom_registerAll]
  exact Registry.entries_registerAll _

/-! ### The formats that are declared -/

theorem mem_customs : f ∈ customs fs ↔ f ∈ fs ∧ ¬IsFormat f := by
  rw [customs, List.mem_eraseDups, List.mem_filter, decide_eq_true_iff]

theorem mem_customs_of_eq_append (hf : ¬IsFormat f) (hfs : fs = before ++ f :: behind) : f ∈ customs fs :=
  mem_customs.2 ⟨hfs ▸ List.mem_append_right _ List.mem_cons_self, hf⟩

theorem customs_prefix_append (before behind : List Format) : customs before <+: customs (before ++ behind) := by
  rw [customs, customs, List.filter_append]
  exact eraseDups_prefix_append _ _

theorem idxOf_customs_append (hmem : f ∈ customs before) (behind : List Format) :
    (customs (before ++ behind)).idxOf f = (customs before).idxOf f := by
  obtain ⟨behind, hbehind⟩ := customs_prefix_append before behind
  rw [← hbehind, List.idxOf_append_of_mem hmem]

/-- The place of a declared format is the number of those that are declared in front of its first registration. -/
theorem idxOf_customs (hmem : f ∈ customs fs) :
    (customs fs).idxOf f = (customs (fs.takeWhile (· ≠ f))).length := by
  obtain ⟨hfs, hf⟩ := mem_customs.1 hmem
  obtain ⟨before, behind, rfl, hnot⟩ := List.eq_append_cons_of_mem hfs
  have hbefore : (before ++ f :: behind).takeWhile (· ≠ f) = before := by
    have hne : ∀ g ∈ before, decide (g ≠ f) = true := fun g hg => decide_eq_true (ne_of_mem_of_not_mem hg hnot)
    rw [List.takeWhile_append_of_pos hne, List.takeWhile_cons_of_neg (by simp), List.append_nil]
  have hnotFiltered : f ∉ before.filter (¬IsFormat ·) := fun hmem => hnot (List.mem_of_mem_filter hmem)
  rw [hbefore, customs, List.filter_append, List.filter_cons_of_pos (by simpa using hf)]
  exact idxOf_eraseDups_cons hnotFiltered _

/-! ### The ids of a run -/

theorem idAfter_of_describes {id : Nat} (h : Describes id f) (before : List Format) : idAfter before f = id := by
  rw [idAfter, register_of_describes h]

theorem customId_of_lt {index : Nat} (h : index < 2 ^ 32 - firstCustomId) :
    customId index = firstCustomId + index := by
  have hsize : UInt32.size = 2 ^ 32 := by decide
  rw [customId, hsize]
  omega

theorem idAfter_eq_customId (hf : ¬IsFormat f) (before : List Format) :
    idAfter before f = customId ((customs (before ++ [f])).idxOf f) := by
  rw [idAfter, register_of_not_isFormat hf, custom_registerAll, customs, List.filter_append,
    List.filter_cons_of_pos (by simpa using hf)]
  exact congrArg customId (Registry.index_registerAll _ f)

theorem idAfter_again (before : List Format) (f : Format) (between : List Format) :
    idAfter (before ++ f :: between) f = idAfter before f := by
  by_cases hf : IsFormat f
  · obtain ⟨id, hid⟩ := isFormat_iff.1 hf
    rw [idAfter_of_describes hid, idAfter_of_describes hid]
  · rw [idAfter_eq_customId hf, idAfter_eq_customId hf, List.append_assoc, List.cons_append, List.append_cons,
      idxOf_customs_append (mem_customs_of_eq_append hf rfl)]

/-- A declared format is given its place among all formats that the run declares. -/
theorem idAfter_of_not_isFormat (hfew : (customs fs).length ≤ 2 ^ 32 - firstCustomId) (hf : ¬IsFormat f)
    (hfs : fs = before ++ f :: behind) : idAfter before f = firstCustomId + (customs fs).idxOf f := by
  have hplace : (customs fs).idxOf f = (customs (before ++ [f])).idxOf f := by
    rw [hfs, List.append_cons, idxOf_customs_append (mem_customs_of_eq_append hf rfl)]
  have hlt : (customs fs).idxOf f < (customs fs).length :=
    List.idxOf_lt_length_of_mem (mem_customs_of_eq_append hf hfs)
  rw [idAfter_eq_customId hf, ← hplace, customId_of_lt (Nat.lt_of_lt_of_le hlt hfew)]

theorem entries_registerAll (hfew : (customs fs).length ≤ 2 ^ 32 - firstCustomId) :
    (registerAll {} fs).entries = (customs fs).mapIdx fun index f => (firstCustomId + index, f.toCode) := by
  rw [entries, Registry.indexed, entries_custom_registerAll, List.mapIdx_eq_zipIdx_map, List.map_map]
  refine List.map_congr_left fun pair hpair => ?_
  have hlt : pair.2 < (customs fs).length := by
    have := List.snd_lt_add_of_mem_zipIdx hpair
    omega
  show (customId pair.2, pair.1.toCode) = _
  rw [customId_of_lt (Nat.lt_of_lt_of_le hlt hfew)]

theorem idAfter_lt_iff (hfew : (customs fs).length ≤ 2 ^ 32 - firstCustomId) (hfs : fs = before ++ f :: behind) :
    idAfter before f < firstCustomId ↔ IsFormat f := by
  by_cases hf : IsFormat f
  · obtain ⟨id, hid⟩ := isFormat_iff.1 hf
    exact iff_of_true (idAfter_of_describes hid before ▸ describes_lt hid) hf
  · rw [idAfter_of_not_isFormat hfew hf hfs]
    exact iff_of_false (by omega) hf

theorem idAfter_inj {before' behind' : List Format} {f' : Format}
    (hfew : (customs fs).length ≤ 2 ^ 32 - firstCustomId) (hfs : fs = before ++ f :: behind)
    (hfs' : fs = before' ++ f' :: behind') : idAfter before f = idAfter before' f' ↔ f = f' := by
  have hlt := idAfter_lt_iff hfew hfs
  have hlt' := idAfter_lt_iff hfew hfs'
  constructor
  · intro heq
    -- An id is less than the first custom one for both formats or for neither, so their kinds do not mix.
    by_cases hf : IsFormat f
    · obtain ⟨id, hid⟩ := isFormat_iff.1 hf
      obtain ⟨id', hid'⟩ := isFormat_iff.1 (hlt'.1 (heq ▸ hlt.2 hf))
      rw [idAfter_of_describes hid, idAfter_of_describes hid'] at heq
      exact hid.format_unique (heq ▸ hid')
    · have hf' : ¬IsFormat f' := fun hf' => hf (hlt.1 (heq ▸ hlt'.2 hf'))
      rw [idAfter_of_not_isFormat hfew hf hfs, idAfter_of_not_isFormat hfew hf' hfs'] at heq
      exact (List.idxOf_inj (mem_customs_of_eq_append hf hfs)).1 (Nat.add_left_cancel heq)
  · rintro rfl
    by_cases hf : IsFormat f
    · obtain ⟨id, hid⟩ := isFormat_iff.1 hf
      rw [idAfter_of_describes hid, idAfter_of_describes hid]
    · rw [idAfter_of_not_isFormat hfew hf hfs, idAfter_of_not_isFormat hfew hf hfs']

/-! ### Ids identify formats -/

/-- For every call of a run in which the ids do not run over, and for its table at every moment. -/
theorem ids_identify_formats (hfew : (customs fs).length < 2 ^ 32 - firstCustomId) :
    (∀ before f behind, fs = before ++ f :: behind →
      (∀ before' f' behind', fs = before' ++ f' :: behind' → (idAfter before f = idAfter before' f' ↔ f = f'))
      ∧ (idAfter before f < firstCustomId ↔ IsFormat f)
      ∧ (IsFormat f → (∀ id, Describes id f ↔ id = idAfter before f)
        ∧ ((registerAll {} before).register f).2 = registerAll {} before)
      ∧ (¬IsFormat f → idAfter before f = firstCustomId + (customs (fs.takeWhile (· ≠ f))).length)
      ∧ ∀ between rest, behind = between ++ rest → idAfter (before ++ f :: between) f = idAfter before f)
    ∧ ∀ before behind, fs = before ++ behind →
      (registerAll {} before).entries = (customs before).mapIdx fun index f => (firstCustomId + index, f.toCode) := by
  have hle := Nat.le_of_lt hfew
  constructor
  · intro before f behind hfs
    refine ⟨fun before' f' behind' => idAfter_inj hle hfs, idAfter_lt_iff hle hfs, fun hf => ?_, fun hf => ?_,
      fun between rest _ => idAfter_again before f between⟩
    · obtain ⟨id, hid⟩ := isFormat_iff.1 hf
      rw [idAfter_of_describes hid, register_of_describes hid]
      exact ⟨fun id' => ⟨fun hid' => hid'.id_unique hid, fun heq => heq ▸ hid⟩, rfl⟩
    · rw [idAfter_of_not_isFormat hle hf hfs, idxOf_customs (mem_customs_of_eq_append hf hfs)]
  · intro before behind hfs
    have hlength := (customs_prefix_append before behind).length_le
    exact entries_registerAll (Nat.le_trans (hfs ▸ hlength) hle)

/-- A run in which one of two formats to be declared is registered twice, around a built-in one. -/
def mixedRun : List Format :=
  let integer : Section := { parts := [.number .integer] }
  let percent : Section := { parts := [.number .integer, .text "%"] }
  let blue : Section := { integer with color := some .blue }
  [{ primary := blue }, { primary := percent }, { primary := blue },
    { primary := integer, branches := [⟨.againstZero .lessThan, blue⟩] }]

theorem ids_identify_mixedRun :
    (customs mixedRun).length < 2 ^ 32 - firstCustomId
      ∧ idAfter [] mixedRun[0] = idAfter (mixedRun.take 2) mixedRun[2]
      ∧ idAfter (mixedRun.take 1) mixedRun[1] = 9
      ∧ idAfter (mixedRun.take 3) mixedRun[3] = 165
      ∧ (registerAll {} mixedRun).entries = [(164, "[Blue]0"), (165, "[Blue][<0]0;0")] := by
  have hfew : (customs mixedRun).length < 2 ^ 32 - firstCustomId := by decide +kernel
  obtain ⟨hcalls, hentries⟩ := ids_identify_formats hfew
  refine ⟨hfew, ?_, ?_, ?_, ?_⟩
  · exact ((hcalls [] _ _ rfl).1 (mixedRun.take 2) mixedRun[2] _ rfl).2 rfl
  · obtain ⟨-, -, hbuiltin, -⟩ := hcalls (mixedRun.take 1) mixedRun[1] _ rfl
    have hpercent : Describes 9 mixedRun[1] := ⟨"0%", rfl, by decide +kernel⟩
    exact (((hbuiltin (isFormat_iff.2 ⟨9, hpercent⟩)).1 9).1 hpercent).symm
  · obtain ⟨-, -, -, hcustom, -⟩ := hcalls (mixedRun.take 3) mixedRun[3] _ rfl
    have hplace : (customs (mixedRun.takeWhile (· ≠ mixedRun[3]))).length = 1 := by decide +kernel
    rw [hcustom (by decide +kernel), hplace]
    rfl
  · rw [hentries mixedRun [] (List.append_nil _).symm]
    decide +kernel

end CellFormat.FormatTable
