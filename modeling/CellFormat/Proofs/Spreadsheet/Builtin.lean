import CellFormat.Spreadsheet.Builtin
import Mathlib.Data.List.Nodup
/-!
# Built-in formats and their ids

Every code of a built-in format can be read, no two of them describe the same format, and no two have the same
id. So the id of a format and the format of an id are each other's inverses, and both go by the code of the id.
-/

namespace CellFormat

/-! ### Looking up what occurs once -/

section Lookup

variable {α β κ : Type} {as : List α} {key : α → κ} {k : κ} {p : α → Bool}

theorem find?_eq_some_iff_of_nodup (hkeys : (as.map key).Nodup) (hp : ∀ a, p a = true ↔ key a = k) {a : α} :
    as.find? p = some a ↔ a ∈ as ∧ key a = k := by
  constructor
  · intro hfind
    exact ⟨List.mem_of_find?_eq_some hfind, (hp a).1 (List.find?_some hfind)⟩
  · rintro ⟨hmem, hkey⟩
    obtain ⟨b, hb⟩ := Option.isSome_iff_exists.1 (List.find?_isSome.2 ⟨a, hmem, (hp a).2 hkey⟩)
    have hkeyb : key b = key a := ((hp b).1 (List.find?_some hb)).trans hkey.symm
    rw [hb, List.inj_on_of_nodup_map hkeys (List.mem_of_find?_eq_some hb) hmem hkeyb]

variable [BEq κ] {pairs : List (κ × β)} {b : β}

theorem lookup_eq_find? (k : κ) (pairs : List (κ × β)) :
    pairs.lookup k = (pairs.find? fun pair => k == pair.1).map Prod.snd := by
  induction pairs with
  | nil => rfl
  | cons pair pairs ih =>
      rw [List.lookup_cons, List.find?_cons, ih]
      cases k == pair.1 <;> rfl

theorem lookup_eq_some_iff_mem [LawfulBEq κ] (hkeys : (pairs.map Prod.fst).Nodup) :
    pairs.lookup k = some b ↔ (k, b) ∈ pairs := by
  have hp : ∀ pair : κ × β, (k == pair.1) = true ↔ pair.1 = k := fun _ => beq_iff_eq.trans eq_comm
  rw [lookup_eq_find?, Option.map_eq_some_iff]
  constructor
  · rintro ⟨pair, hfind, rfl⟩
    obtain ⟨hmem, rfl⟩ := (find?_eq_some_iff_of_nodup hkeys hp).1 hfind
    exact hmem
  · intro hmem
    exact ⟨(k, b), (find?_eq_some_iff_of_nodup hkeys hp).2 ⟨hmem, rfl⟩, rfl⟩

end Lookup

namespace Builtin

variable {id id' : Nat} {f : Format}

/-- The format is the one that the code of the id describes. -/
def Describes (id : Nat) (f : Format) : Prop := ∃ code, code? id = some code ∧ Format.parse code = .ok f

/-- The format is the one of a built-in id. -/
def IsFormat (f : Format) : Prop := ∃ id, format? id = some f

/-! ### The table of built-in formats -/

theorem nodup_ids : (codes.map Prod.fst).Nodup := by decide

theorem map_fst_formats : formats.map Prod.fst = codes.map Prod.fst := by decide +kernel

theorem nodup_formats : (formats.map Prod.snd).Nodup := by decide +kernel

theorem mem_formats_iff : (id, f) ∈ formats ↔ ∃ code, (id, code) ∈ codes ∧ Format.parse code = .ok f := by
  have hread : ∀ code, (Format.parse code).toOption = some f ↔ Format.parse code = .ok f := by
    intro code
    cases Format.parse code <;> simp [Except.toOption]
  simp [formats, List.mem_filterMap, hread]

/-! ### Formats and ids -/

theorem format?_eq_some_iff : format? id = some f ↔ Describes id f := by
  have hids : (formats.map Prod.fst).Nodup := map_fst_formats ▸ nodup_ids
  rw [format?, lookup_eq_some_iff_mem hids, mem_formats_iff]
  simp only [Describes, code?, lookup_eq_some_iff_mem nodup_ids]

theorem id?_eq_some_iff : id? f = some id ↔ Describes id f := by
  have hids : (formats.map Prod.fst).Nodup := map_fst_formats ▸ nodup_ids
  rw [← format?_eq_some_iff, format?, lookup_eq_some_iff_mem hids, id?, Option.map_eq_some_iff]
  have hp : ∀ pair : Nat × Format, (pair.2 == f) = true ↔ pair.2 = f := fun _ => beq_iff_eq
  constructor
  · rintro ⟨pair, hfind, rfl⟩
    obtain ⟨hmem, rfl⟩ := (find?_eq_some_iff_of_nodup nodup_formats hp).1 hfind
    exact hmem
  · intro hmem
    exact ⟨(id, f), (find?_eq_some_iff_of_nodup nodup_formats hp).2 ⟨hmem, rfl⟩, rfl⟩

theorem isFormat_iff : IsFormat f ↔ ∃ id, Describes id f := exists_congr fun _ => format?_eq_some_iff

theorem isSome_id?_iff : (id? f).isSome = true ↔ IsFormat f := by
  simp only [Option.isSome_iff_exists, id?_eq_some_iff, isFormat_iff]

theorem id?_eq_none_iff : id? f = none ↔ ¬IsFormat f := by
  rw [← isSome_id?_iff, Option.not_isSome_iff_eq_none]

instance : DecidablePred IsFormat := fun _ => decidable_of_iff _ isSome_id?_iff

theorem Describes.id_unique (h : Describes id f) (h' : Describes id' f) : id = id' :=
  Option.some.inj <| (id?_eq_some_iff.2 h).symm.trans (id?_eq_some_iff.2 h')

theorem Describes.format_unique {g : Format} (h : Describes id f) (h' : Describes id g) : f = g :=
  Option.some.inj <| (format?_eq_some_iff.2 h).symm.trans (format?_eq_some_iff.2 h')

end Builtin

end CellFormat
