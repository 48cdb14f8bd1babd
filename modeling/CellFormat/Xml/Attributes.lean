/-!
# Attributes

The attributes of an element are a map with an order: a name occurs once, and stays where it was first set.
-/

namespace CellFormat.Xml

/-- The list with the value of `name` replaced, or added at the end. -/
def setEntry (name value : String) : List (String × String) → List (String × String)
  | [] => [(name, value)]
  | (key, old) :: rest => if key = name then (key, value) :: rest else (key, old) :: setEntry name value rest

theorem keys_setEntry (name value : String) (entries : List (String × String)) :
    (setEntry name value entries).map Prod.fst
      = if name ∈ entries.map Prod.fst then entries.map Prod.fst else entries.map Prod.fst ++ [name] := by
  induction entries with
  | nil => rfl
  | cons entry rest ih =>
    obtain ⟨key, old⟩ := entry
    simp only [setEntry]
    split
    · next h => simp [h]
    · next h =>
      have hne : ¬name = key := fun e => h e.symm
      simp only [List.map_cons, ih, List.mem_cons, hne, false_or]
      split <;> simp

structure Attributes where
  entries : List (String × String) := []
  nodup : (entries.map Prod.fst).Nodup := by exact List.nodup_nil
deriving DecidableEq

namespace Attributes

def get? (attributes : Attributes) (name : String) : Option String := attributes.entries.lookup name

def set (attributes : Attributes) (name value : String) : Attributes where
  entries := setEntry name value attributes.entries
  nodup := by
    have hnodup := attributes.nodup
    rw [keys_setEntry]
    split
    · exact hnodup
    · next h =>
      refine List.nodup_append.2 ⟨hnodup, by simp, fun a ha b hb hab => h ?_⟩
      rwa [← List.mem_singleton.1 hb, ← hab]

def ofList (pairs : List (String × String)) : Attributes :=
  pairs.foldl (fun attributes (name, value) => attributes.set name value) {}

end Attributes

end CellFormat.Xml
