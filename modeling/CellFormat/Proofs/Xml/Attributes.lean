import CellFormat.Proofs.Registry.FirstOccurrences
import CellFormat.Xml.Element
/-!
# Attributes in the order of their first setting

Setting an attribute changes the list of names only if the name is new, and then at its end, and it changes what
is looked up for no other name. So the attributes that a run of settings leaves are told from the run: the names
are its first occurrences, and the value of each is the last one set. What else is done to an element in between
does not count.
-/

namespace CellFormat.Xml

variable {name key value : String} {entries pairs : List (String × String)}

theorem setEntry_of_not_mem (h : name ∉ entries.map Prod.fst) :
    setEntry name value entries = entries ++ [(name, value)] := by
  induction entries with
  | nil => rfl
  | cons entry entries ih =>
      obtain ⟨key, old⟩ := entry
      simp only [List.map_cons, List.mem_cons, not_or] at h
      rw [setEntry, if_neg (Ne.symm h.1), ih h.2]
      rfl

theorem lookup_cons_eq_ite (name value key : String) (entries : List (String × String)) :
    ((name, value) :: entries).lookup key = if key = name then some value else entries.lookup key := by
  rw [List.lookup_cons]
  by_cases hkey : key = name
  · simp [hkey]
  · simp [hkey, beq_false_of_ne hkey]

theorem lookup_setEntry (name value key : String) (entries : List (String × String)) :
    (setEntry name value entries).lookup key = if key = name then some value else entries.lookup key := by
  induction entries with
  | nil => rw [setEntry, lookup_cons_eq_ite]
  | cons entry entries ih =>
      obtain ⟨first, old⟩ := entry
      rw [setEntry]
      split
      · next hfirst =>
        rw [lookup_cons_eq_ite, lookup_cons_eq_ite, hfirst]
        split <;> rfl
      · next hfirst =>
        rw [lookup_cons_eq_ite, lookup_cons_eq_ite, ih]
        -- A key is not both the first name and the one that is set.
        by_cases hkey : key = first
        · rw [if_pos hkey, if_pos hkey, if_neg (hkey ▸ hfirst)]
        · rw [if_neg hkey, if_neg hkey]

namespace Attributes

def names (attributes : Attributes) : List String := attributes.entries.map Prod.fst

theorem eq_of_entries {left right : Attributes} (h : left.entries = right.entries) : left = right := by
  obtain ⟨entries, nodup⟩ := left
  cases h
  rfl

variable (attributes : Attributes)

theorem names_set (name value : String) :
    (attributes.set name value).names
      = if name ∈ attributes.names then attributes.names else attributes.names ++ [name] :=
  keys_setEntry name value attributes.entries

theorem entries_set_of_not_mem {name : String} (h : name ∉ attributes.names) (value : String) :
    (attributes.set name value).entries = attributes.entries ++ [(name, value)] :=
  setEntry_of_not_mem h

theorem get?_set (name value key : String) :
    (attributes.set name value).get? key = if key = name then some value else attributes.get? key :=
  lookup_setEntry name value key attributes.entries

/-! ### Settings in turn -/

/-- The values that are set for a name, in turn. -/
def valuesOf (name : String) (pairs : List (String × String)) : List String :=
  (pairs.filter (·.1 == name)).map Prod.snd

theorem ofList_concat (pairs : List (String × String)) (name value : String) :
    ofList (pairs ++ [(name, value)]) = (ofList pairs).set name value := by
  rw [ofList, List.foldl_append]
  rfl

theorem names_ofList (pairs : List (String × String)) : (ofList pairs).names = (pairs.map Prod.fst).eraseDups := by
  induction pairs using List.reverseRecOn with
  | nil => rfl
  | append_singleton pairs pair ih =>
      obtain ⟨name, value⟩ := pair
      rw [ofList_concat, names_set, ih, List.map_append, List.map_singleton, eraseDups_concat]
      simp only [List.mem_eraseDups]

theorem get?_ofList (pairs : List (String × String)) (key : String) :
    (ofList pairs).get? key = (valuesOf key pairs).getLast? := by
  induction pairs using List.reverseRecOn with
  | nil => rfl
  | append_singleton pairs pair ih =>
      obtain ⟨name, value⟩ := pair
      rw [ofList_concat, get?_set, ih, valuesOf, valuesOf, List.filter_append]
      by_cases hkey : key = name
      · simp [hkey]
      · have hname : (name == key) = false := beq_false_of_ne (Ne.symm hkey)
        simp [hkey, hname]

end Attributes

/-! ### Elements -/

namespace Element

/-- A call that changes an element. -/
inductive Edit where
  | setAttribute (name value : String)
  | setText (text : String)
  | addChild (child : Element)

def Edit.apply (e : Element) : Edit → Element
  | setAttribute name value => e.setAttribute name value
  | setText text => e.setText text
  | addChild child => e.addChild child

/-- The name and the value of the attribute that the call sets. -/
def Edit.attribute? : Edit → Option (String × String)
  | setAttribute name value => some (name, value)
  | _ => none

/-- The attributes that calls set, in turn. -/
def settings (edits : List Edit) : List (String × String) := edits.filterMap Edit.attribute?

/-- The element that a new one becomes by these calls in turn. -/
def build (tag : String) (edits : List Edit) : Element := edits.foldl Edit.apply { tag }

theorem attributes_apply {edit : Edit} (h : edit.attribute? = none) (e : Element) :
    (edit.apply e).attributes = e.attributes := by
  cases edit with
  | setAttribute name value => cases h
  | setText text => rfl
  | addChild child => rfl

theorem attributes_foldl_apply (edits : List Edit) (e : Element) :
    (edits.foldl Edit.apply e).attributes
      = (settings edits).foldl (fun attributes (name, value) => attributes.set name value) e.attributes := by
  induction edits generalizing e with
  | nil => rfl
  | cons edit edits ih =>
      rw [List.foldl_cons, ih, settings, settings]
      cases hedit : edit.attribute? with
      | none => rw [attributes_apply hedit, List.filterMap_cons_none hedit]
      | some pair =>
          cases edit with
          | setAttribute name value =>
              cases hedit
              rfl
          | setText text => cases hedit
          | addChild child => cases hedit

/-- Only the calls that set attributes count for them. -/
theorem attributes_build (tag : String) (edits : List Edit) :
    (build tag edits).attributes = .ofList (settings edits) :=
  attributes_foldl_apply edits { tag }

end Element

end CellFormat.Xml
