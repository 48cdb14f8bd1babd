/-!
# Registries

A registry gives out one index per distinct value, counted from zero in the order in which the values were
first registered.
-/

namespace CellFormat

variable {α : Type} [DecidableEq α]

/-- The values of a registry, and beside them the index under which each is looked up. -/
structure Registry (α : Type) [DecidableEq α] where
  entries : List α := []
  places : List (α × Nat) := []
  nodup : entries.Nodup := by exact List.nodup_nil
  agrees : ∀ a, places.lookup a = entries.idxOf? a := by exact fun _ => rfl

namespace Registry

def size (r : Registry α) : Nat := r.entries.length

def isEmpty (r : Registry α) : Bool := r.entries.isEmpty

def get? (r : Registry α) (index : Nat) : Option α := r.entries[index]?

def find? (r : Registry α) (a : α) : Option Nat := r.places.lookup a

theorem find?_eq_none_iff (r : Registry α) (a : α) : r.find? a = none ↔ a ∉ r.entries := by
  rw [find?, r.agrees, List.idxOf?_eq_none_iff]

/-- The registry with a value that is not in it yet. -/
def push (r : Registry α) (a : α) (h : a ∉ r.entries) : Registry α where
  entries := r.entries ++ [a]
  places := (a, r.size) :: r.places
  nodup := List.nodup_append.2 ⟨r.nodup, by simp, fun b hb c hc hbc => h <| by
    rwa [← List.mem_singleton.1 hc, ← hbc]⟩
  agrees b := by
    rw [List.idxOf?, List.findIdx?_append, ← List.idxOf?, List.lookup_cons]
    by_cases hb : b = a
    · rw [hb, List.idxOf?_eq_none_iff.2 h]
      simp [size]
    · have hne : (b == a) = false := beq_false_of_ne hb
      have hne' : (a == b) = false := beq_false_of_ne (Ne.symm hb)
      rw [hne, r.agrees b]
      simp [hne']

def register (r : Registry α) (a : α) : Nat × Registry α :=
  match h : r.find? a with
  | some index => (index, r)
  | none => (r.size, r.push a ((r.find?_eq_none_iff a).1 h))

/-- The values with their indices, in order. -/
def indexed (r : Registry α) : List (Nat × α) := r.entries.zipIdx.map fun (a, index) => (index, a)

end Registry

end CellFormat
