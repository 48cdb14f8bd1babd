import CellFormat.Registry.Basic
/-!
# Shared registries

Registries that are reached through handles. Several handles may lead to one registry and then see the same
values; a snapshot is a copy that goes its own way.
-/

namespace CellFormat

variable {α : Type} [DecidableEq α]

/-- Registries, and for each handle the position of the one that it leads to. -/
structure SharedRegistries (α : Type) [DecidableEq α] where
  registries : List (Registry α) := [{}]
  handles : List Nat := [0]
  snapshots : List (Registry α) := []

namespace SharedRegistries

def registry? (s : SharedRegistries α) (handle : Nat) : Option (Registry α) := do
  s.registries[← s.handles[handle]?]?

def clone? (s : SharedRegistries α) (handle : Nat) : Option (Nat × SharedRegistries α) := do
  let place ← s.handles[handle]?
  return (s.handles.length, { s with handles := s.handles ++ [place] })

def fresh (s : SharedRegistries α) : Nat × SharedRegistries α :=
  (s.handles.length,
    { s with registries := s.registries ++ [{}], handles := s.handles ++ [s.registries.length] })

/-- The index of a value that is registered through a handle. -/
def register? (s : SharedRegistries α) (handle : Nat) (a : α) : Option (Nat × SharedRegistries α) := do
  let place ← s.handles[handle]?
  let registry ← s.registries[place]?
  let (index, registry) := registry.register a
  return (index, { s with registries := s.registries.set place registry })

/-- The number of a snapshot of the registry of a handle. -/
def snapshot? (s : SharedRegistries α) (handle : Nat) : Option (Nat × SharedRegistries α) := do
  let registry ← s.registry? handle
  return (s.snapshots.length, { s with snapshots := s.snapshots ++ [registry] })

/-- The index of a value that is registered in a snapshot. -/
def registerSnapshot? (s : SharedRegistries α) (snapshot : Nat) (a : α) : Option (Nat × SharedRegistries α) := do
  let registry ← s.snapshots[snapshot]?
  let (index, registry) := registry.register a
  return (index, { s with snapshots := s.snapshots.set snapshot registry })

/-- How many values each handle sees. -/
def sizes (s : SharedRegistries α) : List Nat :=
  s.handles.map fun place => (s.registries[place]?.map Registry.size).getD 0

end SharedRegistries

end CellFormat
