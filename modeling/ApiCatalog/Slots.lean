import ApiCatalog.Loading

/-!
# Shared catalogs

Several users share one current catalog through a slot. A user holds a handle to the slot and
may take the current catalog, put another in its place, or load one; who took a catalog before
keeps it. A load that fails leaves the slot as it is.

Main definitions: `Slots.current?`, `Slots.replace`, `Slots.reload`.
-/

namespace ApiCatalog

/-- The catalogs in slots, and for each handle the number of its slot. -/
structure Slots where
  catalogs : List Catalog
  handles : List Nat

namespace Slots

/-- One slot with one handle. -/
def ofCatalog (c : Catalog) : Slots := ⟨[c], [0]⟩

/-- A new slot with a new handle; tells the number of the handle. -/
def add (s : Slots) (c : Catalog) : Nat × Slots :=
  (s.handles.length, ⟨s.catalogs ++ [c], s.handles ++ [s.catalogs.length]⟩)

/-- A new handle to the slot of a handle; tells its number. -/
def share (s : Slots) (handle : Nat) : Option (Nat × Slots) :=
  s.handles[handle]?.map fun slot => (s.handles.length, { s with handles := s.handles ++ [slot] })

/-- The current catalog of a handle. -/
def current? (s : Slots) (handle : Nat) : Option Catalog :=
  s.handles[handle]?.bind (s.catalogs[·]?)

/-- Puts a catalog in the slot of a handle; tells the one that was there. -/
def replace (s : Slots) (handle : Nat) (c : Catalog) : Option (Catalog × Slots) := do
  let slot ← s.handles[handle]?
  let previous ← s.catalogs[slot]?
  some (previous, { s with catalogs := s.catalogs.set slot c })

/-- Loads a catalog and puts it in the slot of a handle; tells the catalog that was loaded, or
why it is not usable. -/
def reload (s : Slots) (handle : Nat) (settings : LoadSettings) (sources : List Source) :
    Option (Except (List Problem) Catalog × Slots) :=
  match (load settings sources).result with
  | .error problems => some (.error problems, s)
  | .ok c => (s.replace handle c).map fun (_, s) => (.ok c, s)

/-- The current catalogs of all handles. -/
def currents (s : Slots) : List Catalog :=
  (List.range s.handles.length).filterMap s.current?

end Slots

end ApiCatalog
