import ApiCatalog.NameMap
import ApiCatalog.Text.Quoted

/-!
# Maps from names that keep the order of insertion

The order in which names came in is kept beside the values. A name whose value is replaced
keeps its place; one that is removed gives its place up. Whoever iterates meets the names
in that order and skips a name without a value, which only a map restored from foreign data
can have.
-/

namespace ApiCatalog

/-- A map from names that keeps the order of insertion. -/
structure OrderedMap (α : Type) where
  order : List String
  entries : NameMap α
  deriving DecidableEq

namespace OrderedMap

variable {α : Type}

/-- The map without names. -/
def empty : OrderedMap α := ⟨[], .empty⟩

instance : EmptyCollection (OrderedMap α) := ⟨empty⟩
instance : Inhabited (OrderedMap α) := ⟨empty⟩

/-- The number of names in order. -/
def size (m : OrderedMap α) : Nat := m.order.length

/-- Whether no name is in order. -/
def isEmpty (m : OrderedMap α) : Bool := m.order.isEmpty

/-- The value of a name. -/
def get? (m : OrderedMap α) (name : String) : Option α := m.entries.get? name

/-- Whether the name has a value. -/
def contains (m : OrderedMap α) (name : String) : Bool := m.entries.contains name

/-- The names in order. -/
def keys (m : OrderedMap α) : List String := m.order

/-- The names with their values, in order. -/
def toList (m : OrderedMap α) : List (String × α) :=
  m.order.filterMap fun name => (m.entries.get? name).map (name, ·)

/-- The values in order. -/
def values (m : OrderedMap α) : List α := m.toList.map (·.2)

/-! ### Updates -/

/-- Sets the name to the value. A new name goes to the end of the order. -/
def insert (m : OrderedMap α) (name : String) (value : α) : OrderedMap α :=
  ⟨if m.contains name then m.order else m.order ++ [name], m.entries.insert name value⟩

/-- Removes the name. -/
def erase (m : OrderedMap α) (name : String) : OrderedMap α :=
  if m.contains name then ⟨m.order.erase name, m.entries.erase name⟩ else m

/-- Changes the value of a name, if it has one. -/
def modify (m : OrderedMap α) (name : String) (f : α → α) : OrderedMap α :=
  match m.get? name with
  | none => m
  | some value => ⟨m.order, m.entries.insert name (f value)⟩

/-- The map of a list of entries, inserted one after the other. -/
def ofList (entries : List (String × α)) : OrderedMap α :=
  entries.foldl (fun m e => m.insert e.1 e.2) empty

/-! ### What an update does to each name and to the order -/

@[simp] theorem get?_empty (name : String) : (empty : OrderedMap α).get? name = none := rfl

theorem get?_insert (m : OrderedMap α) (name other : String) (value : α) :
    (m.insert name value).get? other = if other = name then some value else m.get? other :=
  NameMap.get?_insert m.entries name other value

theorem get?_erase (m : OrderedMap α) (name other : String) :
    (m.erase name).get? other = if other = name then none else m.get? other := by
  unfold erase
  split <;> rename_i present
  · exact NameMap.get?_erase m.entries name other
  · split <;> rename_i same
    · subst same
      simpa [contains, NameMap.contains, get?] using present
    · rfl

/-- A new name goes to the end and a known one stays where it is. -/
theorem keys_insert (m : OrderedMap α) (name : String) (value : α) :
    (m.insert name value).keys = if m.contains name then m.keys else m.keys ++ [name] := rfl

@[simp] theorem keys_modify (m : OrderedMap α) (name : String) (f : α → α) :
    (m.modify name f).keys = m.keys := by
  unfold modify
  split <;> rfl

/-! ### Updates that tell the value before -/

/-- Sets the name to the value and tells the value it had. -/
def replace (m : OrderedMap α) (name : String) (value : α) : Option α × OrderedMap α :=
  (m.get? name, m.insert name value)

/-- Removes the name and tells the value it had. -/
def remove (m : OrderedMap α) (name : String) : Option α × OrderedMap α :=
  (m.get? name, m.erase name)

/-- Overwrites the value of a name that has one, and tells the value it had. -/
def overwrite (m : OrderedMap α) (name : String) (value : α) : Option α × OrderedMap α :=
  (m.get? name, m.modify name fun _ => value)

/-! ### Text -/

/-- The entries in braces, each name quoted and followed by its value. -/
def text (m : OrderedMap α) (shown : α → String) : String :=
  "\x7b" ++ ", ".intercalate (m.toList.map fun e => Quoted.text e.1 ++ ": " ++ shown e.2) ++
    "\x7d"

end OrderedMap

end ApiCatalog
