import ApiCatalog.Number.Integer
import ApiCatalog.Number.Binary64
import ApiCatalog.Text.Position

/-!
# Forms

A form is an atom or a bracketed sequence of forms: a list in round, a vector in square, a map
in curly brackets. The items of a map alternate between keys and values. Every form carries
the span of text that it was read from.
-/

namespace ApiCatalog

/-- The kinds of brackets. -/
inductive Bracket
  | round
  | square
  | curly
  deriving DecidableEq, Repr

namespace Bracket

/-- The character that opens the bracket. -/
def opening : Bracket → Char
  | .round => '('
  | .square => '['
  | .curly => '\x7b'

/-- The character that closes the bracket. -/
def closing : Bracket → Char
  | .round => ')'
  | .square => ']'
  | .curly => '\x7d'

end Bracket

/-- A form without parts. A keyword is named without its colon. -/
inductive Atom
  | bool (value : Bool)
  | int (value : Int64)
  | float (value : Binary64)
  | string (value : String)
  | symbol (name : String)
  | keyword (name : String)
  deriving DecidableEq

/-- An atom or a bracketed sequence, and the span it was read from. -/
inductive Form
  | atom (value : Atom) (span : Span)
  | seq (bracket : Bracket) (items : List Form) (span : Span)

/-- The sorts of forms. -/
inductive FormSort
  | bool
  | int
  | float
  | string
  | symbol
  | keyword
  | list
  | vector
  | map
  deriving DecidableEq, Repr

/-- The word for a sort of forms. -/
def FormSort.name : FormSort → String
  | .bool => "bool"
  | .int => "int"
  | .float => "float"
  | .string => "string"
  | .symbol => "symbol"
  | .keyword => "keyword"
  | .list => "list"
  | .vector => "vector"
  | .map => "map"

/-- The sort of an atom. -/
def Atom.sort : Atom → FormSort
  | .bool _ => .bool
  | .int _ => .int
  | .float _ => .float
  | .string _ => .string
  | .symbol _ => .symbol
  | .keyword _ => .keyword

/-- The sort of a bracketed sequence. -/
def Bracket.sort : Bracket → FormSort
  | .round => .list
  | .square => .vector
  | .curly => .map

/-- Pairs the items of a list, the first with the second and so on. A last item without a
partner is dropped. -/
def pairs {α : Type} : List α → List (α × α)
  | a :: b :: rest => (a, b) :: pairs rest
  | _ => []

theorem mem_of_mem_pairs {α : Type} {xs : List α} {e : α × α} (h : e ∈ pairs xs) :
    e.1 ∈ xs ∧ e.2 ∈ xs := by
  fun_induction pairs xs with
  | case1 a b rest ih =>
    rcases List.mem_cons.1 h with rfl | h
    · simp
    · simp [ih h]
  | case2 => cases h

/-- Entries whose keys and values alternate are paired again. -/
@[simp] theorem pairs_flatMap {α : Type} (es : List (α × α)) :
    pairs (es.flatMap fun e => [e.1, e.2]) = es := by
  induction es with
  | nil => rfl
  | cons e es ih => simp [pairs, ih]

namespace Form

/-- The span that the form was read from. -/
def span : Form → Span
  | .atom _ s => s
  | .seq _ _ s => s

/-- The sort of the form. -/
def sort : Form → FormSort
  | .atom a _ => a.sort
  | .seq b _ _ => b.sort

/-! ### Views of a form of one sort -/

/-- The truth value of a form that is one. -/
def bool? : Form → Option Bool
  | .atom (.bool b) _ => some b
  | _ => none

/-- The integer of a form that is one. -/
def int? : Form → Option Int64
  | .atom (.int n) _ => some n
  | _ => none

/-- The text of a form that is a string. -/
def string? : Form → Option String
  | .atom (.string s) _ => some s
  | _ => none

/-- The name of a form that is a symbol. -/
def symbol? : Form → Option String
  | .atom (.symbol s) _ => some s
  | _ => none

/-- The name of a form that is a keyword. -/
def keyword? : Form → Option String
  | .atom (.keyword s) _ => some s
  | _ => none

/-- The items of a form that is a list. -/
def list? : Form → Option (List Form)
  | .seq .round items _ => some items
  | _ => none

/-- The items of a form that is a vector. -/
def vector? : Form → Option (List Form)
  | .seq .square items _ => some items
  | _ => none

/-- The entries of a form that is a map. -/
def map? : Form → Option (List (Form × Form))
  | .seq .curly items _ => some (pairs items)
  | _ => none

/-- Whether the form is a list. -/
def isList (f : Form) : Bool := f.list?.isSome

/-- Whether the form is a keyword. -/
def isKeyword (f : Form) : Bool := f.keyword?.isSome

/-- The symbol that a list begins with. -/
def head? (f : Form) : Option String := f.list?.bind fun items => items.head?.bind symbol?

/-! ### Forms that were not read from a text -/

/-- The atom without a place in a text. -/
def ofAtom (a : Atom) : Form := .atom a .unplaced

/-- The symbol of a name. -/
def symbol (name : String) : Form := ofAtom (.symbol name)

/-- The keyword of a name. -/
def keyword (name : String) : Form := ofAtom (.keyword name)

/-- The string of a text. -/
def string (text : String) : Form := ofAtom (.string text)

/-- The list of the items. -/
def list (items : List Form) : Form := .seq .round items .unplaced

/-- The vector of the items. -/
def vector (items : List Form) : Form := .seq .square items .unplaced

/-- The map of the entries. -/
def map (entries : List (Form × Form)) : Form :=
  .seq .curly (entries.flatMap fun e => [e.1, e.2]) .unplaced

end Form

end ApiCatalog
