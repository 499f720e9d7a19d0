import ApiCatalog.Form.Printer

/-!
# Laying a form out over lines

A declaration, which is a list whose head is a symbol ending in a colon, has its clauses on
lines of their own: up to the first keyword the items stay on the first line, and from there
on each keyword begins a line, indented from the declaration, with its value beside it. Of
the other forms, one that fits into the width is printed on one line, and a vector or map
that does not fit has each item or entry on its own line under the first.

Main definitions: `Form.layout`, `Form.document`.
-/

namespace ApiCatalog

/-- How far clauses are indented and how wide a line may be, as sizes of 64 bits. -/
structure LayoutStyle where
  indentWidth : UInt64 := 2
  maxWidth : UInt64 := 80
  deriving DecidableEq, Repr

/-- The column of the clauses of a declaration that begins in the given column. The sum is one of
64 bits, and goes round if it has more. -/
def LayoutStyle.indentFrom (style : LayoutStyle) (column : Nat) : Nat :=
  (UInt64.ofNat column + style.indentWidth).toNat

/-- The number of characters in the last line when a text follows a line of `column`
characters. -/
def columnAfter (column : Nat) (text : List Char) : Nat :=
  text.foldl (fun n c => if c = '\n' then 0 else n + 1) column

/-- A line end and the blanks before the given column. -/
def newLine (column : Nat) : List Char := '\n' :: List.replicate column ' '

namespace Form

/-- Whether the form is laid out as a declaration. -/
def isDeclaration (f : Form) : Bool :=
  match f.head? with
  | none => false
  | some head => 1 < head.utf8ByteSize && head.toList.getLast? == some ':'

/-- Whether the text of the form, measured in bytes, stays within the width. -/
def fits (style : LayoutStyle) (column : Nat) (f : Form) : Bool :=
  column + f.text.utf8ByteSize ≤ style.maxWidth.toNat

/-- What the items of a declaration so far allow next. -/
inductive ClauseState
  /-- Nothing has been written. -/
  | first
  /-- No keyword has been written. -/
  | positional
  /-- A value may stand beside what has been written. -/
  | value
  /-- A new line is due. -/
  | key
  deriving DecidableEq

mutual

/-- The text of a form that begins in a column. -/
def layout (style : LayoutStyle) (column : Nat) (f : Form) : List Char :=
  match f with
  | .atom a _ => a.print
  | .seq .round items span =>
    if (Form.seq .round items span).isDeclaration then
      '(' :: layoutClauses style (style.indentFrom column) .first (column + 1) items ++ [')']
    else (Form.seq .round items span).print
  | .seq .square items span =>
    if (Form.seq .square items span).fits style column then (Form.seq .square items span).print
    else '[' :: layoutItems style (column + 1) true items ++ [']']
  | .seq .curly items span =>
    if (Form.seq .curly items span).fits style column then (Form.seq .curly items span).print
    else '\x7b' :: layoutEntries style (column + 1) true items ++ ['\x7d']

/-- The items of a declaration. A keyword, and any item that is not the value of one, begins a
line at the indent; before the first keyword all items stay on one line. -/
def layoutClauses (style : LayoutStyle) (indent : Nat) (state : ClauseState) (column : Nat)
    (items : List Form) : List Char :=
  match items with
  | [] => []
  | item :: rest =>
    if item.isKeyword || state = .key then
      let text := newLine indent ++ item.print
      text ++ layoutClauses style indent .value (columnAfter column text) rest
    else
      let gap := if state = .first then [] else [' ']
      let text := gap ++ item.layout style (column + gap.length)
      let next := if state = .value then .key else .positional
      text ++ layoutClauses style indent next (columnAfter column text) rest

/-- The items of a vector, each on its own line. -/
def layoutItems (style : LayoutStyle) (column : Nat) (isFirst : Bool) (items : List Form) :
    List Char :=
  match items with
  | [] => []
  | item :: rest =>
    (if isFirst then [] else newLine column) ++ item.layout style column ++
      layoutItems style column false rest

/-- The entries of a map, each on its own line. -/
def layoutEntries (style : LayoutStyle) (column : Nat) (isFirst : Bool) (items : List Form) :
    List Char :=
  match items with
  | [] => []
  | [key] => (if isFirst then [] else newLine column) ++ key.print
  | key :: value :: rest =>
    let text := (if isFirst then [] else newLine column) ++ key.print ++ [' ']
    text ++ value.layout style (columnAfter column text) ++ layoutEntries style column false rest

end

/-- The text of a form, laid out from the start of a line. -/
def laidOut (style : LayoutStyle) (f : Form) : String := String.ofList (f.layout style 0)

/-- The texts of forms, laid out with an empty line between any two, and a line end behind the
last. -/
def document (style : LayoutStyle) (forms : List Form) : String :=
  let text := "\n\n".intercalate (forms.map (laidOut style))
  if text.isEmpty then text else text ++ "\n"

end Form

end ApiCatalog
