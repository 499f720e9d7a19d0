import ApiCatalog.Form.Basic
import ApiCatalog.Number.Shortest

/-!
# Printing a form on one line

Items stand between their brackets with one blank between them, and atoms are written so
that they read back: strings with escapes, keywords with their colon, and floating-point
numbers with a point even if no digits but zero follow it.
-/

namespace ApiCatalog

/-- Writes one character of a string. -/
def escape (c : Char) : List Char :=
  match c with
  | '"' => ['\\', '"']
  | '\\' => ['\\', '\\']
  | '\n' => ['\\', 'n']
  | '\r' => ['\\', 'r']
  | '\t' => ['\\', 't']
  | c => [c]

/-- The text of a floating-point number as an atom. -/
def Binary64.literal (x : Binary64) : List Char :=
  if x.text.contains '.' then x.text else x.text ++ ['.', '0']

/-- The text of an atom. -/
def Atom.print : Atom → List Char
  | .bool true => "true".toList
  | .bool false => "false".toList
  | .int n => Integer.text n
  | .float x => x.literal
  | .string s => '"' :: s.toList.flatMap escape ++ ['"']
  | .symbol name => name.toList
  | .keyword name => ':' :: name.toList

namespace Form

mutual

/-- The text of a form on one line. -/
def print : Form → List Char
  | .atom a _ => a.print
  | .seq bracket items _ => bracket.opening :: printItems items ++ [bracket.closing]

/-- The texts of forms on one line, with a blank between any two. -/
def printItems : List Form → List Char
  | [] => []
  | [item] => item.print
  | item :: next :: rest => item.print ++ ' ' :: printItems (next :: rest)

end

/-- The text of a form on one line. -/
def text (f : Form) : String := String.ofList f.print

/-- The texts of forms, each on a line of its own. -/
def textLines (forms : List Form) : String := "\n".intercalate (forms.map text)

end Form

end ApiCatalog
