import ApiCatalog.Text.Printable

/-!
# Quoted text

A text between double quotes, as shown to a reader: the quotation mark, the backslash and the
common controls have short escapes, any other character that cannot be shown is written
by its code point in hexadecimal, and the rest stand for themselves.
-/

namespace ApiCatalog.Quoted

/-- Writes one character of a quoted text. -/
def char (c : Char) : List Char :=
  match c with
  | '\x00' => ['\\', '0']
  | '\t' => ['\\', 't']
  | '\r' => ['\\', 'r']
  | '\n' => ['\\', 'n']
  | '\\' => ['\\', '\\']
  | '"' => ['\\', '"']
  | c =>
    if isPrintable c then [c]
    else ['\\', 'u', '\x7b'] ++ Nat.toDigits 16 c.toNat ++ ['\x7d']

/-- Writes a text between quotation marks. -/
def text (s : String) : String :=
  String.ofList ('"' :: s.toList.flatMap char ++ ['"'])

end ApiCatalog.Quoted
