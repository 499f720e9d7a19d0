/-!
# Blank characters

The characters with the property White_Space of the Unicode Character Database. The list has
not changed since version 6.3.
-/

namespace ApiCatalog

/-- The white-space characters in ascending order. -/
def whiteSpace : List Char :=
  ['\x09', '\x0a', '\x0b', '\x0c', '\x0d', ' ', '\u0085', '\u00a0', '\u1680', '\u2000', '\u2001',
    '\u2002', '\u2003', '\u2004', '\u2005', '\u2006', '\u2007', '\u2008', '\u2009', '\u200a',
    '\u2028', '\u2029', '\u202f', '\u205f', '\u3000']

/-- Whether the character separates tokens without being one: white space or a comma. -/
def isBlank (c : Char) : Bool :=
  c == ',' || whiteSpace.contains c

end ApiCatalog
