import ApiCatalog.Form.Basic

/-!
# Tokens

The pieces that a text is divided into: brackets, atoms, comments, the mark that discards the
next form, and stretches that are none of these, with the fault found in them.
-/

namespace ApiCatalog

/-- Why a stretch of text is no token. -/
inductive LexicalFault
  | unexpectedCharacter (c : Char)
  | unknownMark (c : Char)
  | unfinishedMark
  | namelessKeyword
  | unknownEscape (c : Char)
  | unfinishedEscape
  | unterminatedString
  | integerOverflow (overflow : Integer.Overflow)
  deriving DecidableEq, Repr

/-- The text of a lexical fault. -/
def LexicalFault.message : LexicalFault → String
  | .unexpectedCharacter c => "unexpected character: " ++ c.toString
  | .unknownMark c => "unexpected character after #: " ++ c.toString
  | .unfinishedMark => "unexpected end of input after #"
  | .namelessKeyword => "expected keyword name after ':'"
  | .unknownEscape c => "invalid escape sequence: \\" ++ c.toString
  | .unfinishedEscape => "unexpected end of input in string escape"
  | .unterminatedString => "unterminated string literal"
  | .integerOverflow .tooLarge => "invalid integer: number too large to fit in target type"
  | .integerOverflow .tooSmall => "invalid integer: number too small to fit in target type"

/-- What a token is. -/
inductive TokenKind
  | opening (bracket : Bracket)
  | closing (bracket : Bracket)
  | atom (value : Atom)
  | comment (text : String)
  | discard
  | fault (fault : LexicalFault)
  deriving DecidableEq

/-- The word for an atom. -/
def Atom.tokenName : Atom → String
  | .bool true => "true"
  | .bool false => "false"
  | .int _ => "integer"
  | .float _ => "float"
  | .string _ => "string"
  | .symbol _ => "symbol"
  | .keyword _ => "keyword"

/-- The word for a kind of tokens; brackets are shown between apostrophes. -/
def TokenKind.name : TokenKind → String
  | .opening b => "'" ++ b.opening.toString ++ "'"
  | .closing b => "'" ++ b.closing.toString ++ "'"
  | .atom a => a.tokenName
  | .comment _ => "comment"
  | .discard => "ignore"
  | .fault _ => "error"

/-- A token and the span of text it was found in. -/
structure Token where
  kind : TokenKind
  span : Span
  deriving DecidableEq

namespace Token

/-- Whether reading passes over the token. -/
def isPassedOver (t : Token) : Bool :=
  match t.kind with
  | .comment _ => true
  | _ => false

/-- Whether the token opens a bracket. -/
def isOpening (t : Token) : Bool :=
  match t.kind with
  | .opening _ => true
  | _ => false

/-- Whether the token closes a bracket. -/
def isClosing (t : Token) : Bool :=
  match t.kind with
  | .closing _ => true
  | _ => false

/-- Whether a declaration can begin with the token: an opening round bracket in the first
column. -/
def beginsDeclaration (t : Token) : Bool :=
  t.kind == .opening .round && t.span.isInFirstColumn

end Token

end ApiCatalog
