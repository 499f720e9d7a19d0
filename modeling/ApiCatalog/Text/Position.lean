/-!
# Positions and spans in a text

A position counts bytes from the start of the text, and lines and columns from one; a column
is a number of characters. Lines and columns are counted in 32 bits, and counting past the last
number of these goes round to zero. A span is the stretch of text between two positions together
with the line and column of its start.

Main statements: `Position.after_append`, by which positions are computed piece by piece.
-/

namespace ApiCatalog

/-- A place in a text: the bytes before it, its line and its column. -/
structure Position where
  offset : Nat
  line : UInt32
  column : UInt32
  deriving DecidableEq, Repr

namespace Position

/-- The position before the first character. -/
def start : Position := ⟨0, 1, 1⟩

/-- The position behind one more character. -/
def advance (p : Position) (c : Char) : Position :=
  if c = '\n' then ⟨p.offset + c.utf8Size, p.line + 1, 1⟩
  else ⟨p.offset + c.utf8Size, p.line, p.column + 1⟩

/-- The position behind a stretch of text. -/
def after (p : Position) (cs : List Char) : Position :=
  cs.foldl advance p

@[simp] theorem after_nil (p : Position) : p.after [] = p := rfl

@[simp] theorem after_cons (p : Position) (c : Char) (cs : List Char) :
    p.after (c :: cs) = (p.advance c).after cs := rfl

theorem after_append (p : Position) (cs ds : List Char) :
    p.after (cs ++ ds) = (p.after cs).after ds := by
  simp [after]

end Position

/-- A stretch of text: its byte offsets, the end exclusive, and where it starts. -/
structure Span where
  start : Nat
  stop : Nat
  line : UInt32
  column : UInt32
  deriving DecidableEq, Repr

namespace Span

/-- The span of what was not read from a text. -/
def unplaced : Span := ⟨0, 0, 0, 0⟩

/-- The empty span before the first character. -/
def initial : Span := ⟨0, 0, 1, 1⟩

/-- The span between two positions. -/
def between (p q : Position) : Span := ⟨p.offset, q.offset, p.line, p.column⟩

/-- The span from the start of one span to the end of another. -/
def through (s t : Span) : Span := ⟨s.start, t.stop, s.line, s.column⟩

/-- The number of bytes covered, unless the span ends before it starts. -/
def length? (s : Span) : Option Nat :=
  if s.start ≤ s.stop then some (s.stop - s.start) else none

/-- Whether the span covers nothing. -/
def isEmpty (s : Span) : Bool := s.start == s.stop

/-- Whether the span begins in the first column. -/
def isInFirstColumn (s : Span) : Bool := s.column == 1

end Span

/-! ### Text under a span -/

/-- The text from byte offset `n` on, provided a character begins or the text ends there. -/
def dropBytes : Nat → List Char → Option (List Char)
  | 0, cs => some cs
  | _ + 1, [] => none
  | n + 1, c :: cs => if c.utf8Size ≤ n + 1 then dropBytes (n + 1 - c.utf8Size) cs else none

/-- The first `n` bytes of a text, provided a character begins or the text ends there. -/
def takeBytes : Nat → List Char → Option (List Char)
  | 0, _ => some []
  | _ + 1, [] => none
  | n + 1, c :: cs =>
    if c.utf8Size ≤ n + 1 then (takeBytes (n + 1 - c.utf8Size) cs).map (c :: ·) else none

/-- The text that a span covers; empty if the span does not fit the text. -/
def Span.text (s : Span) (source : List Char) : List Char :=
  match s.length? with
  | none => []
  | some n => ((dropBytes s.start source).bind (takeBytes n)).getD []

/-- What follows the first `n` line ends. -/
def dropLines : Nat → List Char → List Char
  | 0, cs => cs
  | n + 1, cs => dropLines n ((cs.dropWhile (· ≠ '\n')).drop 1)

/-- The first line, without its line end: a line feed, with or without a carriage return
before it. -/
def firstLine (cs : List Char) : List Char :=
  let line := cs.takeWhile (· ≠ '\n')
  if line.length < cs.length && line.getLast? == some '\r' then line.dropLast else line

/-- The line on which the span starts; empty if the text has no such line. -/
def Span.sourceLine (s : Span) (source : List Char) : List Char :=
  firstLine (dropLines (s.line.toNat - 1) source)

end ApiCatalog
