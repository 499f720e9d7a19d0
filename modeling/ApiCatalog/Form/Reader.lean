import ApiCatalog.Form.Lexer
import ApiCatalog.Problem

/-!
# Reading forms from tokens

Reading keeps a stack of what has been begun: brackets that are open, with the items read so
far, and marks that discard the next form. One token makes one step on the stack. When the
stack is empty after a form is complete, that form stands at top level.

Strict reading stops at the first fault. Recovering reading notes the fault and goes on at
the next opening round bracket in the first column, where a declaration is taken to begin;
such a bracket inside another form is a fault of its own, so that a bracket left open does
not swallow the declarations behind it.

Main definitions: `Stack.step`, `readForm`, `readForms`, `Recovery.feed` and `recover`.
-/

namespace ApiCatalog

/-- Why tokens cannot be read as forms. -/
inductive ReadFault
  | unexpectedEnd
  | lexical (fault : LexicalFault)
  | unexpectedClosing (bracket : Bracket)
  | unterminated (bracket : Bracket)
  | oddMap
  | nothingToDiscard
  | nextDeclaration
  deriving DecidableEq, Repr

/-- The text of a fault in reading. -/
def ReadFault.message : ReadFault → String
  | .unexpectedEnd => "unexpected end of input"
  | .lexical fault => fault.message
  | .unexpectedClosing b => "unexpected " ++ (TokenKind.closing b).name
  | .unterminated b => "unterminated " ++ b.sort.name
  | .oddMap => "map must have even number of elements"
  | .nothingToDiscard => "expected form after #_"
  | .nextDeclaration => "unterminated form before next declaration"

/-- Whether the token at which the fault shows has been read. The bracket that closes a map
has, before the items are counted; any other token is still to come. -/
def ReadFault.isBehind : ReadFault → Bool
  | .oddMap => true
  | _ => false

/-! ### Steps on a stack -/

/-- Something begun: an open bracket with its items so far, the latest first, or a mark that
discards the next form. -/
inductive Frame
  | items (bracket : Bracket) (start : Span) (read : List Form)
  | discard (mark : Span)

/-- What has been begun, the innermost first. -/
abbrev Stack := List Frame

/-- What a token leads to. -/
inductive Step
  /-- Nothing is complete at top level. -/
  | more (stack : Stack)
  /-- A form at top level is complete. -/
  | done (form : Form)
  /-- Reading fails at the span, with the stack still begun. -/
  | failed (fault : ReadFault) (span : Span) (stack : Stack)

namespace Stack

/-- The number of open brackets. -/
def depth (stack : Stack) : Nat :=
  stack.countP fun
    | .items .. => true
    | .discard _ => false

/-- Puts a complete form in its place: the innermost open bracket takes it, or a mark
discards it. -/
def accept (form : Form) : Stack → Step
  | [] => .done form
  | .items bracket start read :: outer => .more (.items bracket start (form :: read) :: outer)
  | .discard _ :: outer => .more outer

/-- Closes the innermost open bracket. -/
def close (bracket : Bracket) (span : Span) : Stack → Step
  | .items opened start read :: outer =>
    if opened ≠ bracket then .failed (.unexpectedClosing bracket) span
      (.items opened start read :: outer)
    else if bracket = .curly ∧ read.length % 2 = 1 then .failed .oddMap start outer
    else accept (.seq bracket read.reverse (start.through span)) outer
  | .discard mark :: outer => .failed .nothingToDiscard mark (.discard mark :: outer)
  | [] => .failed (.unexpectedClosing bracket) span []

/-- Takes one token. -/
def step (stack : Stack) (t : Token) : Step :=
  match t.kind with
  | .comment _ => .more stack
  | .discard => .more (.discard t.span :: stack)
  | .opening bracket => .more (.items bracket t.span [] :: stack)
  | .atom a => stack.accept (.atom a t.span)
  | .closing bracket => stack.close bracket t.span
  | .fault f => .failed (.lexical f) t.span stack

/-- The fault of a text that ends here, given the span of its end. -/
def endFault (stop : Span) : Stack → ReadFault × Span
  | [] => (.unexpectedEnd, stop)
  | .items bracket start _ :: _ => (.unterminated bracket, start)
  | .discard mark :: _ => (.nothingToDiscard, mark)

end Stack

/-! ### Strict reading -/

/-- How reading failed: the fault, where it shows, the tokens still to come, and the number of
brackets left open. -/
structure ReadFailure where
  fault : ReadFault
  span : Span
  rest : List Token
  depth : Nat

/-- The failure of a text that ends with the stack begun. -/
def ReadFailure.atEnd (stop : Span) (stack : Stack) : ReadFailure :=
  ⟨(stack.endFault stop).1, (stack.endFault stop).2, [], stack.depth⟩

/-- The failure of a step at the token `t` before the tokens `ts`. -/
def ReadFailure.atToken (fault : ReadFault) (span : Span) (stack : Stack) (t : Token)
    (ts : List Token) : ReadFailure :=
  ⟨fault, span, if fault.isBehind then ts else t :: ts, stack.depth⟩

/-- The next form at top level, and the tokens behind it. -/
def readForm (stop : Span) (stack : Stack) : List Token → Except ReadFailure (Form × List Token)
  | [] => .error (.atEnd stop stack)
  | t :: ts =>
    match stack.step t with
    | .more stack => readForm stop stack ts
    | .done form => .ok (form, ts)
    | .failed fault span stack => .error (.atToken fault span stack t ts)

/-- All forms at top level. -/
def readForms (stop : Span) (stack : Stack) : List Token → Except ReadFailure (List Form)
  | [] => if stack.isEmpty then .ok [] else .error (.atEnd stop stack)
  | t :: ts =>
    match stack.step t with
    | .more stack => readForms stop stack ts
    | .done form => (readForms stop [] ts).map (form :: ·)
    | .failed fault span stack => .error (.atToken fault span stack t ts)

/-! ### Recovering reading -/

/-- What recovering reading is doing. -/
inductive RecoveryMode
  /-- It reads forms. Brackets that an earlier reading left open count as open until the first
  form at top level is complete. -/
  | reading (leftOpen : Nat) (stack : Stack)
  /-- It looks for the next declaration. -/
  | skipping

/-- The forms and faults met so far, the latest first. -/
structure Recovery where
  forms : List Form
  faults : List (ReadFault × Span)
  mode : RecoveryMode

namespace Recovery

/-- Nothing met yet. -/
def start (leftOpen : Nat) : Recovery := ⟨[], [], .reading leftOpen []⟩

/-- Begins a declaration at its opening bracket. -/
def beginAt (r : Recovery) (t : Token) : Recovery :=
  { r with mode := .reading 0 [.items .round t.span []] }

/-- Notes a fault. -/
def note (r : Recovery) (fault : ReadFault) (span : Span) : Recovery :=
  { r with faults := (fault, span) :: r.faults, mode := .skipping }

/-- Takes one token. -/
def feed (r : Recovery) (t : Token) : Recovery :=
  match r.mode with
  | .skipping => if t.beginsDeclaration then r.beginAt t else r
  | .reading leftOpen stack =>
    if t.beginsDeclaration && !stack.isEmpty && 0 < leftOpen + stack.depth then
      (r.note .nextDeclaration t.span).beginAt t
    else
      match stack.step t with
      | .more stack => { r with mode := .reading leftOpen stack }
      | .done form => { r with forms := form :: r.forms, mode := .reading 0 [] }
      | .failed fault span _ => r.note fault span

/-- Ends the text. -/
def finish (r : Recovery) (stop : Span) : Recovery :=
  match r.mode with
  | .skipping => r
  | .reading _ stack =>
    if stack.isEmpty then r else r.note (stack.endFault stop).1 (stack.endFault stop).2

end Recovery

/-- All forms at top level and all faults, in order. -/
def recover (stop : Span) (leftOpen : Nat) (tokens : List Token) :
    List Form × List (ReadFault × Span) :=
  let r := (tokens.foldl Recovery.feed (.start leftOpen)).finish stop
  (r.forms.reverse, r.faults.reverse)

/-! ### Reading a text -/

/-- A text in the course of being read. -/
structure Reader where
  source : List Char
  stop : Span
  rest : List Token
  leftOpen : Nat

namespace Reader

/-- A text of which nothing has been read. -/
def ofText (source : List Char) : Reader :=
  let lexed := lex source
  ⟨source, lexed.stop, lexed.tokens, 0⟩

/-- The problem that a fault at a span is. -/
def problem (r : Reader) (fault : ReadFault) (span : Span) : Problem :=
  ⟨.malformed fault.message span.line span.column (String.ofList (span.sourceLine r.source)), none⟩

/-- The reader behind a failure. -/
def failed (r : Reader) (failure : ReadFailure) : Reader :=
  { r with rest := failure.rest, leftOpen := r.leftOpen + failure.depth }

/-- Reads the next form. -/
def next (r : Reader) : Except Problem Form × Reader :=
  match readForm r.stop [] r.rest with
  | .ok (form, rest) => (.ok form, { r with rest })
  | .error failure => (.error (r.problem failure.fault failure.span), r.failed failure)

/-- Reads all forms that are left, up to the first fault. -/
def all (r : Reader) : Except Problem (List Form) × Reader :=
  match readForms r.stop [] r.rest with
  | .ok forms => (.ok forms, { r with rest := [] })
  | .error failure => (.error (r.problem failure.fault failure.span), r.failed failure)

/-- Reads all forms that are left, and tells every fault. -/
def allRecovering (r : Reader) : (List Form × List Problem) × Reader :=
  let found := recover r.stop r.leftOpen r.rest
  ((found.1, found.2.map fun (fault, span) => r.problem fault span), { r with rest := [] })

end Reader

/-- The first form of a text. -/
def Form.first (source : List Char) : Except Problem Form := (Reader.ofText source).next.1

/-- The forms of a text, or the first fault in it. -/
def Form.all (source : List Char) : Except Problem (List Form) := (Reader.ofText source).all.1

/-- The forms of a text and the faults in it. -/
def Form.allRecovering (source : List Char) : List Form × List Problem :=
  (Reader.ofText source).allRecovering.1

end ApiCatalog
