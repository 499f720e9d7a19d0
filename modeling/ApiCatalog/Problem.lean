/-!
# Problems

What can be wrong with a text, a declaration, a catalog or a question to one. A problem tells
its kind and, where it is known, the place: the source, the line and column in it, and the
declaration concerned. References that lead nowhere and members that do not fit together are
warnings, since the catalog remains usable; everything else is an error.

Main definitions: `Problem.message`, the text of a problem; `Problem.severity`.
-/

namespace ApiCatalog

/-- How grave a problem is. -/
inductive Severity
  | warning
  | error
  deriving DecidableEq, Repr

/-- The word for the gravity of a problem. -/
def Severity.name : Severity → String
  | .warning => "warning"
  | .error => "error"

/-- The part of a declaration that holds a reference. -/
inductive ReferencePlace
  | parent
  | capability
  | replacement
  | augmentTarget
  | mutatedProperty
  deriving DecidableEq, Repr

/-- The words for the part of a declaration that holds a reference. -/
def ReferencePlace.name : ReferencePlace → String
  | .parent => "parent"
  | .capability => "capability"
  | .replacement => "replacement"
  | .augmentTarget => "augment target"
  | .mutatedProperty => "mutated property"

namespace Problem

/-- What is wrong. -/
inductive Kind
  /-- A text cannot be read, or a form is no declaration; with the line of the text. -/
  | malformed (message : String) (line column : UInt32) (sourceLine : String)
  /-- A reference names nothing that is declared. -/
  | unresolvedReference (holder reference : String) (place : ReferencePlace)
  /-- Following the parents from a type comes back to a type met before. -/
  | cyclicInheritance (type : String) (path : List String)
  /-- A type declares a member twice. -/
  | duplicateMember (owner member : String)
  /-- Two declarations have the same name. -/
  | duplicateDeclaration (name : String)
  /-- An enumeration lists a symbol twice. -/
  | duplicateEnumValue (enum symbol : String)
  /-- A member does not fit in the place of the one that it shadows. -/
  | invalidOverride (owner member ancestor reason : String)
  /-- A method changes a property that cannot be assigned. -/
  | readOnlyMutation (owner method property : String)
  /-- A type expression names a type that is not declared. -/
  | unknownTypeReference (holder name : String)
  /-- No type has the name. -/
  | typeNotFound (name : String)
  /-- No enumeration has the name. -/
  | enumNotFound (name : String)
  /-- Neither the type nor what it inherits from declares the member. -/
  | memberNotFound (type member : String)
  /-- The enumeration lacks the symbol. -/
  | enumValueNotFound (enum symbol : String)
  /-- Bytes are no snapshot. -/
  | serialization (detail : String)
  /-- A file cannot be read or written. -/
  | io (detail : String)
  deriving DecidableEq, Repr

/-- Where something is wrong. -/
structure Context where
  source : Option String := none
  line : Option UInt32 := none
  column : Option UInt32 := none
  declaration : Option String := none
  deriving DecidableEq, Repr

end Problem

/-- Something wrong, and where. -/
structure Problem where
  kind : Problem.Kind
  context : Option Problem.Context := none
  deriving DecidableEq, Repr

namespace Problem

/-- The text of a kind of problem. -/
def Kind.message : Kind → String
  | .malformed message line column _ =>
    "parse error at " ++ toString line ++ ":" ++ toString column ++ ": " ++ message
  | .unresolvedReference holder reference place =>
    "unresolved " ++ place.name ++ " `" ++ reference ++ "` in " ++ holder
  | .cyclicInheritance type path =>
    "cyclic inheritance for " ++ type ++ ": " ++ " -> ".intercalate path
  | .duplicateMember owner member => "duplicate member " ++ member ++ " on " ++ owner
  | .duplicateDeclaration name => "duplicate declaration " ++ name
  | .duplicateEnumValue enum symbol => "duplicate value " ++ symbol ++ " in enum " ++ enum
  | .invalidOverride owner member ancestor reason =>
    owner ++ "/" ++ member ++ " overrides " ++ ancestor ++ "/" ++ member ++ " incompatibly: " ++
      reason
  | .readOnlyMutation owner method property =>
    owner ++ "/" ++ method ++ " mutates read-only property " ++ property
  | .unknownTypeReference holder name => "unknown type " ++ name ++ " referenced from " ++ holder
  | .typeNotFound name => "type not found: " ++ name
  | .enumNotFound name => "enum not found: " ++ name
  | .memberNotFound type member => "member not found: " ++ type ++ "/" ++ member
  | .enumValueNotFound enum symbol => "enum value not found: " ++ enum ++ "." ++ symbol
  | .serialization detail => "serialization error: " ++ detail
  | .io detail => "I/O error: " ++ detail

/-- The gravity of a kind of problem. -/
def Kind.severity : Kind → Severity
  | .unresolvedReference .. | .invalidOverride .. | .readOnlyMutation ..
  | .unknownTypeReference .. => .warning
  | _ => .error

/-- The text of a problem, without its place. -/
def message (p : Problem) : String := p.kind.message

/-- The gravity of a problem. -/
def severity (p : Problem) : Severity := p.kind.severity

/-- Whether the problem is only a warning. -/
def isWarning (p : Problem) : Bool := p.severity == .warning

/-- Whether the problem is that a question to a catalog has no answer. -/
def isUnanswered (p : Problem) : Bool :=
  match p.kind with
  | .typeNotFound _ | .enumNotFound _ | .memberNotFound .. | .enumValueNotFound .. => true
  | _ => false

/-! ### The place of a problem -/

/-- The text of a place: the source with line and column, then the declaration. The line and
column are shown only behind a source. -/
def Context.text (c : Context) : String :=
  let place := match c.source, c.line, c.column with
    | some source, some line, some column =>
      "at " ++ source ++ ":" ++ toString line ++ ":" ++ toString column
    | some source, _, _ => "at " ++ source
    | none, _, _ => ""
  let declaration := match c.declaration with
    | some name => "in " ++ name
    | none => ""
  if c.source.isSome && c.declaration.isSome then place ++ " " ++ declaration
  else place ++ declaration

/-- The problem at the given place. -/
def withContext (p : Problem) (c : Context) : Problem := { p with context := some c }

/-- The problem in the given source, whatever else is known of its place. -/
def attributedTo (p : Problem) (source : String) : Problem :=
  p.withContext { p.context.getD {} with source := some source }

end Problem

end ApiCatalog
