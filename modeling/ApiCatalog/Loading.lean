import ApiCatalog.Catalog.Validation
import ApiCatalog.Declaration.OfForm

/-!
# Loading a catalog from sources

All sources are read first, and their declarations collected by name; of two with the same
name the settings say which is kept. Then augmentations are added to their targets, wherever
they stand, and the catalog is built and validated. A fault costs the declaration it is in
and no other, and every problem is told in the order in which it is found.

Main definitions: `Collected.add`, `Collected.collect`, `load`, `Loaded.result`.
-/

namespace ApiCatalog

/-- Which of two declarations with the same name is kept. -/
inductive Precedence
  | keepFirst
  | keepLast
  deriving DecidableEq, Repr

/-- How sources are made into a catalog. -/
structure LoadSettings where
  duplicates : Precedence := .keepFirst
  /-- Whether names in type expressions have to be declared. -/
  checkNames : Bool := false
  /-- Whether warnings make a load fail. -/
  isStrict : Bool := false
  deriving DecidableEq, Repr

namespace LoadSettings

/-- Names in type expressions have to be declared, and warnings make a load fail. -/
def strict : LoadSettings := ⟨.keepFirst, true, true⟩

/-- The last declaration of a name is kept, and nothing else is asked. -/
def lenient : LoadSettings := ⟨.keepLast, false, false⟩

end LoadSettings

/-- A named text. -/
structure Source where
  name : String
  text : String
  deriving DecidableEq, Repr

/-- Where a declaration was read. -/
structure Origin where
  source : String
  span : Span
  deriving DecidableEq, Repr

/-- The place of a declaration. -/
def Origin.context (o : Origin) (declaration : String) : Problem.Context :=
  ⟨some o.source, some o.span.line, some o.span.column, some declaration⟩

/-- The problem of a form in a source, placed at its line and column. The line of the text is
filled in if it is missing. -/
def Source.locate (s : Source) (p : Problem) (declaration : Option String) : Problem :=
  match p.kind with
  | .malformed message line column sourceLine =>
    let sourceLine := if sourceLine.isEmpty then
        String.ofList (Span.sourceLine ⟨0, 0, line, column⟩ s.text.toList)
      else sourceLine
    ⟨.malformed message line column sourceLine,
      some ⟨some s.name, some line, some column, declaration⟩⟩
  | kind => ⟨kind, some { source := some s.name, declaration }⟩

/-- The name that a form tries to declare. -/
def Form.intendedName? (f : Form) : Option String :=
  f.list?.bind fun items => items[1]?.bind Form.symbol?

/-! ### Collecting declarations -/

/-- What has been collected. -/
structure Collected where
  types : OrderedMap TypeDeclaration
  enums : OrderedMap Enumeration
  augmentations : List (Augmentation × Origin)
  origins : NameMap Origin
  problems : List Problem

namespace Collected

/-- Nothing. -/
def empty : Collected := ⟨.empty, .empty, [], .empty, []⟩

instance : EmptyCollection Collected := ⟨empty⟩

/-- Adds a problem. -/
def report (s : Collected) (p : Problem) : Collected := { s with problems := s.problems ++ [p] }

/-- Whether the name is declared. -/
def contains (s : Collected) (name : String) : Bool :=
  s.types.contains name || s.enums.contains name

/-- Takes the declaration of a name out. -/
def remove (s : Collected) (name : String) : Collected :=
  { s with types := s.types.erase name, enums := s.enums.erase name }

/-- Puts a declaration in under its name. -/
def put (s : Collected) (declaration : Declaration) (origin : Origin) : Collected :=
  match declaration with
  | .type d =>
    { s with types := s.types.insert d.name d, origins := s.origins.insert d.name origin }
  | .enum d =>
    { s with enums := s.enums.insert d.name d, origins := s.origins.insert d.name origin }
  | .augment a => { s with augmentations := s.augmentations ++ [(a, origin)] }

/-- The problem of a name that is declared again. -/
def duplicate (name : String) (origin : Origin) : Problem :=
  ⟨.duplicateDeclaration name, some (origin.context name)⟩

/-- Adds a declaration. One whose name is declared already is reported, and either ignored or
put in place of the other, behind all that are there. -/
def add (precedence : Precedence) (s : Collected) (declaration : Declaration)
    (origin : Origin) : Collected :=
  match declaration with
  | .augment a => s.put (.augment a) origin
  | declaration =>
    let name := declaration.name
    if s.contains name then
      let s := s.report (duplicate name origin)
      match precedence with
      | .keepFirst => s
      | .keepLast => (s.remove name).put declaration origin
    else s.put declaration origin

/-- Adds the declaration of a form, or the problem that it has none. -/
def addForm (precedence : Precedence) (source : Source) (s : Collected) (f : Form) :
    Collected :=
  match Declared.ofForm f with
  | .ok d => s.add precedence d.declaration ⟨source.name, d.span⟩
  | .error fault => s.report (source.locate fault.problem f.intendedName?)

/-- Adds the declarations and problems of a source. -/
def collect (precedence : Precedence) (s : Collected) (source : Source) : Collected :=
  let (forms, problems) := Form.allRecovering source.text.toList
  let s := problems.foldl (fun s p => s.report (source.locate p none)) s
  forms.foldl (addForm precedence source) s

/-! ### Building the catalog -/

/-- Adds the members of an augmentation to its target, or reports that there is no target. -/
def augment (s : Collected) (a : Augmentation) (origin : Origin) : Collected :=
  if s.types.contains a.target then
    { s with types := s.types.modify a.target (·.addMembers a.members) }
  else
    s.report ⟨.unresolvedReference ("augment " ++ a.target) a.target .augmentTarget,
      some (origin.context a.target)⟩

/-- Adds the members of all augmentations. -/
def augmentAll (s : Collected) : Collected :=
  s.augmentations.foldl (fun s e => s.augment e.1 e.2) s

/-- The problem with the place of the declaration that it names. -/
def place (s : Collected) (p : Problem) : Problem :=
  match (p.context.bind (·.declaration)).bind s.origins.get? with
  | none => p
  | some origin =>
    p.withContext { p.context.getD {} with
      source := some origin.source
      line := some origin.span.line
      column := some origin.span.column }

end Collected

/-! ### Loading -/

/-- A catalog and every problem found in loading it. -/
structure Loaded where
  catalog : Catalog
  diagnostics : List Problem
  isStrict : Bool

namespace Loaded

/-- The problems that are errors. -/
def errors (o : Loaded) : List Problem := o.diagnostics.filter (!·.isWarning)

/-- The problems that are warnings. -/
def warnings (o : Loaded) : List Problem := o.diagnostics.filter (·.isWarning)

/-- Whether there are errors. -/
def hasErrors (o : Loaded) : Bool := !o.errors.isEmpty

/-- Whether there are no problems at all. -/
def isClean (o : Loaded) : Bool := o.diagnostics.isEmpty

/-- The catalog, unless there are errors or, in a strict load, problems of any kind. -/
def result (o : Loaded) : Except (List Problem) Catalog :=
  if (if o.isStrict then !o.isClean else o.hasErrors) then .error o.diagnostics
  else .ok o.catalog

end Loaded

/-- Loads a catalog from sources. -/
def load (settings : LoadSettings) (sources : List Source) : Loaded :=
  let s := (sources.foldl (Collected.collect settings.duplicates) ∅).augmentAll
  let catalog := Catalog.ofMaps s.types s.enums
  let found := (catalog.problems settings.checkNames).map s.place
  ⟨catalog, s.problems ++ found, settings.isStrict⟩

/-- The name of a text that has no other. -/
def inputName : String := "<input>"

/-- Loads a catalog from one text. -/
def loadText (text : String) : Loaded := load {} [⟨inputName, text⟩]

end ApiCatalog
