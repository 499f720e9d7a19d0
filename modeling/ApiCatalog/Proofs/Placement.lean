import Mathlib.Data.List.Basic
import ApiCatalog.Declaration.OfForm

/-!
# Meaning does not depend on place

`Form.mapSpan g` changes the span of every form in a form, and nothing else. What a form denotes
is read off its atoms and brackets alone; a span only ends up in the fault that denies the form
a meaning. So changing the spans first and analysing then is the same as analysing first and
changing the span of the fault.

Main statements: `Declaration.ofForm?_mapSpan`, `Declared.ofForm_mapSpan`.
-/

namespace ApiCatalog

namespace Form

mutual

/-- The form with every span in it changed. -/
def mapSpan (g : Span → Span) : Form → Form
  | .atom a s => .atom a (g s)
  | .seq b items s => .seq b (mapSpans g items) (g s)

/-- The forms with every span in them changed. -/
def mapSpans (g : Span → Span) : List Form → List Form
  | [] => []
  | f :: fs => f.mapSpan g :: mapSpans g fs

end

@[simp] theorem mapSpans_eq_map (g : Span → Span) (fs : List Form) :
    mapSpans g fs = fs.map (mapSpan g) := by
  induction fs with
  | nil => rfl
  | cons f fs ih => rw [mapSpans, ih, List.map_cons]

@[simp] theorem mapSpan_atom (g : Span → Span) (a : Atom) (s : Span) :
    (Form.atom a s).mapSpan g = .atom a (g s) := rfl

@[simp] theorem mapSpan_seq (g : Span → Span) (b : Bracket) (items : List Form) (s : Span) :
    (Form.seq b items s).mapSpan g = .seq b (items.map (mapSpan g)) (g s) := by
  rw [mapSpan, mapSpans_eq_map]

mutual

theorem mapSpan_id_apply : ∀ f : Form, f.mapSpan id = f
  | .atom _ _ => rfl
  | .seq b items s => by rw [mapSpan, mapSpans_id_apply items, id]

theorem mapSpans_id_apply : ∀ fs : List Form, mapSpans id fs = fs
  | [] => rfl
  | f :: fs => by rw [mapSpans, mapSpan_id_apply f, mapSpans_id_apply fs]

end

@[simp] theorem mapSpan_id : mapSpan id = id := funext mapSpan_id_apply

/-! ### Views -/

section Views

variable (g : Span → Span) (f : Form)

@[simp] theorem span_mapSpan : (f.mapSpan g).span = g f.span := by cases f <;> rfl

@[simp] theorem sort_mapSpan : (f.mapSpan g).sort = f.sort := by cases f <;> rfl

@[simp] theorem symbol?_mapSpan : (f.mapSpan g).symbol? = f.symbol? := by
  rcases f with ⟨_ | _, _⟩ | _ <;> rfl

@[simp] theorem keyword?_mapSpan : (f.mapSpan g).keyword? = f.keyword? := by
  rcases f with ⟨_ | _, _⟩ | _ <;> rfl

@[simp] theorem string?_mapSpan : (f.mapSpan g).string? = f.string? := by
  rcases f with ⟨_ | _, _⟩ | _ <;> rfl

@[simp] theorem isKeyword_mapSpan : (f.mapSpan g).isKeyword = f.isKeyword := by simp [isKeyword]

@[simp] theorem list?_mapSpan : (f.mapSpan g).list? = f.list?.map (List.map (mapSpan g)) := by
  rcases f with _ | ⟨_ | _ | _, _, _⟩ <;> simp [list?]

@[simp] theorem vector?_mapSpan :
    (f.mapSpan g).vector? = f.vector?.map (List.map (mapSpan g)) := by
  rcases f with _ | ⟨_ | _ | _, _, _⟩ <;> simp [vector?]

theorem pairs_map (fs : List Form) :
    pairs (fs.map (mapSpan g)) = (pairs fs).map (Prod.map (mapSpan g) (mapSpan g)) := by
  fun_induction pairs fs with
  | case1 a b rest ih => simp [pairs, ih]
  | case2 fs short =>
    rcases fs with _ | ⟨a, _ | ⟨b, rest⟩⟩
    · rfl
    · rfl
    · exact (short a b rest rfl).elim

@[simp] theorem map?_mapSpan :
    (f.mapSpan g).map? = f.map?.map (List.map (Prod.map (mapSpan g) (mapSpan g))) := by
  rcases f with _ | ⟨_ | _ | _, _, _⟩ <;> simp [map?, pairs_map]

@[simp] theorem head?_mapSpan : (f.mapSpan g).head? = f.head? := by
  rcases f with _ | ⟨_ | _ | _, _ | ⟨_, _⟩, _⟩ <;> simp [head?, list?]

end Views

end Form

/-! ### Faults -/

/-- The fault with its span changed. -/
def FaultAt.mapSpan (g : Span → Span) (e : FaultAt) : FaultAt := ⟨e.fault, g e.span⟩

namespace Meaning

/-- The meaning, or the fault with its span changed. -/
def mapSpan {α : Type} (g : Span → Span) (m : Meaning α) : Meaning α :=
  Except.mapError (FaultAt.mapSpan g) m

variable {α β : Type} (g : Span → Span)

@[simp] theorem mapSpan_ok (a : α) : mapSpan g (.ok a) = .ok a := rfl

@[simp] theorem mapSpan_error (e : FaultAt) :
    mapSpan (α := α) g (.error e) = .error (e.mapSpan g) := rfl

/-- A fault at a form moves with the form. -/
@[simp] theorem reject_mapSpan (f : Form) (fault : FormFault) :
    (f.mapSpan g).reject fault = mapSpan (α := α) g (f.reject fault) := by
  simp [Form.reject, FaultAt.mapSpan]

@[simp] theorem mapSpan_bind (m : Meaning α) (k : α → Meaning β) :
    mapSpan g (m >>= k) = mapSpan g m >>= fun a => mapSpan g (k a) := by
  cases m <;> rfl

theorem mapSpan_eq_ok {m : Meaning α} {a : α} : mapSpan g m = .ok a ↔ m = .ok a := by
  cases m <;> simp

theorem mapSpan_mapM (k : β → Meaning α) (xs : List β) :
    mapSpan g (xs.mapM k) = xs.mapM fun x => mapSpan g (k x) := by
  induction xs with
  | nil => rfl
  | cons x xs ih => simp only [List.mapM_cons, mapSpan_bind, ih]; rfl

theorem mapSpan_foldlM (k : α → β → Meaning α) (xs : List β) (a : α) :
    mapSpan g (xs.foldlM k a) = xs.foldlM (fun a x => mapSpan g (k a x)) a := by
  induction xs generalizing a with
  | nil => rfl
  | cons x xs ih => simp only [List.foldlM_cons, mapSpan_bind, ih]

end Meaning

/-! ### Type expressions -/

namespace TypeExpr

theorem bufferKind?_mapSpan (g : Span → Span) (f : Form) :
    bufferKind? (f.mapSpan g) = bufferKind? f := by
  simp [bufferKind?]

mutual

@[simp] theorem ofForm_mapSpan (g : Span → Span) :
    ∀ f : Form, ofForm (f.mapSpan g) = (ofForm f).mapSpan g
  | .atom a s => by
    cases a with
    | symbol name => simp only [Form.mapSpan_atom, ofForm]; cases ofName name.toList <;> rfl
    | _ => rfl
  | .seq .square _ _ => by simp [ofForm, FaultAt.mapSpan]
  | .seq .curly items s => by
    simp only [Form.mapSpan_seq, ofForm, ofFields_mapSpan g [] items, Meaning.mapSpan_bind,
      Meaning.mapSpan_ok]
  | .seq .round [] s => by simp [ofForm, FaultAt.mapSpan]
  | .seq .round (head :: args) s => by
    have single (constructor : String) := ofSingle_mapSpan g constructor s args
    have all := ofForms_mapSpan g args
    rw [Form.mapSpan_seq, List.map_cons, ofForm.eq_def, ofForm.eq_def]
    simp only [Form.symbol?_mapSpan]
    split
    · simp
    · simp [single]
    · simp [single]
    · simp [single]
    · simp [single]
    · rcases args with _ | ⟨arg, _ | ⟨second, rest⟩⟩
      · rfl
      · simp only [List.map_cons, List.map_nil, bufferKind?_mapSpan]
        cases bufferKind? arg <;> simp
      · simp [FaultAt.mapSpan]
    · simp only [List.length_map]
      split
      · simp [FaultAt.mapSpan]
      · simp [all]
    · rcases args with _ | ⟨params, _ | ⟨returns, _ | ⟨third, rest⟩⟩⟩
      · rfl
      · rcases params with _ | ⟨_ | _ | _, params, _⟩
        case seq.square => simp [ofParams_mapSpan g params]
        all_goals simp [Form.reject, Form.sort, Form.span, FaultAt.mapSpan]
      · rcases params with _ | ⟨_ | _ | _, params, _⟩
        case seq.square => simp [ofParams_mapSpan g params, ofForm_mapSpan g returns]
        all_goals simp [Form.reject, Form.sort, Form.span, FaultAt.mapSpan]
      · simp [FaultAt.mapSpan]
    · simp [FaultAt.mapSpan]

theorem ofSingle_mapSpan (g : Span → Span) (constructor : String) (s : Span) :
    ∀ args : List Form,
      ofSingle constructor (g s) (args.map (Form.mapSpan g)) =
        (ofSingle constructor s args).mapSpan g
  | [] => rfl
  | [arg] => by simp [ofSingle, ofForm_mapSpan g arg]
  | _ :: _ :: _ => by simp [ofSingle, FaultAt.mapSpan]

theorem ofForms_mapSpan (g : Span → Span) :
    ∀ fs : List Form, ofForms (fs.map (Form.mapSpan g)) = (ofForms fs).mapSpan g
  | [] => rfl
  | f :: fs => by simp [ofForms, ofForm_mapSpan g f, ofForms_mapSpan g fs]

theorem ofParams_mapSpan (g : Span → Span) :
    ∀ fs : List Form, ofParams (fs.map (Form.mapSpan g)) = (ofParams fs).mapSpan g
  | [] => rfl
  | f :: fs => by
    have whole := ofForm_mapSpan g f
    have rest := ofParams_mapSpan g fs
    match f with
    | .seq .round [mark, t] s =>
      have inner := ofForm_mapSpan g t
      simp only [Form.mapSpan_seq, List.map_cons, List.map_nil] at whole
      simp only [List.map_cons, List.map_nil, Form.mapSpan_seq, ofParams, Form.symbol?_mapSpan,
        inner, whole, rest]
      split <;> simp
    | .atom a s => simp_all [ofParams]
    | .seq .square items s => simp_all [ofParams]
    | .seq .curly items s => simp_all [ofParams]
    | .seq .round [] s => simp_all [ofParams]
    | .seq .round [a] s => simp_all [ofParams]
    | .seq .round (a :: b :: c :: items) s => simp_all [ofParams]

theorem ofFields_mapSpan (g : Span → Span) (names : List String) :
    ∀ items : List Form,
      ofFields names (items.map (Form.mapSpan g)) = (ofFields names items).mapSpan g
  | [] => rfl
  | [_] => rfl
  | key :: value :: rest => by
    simp only [List.map_cons, ofFields, Form.keyword?_mapSpan]
    split
    · simp
    · rename_i name _
      split
      · simp
      · simp [ofForm_mapSpan g value, ofFields_mapSpan g (name :: names) rest]

end

end TypeExpr

/-! ### Names, clauses and annotations -/

section Declarations

variable (g : Span → Span)

namespace Form

@[simp] theorem expectVector_mapSpan (f : Form) (place : String) :
    (f.mapSpan g).expectVector place =
      List.map (mapSpan g) <$> (f.expectVector place).mapSpan g := by
  simp only [expectVector, vector?_mapSpan]
  cases f.vector? <;> simp [Form.reject, FaultAt.mapSpan]

@[simp] theorem expectKeyword_mapSpan (f : Form) :
    (f.mapSpan g).expectKeyword = f.expectKeyword.mapSpan g := by
  simp only [expectKeyword, keyword?_mapSpan]
  cases f.keyword? <;> simp

@[simp] theorem expectHead_mapSpan (f : Form) (head : String) :
    (f.mapSpan g).expectHead head =
      List.map (mapSpan g) <$> (f.expectHead head).mapSpan g := by
  have found := head?_mapSpan g f
  rcases f with _ | ⟨_ | _ | _, items, s⟩
  case seq.round =>
    simp only [mapSpan_seq] at found
    simp only [mapSpan_seq, expectHead, found]
    split <;> simp [Form.reject, Form.span, FaultAt.mapSpan]
  all_goals simp [expectHead, Form.reject, Form.span, FaultAt.mapSpan]

@[simp] theorem expectTypeName_mapSpan (f : Form) (place : String) :
    (f.mapSpan g).expectTypeName place = (f.expectTypeName place).mapSpan g := by
  simp only [expectTypeName, symbol?_mapSpan]
  split
  · split <;> simp
  · simp

@[simp] theorem expectTypeNames_mapSpan (f : Form) (place : String) :
    (f.mapSpan g).expectTypeNames place = (f.expectTypeNames place).mapSpan g := by
  simp [expectTypeNames, List.mapM_map, Meaning.mapSpan_mapM, Function.comp_def]

theorem takeName_mapSpan (s : Span) (head : String) (items : List Form) :
    takeName (g s) head (items.map (mapSpan g)) =
      Prod.map id (List.map (mapSpan g)) <$> (takeName s head items).mapSpan g := by
  rcases items with _ | ⟨_, _ | ⟨name, rest⟩⟩ <;> simp [takeName, FaultAt.mapSpan]

theorem takeMemberName_mapSpan (s : Span) (head : String) (items : List Form) :
    takeMemberName (g s) head (items.map (mapSpan g)) =
      Prod.map id (List.map (mapSpan g)) <$> (takeMemberName s head items).mapSpan g := by
  rcases items with _ | ⟨_, _ | ⟨name, rest⟩⟩
  · simp [takeMemberName, FaultAt.mapSpan]
  · simp [takeMemberName, FaultAt.mapSpan]
  · simp only [List.map_cons, takeMemberName, symbol?_mapSpan]
    split
    · split <;> simp [Form.reject, FaultAt.mapSpan]
    · simp [Form.reject, FaultAt.mapSpan]

theorem clauses_mapSpan (s : Span) (seen : List String) (items : List Form) :
    clauses (g s) seen (items.map (mapSpan g)) =
      List.map (Prod.map id (mapSpan g)) <$> (clauses s seen items).mapSpan g := by
  fun_induction clauses s seen items with
  | case1 seen => rfl
  | case2 seen key => simp [clauses, FaultAt.mapSpan]
  | case3 seen key value rest ih =>
    simp only [List.map_cons, clauses, expectKeyword_mapSpan, Meaning.mapSpan_bind, map_bind]
    congr 1
    funext name
    split
    · simp [Form.reject, FaultAt.mapSpan]
    · simp [ih]

end Form

@[simp] theorem Reference.ofForm_mapSpan (f : Form) :
    Reference.ofForm (f.mapSpan g) = (Reference.ofForm f).mapSpan g := by
  rw [Reference.ofForm, Reference.ofForm, Form.symbol?_mapSpan]
  cases f.symbol?.bind Reference.ofText? with
  | none => simp
  | some r => rfl

theorem Deprecation.addEntry_mapSpan (d : Deprecation) (e : Form × Form) :
    d.addEntry (Prod.map (Form.mapSpan g) (Form.mapSpan g) e) = (d.addEntry e).mapSpan g := by
  simp only [Deprecation.addEntry, Prod.map_fst, Prod.map_snd, Form.keyword?_mapSpan,
    Form.string?_mapSpan]
  split
  · simp
  · split <;> simp
  · simp

@[simp] theorem Deprecation.ofForm_mapSpan (f : Form) :
    Deprecation.ofForm (f.mapSpan g) = (Deprecation.ofForm f).mapSpan g := by
  have reference := Reference.ofForm_mapSpan g f
  rcases f with ⟨⟨_ | _⟩ | _ | _ | _ | _ | _, s⟩ | ⟨_ | _ | _, items, s⟩
  case atom.symbol => simp [Deprecation.ofForm, ← reference]
  case seq.curly =>
    simp [Deprecation.ofForm, Form.pairs_map, List.foldlM_map, Meaning.mapSpan_foldlM,
      Deprecation.addEntry_mapSpan]
  all_goals simp [Deprecation.ofForm, Form.reject, Form.sort, Form.span, FaultAt.mapSpan]

@[simp] theorem linkOfForm_mapSpan (f : Form) :
    linkOfForm (f.mapSpan g) = (linkOfForm f).mapSpan g := by
  simp only [linkOfForm, Form.string?_mapSpan]
  split <;> simp

@[simp] theorem linksOfForm_mapSpan (f : Form) :
    linksOfForm (f.mapSpan g) = (linksOfForm f).mapSpan g := by
  simp [linksOfForm, List.mapM_map, Meaning.mapSpan_mapM, Function.comp_def]

/-! ### Members -/

theorem Parameter.ofParts_mapSpan (names : List String) (f name type : Form) (optional : Bool) :
    ofParts names (f.mapSpan g) (name.mapSpan g) (type.mapSpan g) optional =
      (ofParts names f name type optional).mapSpan g := by
  simp only [ofParts, Form.symbol?_mapSpan]
  split
  · simp
  · split <;> simp

@[simp] theorem Parameter.ofForm_mapSpan (names : List String) (f : Form) :
    Parameter.ofForm names (f.mapSpan g) = (Parameter.ofForm names f).mapSpan g := by
  simp only [Parameter.ofForm, Form.list?_mapSpan, Form.sort_mapSpan]
  rcases f.list? with _ | _ | ⟨name, _ | ⟨type, _ | ⟨flag, _ | ⟨_, _⟩⟩⟩⟩
  case some.cons.cons.nil => exact Parameter.ofParts_mapSpan g names f name type false
  case some.cons.cons.cons.nil =>
    simp only [Option.map_some, List.map_cons, List.map_nil, Form.keyword?_mapSpan]
    split
    · exact Parameter.ofParts_mapSpan g names f name type true
    · simp
  all_goals simp

@[simp] theorem Parameter.ofForms_mapSpan (names : List String) (fs : List Form) :
    Parameter.ofForms names (fs.map (Form.mapSpan g)) =
      (Parameter.ofForms names fs).mapSpan g := by
  induction fs generalizing names with
  | nil => rfl
  | cons f fs ih => simp [Parameter.ofForms, ih]

@[simp] theorem Parameter.listOfForm_mapSpan (f : Form) :
    Parameter.listOfForm (f.mapSpan g) = (Parameter.listOfForm f).mapSpan g := by
  simp [Parameter.listOfForm]

namespace Member

@[simp] theorem annotate_mapSpan (m : Member) (key : String) (value : Form) :
    m.annotate key (value.mapSpan g) = (m.annotate key value).mapSpan g := by
  simp only [annotate]
  split <;> simp

theorem addPropertyClauses_mapSpan (s : Span) (type : TypeExpr) :
    ∀ (isReadonly isConstant : Bool) (m : Member) (items : List Form),
      addPropertyClauses (g s) type isReadonly isConstant m (items.map (Form.mapSpan g)) =
        (addPropertyClauses s type isReadonly isConstant m items).mapSpan g
  | _, _, _, [] => rfl
  | isReadonly, isConstant, m, key :: rest => by
    have flag (isReadonly isConstant : Bool) :=
      addPropertyClauses_mapSpan s type isReadonly isConstant m rest
    simp only [List.map_cons, addPropertyClauses, Form.expectKeyword_mapSpan, Meaning.mapSpan_bind]
    congr 1
    funext name
    split
    · exact flag true isConstant
    · split
      · exact flag isReadonly true
      · split
        · match rest with
          | [] => simp [FaultAt.mapSpan]
          | value :: rest =>
            simp only [List.map_cons, annotate_mapSpan, Meaning.mapSpan_bind]
            congr 1
            funext m'
            exact addPropertyClauses_mapSpan s type isReadonly isConstant m' rest
        · simp

@[simp] theorem mutatedName_mapSpan (f : Form) :
    mutatedName (f.mapSpan g) = (mutatedName f).mapSpan g := by
  simp only [mutatedName, Form.symbol?_mapSpan]
  split <;> simp

theorem addMethodClauses_mapSpan (s : Span) (params : List Parameter) (returns : TypeExpr) :
    ∀ (mutates : List String) (m : Member) (items : List Form),
      addMethodClauses (g s) params returns mutates m (items.map (Form.mapSpan g)) =
        (addMethodClauses s params returns mutates m items).mapSpan g
  | _, _, [] => rfl
  | _, _, [key] => by simp [addMethodClauses, FaultAt.mapSpan]
  | mutates, m, key :: value :: rest => by
    have more (mutates : List String) (m : Member) :=
      addMethodClauses_mapSpan s params returns mutates m rest
    simp only [List.map_cons, addMethodClauses, Form.expectKeyword_mapSpan, Meaning.mapSpan_bind]
    congr 1
    funext name
    split
    · simp [more, List.mapM_map, Meaning.mapSpan_mapM, Function.comp_def]
    · split
      · simp [more]
      · simp

theorem propertyOfForm_mapSpan (f : Form) :
    propertyOfForm (f.mapSpan g) = (propertyOfForm f).mapSpan g := by
  simp only [propertyOfForm, Form.expectHead_mapSpan, Form.span_mapSpan, bind_map_left,
    Form.takeMemberName_mapSpan, Meaning.mapSpan_bind]
  congr 1
  funext items
  congr 1
  funext x
  rcases x with ⟨name, _ | ⟨type, clauses⟩⟩
  · simp
  · simp [addPropertyClauses_mapSpan]

theorem methodOfForm_mapSpan (f : Form) :
    methodOfForm (f.mapSpan g) = (methodOfForm f).mapSpan g := by
  simp only [methodOfForm, Form.expectHead_mapSpan, Form.span_mapSpan, bind_map_left,
    Form.takeMemberName_mapSpan, Meaning.mapSpan_bind]
  congr 1
  funext items
  congr 1
  funext x
  rcases x with ⟨name, _ | ⟨params, _ | ⟨returns, clauses⟩⟩⟩
  · simp
  · simp [addMethodClauses]
  · have none (params : List Parameter) := addMethodClauses_mapSpan g f.span params .void []
      (.method name params .void) (returns :: clauses)
    simp only [List.map_cons] at none
    simp only [List.map_cons, Prod.map, id, Parameter.listOfForm_mapSpan, Form.isKeyword_mapSpan,
      Meaning.mapSpan_bind]
    congr 1
    funext params
    split
    · simp [none]
    · simp [addMethodClauses_mapSpan]

@[simp] theorem ofForm_mapSpan (f : Form) : ofForm (f.mapSpan g) = (ofForm f).mapSpan g := by
  simp only [ofForm, Form.head?_mapSpan]
  split
  · exact propertyOfForm_mapSpan g f
  · exact methodOfForm_mapSpan g f
  · simp

@[simp] theorem listOfForm_mapSpan (f : Form) :
    listOfForm (f.mapSpan g) = (listOfForm f).mapSpan g := by
  simp [listOfForm, List.mapM_map, Meaning.mapSpan_mapM, Function.comp_def]

end Member

/-! ### Declarations -/

theorem TypeDeclaration.addClause_mapSpan (d : TypeDeclaration) (clause : String × Form) :
    d.addClause (Prod.map id (Form.mapSpan g) clause) = (d.addClause clause).mapSpan g := by
  simp only [TypeDeclaration.addClause, Prod.map, id]
  repeat' split
  all_goals simp

theorem TypeDeclaration.ofForm_mapSpan (kind : TypeKind) (f : Form) :
    TypeDeclaration.ofForm kind (f.mapSpan g) = (TypeDeclaration.ofForm kind f).mapSpan g := by
  simp only [TypeDeclaration.ofForm, Form.expectHead_mapSpan, Form.span_mapSpan, bind_map_left,
    Form.takeName_mapSpan, Meaning.mapSpan_bind]
  congr 1
  funext items
  congr 1
  funext x
  obtain ⟨name, rest⟩ := x
  cases kind
  case typedef =>
    rcases rest with _ | ⟨aliased, rest⟩
    · simp [FaultAt.mapSpan]
    · simp [Form.clauses_mapSpan, List.foldlM_map, Meaning.mapSpan_foldlM, addClause_mapSpan]
  all_goals
    simp [Form.clauses_mapSpan, List.foldlM_map, Meaning.mapSpan_foldlM, addClause_mapSpan]

@[simp] theorem LiteralKind.ofForm_mapSpan (f : Form) :
    LiteralKind.ofForm (f.mapSpan g) = (LiteralKind.ofForm f).mapSpan g := by
  simp only [LiteralKind.ofForm, Form.symbol?_mapSpan]
  split <;> simp

@[simp] theorem Literal.ofForm_mapSpan (f : Form) :
    Literal.ofForm (f.mapSpan g) = (Literal.ofForm f).mapSpan g := by
  rcases f with ⟨_ | _ | _ | _ | _ | _, s⟩ | _ <;>
    simp [Literal.ofForm, Form.reject, Form.sort, Form.span, FaultAt.mapSpan]

theorem EnumSymbol.ofEntry_mapSpan (kind : LiteralKind) (e : Form × Form) :
    EnumSymbol.ofEntry kind (Prod.map (Form.mapSpan g) (Form.mapSpan g) e) =
      (EnumSymbol.ofEntry kind e).mapSpan g := by
  simp only [EnumSymbol.ofEntry, Prod.map_fst, Prod.map_snd, Form.keyword?_mapSpan]
  split
  · simp
  · simp only [Literal.ofForm_mapSpan, Meaning.mapSpan_bind]
    congr 1
    funext value
    split <;> simp

/-- The clauses of an enumeration with the spans of its values changed. -/
def EnumDraft.mapSpan (d : EnumDraft) : EnumDraft :=
  { d with values := d.values.map (Prod.map (Form.mapSpan g) (Form.mapSpan g)) }

theorem EnumDraft.addClause_mapSpan (d : EnumDraft) (clause : String × Form) :
    (d.mapSpan g).addClause (Prod.map id (Form.mapSpan g) clause) =
      mapSpan g <$> (d.addClause clause).mapSpan g := by
  obtain ⟨key, value⟩ := clause
  -- the draft keeps the forms of the values, so it moves with the clause
  simp only [EnumDraft.addClause, Prod.map, id, Form.map?_mapSpan]
  split
  · simp [mapSpan]
  · split
    · cases value.map? <;> simp [mapSpan, Form.reject, FaultAt.mapSpan]
    · repeat' split
      all_goals simp [mapSpan, Form.reject, FaultAt.mapSpan]

theorem EnumDraft.foldlM_addClause_mapSpan (d : EnumDraft) (clauses : List (String × Form)) :
    (clauses.map (Prod.map id (Form.mapSpan g))).foldlM addClause (d.mapSpan g) =
      mapSpan g <$> (clauses.foldlM addClause d).mapSpan g := by
  induction clauses generalizing d with
  | nil => rfl
  | cons clause clauses ih =>
    simp only [List.map_cons, List.foldlM_cons, addClause_mapSpan, bind_map_left, ih,
      Meaning.mapSpan_bind, map_bind]

theorem Enumeration.ofForm_mapSpan (f : Form) :
    Enumeration.ofForm (f.mapSpan g) = (Enumeration.ofForm f).mapSpan g := by
  simp only [Enumeration.ofForm, Form.expectHead_mapSpan, Form.span_mapSpan, bind_map_left,
    Form.takeName_mapSpan, Form.clauses_mapSpan, Prod.map, Meaning.mapSpan_bind]
  congr 1
  funext items
  congr 1
  funext x
  congr 1
  funext clauses
  rw [show (({} : EnumDraft)) = EnumDraft.mapSpan g {} from rfl,
    EnumDraft.foldlM_addClause_mapSpan, bind_map_left]
  congr 1
  funext draft
  simp only [EnumDraft.mapSpan]
  split
  · simp
  · simp [List.mapM_map, Meaning.mapSpan_mapM, EnumSymbol.ofEntry_mapSpan, Function.comp_def]

theorem Augmentation.addClause_mapSpan (a : Augmentation) (clause : String × Form) :
    a.addClause (Prod.map id (Form.mapSpan g) clause) = (a.addClause clause).mapSpan g := by
  simp only [Augmentation.addClause, Prod.map, id]
  split <;> simp

theorem Augmentation.ofForm_mapSpan (f : Form) :
    Augmentation.ofForm (f.mapSpan g) = (Augmentation.ofForm f).mapSpan g := by
  simp [Augmentation.ofForm, Form.takeName_mapSpan, Form.clauses_mapSpan, List.foldlM_map,
    Meaning.mapSpan_foldlM, addClause_mapSpan]

/-- A form denotes the same declaration wherever it stands, or has the same fault there. -/
theorem Declaration.ofForm?_mapSpan (f : Form) :
    Declaration.ofForm? (f.mapSpan g) = (Declaration.ofForm? f).mapSpan g := by
  simp only [Declaration.ofForm?, Form.head?_mapSpan, TypeDeclaration.ofForm_mapSpan,
    Enumeration.ofForm_mapSpan, Augmentation.ofForm_mapSpan]
  repeat' split
  all_goals simp

theorem Declaration.ofForm_mapSpan (f : Form) :
    Declaration.ofForm (f.mapSpan g) = (Declaration.ofForm f).mapSpan g := by
  simp only [Declaration.ofForm, Declaration.ofForm?_mapSpan, Meaning.mapSpan_bind]
  congr 1
  funext found
  cases found with
  | some _ => rfl
  | none =>
    simp only [Form.head?_mapSpan]
    split <;> simp

theorem Declared.ofForm_mapSpan (f : Form) :
    Declared.ofForm (f.mapSpan g) =
      (fun d => ⟨d.declaration, g d.span⟩) <$> (Declared.ofForm f).mapSpan g := by
  simp [Declared.ofForm, Declaration.ofForm_mapSpan]

end Declarations

end ApiCatalog
