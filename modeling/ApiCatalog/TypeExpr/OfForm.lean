import ApiCatalog.TypeExpr.Basic
import ApiCatalog.Form.Fault
import ApiCatalog.Form.Reader

/-!
# Type expressions from forms

A symbol is a primitive type or the name of a type, with qualifiers in front of it; `*` alone
is any type and `?` alone the unknown one. A list applies a constructor to its items, and a
map is a record.

Main definitions: `TypeExpr.ofForm`, `TypeExpr.ofText`.
-/

namespace ApiCatalog.TypeExpr

/-- The type that a symbol names, given the characters of the symbol. -/
def ofName : List Char → Option TypeExpr
  | [] => none
  | ['*'] => some .any
  | ['?'] => some .unknown
  | '?' :: name => (ofName name).map .nullable
  | '!' :: name => (ofName name).map .nonNull
  | name =>
    if name.contains '/' || name.getLast? == some ':' then none
    else
      match Primitive.ofName? (String.ofList name) with
      | some kind => some (.primitive kind)
      | none => some (.named (String.ofList name))

/-- The kind of buffers that a form names. -/
def bufferKind? (f : Form) : Option BufferElement := f.symbol?.bind BufferElement.ofKeyword?

mutual

/-- The type that a form denotes. -/
def ofForm (f : Form) : Meaning TypeExpr :=
  match f with
  | .atom (.symbol name) span =>
    match ofName name.toList with
    | some t => .ok t
    | none => .error ⟨.invalidTypeName name, span⟩
  | .atom a span => .error ⟨.notType a.sort, span⟩
  | .seq .square _ span => .error ⟨.notType .vector, span⟩
  | .seq .curly items _ => do .ok (.record (← ofFields [] items))
  | .seq .round [] span => .error ⟨.emptyType, span⟩
  | .seq .round (head :: args) span =>
    match head.symbol? with
    | none => head.reject (.constructorNotSymbol head.sort)
    | some "?" => do .ok (.nullable (← ofSingle "?" span args))
    | some "!" => do .ok (.nonNull (← ofSingle "!" span args))
    | some "array" => do .ok (.array (← ofSingle "array" span args))
    | some "promise" => do .ok (.promise (← ofSingle "promise" span args))
    | some "buffer" =>
      match args with
      | [arg] =>
        match bufferKind? arg with
        | some kind => .ok (.buffer kind)
        | none => arg.reject .unknownBuffer
      | _ => .error ⟨.argumentCount "buffer" args.length, span⟩
    | some "union" =>
      if args.length < 2 then .error ⟨.shortUnion, span⟩
      else do .ok (.union (← ofForms args))
    | some "function" =>
      match args with
      | [.seq .square params _] => do .ok (.function (← ofParams params) .void)
      | [.seq .square params _, returns] => do
        let params ← ofParams params
        .ok (.function params (← ofForm returns))
      | [params] => params.reject (.callbackParamsNotVector params.sort)
      | [params, _] => params.reject (.callbackParamsNotVector params.sort)
      | _ => .error ⟨.functionShape, span⟩
    | some other => .error ⟨.unknownConstructor other, span⟩

/-- The one type among the arguments of a constructor. -/
def ofSingle (constructor : String) (span : Span) (args : List Form) : Meaning TypeExpr :=
  match args with
  | [arg] => ofForm arg
  | _ => .error ⟨.argumentCount constructor args.length, span⟩

/-- The types that forms denote. -/
def ofForms (forms : List Form) : Meaning (List TypeExpr) :=
  match forms with
  | [] => .ok []
  | f :: fs => do
    let t ← ofForm f
    .ok (t :: (← ofForms fs))

/-- The parameters that forms denote. A call may leave out the one of a form `(opt T)`. -/
def ofParams (forms : List Form) : Meaning (List (TypeExpr × Bool)) :=
  match forms with
  | [] => .ok []
  | f :: fs => do
    let param ← match f with
      | .seq .round [mark, t] span =>
        if mark.symbol? == some "opt" then do .ok (← ofForm t, true)
        else do .ok (← ofForm (.seq .round [mark, t] span), false)
      | f => do .ok (← ofForm f, false)
    .ok (param :: (← ofParams fs))

/-- The fields that the items of a map denote, given the names of those before. -/
def ofFields (names : List String) (items : List Form) : Meaning (List (String × TypeExpr)) :=
  match items with
  | key :: value :: rest =>
    match key.keyword? with
    | none => key.reject (.fieldNotKeyword key.sort)
    | some name =>
      if names.contains name then key.reject (.duplicateField name)
      else do
        let t ← ofForm value
        .ok ((name, t) :: (← ofFields (name :: names) rest))
  | _ => .ok []

end

/-- The type that the first form of a text denotes. -/
def ofText (source : List Char) : Except Problem TypeExpr :=
  match Form.first source with
  | .error problem => .error problem
  | .ok form => (ofForm form).mapError FaultAt.problem

end ApiCatalog.TypeExpr
