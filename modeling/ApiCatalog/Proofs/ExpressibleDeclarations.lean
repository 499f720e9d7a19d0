import ApiCatalog.Declaration.ToForm
import ApiCatalog.Proofs.DeclarationParts

/-!
# Declarations that can be written

The form of a declaration leaves out what has its usual value, and the analysis puts it back. So
a declaration is what its form denotes as soon as its parts are: its names are plain, its types
expressible and its references references. Such parts is what the analysis takes from any form.

Main statements: `TypeDeclaration.ofForm?_toForm_iff`, the types that are what their forms
denote; `Declaration.ofForm?_toForm`, the same of all declarations with such parts;
`Declaration.ofForm_toForm_of_ofForm?`, a declaration that was read is what its form denotes.
-/

namespace ApiCatalog

/-! ### References -/

theorem Reference.text_of_ofText? {s : String} {r : Reference} (h : Reference.ofText? s = some r) :
    r.text = s := by
  have split := List.takeWhile_append_dropWhile (p := (· ≠ '/')) (l := s.toList)
  simp only [ofText?, ofChars?] at h
  split at h
  · split at h
    · cases h
    · cases h
      rw [text, String.ofList_toList]
  · rename_i c member hdrop
    split at h
    · cases h
    · cases h
      have hc : c = '/' := by
        have := List.head?_dropWhile_not (· ≠ '/') s.toList
        rw [hdrop] at this
        simpa using this
      rw [hdrop, hc] at split
      rw [← String.toList_inj, text, String.toList_append, String.toList_append,
        String.toList_ofList, String.toList_ofList]
      simpa using split

/-- Names are plain, types expressible, and references are what their texts denote. -/
def Parts.expressible : Parts where
  name n := isPlainName n = true
  symbol _ := True
  keyword _ := True
  type := TypeExpr.IsExpressible
  reference r := Reference.ofText? r.text = some r

theorem Parts.expressible_readFrom : Parts.expressible.ReadFrom fun _ => True where
  items _ _ _ := trivial
  name _ _ h := h
  symbol _ _ := trivial
  keyword _ _ := trivial
  type _ h := (TypeExpr.readFrom_of_ofForm h).1
  void := trivial
  reference {f r} _ h := by
    simp only [Reference.ofForm] at h
    split at h
    · rename_i r' hr
      cases h
      obtain ⟨s, -, hs⟩ := Option.bind_eq_some_iff.1 hr
      show Reference.ofText? r.text = some r
      rw [Reference.text_of_ofText? hs, hs]
    · simp at h

/-- Reading what was written restores a list if it restores each item. -/
theorem Meaning.mapM_map {α β : Type} {k : α → Meaning β} {g : β → α} (xs : List β)
    (h : ∀ x ∈ xs, k (g x) = .ok x) : (xs.map g).mapM k = .ok xs := by
  induction xs with
  | nil => rfl
  | cons x xs ih =>
    rw [List.forall_mem_cons] at h
    rw [List.map_cons, List.mapM_cons, h.1, Meaning.ok_bind, ih h.2]
    rfl

/-! ### Annotations -/

theorem Reference.ofForm_toForm {r : Reference} (h : Parts.expressible.reference r) :
    Reference.ofForm r.toForm = .ok r := by
  have h : Reference.ofText? r.text = some r := h
  simp [Reference.ofForm, toForm, Form.symbol, Form.ofAtom, Form.symbol?, h]

theorem Deprecation.ofForm_toForm {d : Deprecation} (h : d.Meets .expressible) :
    Deprecation.ofForm d.toForm = .ok (some d) := by
  obtain ⟨replacement, note⟩ := d
  cases replacement with
  | none => cases note <;> rfl
  | some r =>
    have hr := Reference.ofForm_toForm (h r rfl)
    cases note with
    | none =>
      simp only [Reference.toForm, Form.symbol, Form.ofAtom] at hr
      simp [Deprecation.ofForm, toForm, Reference.toForm, Form.symbol, Form.ofAtom, hr]
    | some note =>
      simp [Deprecation.ofForm, toForm, Form.map, pairs, Deprecation.addEntry, Form.keyword,
        Form.string, Form.ofAtom, Form.keyword?, Form.string?, hr]

theorem linksOfForm_vector (see : List String) :
    linksOfForm (.vector (see.map .string)) = .ok see := by
  have := Meaning.mapM_map (k := linkOfForm) (g := Form.string) see fun _ _ => rfl
  simpa [linksOfForm, Form.vector, Form.expectVector, Form.vector?] using this

/-! ### Heads, names and clauses -/

namespace Form

@[simp] theorem span_list (items : List Form) : (list items).span = .unplaced := rfl

@[simp] theorem head?_list (head : String) (items : List Form) :
    (list (symbol head :: items)).head? = some head := rfl

@[simp] theorem expectHead_list (head : String) (items : List Form) :
    (list (symbol head :: items)).expectHead head = .ok (symbol head :: items) := by
  have found := head?_list head items
  simp only [list] at found
  simp [list, expectHead, found]

@[simp] theorem expectKeyword_keyword (name : String) :
    (keyword name).expectKeyword = .ok name := rfl

theorem expectTypeName_symbol {name : String} (h : isPlainName name = true) (place : String) :
    (symbol name).expectTypeName place = .ok name := by
  simp [expectTypeName, symbol, ofAtom, symbol?, h]

theorem takeName_symbol {name : String} (h : isPlainName name = true) (s : Span) (head : String)
    (f : Form) (rest : List Form) :
    takeName s head (f :: symbol name :: rest) = .ok (name, rest) := by
  rw [takeName, expectTypeName_symbol h]
  rfl

theorem takeMemberName_symbol {name : String} (h : isPlainName name = true) (s : Span)
    (head : String) (f : Form) (rest : List Form) :
    takeMemberName s head (f :: symbol name :: rest) = .ok (name, rest) := by
  simp [takeMemberName, symbol, ofAtom, symbol?, h]

theorem clauses_flatMap_of_not_mem (s : Span) (seen : List String) {cs : List (String × Form)}
    (distinct : (cs.map (·.1)).Nodup) (new : ∀ c ∈ cs, c.1 ∉ seen) :
    clauses s seen (cs.flatMap fun c => clause c.1 c.2) = .ok cs := by
  induction cs generalizing seen with
  | nil => rfl
  | cons c cs ih =>
    obtain ⟨fresh, distinct⟩ := List.nodup_cons.1 distinct
    rw [List.forall_mem_cons] at new
    have rest := ih (c.1 :: seen) distinct fun d hd hmem => by
      rcases List.mem_cons.1 hmem with h | h
      · exact fresh (List.mem_map.2 ⟨d, hd, h⟩)
      · exact new.2 d hd h
    simp only [clause] at rest
    simp [clause, clauses, new.1, rest]

/-- Clauses with different keys are read as they are written. -/
theorem clauses_flatMap (s : Span) {cs : List (String × Form)} (distinct : (cs.map (·.1)).Nodup) :
    clauses s [] (cs.flatMap fun c => clause c.1 c.2) = .ok cs :=
  clauses_flatMap_of_not_mem s [] distinct (by simp)

end Form

/-! ### Members -/

theorem Parameter.ofForm_toForm {names : List String} {p : Parameter}
    (hp : p.Meets .expressible) (new : p.name ∉ names) :
    Parameter.ofForm names p.toForm = .ok p := by
  obtain ⟨name, type, optional⟩ := p
  have htype := TypeExpr.ofForm_toForm type hp.2
  cases optional <;>
    simp_all [Parameter.ofForm, ofParts, toForm, Form.list, Form.list?, Form.symbol, Form.keyword,
      Form.ofAtom, Form.symbol?, Form.keyword?]

theorem Parameter.ofForms_map_toForm (names : List String) {params : List Parameter}
    (h : AllMeet .expressible params) (new : ∀ p ∈ params, p.name ∉ names) :
    Parameter.ofForms names (params.map toForm) = .ok params := by
  induction params generalizing names with
  | nil => rfl
  | cons p ps ih =>
    obtain ⟨distinct, all⟩ := h
    rw [List.forall_mem_cons] at all new
    obtain ⟨fresh, distinct⟩ := List.nodup_cons.1 distinct
    have rest := ih (p.name :: names) ⟨distinct, all.2⟩ fun q hq hmem => by
      rcases List.mem_cons.1 hmem with h | h
      · exact fresh (List.mem_map.2 ⟨q, hq, h⟩)
      · exact new.2 q hq h
    simp [Parameter.ofForms, ofForm_toForm all.1 new.1, rest]

theorem Parameter.listOfForm_vector {params : List Parameter} (h : AllMeet .expressible params) :
    Parameter.listOfForm (Parameter.vector params) = .ok params := by
  have := ofForms_map_toForm [] h (by simp)
  simpa [Parameter.listOfForm, Parameter.vector, Form.vector, Form.expectVector, Form.vector?]
    using this

namespace Member

theorem annotate_deprecated {d : Deprecation} (h : d.Meets .expressible) (m : Member) :
    m.annotate "deprecated" d.toForm = .ok { m with deprecated := some d } := by
  simp [annotate, Deprecation.ofForm_toForm h]

theorem annotate_see (see : List String) (m : Member) :
    m.annotate "see" (.vector (see.map .string)) = .ok { m with see } := by
  simp [annotate, linksOfForm_vector]

theorem addPropertyClauses_annotations (s : Span) (type : TypeExpr) (isReadonly isConstant : Bool)
    (name : String) (kind : MemberKind) {deprecated : Option Deprecation} (see : List String)
    (h : ∀ d, deprecated = some d → d.Meets .expressible) :
    addPropertyClauses s type isReadonly isConstant ⟨name, kind, none, []⟩
        (annotations deprecated see) =
      .ok ⟨name, .property type isReadonly isConstant, deprecated, see⟩ := by
  cases deprecated with
  | none =>
    cases see <;>
      simp [annotations, clauseIf, clause, addPropertyClauses, annotate_see, -List.map_cons]
  | some d =>
    have hd := annotate_deprecated (h d rfl)
    cases see <;>
      simp [annotations, clauseIf, clause, addPropertyClauses, annotate_see, hd, -List.map_cons]

theorem addMethodClauses_annotations (s : Span) (params : List Parameter) (returns : TypeExpr)
    (mutates : List String) (name : String) (kind : MemberKind) {deprecated : Option Deprecation}
    (see : List String) (h : ∀ d, deprecated = some d → d.Meets .expressible) :
    addMethodClauses s params returns mutates ⟨name, kind, none, []⟩
        (annotations deprecated see) =
      .ok ⟨name, .method params returns mutates, deprecated, see⟩ := by
  cases deprecated with
  | none =>
    cases see <;>
      simp [annotations, clauseIf, clause, addMethodClauses, annotate_see, -List.map_cons]
  | some d =>
    have hd := annotate_deprecated (h d rfl)
    cases see <;>
      simp [annotations, clauseIf, clause, addMethodClauses, annotate_see, hd, -List.map_cons]

theorem mapM_mutatedName (mutates : List String) :
    (mutates.map Form.symbol).mapM mutatedName = .ok mutates :=
  Meaning.mapM_map mutates fun _ _ => rfl

theorem addMethodClauses_clauses (s : Span) (params : List Parameter) (returns : TypeExpr)
    (mutates : List String) (name : String) (kind : MemberKind) {deprecated : Option Deprecation}
    (see : List String) (h : ∀ d, deprecated = some d → d.Meets .expressible) :
    addMethodClauses s params returns [] ⟨name, kind, none, []⟩
        (namesClause "mutates" mutates ++ annotations deprecated see) =
      .ok ⟨name, .method params returns mutates, deprecated, see⟩ := by
  have rest (ns : List String) := addMethodClauses_annotations s params returns ns name kind see h
  have names := mapM_mutatedName mutates
  cases mutates with
  | nil => exact rest []
  | cons n ns =>
    simp [namesClause, clauseIf, clause, addMethodClauses, symbolVector, Form.vector,
      Form.expectVector, Form.vector?, names, rest, -List.map_cons]

theorem isKeyword_of_head? (mutates : List String) (deprecated : Option Deprecation)
    (see : List String) :
    ∀ f ∈ (namesClause "mutates" mutates ++ annotations deprecated see).head?, f.isKeyword := by
  intro f hf
  cases mutates <;> cases deprecated <;> cases see <;> cases hf <;> rfl

/-- A member is what its form denotes. -/
theorem ofForm_toForm {m : Member} (h : m.Meets .expressible) : ofForm m.toForm = .ok m := by
  obtain ⟨name, kind, deprecated, see⟩ := m
  obtain ⟨hname, hkind, hdeprecated⟩ := h
  have plain : isPlainName name = true := hname
  cases kind with
  | property type isReadonly isConstant =>
    have htype : TypeExpr.ofForm type.toForm = .ok type := TypeExpr.ofForm_toForm type hkind
    have clauses (a b : Bool) (k : MemberKind) :=
      addPropertyClauses_annotations .unplaced type a b name k see hdeprecated
    dsimp only at clauses
    cases isReadonly <;> cases isConstant <;>
      simp [ofForm, propertyOfForm, toForm, Form.takeMemberName_symbol plain, htype, property,
        addPropertyClauses, clauses]
  | method params returns mutates =>
    obtain ⟨hparams, hreturns, -⟩ := hkind
    have hparams := Parameter.listOfForm_vector hparams
    have hreturns : TypeExpr.ofForm returns.toForm = .ok returns :=
      TypeExpr.ofForm_toForm returns hreturns
    have clauses := addMethodClauses_clauses .unplaced params returns mutates name
      (.method params returns []) see hdeprecated
    dsimp only at clauses
    have keyed := isKeyword_of_head? mutates deprecated see
    revert clauses keyed
    simp only [ofForm, methodOfForm, toForm, List.cons_append, List.nil_append, List.append_assoc,
      Form.head?_list, Form.expectHead_list, Form.takeMemberName_symbol plain, Form.span_list,
      Meaning.ok_bind, hparams]
    -- without a result the clauses come next, and they begin with a keyword
    generalize namesClause "mutates" mutates ++ annotations deprecated see = rest
    intro clauses keyed
    by_cases hvoid : returns.isVoid
    · obtain rfl := TypeExpr.eq_void_of_isVoid hvoid
      rcases rest with _ | ⟨f, rest⟩
      · exact clauses
      · simpa [hvoid, keyed f rfl, method] using clauses
    · simpa [hvoid, TypeExpr.isKeyword_toForm, hreturns, method] using clauses

theorem listOfForm_vector {members : List Member} (h : ∀ m ∈ members, m.Meets .expressible) :
    listOfForm (vector members) = .ok members := by
  have := Meaning.mapM_map (k := ofForm) members fun m hm => ofForm_toForm (h m hm)
  simpa [listOfForm, vector, Form.vector, Form.expectVector, Form.vector?] using this

end Member

/-! ### Declarations -/

theorem expectTypeNames_symbolVector {names : List String} (h : ∀ n ∈ names, isPlainName n = true)
    (place : String) : (symbolVector names).expectTypeNames place = .ok names := by
  have := Meaning.mapM_map (k := (·.expectTypeName place)) (g := Form.symbol) names
    fun n hn => Form.expectTypeName_symbol (h n hn) place
  simpa [Form.expectTypeNames, symbolVector, Form.vector, Form.expectVector, Form.vector?]
    using this

/-- The clause with a key and value, if the condition holds. -/
def optionalClause (condition : Bool) (key : String) (value : Form) : List (String × Form) :=
  if condition then [(key, value)] else []

theorem clauseIf_eq_flatMap (condition : Bool) (key : String) (value : Form) :
    clauseIf condition key value =
      (optionalClause condition key value).flatMap fun c => clause c.1 c.2 := by
  cases condition <;> rfl

/-- Clauses next to each other have the keys of both. -/
theorem keys_append {cs ds : List (String × Form)} {keys more : List String}
    (hcs : (cs.map (·.1)).Sublist keys) (hds : (ds.map (·.1)).Sublist more) :
    ((cs ++ ds).map (·.1)).Sublist (keys ++ more) := by
  rw [List.map_append]
  exact hcs.append hds

theorem keys_option {α : Type} (o : Option α) (key : String) (value : α → Form) :
    ((o.map fun a => (key, value a)).toList.map (·.1)).Sublist [key] := by
  cases o
  · exact List.nil_sublist _
  · exact List.Sublist.refl _

theorem keys_optionalClause (condition : Bool) (key : String) (value : Form) :
    ((optionalClause condition key value).map (·.1)).Sublist [key] := by
  cases condition
  · exact List.nil_sublist _
  · exact List.Sublist.refl _

/-- The clauses of a deprecation and of links. -/
def annotationClauses (deprecated : Option Deprecation) (see : List String) :
    List (String × Form) :=
  (deprecated.map fun d => ("deprecated", d.toForm)).toList ++
    optionalClause (!see.isEmpty) "see" (.vector (see.map .string))

theorem annotations_eq_flatMap (deprecated : Option Deprecation) (see : List String) :
    annotations deprecated see =
      (annotationClauses deprecated see).flatMap fun c => clause c.1 c.2 := by
  cases deprecated <;> simp [annotations, annotationClauses, clauseIf_eq_flatMap]

theorem keys_annotationClauses (deprecated : Option Deprecation) (see : List String) :
    ((annotationClauses deprecated see).map (·.1)).Sublist ["deprecated", "see"] :=
  keys_append (keys_option _ _ _) (keys_optionalClause _ _ _)

theorem foldlM_append_eq_ok {α β : Type} {k : α → β → Meaning α} {xs ys : List β} {a b c : α}
    (hxs : xs.foldlM k a = .ok b) (hys : ys.foldlM k b = .ok c) :
    (xs ++ ys).foldlM k a = .ok c := by
  rw [List.foldlM_append, hxs, Meaning.ok_bind, hys]

theorem foldlM_optionalClause {α : Type} {k : α → String × Form → Meaning α} {a b : α}
    {condition : Bool} {key : String} {value : Form}
    (present : condition = true → k a (key, value) = .ok b) (absent : condition = false → a = b) :
    (optionalClause condition key value).foldlM k a = .ok b := by
  cases condition with
  | false => rw [absent rfl]; rfl
  | true => simp [optionalClause, present rfl]

/-- Reading the clauses of a deprecation and of links restores both, if it restores either. -/
theorem foldlM_annotationClauses {α : Type} {k : α → String × Form → Meaning α}
    (annotated : Option Deprecation → List String → α) {deprecated : Option Deprecation}
    {see : List String}
    (deprecation : ∀ d, deprecated = some d →
      k (annotated none []) ("deprecated", d.toForm) = .ok (annotated (some d) []))
    (links : k (annotated deprecated []) ("see", .vector (see.map .string)) =
      .ok (annotated deprecated see)) :
    (annotationClauses deprecated see).foldlM k (annotated none []) =
      .ok (annotated deprecated see) := by
  rw [annotationClauses]
  refine foldlM_append_eq_ok (b := annotated deprecated []) ?_
    (foldlM_optionalClause (fun _ => links) fun empty => ?_)
  · cases deprecated with
    | none => rfl
    | some d => simp [deprecation d rfl]
  · obtain rfl : see = [] := by simpa using empty
    rfl

namespace TypeDeclaration

/-- The clauses of a type, in the order in which they are written. -/
def clauseList (d : TypeDeclaration) : List (String × Form) :=
  (d.parent.map fun p => ("extends", .symbol p)).toList ++
  optionalClause (!d.capabilities.isEmpty) "implements" (symbolVector d.capabilities) ++
  optionalClause (!d.template.isEmpty) "template" (symbolVector d.template) ++
  optionalClause (d.kind = .classLike && !(d.constructor.getD []).isEmpty) "params"
    (Parameter.vector (d.constructor.getD [])) ++
  annotationClauses d.deprecated d.see ++
  optionalClause (!d.members.isEmpty) "members" (Member.vector d.members)

theorem toForm_eq_list (d : TypeDeclaration) :
    d.toForm = .list (.symbol d.kind.head :: .symbol d.name ::
      ((d.aliased.map TypeExpr.toForm).toList ++
        d.clauseList.flatMap fun c => clause c.1 c.2)) := by
  have constructor : d.constructorClause =
      (optionalClause (d.kind = .classLike && !(d.constructor.getD []).isEmpty) "params"
        (Parameter.vector (d.constructor.getD []))).flatMap fun c => clause c.1 c.2 := by
    rw [constructorClause, ← clauseIf_eq_flatMap]
    cases d.kind <;> cases d.constructor <;> rfl
  simp only [toForm, constructor, clauseList, namesClause, clauseIf_eq_flatMap,
    annotations_eq_flatMap, List.flatMap_append, List.append_assoc]
  cases d.aliased <;> cases d.parent <;> simp

theorem clauseList_nodup (d : TypeDeclaration) : (d.clauseList.map (·.1)).Nodup := by
  have keys : (d.clauseList.map (·.1)).Sublist
      (["extends"] ++ ["implements"] ++ ["template"] ++ ["params"] ++ ["deprecated", "see"] ++
        ["members"]) := by
    refine keys_append (keys_append (keys_append (keys_append (keys_append ?_ ?_) ?_) ?_) ?_) ?_
    · exact keys_option _ _ _
    · exact keys_optionalClause _ _ _
    · exact keys_optionalClause _ _ _
    · exact keys_optionalClause _ _ _
    · exact keys_annotationClauses _ _
    · exact keys_optionalClause _ _ _
  exact keys.nodup (by decide)

theorem foldlM_annotations (d : TypeDeclaration) {deprecated : Option Deprecation}
    (see : List String) (h : ∀ e, deprecated = some e → e.Meets .expressible) :
    (annotationClauses deprecated see).foldlM addClause { d with deprecated := none, see := [] } =
      .ok { d with deprecated, see } := by
  refine foldlM_annotationClauses (fun deprecated see => { d with deprecated, see })
    (fun e he => ?_) ?_
  · simp [addClause, Deprecation.ofForm_toForm (h e he)]
  · simp [addClause, linksOfForm_vector]

section Clauses

variable (d : TypeDeclaration) (hkind : d.kind ≠ .typedef)
include hkind

theorem foldlM_parent {parent : Option String} (h : ∀ n, parent = some n → isPlainName n = true) :
    ((parent.map fun p => ("extends", Form.symbol p)).toList).foldlM addClause
      { d with parent := none } = .ok { d with parent } := by
  cases parent with
  | none => rfl
  | some p => simp [addClause, hkind, Form.expectTypeName_symbol (h p rfl)]

theorem foldlM_capabilities {capabilities : List String}
    (h : ∀ n ∈ capabilities, isPlainName n = true) :
    (optionalClause (!capabilities.isEmpty) "implements" (symbolVector capabilities)).foldlM
      addClause { d with capabilities := [] } = .ok { d with capabilities } := by
  refine foldlM_optionalClause (fun _ => ?_) fun empty => ?_
  · simp [addClause, hkind, expectTypeNames_symbolVector h]
  · simp_all

theorem foldlM_template {template : List String} (h : ∀ n ∈ template, isPlainName n = true) :
    (optionalClause (!template.isEmpty) "template" (symbolVector template)).foldlM
      addClause { d with template := [] } = .ok { d with template } := by
  refine foldlM_optionalClause (fun _ => ?_) fun empty => ?_
  · simp [addClause, hkind, expectTypeNames_symbolVector h]
  · simp_all

omit hkind in
theorem foldlM_constructor {constructor : Option (List Parameter)}
    (isSome : constructor.isSome ↔ d.kind = .classLike)
    (h : ∀ params, constructor = some params → Parameter.AllMeet .expressible params) :
    (optionalClause (d.kind = .classLike && !(constructor.getD []).isEmpty) "params"
      (Parameter.vector (constructor.getD []))).foldlM addClause
        { d with constructor := if d.kind = .classLike then some [] else none } =
      .ok { d with constructor } := by
  refine foldlM_optionalClause (fun hc => ?_) fun hc => ?_
  · obtain ⟨params, rfl⟩ := Option.isSome_iff_exists.1 (isSome.2 (by simp_all))
    have hclass := isSome.1 rfl
    simp [addClause, hclass, Parameter.listOfForm_vector (h params rfl)]
  · cases constructor with
    | none => simp_all
    | some params => simp_all

theorem foldlM_members {members : List Member} (h : ∀ m ∈ members, m.Meets .expressible) :
    (optionalClause (!members.isEmpty) "members" (Member.vector members)).foldlM
      addClause { d with members := [] } = .ok { d with members } := by
  refine foldlM_optionalClause (fun _ => ?_) fun empty => ?_
  · simp [addClause, hkind, Member.listOfForm_vector h]
  · simp_all

end Clauses

/-- Reading the clauses of a type restores them. -/
theorem foldlM_clauseList {d : TypeDeclaration} (h : d.Meets .expressible)
    (hmembers : d.kind = .typedef → d.members = []) :
    d.clauseList.foldlM addClause
        { name := d.name, kind := d.kind, aliased := d.aliased,
          constructor := if d.kind = .classLike then some [] else none } = .ok d := by
  have annotations (e : TypeDeclaration) := foldlM_annotations e d.see h.deprecated
  by_cases hkind : d.kind = .typedef
  · obtain ⟨name, kind, parent, capabilities, template, constructor, aliased, members, deprecated,
      see⟩ := d
    obtain ⟨rfl, rfl, rfl⟩ := h.typedef hkind
    obtain rfl := hmembers hkind
    dsimp only at hkind annotations
    subst hkind
    obtain rfl : constructor = none := by simpa using h.constructor_iff
    simpa [clauseList, optionalClause] using
      annotations { name, kind := .typedef, aliased }
  · -- each stretch of clauses restores one part of a declaration that lacks all the later ones
    have parent := foldlM_parent
      { d with
        capabilities := [], template := [], deprecated := none, see := [], members := []
        constructor := if d.kind = .classLike then some [] else none } hkind h.parent
    have capabilities := foldlM_capabilities
      { d with
        template := [], deprecated := none, see := [], members := []
        constructor := if d.kind = .classLike then some [] else none } hkind h.capabilities
    have template := foldlM_template
      { d with
        deprecated := none, see := [], members := []
        constructor := if d.kind = .classLike then some [] else none } hkind h.template
    have constructor := foldlM_constructor { d with deprecated := none, see := [], members := [] }
      h.constructor_iff h.constructor
    have annotations := annotations { d with members := [] }
    exact foldlM_append_eq_ok (foldlM_append_eq_ok (foldlM_append_eq_ok (foldlM_append_eq_ok
      (foldlM_append_eq_ok parent capabilities) template) constructor) annotations)
      (foldlM_members d hkind h.members)

/-- A type that meets the demands is what its form denotes, unless it is a typedef with
members. -/
theorem ofForm_toForm {d : TypeDeclaration} (h : d.Meets .expressible)
    (hmembers : d.kind = .typedef → d.members = []) : ofForm d.kind d.toForm = .ok d := by
  have plain : isPlainName d.name = true := h.name
  have clauses := foldlM_clauseList h hmembers
  have split := Form.clauses_flatMap .unplaced d.clauseList_nodup
  rw [toForm_eq_list]
  simp only [ofForm, Form.expectHead_list, Form.takeName_symbol plain, Form.span_list,
    Meaning.ok_bind]
  cases hkind : d.kind with
  | typedef =>
    obtain ⟨t, ht⟩ := Option.isSome_iff_exists.1 (h.aliased_iff.2 hkind)
    simp only [hkind, ht] at clauses
    have htype : TypeExpr.ofForm t.toForm = .ok t := TypeExpr.ofForm_toForm t (h.aliased t ht)
    simpa [ht, htype, split, ofTypedef] using clauses
  | classLike | interface | record =>
    obtain none : d.aliased = none := by simpa [hkind] using h.aliased_iff
    simp only [hkind, none] at clauses
    simpa [none, split, ofClass] using clauses

theorem ofForm?_toForm (d : TypeDeclaration) :
    Declaration.ofForm? d.toForm = (some <| Declaration.type ·) <$> ofForm d.kind d.toForm := by
  have head : d.toForm.head? = some d.kind.head := by rw [toForm_eq_list, Form.head?_list]
  simp only [Declaration.ofForm?, head]
  cases d.kind <;> rfl

/-- Of the types that meet the demands, all but the typedefs with members are what their forms
denote. -/
theorem ofForm?_toForm_iff {d : TypeDeclaration} (h : d.Meets .expressible) :
    Declaration.ofForm? d.toForm = .ok (some (.type d)) ↔ (d.kind = .typedef → d.members = []) := by
  constructor
  · intro hread
    exact (Declaration.meets_of_ofForm? Parts.expressible_readFrom trivial hread).2
  · intro hmembers
    rw [ofForm?_toForm, ofForm_toForm h hmembers]
    rfl

end TypeDeclaration

theorem LiteralKind.ofForm_symbol (kind : LiteralKind) :
    LiteralKind.ofForm (.symbol kind.name) = .ok kind := by
  cases kind <;> rfl

theorem Literal.ofForm_toForm (v : Literal) : Literal.ofForm v.toForm = .ok v := by
  cases v <;> rfl

theorem EnumSymbol.ofEntry_toEntry {kind : LiteralKind} {v : EnumSymbol} (h : v.value.kind = kind) :
    EnumSymbol.ofEntry kind v.toEntry = .ok v := by
  simp [ofEntry, toEntry, Form.keyword, Form.ofAtom, Form.keyword?, Literal.ofForm_toForm, h]

namespace Enumeration

/-- The clauses of an enumeration, in the order in which they are written. -/
def clauseList (d : Enumeration) : List (String × Form) :=
  ("of", .symbol d.kind.name) :: annotationClauses d.deprecated d.see ++
    [("values", .map (d.symbols.map EnumSymbol.toEntry))]

theorem toForm_eq_list (d : Enumeration) :
    d.toForm = .list (.symbol "enum:" :: .symbol d.name ::
      d.clauseList.flatMap fun c => clause c.1 c.2) := by
  simp [toForm, clauseList, annotations_eq_flatMap]

theorem clauseList_nodup (d : Enumeration) : (d.clauseList.map (·.1)).Nodup := by
  have keys : (d.clauseList.map (·.1)).Sublist ("of" :: ["deprecated", "see"] ++ ["values"]) :=
    keys_append ((keys_annotationClauses _ _).cons_cons _) (.refl _)
  exact keys.nodup (by decide)

theorem foldlM_annotations (draft : EnumDraft) {deprecated : Option Deprecation}
    (see : List String) (h : ∀ e, deprecated = some e → e.Meets .expressible) :
    (annotationClauses deprecated see).foldlM EnumDraft.addClause
        { draft with deprecated := none, see := [] } = .ok { draft with deprecated, see } := by
  refine foldlM_annotationClauses (fun deprecated see => { draft with deprecated, see })
    (fun e he => ?_) ?_
  · simp [EnumDraft.addClause, Deprecation.ofForm_toForm (h e he)]
  · simp [EnumDraft.addClause, linksOfForm_vector]

/-- An enumeration that meets the demands is what its form denotes. -/
theorem ofForm_toForm {d : Enumeration} (h : d.Meets .expressible) :
    Enumeration.ofForm d.toForm = .ok d := by
  have plain : isPlainName d.name = true := h.name
  have split := Form.clauses_flatMap .unplaced d.clauseList_nodup
  have annotations := foldlM_annotations { kind := some d.kind } d.see h.deprecated
  have symbols : (d.symbols.map EnumSymbol.toEntry).mapM (EnumSymbol.ofEntry d.kind) =
      .ok d.symbols :=
    Meaning.mapM_map d.symbols fun v hv => EnumSymbol.ofEntry_toEntry (h.symbols v hv).2
  have draft : d.clauseList.foldlM EnumDraft.addClause {} =
      .ok ⟨some d.kind, d.symbols.map EnumSymbol.toEntry, d.deprecated, d.see⟩ := by
    rw [clauseList]
    refine foldlM_append_eq_ok
      (b := { kind := some d.kind, deprecated := d.deprecated, see := d.see }) ?_ ?_
    · simpa [EnumDraft.addClause, LiteralKind.ofForm_symbol] using annotations
    · simp [EnumDraft.addClause, Form.map, Form.map?]
  rw [toForm_eq_list]
  simp [Enumeration.ofForm, Form.takeName_symbol plain, split, draft, symbols, -List.mapM_map]

/-- An enumeration that meets the demands is what its form denotes, among all declarations. -/
theorem ofForm?_toForm {d : Enumeration} (h : d.Meets .expressible) :
    Declaration.ofForm? d.toForm = .ok (some (.enum d)) := by
  have head : d.toForm.head? = some "enum:" := by rw [toForm_eq_list, Form.head?_list]
  simp [Declaration.ofForm?, head, ofForm_toForm h]

end Enumeration

/-- An augmentation that meets the demands is what its form denotes. -/
theorem Augmentation.ofForm?_toForm {a : Augmentation} (h : a.Meets .expressible) :
    Declaration.ofForm? a.toForm = .ok (some (.augment a)) := by
  have plain : isPlainName a.target = true := h.target
  have distinct : ([("members", Member.vector a.members)].map (·.1)).Nodup := by simp
  have split := Form.clauses_flatMap .unplaced distinct
  have clauses : addClause ⟨a.target, []⟩ ("members", Member.vector a.members) = .ok a := by
    simp [addClause, Member.listOfForm_vector h.members]
  simp only [List.flatMap_cons, List.flatMap_nil, List.append_nil] at split
  simp [Declaration.ofForm?, toForm, Augmentation.ofForm, Form.takeName_symbol plain, split,
    clauses]

/-- A declaration that meets the demands is what its form denotes. -/
theorem Declaration.ofForm?_toForm {d : Declaration} (h : d.Meets .expressible) :
    ofForm? d.toForm = .ok (some d) := by
  cases d with
  | type d => exact (TypeDeclaration.ofForm?_toForm_iff h.1).2 h.2
  | enum d => exact Enumeration.ofForm?_toForm h
  | augment a => exact Augmentation.ofForm?_toForm h

/-- A declaration that any form denotes is what its own form denotes. Nothing but the span of the
form is lost. -/
theorem Declaration.ofForm_toForm_of_ofForm? {f : Form} {d : Declaration}
    (h : ofForm? f = .ok (some d)) :
    ofForm? d.toForm = .ok (some d) ∧ Declared.ofForm f = .ok ⟨d, f.span⟩ ∧
      Declared.ofForm d.toForm = .ok ⟨d, d.toForm.span⟩ := by
  have back : ofForm? d.toForm = .ok (some d) :=
    ofForm?_toForm (meets_of_ofForm? Parts.expressible_readFrom trivial h)
  exact ⟨back, by simp [Declared.ofForm, ofForm, h], by simp [Declared.ofForm, ofForm, back]⟩

/-- Flags in another order, a result that may be left out, a qualifier in a list of its own, and a
deprecation without content are all read back. -/
theorem Declaration.ofForm_toForm_of_ofForm?_spellings :
    let property := Form.list [.symbol "property", .symbol "gain",
      .list [.symbol "?", .symbol "number"], .keyword "const", .keyword "readonly"]
    let method := Form.list [.symbol "method", .symbol "stop", .vector [], .symbol "void",
      .keyword "deprecated", .map []]
    let f := Form.list [.symbol "interface:", .symbol "Node", .keyword "see", .vector [],
      .keyword "members", .vector [property, method]]
    ∃ d, ofForm? f = .ok (some d) ∧ ofForm? d.toForm = .ok (some d) := by
  intro property method f
  obtain ⟨d, h⟩ : ∃ d, ofForm? f = .ok (some d) := ⟨_, rfl⟩
  exact ⟨d, h, (ofForm_toForm_of_ofForm? h).1⟩

end ApiCatalog
