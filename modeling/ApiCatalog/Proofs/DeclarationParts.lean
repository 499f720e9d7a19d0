import Mathlib.Data.List.Basic
import ApiCatalog.Proofs.ExpressibleTypes
import ApiCatalog.Declaration.OfForm

/-!
# The parts of a declaration come from its form

A declaration is put together from names, symbols, keywords, type expressions and references
that stand in its form. `Parts` is what is asked of each sort of them, and `Meets` says that a
declaration has only such parts, besides what the analysis sees to itself: parameters have
different names, only classes have a constructor, only typedefs an alias, and the values of an
enumeration are of its kind.

Main statements: `Declaration.meets_of_ofForm?`, a property that every part of a form passes on
holds of every part of the declaration; `TypeDeclaration.Meets.addMembers`, added members keep it.
-/

namespace ApiCatalog

namespace Meaning

variable {α β : Type}

theorem exists_of_mem_mapM {k : α → Meaning β} {xs : List α} {ys : List β}
    (h : xs.mapM k = .ok ys) : ∀ y ∈ ys, ∃ x ∈ xs, k x = .ok y := by
  induction xs generalizing ys with
  | nil => cases h; simp
  | cons x xs ih =>
    rw [List.mapM_cons] at h
    obtain ⟨y, hy, h⟩ := bind_eq_ok.1 h
    obtain ⟨ys, hys, h⟩ := bind_eq_ok.1 h
    cases h
    intro z hz
    rcases List.mem_cons.1 hz with rfl | hz
    · exact ⟨x, by simp, hy⟩
    · obtain ⟨w, hw, hk⟩ := ih hys z hz
      exact ⟨w, by simp [hw], hk⟩

/-- What every step keeps holds at the end. -/
theorem foldlM_induction {k : α → β → Meaning α} (I : α → Prop) {xs : List β} {a b : α}
    (step : ∀ a, ∀ x ∈ xs, ∀ b, I a → k a x = .ok b → I b) (ha : I a)
    (h : xs.foldlM k a = .ok b) : I b := by
  induction xs generalizing a with
  | nil => cases h; exact ha
  | cons x xs ih =>
    rw [List.foldlM_cons] at h
    obtain ⟨c, hc, h⟩ := bind_eq_ok.1 h
    exact ih (fun a y hy b => step a y (by simp [hy]) b) (step a x (by simp) c ha hc) h

end Meaning

/-! ### Parts -/

/-- What is asked of the parts of a declaration: of the names of types and members, of other
symbols, of the keywords of an enumeration, of type expressions and of references. -/
structure Parts where
  name : String → Prop
  symbol : String → Prop
  keyword : String → Prop
  type : TypeExpr → Prop
  reference : Reference → Prop

section Meets

variable (P : Parts)

def Deprecation.Meets (d : Deprecation) : Prop := ∀ r, d.replacement = some r → P.reference r

def Parameter.Meets (p : Parameter) : Prop := P.symbol p.name ∧ P.type p.type

/-- Parameters that meet the demands and have different names. -/
def Parameter.AllMeet (params : List Parameter) : Prop :=
  (params.map (·.name)).Nodup ∧ ∀ p ∈ params, p.Meets P

def MemberKind.Meets : MemberKind → Prop
  | .property type .. => P.type type
  | .method params returns mutates =>
    Parameter.AllMeet P params ∧ P.type returns ∧ ∀ n ∈ mutates, P.symbol n

structure Member.Meets (m : Member) : Prop where
  name : P.name m.name
  kind : m.kind.Meets P
  deprecated : ∀ d, m.deprecated = some d → d.Meets P

/-- A type with such parts. Whether a typedef has members is left open, since they can be added
from elsewhere. -/
structure TypeDeclaration.Meets (d : TypeDeclaration) : Prop where
  name : P.name d.name
  parent : ∀ n, d.parent = some n → P.name n
  capabilities : ∀ n ∈ d.capabilities, P.name n
  template : ∀ n ∈ d.template, P.name n
  constructor_iff : d.constructor.isSome ↔ d.kind = .classLike
  constructor : ∀ params, d.constructor = some params → Parameter.AllMeet P params
  aliased_iff : d.aliased.isSome ↔ d.kind = .typedef
  aliased : ∀ t, d.aliased = some t → P.type t
  typedef : d.kind = .typedef → d.parent = none ∧ d.capabilities = [] ∧ d.template = []
  members : ∀ m ∈ d.members, m.Meets P
  deprecated : ∀ e, d.deprecated = some e → e.Meets P

structure Enumeration.Meets (d : Enumeration) : Prop where
  name : P.name d.name
  symbols : ∀ v ∈ d.symbols, P.keyword v.name ∧ v.value.kind = d.kind
  deprecated : ∀ e, d.deprecated = some e → e.Meets P

structure Augmentation.Meets (a : Augmentation) : Prop where
  target : P.name a.target
  members : ∀ m ∈ a.members, m.Meets P

end Meets

/-- What is asked of the parts follows from `Q` of the forms that they are read from, and what
is in a form with `Q` has it too. -/
structure Parts.ReadFrom (P : Parts) (Q : Form → Prop) : Prop where
  items : ∀ {b items s}, Q (.seq b items s) → ∀ f ∈ items, Q f
  name : ∀ {f n}, Q f → f.symbol? = some n → isPlainName n = true → P.name n
  symbol : ∀ {f n}, Q f → f.symbol? = some n → P.symbol n
  keyword : ∀ {f n}, Q f → f.keyword? = some n → P.keyword n
  type : ∀ {f t}, Q f → TypeExpr.ofForm f = .ok t → P.type t
  void : P.type .void
  reference : ∀ {f r}, Q f → Reference.ofForm f = .ok r → P.reference r

/-! ### Names, clauses and annotations -/

section ReadFrom

variable {P : Parts} {Q : Form → Prop} (hP : P.ReadFrom Q)
include hP

namespace Form

theorem items_of_expectVector {f : Form} {place : String} {items : List Form} (hf : Q f)
    (h : f.expectVector place = .ok items) : ∀ g ∈ items, Q g := by
  rcases f with _ | ⟨_ | _ | _, items, s⟩ <;> cases h
  exact hP.items hf

theorem items_of_expectHead {f : Form} {head : String} {items : List Form} (hf : Q f)
    (h : f.expectHead head = .ok items) : ∀ g ∈ items, Q g := by
  rcases f with _ | ⟨_ | _ | _, items, s⟩ <;> try cases h
  simp only [expectHead] at h
  split at h
  · cases h
    exact hP.items hf
  · simp at h

theorem name_of_expectTypeName {f : Form} {place n : String} (hf : Q f)
    (h : f.expectTypeName place = .ok n) : P.name n := by
  simp only [expectTypeName] at h
  split at h
  · rename_i name hname
    split at h
    · rename_i plain
      cases h
      exact hP.name hf hname plain
    · simp at h
  · simp at h

theorem names_of_expectTypeNames {f : Form} {place : String} {ns : List String} (hf : Q f)
    (h : f.expectTypeNames place = .ok ns) : ∀ n ∈ ns, P.name n := by
  obtain ⟨items, hitems, h⟩ := Meaning.bind_eq_ok.1 h
  intro n hn
  obtain ⟨g, hg, hgn⟩ := Meaning.exists_of_mem_mapM h n hn
  exact name_of_expectTypeName hP (items_of_expectVector hP hf hitems g hg) hgn

theorem name_of_takeName {s : Span} {head n : String} {items rest : List Form}
    (hitems : ∀ f ∈ items, Q f) (h : takeName s head items = .ok (n, rest)) :
    P.name n ∧ ∀ f ∈ rest, Q f := by
  rcases items with _ | ⟨_, _ | ⟨name, more⟩⟩
  · cases h
  · cases h
  · obtain ⟨m, hm, h⟩ := Meaning.bind_eq_ok.1 h
    cases h
    exact ⟨name_of_expectTypeName hP (hitems name (by simp)) hm,
      fun f hf => hitems f (by simp [hf])⟩

theorem name_of_takeMemberName {s : Span} {head n : String} {items rest : List Form}
    (hitems : ∀ f ∈ items, Q f) (h : takeMemberName s head items = .ok (n, rest)) :
    P.name n ∧ ∀ f ∈ rest, Q f := by
  rcases items with _ | ⟨_, _ | ⟨name, more⟩⟩
  · cases h
  · cases h
  · simp only [takeMemberName] at h
    split at h
    · rename_i m hm
      split at h
      · rename_i plain
        cases h
        exact ⟨hP.name (hitems name (by simp)) hm plain, fun f hf => hitems f (by simp [hf])⟩
      · simp at h
    · simp at h

omit hP in
theorem values_of_clauses {s : Span} {seen : List String} {items : List Form}
    {cs : List (String × Form)} (hitems : ∀ f ∈ items, Q f) (h : clauses s seen items = .ok cs) :
    ∀ c ∈ cs, Q c.2 := by
  fun_induction clauses s seen items generalizing cs with
  | case1 => cases h; simp
  | case2 seen key =>
    obtain ⟨_, _, h⟩ := Meaning.bind_eq_ok.1 h
    cases h
  | case3 seen key value rest ih =>
    obtain ⟨name, _, h⟩ := Meaning.bind_eq_ok.1 h
    split at h
    · simp at h
    · obtain ⟨more, hmore, h⟩ := Meaning.bind_eq_ok.1 h
      cases h
      intro c hc
      rcases List.mem_cons.1 hc with rfl | hc
      · exact hitems value (by simp)
      · exact ih name (fun f hf => hitems f (by simp [hf])) hmore c hc

end Form

theorem Deprecation.meets_of_addEntry {d d' : Deprecation} {e : Form × Form} (hd : d.Meets P)
    (he : Q e.2) (h : d.addEntry e = .ok d') : d'.Meets P := by
  simp only [Deprecation.addEntry] at h
  split at h
  · obtain ⟨r, hr, h⟩ := Meaning.bind_eq_ok.1 h
    cases h
    rintro _ ⟨⟩
    exact hP.reference he hr
  · split at h
    · cases h; exact hd
    · simp at h
  · simp at h

theorem Deprecation.meets_of_ofForm {f : Form} {x : Option Deprecation} (hf : Q f)
    (h : Deprecation.ofForm f = .ok x) : ∀ d, x = some d → d.Meets P := by
  rintro d rfl
  have empty : ({} : Deprecation).Meets P := fun r hr => by cases hr
  rcases f with ⟨⟨_ | _⟩ | _ | _ | _ | _ | _, s⟩ | ⟨_ | _ | _, items, s⟩ <;> try cases h
  · exact empty
  · intro r hr
    cases hr
  · obtain ⟨r, hr, h⟩ := Meaning.bind_eq_ok.1 h
    cases h
    rintro _ ⟨⟩
    exact hP.reference hf hr
  · obtain ⟨e, he, h⟩ := Meaning.bind_eq_ok.1 (h : _ >>= _ = _)
    cases h
    exact Meaning.foldlM_induction (·.Meets P)
      (fun a e he b ha => Deprecation.meets_of_addEntry hP ha
        (hP.items hf e.2 (mem_of_mem_pairs he).2)) empty he

/-! ### Members -/

theorem Parameter.meets_of_ofParts {names : List String} {f name type : Form} {optional : Bool}
    {p : Parameter} (hname : Q name) (htype : Q type)
    (h : Parameter.ofParts names f name type optional = .ok p) :
    p.Meets P ∧ p.name ∉ names := by
  simp only [Parameter.ofParts] at h
  split at h
  · simp at h
  · rename_i n hn
    split at h
    · simp at h
    · rename_i new
      obtain ⟨t, ht, h⟩ := Meaning.bind_eq_ok.1 h
      cases h
      exact ⟨⟨hP.symbol hname hn, hP.type htype ht⟩, by simpa using new⟩

theorem Parameter.meets_of_ofForm {names : List String} {f : Form} {p : Parameter} (hf : Q f)
    (h : Parameter.ofForm names f = .ok p) : p.Meets P ∧ p.name ∉ names := by
  simp only [Parameter.ofForm] at h
  rcases f with _ | ⟨_ | _ | _, items, s⟩ <;> try cases h
  have parts := hP.items hf
  rcases items with _ | ⟨name, _ | ⟨type, _ | ⟨flag, _ | ⟨_, _⟩⟩⟩⟩ <;> try cases h
  · exact Parameter.meets_of_ofParts hP (parts name (by simp)) (parts type (by simp)) h
  · simp only [Form.list?] at h
    split at h
    · exact Parameter.meets_of_ofParts hP (parts name (by simp)) (parts type (by simp)) h
    · simp at h

theorem Parameter.allMeet_of_ofForms {names : List String} {fs : List Form}
    {params : List Parameter} (hfs : ∀ f ∈ fs, Q f) (h : Parameter.ofForms names fs = .ok params) :
    Parameter.AllMeet P params ∧ ∀ p ∈ params, p.name ∉ names := by
  induction fs generalizing names params with
  | nil => cases h; exact ⟨⟨.nil, by simp⟩, by simp⟩
  | cons f fs ih =>
    obtain ⟨p, hp, h⟩ := Meaning.bind_eq_ok.1 h
    obtain ⟨ps, hps, h⟩ := Meaning.bind_eq_ok.1 h
    cases h
    obtain ⟨first, new⟩ := Parameter.meets_of_ofForm hP (hfs f (by simp)) hp
    obtain ⟨⟨distinct, rest⟩, apart⟩ := ih (fun g hg => hfs g (by simp [hg])) hps
    refine ⟨⟨?_, ?_⟩, ?_⟩
    · refine List.nodup_cons.2 ⟨fun hn => ?_, distinct⟩
      obtain ⟨q, hq, hqn⟩ := List.mem_map.1 hn
      exact apart q hq (by simp [hqn])
    · simpa [first] using rest
    · simp only [List.forall_mem_cons]
      exact ⟨new, fun q hq hmem => apart q hq (by simp [hmem])⟩

theorem Parameter.allMeet_of_listOfForm {f : Form} {params : List Parameter} (hf : Q f)
    (h : Parameter.listOfForm f = .ok params) : Parameter.AllMeet P params := by
  obtain ⟨items, hitems, h⟩ := Meaning.bind_eq_ok.1 h
  exact (Parameter.allMeet_of_ofForms hP (Form.items_of_expectVector hP hf hitems) h).1

namespace Member

theorem meets_of_annotate {m m' : Member} {key : String} {value : Form} (hm : m.Meets P)
    (hv : Q value) (h : m.annotate key value = .ok m') : m'.Meets P := by
  simp only [annotate] at h
  split at h <;> obtain ⟨x, hx, h⟩ := Meaning.bind_eq_ok.1 h <;> cases h
  · exact ⟨hm.name, hm.kind, Deprecation.meets_of_ofForm hP hv hx⟩
  · exact ⟨hm.name, hm.kind, hm.deprecated⟩

theorem meets_of_addPropertyClauses {s : Span} {type : TypeExpr} (htype : P.type type) :
    ∀ {isReadonly isConstant : Bool} {m m' : Member} {items : List Form}, m.Meets P →
      (∀ f ∈ items, Q f) → addPropertyClauses s type isReadonly isConstant m items = .ok m' →
      m'.Meets P
  | _, _, m, m', [], hm, _, h => by cases h; exact ⟨hm.name, htype, hm.deprecated⟩
  | isReadonly, isConstant, m, m', key :: rest, hm, hitems, h => by
    simp only [List.forall_mem_cons] at hitems
    simp only [addPropertyClauses] at h
    obtain ⟨name, _, h⟩ := Meaning.bind_eq_ok.1 h
    split at h
    · exact meets_of_addPropertyClauses htype hm hitems.2 h
    · split at h
      · exact meets_of_addPropertyClauses htype hm hitems.2 h
      · split at h
        · rcases rest with _ | ⟨value, rest⟩
          · cases h
          · simp only [List.forall_mem_cons] at hitems
            obtain ⟨n, hn, h⟩ := Meaning.bind_eq_ok.1 h
            exact meets_of_addPropertyClauses htype (meets_of_annotate hP hm hitems.2.1 hn)
              hitems.2.2 h
        · simp at h

omit hP in
theorem symbol?_of_mutatedName {f : Form} {n : String} (h : mutatedName f = .ok n) :
    f.symbol? = some n := by
  simp only [mutatedName] at h
  split at h
  · rename_i hn; cases h; exact hn
  · simp at h

theorem meets_of_addMethodClauses {s : Span} {params : List Parameter} {returns : TypeExpr}
    (hparams : Parameter.AllMeet P params) (hreturns : P.type returns) :
    ∀ {mutates : List String} {m m' : Member} {items : List Form}, (∀ n ∈ mutates, P.symbol n) →
      m.Meets P → (∀ f ∈ items, Q f) →
      addMethodClauses s params returns mutates m items = .ok m' → m'.Meets P
  | mutates, m, m', [], hmut, hm, _, h => by
    cases h; exact ⟨hm.name, ⟨hparams, hreturns, hmut⟩, hm.deprecated⟩
  | _, _, _, [_], _, _, _, h => by
    obtain ⟨_, _, h⟩ := Meaning.bind_eq_ok.1 h
    cases h
  | mutates, m, m', key :: value :: rest, hmut, hm, hitems, h => by
    simp only [List.forall_mem_cons] at hitems
    simp only [addMethodClauses] at h
    obtain ⟨name, _, h⟩ := Meaning.bind_eq_ok.1 h
    split at h
    · obtain ⟨items, hitems', h⟩ := Meaning.bind_eq_ok.1 h
      obtain ⟨ns, hns, h⟩ := Meaning.bind_eq_ok.1 h
      refine meets_of_addMethodClauses hparams hreturns (fun n hn => ?_) hm hitems.2.2 h
      obtain ⟨g, hg, hgn⟩ := Meaning.exists_of_mem_mapM hns n hn
      exact hP.symbol (Form.items_of_expectVector hP hitems.2.1 hitems' g hg)
        (symbol?_of_mutatedName hgn)
    · split at h
      · obtain ⟨n, hn, h⟩ := Meaning.bind_eq_ok.1 h
        exact meets_of_addMethodClauses hparams hreturns hmut
          (meets_of_annotate hP hm hitems.2.1 hn) hitems.2.2 h
      · simp at h

theorem meets_of_propertyOfForm {f : Form} {m : Member} (hf : Q f)
    (h : propertyOfForm f = .ok m) : m.Meets P := by
  obtain ⟨items, hitems, h⟩ := Meaning.bind_eq_ok.1 h
  obtain ⟨⟨name, rest⟩, hname, h⟩ := Meaning.bind_eq_ok.1 h
  obtain ⟨hn, hrest⟩ :=
    Form.name_of_takeMemberName hP (Form.items_of_expectHead hP hf hitems) hname
  rcases rest with _ | ⟨type, clauses⟩
  · simp at h
  · obtain ⟨t, ht, h⟩ := Meaning.bind_eq_ok.1 h
    simp only [List.forall_mem_cons] at hrest
    have htype := hP.type hrest.1 ht
    have plain : (property name t).Meets P := ⟨hn, htype, by simp [property]⟩
    exact meets_of_addPropertyClauses hP htype plain hrest.2 h

theorem meets_of_methodOfForm {f : Form} {m : Member} (hf : Q f) (h : methodOfForm f = .ok m) :
    m.Meets P := by
  obtain ⟨items, hitems, h⟩ := Meaning.bind_eq_ok.1 h
  obtain ⟨⟨name, rest⟩, hname, h⟩ := Meaning.bind_eq_ok.1 h
  obtain ⟨hn, hrest⟩ :=
    Form.name_of_takeMemberName hP (Form.items_of_expectHead hP hf hitems) hname
  rcases rest with _ | ⟨params, rest⟩
  · simp at h
  · obtain ⟨ps, hps, h⟩ := Meaning.bind_eq_ok.1 h
    simp only [List.forall_mem_cons] at hrest
    have hparams := Parameter.allMeet_of_listOfForm hP hrest.1 hps
    have method {returns : TypeExpr} {clauses : List Form} (hreturns : P.type returns)
        (hclauses : ∀ g ∈ clauses, Q g)
        (h : addMethodClauses f.span ps returns [] (method name ps returns) clauses = .ok m) :
        m.Meets P := by
      have plain : (Member.method name ps returns).Meets P :=
        ⟨hn, ⟨hparams, hreturns, by simp⟩, by simp [Member.method]⟩
      exact meets_of_addMethodClauses hP hparams hreturns (by simp) plain hclauses h
    rcases rest with _ | ⟨r, rest⟩
    · exact method hP.void (by simp) h
    · dsimp only at h
      split at h
      · exact method hP.void hrest.2 h
      · obtain ⟨t, ht, h⟩ := Meaning.bind_eq_ok.1 h
        simp only [List.forall_mem_cons] at hrest
        exact method (hP.type hrest.2.1 ht) hrest.2.2 h

theorem meets_of_ofForm {f : Form} {m : Member} (hf : Q f) (h : ofForm f = .ok m) :
    m.Meets P := by
  simp only [ofForm] at h
  split at h
  · exact meets_of_propertyOfForm hP hf h
  · exact meets_of_methodOfForm hP hf h
  · simp at h

theorem meets_of_listOfForm {f : Form} {ms : List Member} (hf : Q f)
    (h : listOfForm f = .ok ms) : ∀ m ∈ ms, m.Meets P := by
  obtain ⟨items, hitems, h⟩ := Meaning.bind_eq_ok.1 h
  intro m hm
  obtain ⟨g, hg, hgm⟩ := Meaning.exists_of_mem_mapM h m hm
  exact meets_of_ofForm hP (Form.items_of_expectVector hP hf hitems g hg) hgm

end Member

/-! ### Declarations -/

namespace TypeDeclaration

/-- A type that is being read: a typedef has no members yet. -/
def Draft (P : Parts) (kind : TypeKind) (d : TypeDeclaration) : Prop :=
  d.kind = kind ∧ d.Meets P ∧ (d.kind = .typedef → d.members = [])

theorem draft_of_addClause {kind : TypeKind} {d d' : TypeDeclaration} {clause : String × Form}
    (hd : d.Draft P kind) (hc : Q clause.2) (h : d.addClause clause = .ok d') :
    d'.Draft P kind := by
  obtain ⟨key, value⟩ := clause
  obtain ⟨hkind, hmeets, hmembers⟩ := hd
  simp only [addClause] at h
  split at h
  · obtain ⟨x, hx, h⟩ := Meaning.bind_eq_ok.1 h
    cases h
    exact ⟨hkind, { hmeets with deprecated := Deprecation.meets_of_ofForm hP hc hx }, hmembers⟩
  split at h
  · obtain ⟨x, hx, h⟩ := Meaning.bind_eq_ok.1 h
    cases h
    exact ⟨hkind, { hmeets with }, hmembers⟩
  split at h
  · simp at h
  -- none of the other clauses is one of a typedef
  rename_i htypedef
  split at h
  · obtain ⟨n, hn, h⟩ := Meaning.bind_eq_ok.1 h
    cases h
    refine ⟨hkind, { hmeets with parent := ?_, typedef := fun h => absurd h htypedef }, hmembers⟩
    rintro _ ⟨⟩
    exact Form.name_of_expectTypeName hP hc hn
  split at h
  · obtain ⟨ns, hns, h⟩ := Meaning.bind_eq_ok.1 h
    cases h
    exact ⟨hkind, { hmeets with
      capabilities := Form.names_of_expectTypeNames hP hc hns
      typedef := fun h => absurd h htypedef }, hmembers⟩
  split at h
  · obtain ⟨ns, hns, h⟩ := Meaning.bind_eq_ok.1 h
    cases h
    exact ⟨hkind, { hmeets with
      template := Form.names_of_expectTypeNames hP hc hns
      typedef := fun h => absurd h htypedef }, hmembers⟩
  split at h
  · obtain ⟨ms, hms, h⟩ := Meaning.bind_eq_ok.1 h
    cases h
    exact ⟨hkind, { hmeets with members := Member.meets_of_listOfForm hP hc hms },
      fun h => absurd h htypedef⟩
  split at h
  · rename_i hclass
    obtain ⟨ps, hps, h⟩ := Meaning.bind_eq_ok.1 h
    cases h
    refine ⟨hkind, { hmeets with constructor_iff := ?_, constructor := ?_ }, hmembers⟩
    · simp [hclass.2]
    · rintro _ ⟨⟩
      exact Parameter.allMeet_of_listOfForm hP hc hps
  · simp at h

omit hP in
/-- A type without clauses. -/
theorem draft_of_name {name : String} (hname : P.name name) {kind : TypeKind}
    {constructor : Option (List Parameter)} {aliased : Option TypeExpr}
    (hconstructor : constructor = if kind = .classLike then some [] else none)
    (haliased : aliased.isSome ↔ kind = .typedef) (ht : ∀ t, aliased = some t → P.type t) :
    ({ name, kind, constructor, aliased } : TypeDeclaration).Draft P kind := by
  refine ⟨rfl, ⟨hname, by simp, by simp, by simp, ?_, ?_, haliased, ht, by simp, by simp, by simp⟩,
    fun _ => rfl⟩
  · rw [hconstructor]
    split <;> simp_all
  · rintro params hparams
    rw [hconstructor] at hparams
    split at hparams <;> cases hparams
    exact ⟨.nil, by simp⟩

/-- A type that is read has only parts from its form, and a typedef has no members. -/
theorem draft_of_ofForm {kind : TypeKind} {f : Form} {d : TypeDeclaration} (hf : Q f)
    (h : ofForm kind f = .ok d) : d.Draft P kind := by
  obtain ⟨items, hitems, h⟩ := Meaning.bind_eq_ok.1 h
  obtain ⟨⟨name, rest⟩, hname, h⟩ := Meaning.bind_eq_ok.1 h
  obtain ⟨hn, hrest⟩ := Form.name_of_takeName hP (Form.items_of_expectHead hP hf hitems) hname
  have clauses {d₀ : TypeDeclaration} {rest : List Form} (hd : d₀.Draft P kind)
      (hrest : ∀ g ∈ rest, Q g)
      (h : (do (← Form.clauses f.span [] rest).foldlM addClause d₀) = .ok d) : d.Draft P kind := by
    obtain ⟨cs, hcs, h⟩ := Meaning.bind_eq_ok.1 h
    exact Meaning.foldlM_induction (·.Draft P kind)
      (fun a c hc b ha => draft_of_addClause hP ha (Form.values_of_clauses hrest hcs c hc)) hd h
  cases kind
  case typedef =>
    rcases rest with _ | ⟨aliased, rest⟩
    · cases h
    · obtain ⟨t, ht, h⟩ := Meaning.bind_eq_ok.1 h
      simp only [List.forall_mem_cons] at hrest
      refine clauses (draft_of_name hn rfl (by simp) ?_) hrest.2 h
      rintro _ ⟨⟩
      exact hP.type hrest.1 ht
  all_goals exact clauses (draft_of_name hn rfl (by simp) (by simp)) hrest h

end TypeDeclaration

omit hP in
theorem Form.map?_eq_some {f : Form} {es : List (Form × Form)} (h : f.map? = some es) :
    ∃ items s, f = .seq .curly items s ∧ es = pairs items := by
  rcases f with _ | ⟨_ | _ | _, items, s⟩ <;> cases h
  exact ⟨items, s, rfl, rfl⟩

theorem EnumDraft.step_addClause {d d' : EnumDraft} {clause : String × Form}
    (hvalues : ∀ e ∈ d.values, Q e.1 ∧ Q e.2) (hdep : ∀ e, d.deprecated = some e → e.Meets P)
    (hc : Q clause.2) (h : d.addClause clause = .ok d') :
    (∀ e ∈ d'.values, Q e.1 ∧ Q e.2) ∧ ∀ e, d'.deprecated = some e → e.Meets P := by
  obtain ⟨key, value⟩ := clause
  simp only [EnumDraft.addClause] at h
  split at h
  · obtain ⟨x, hx, h⟩ := Meaning.bind_eq_ok.1 h
    cases h
    exact ⟨hvalues, hdep⟩
  split at h
  · split at h
    · rename_i values hmap
      cases h
      obtain ⟨items, s, rfl, rfl⟩ := Form.map?_eq_some hmap
      refine ⟨fun e he => ?_, hdep⟩
      obtain ⟨h1, h2⟩ := mem_of_mem_pairs he
      exact ⟨hP.items hc _ h1, hP.items hc _ h2⟩
    · simp at h
  split at h
  · obtain ⟨x, hx, h⟩ := Meaning.bind_eq_ok.1 h
    cases h
    exact ⟨hvalues, Deprecation.meets_of_ofForm hP hc hx⟩
  split at h
  · obtain ⟨x, hx, h⟩ := Meaning.bind_eq_ok.1 h
    cases h
    exact ⟨hvalues, hdep⟩
  · simp at h

theorem EnumSymbol.meets_of_ofEntry {kind : LiteralKind} {e : Form × Form} {v : EnumSymbol}
    (he : Q e.1) (h : EnumSymbol.ofEntry kind e = .ok v) :
    P.keyword v.name ∧ v.value.kind = kind := by
  simp only [EnumSymbol.ofEntry] at h
  split at h
  · simp at h
  · rename_i symbol hsymbol
    obtain ⟨value, _, h⟩ := Meaning.bind_eq_ok.1 h
    split at h
    · rename_i hkind
      cases h
      exact ⟨hP.keyword he hsymbol, hkind⟩
    · simp at h

theorem Enumeration.meets_of_ofForm {f : Form} {d : Enumeration} (hf : Q f)
    (h : Enumeration.ofForm f = .ok d) : d.Meets P := by
  obtain ⟨items, hitems, h⟩ := Meaning.bind_eq_ok.1 h
  obtain ⟨⟨name, rest⟩, hname, h⟩ := Meaning.bind_eq_ok.1 h
  obtain ⟨hn, hrest⟩ := Form.name_of_takeName hP (Form.items_of_expectHead hP hf hitems) hname
  obtain ⟨cs, hcs, h⟩ := Meaning.bind_eq_ok.1 h
  obtain ⟨draft, hdraft, h⟩ := Meaning.bind_eq_ok.1 h
  obtain ⟨hvalues, hdep⟩ := Meaning.foldlM_induction
    (fun d : EnumDraft => (∀ e ∈ d.values, Q e.1 ∧ Q e.2) ∧ ∀ e, d.deprecated = some e → e.Meets P)
    (fun a c hc b ha =>
      EnumDraft.step_addClause hP ha.1 ha.2 (Form.values_of_clauses hrest hcs c hc))
    (by simp) hdraft
  split at h
  · simp at h
  · obtain ⟨symbols, hsymbols, h⟩ := Meaning.bind_eq_ok.1 h
    cases h
    refine ⟨hn, fun v hv => ?_, hdep⟩
    obtain ⟨e, he, hev⟩ := Meaning.exists_of_mem_mapM hsymbols v hv
    exact EnumSymbol.meets_of_ofEntry hP (hvalues e he).1 hev

theorem Augmentation.meets_of_ofForm {f : Form} {a : Augmentation} (hf : Q f)
    (h : Augmentation.ofForm f = .ok a) : a.Meets P := by
  obtain ⟨items, hitems, h⟩ := Meaning.bind_eq_ok.1 h
  obtain ⟨⟨name, rest⟩, hname, h⟩ := Meaning.bind_eq_ok.1 h
  obtain ⟨hn, hrest⟩ := Form.name_of_takeName hP (Form.items_of_expectHead hP hf hitems) hname
  obtain ⟨cs, hcs, h⟩ := Meaning.bind_eq_ok.1 h
  refine Meaning.foldlM_induction (·.Meets P) (fun a c hc b ha hab => ?_)
    (⟨hn, by simp⟩ : Augmentation.Meets P ⟨name, []⟩) h
  simp only [Augmentation.addClause] at hab
  split at hab
  · obtain ⟨ms, hms, hab⟩ := Meaning.bind_eq_ok.1 hab
    cases hab
    exact ⟨ha.target, Member.meets_of_listOfForm hP (Form.values_of_clauses hrest hcs c hc) hms⟩
  · simp at hab

/-- What is asked of a declaration that is read from a form. -/
def Declaration.Meets (P : Parts) : Declaration → Prop
  | .type d => d.Meets P ∧ (d.kind = .typedef → d.members = [])
  | .enum d => d.Meets P
  | .augment a => a.Meets P

theorem Declaration.meets_of_ofForm? {f : Form} {d : Declaration} (hf : Q f)
    (h : Declaration.ofForm? f = .ok (some d)) : d.Meets P := by
  have type {kind : TypeKind}
      (h : (do .ok (some (Declaration.type (← TypeDeclaration.ofForm kind f))) :
        Meaning (Option Declaration)) = .ok (some d)) : d.Meets P := by
    obtain ⟨t, ht, h⟩ := Meaning.bind_eq_ok.1 h
    cases h
    exact (TypeDeclaration.draft_of_ofForm hP hf ht).2
  simp only [Declaration.ofForm?] at h
  split at h
  · exact type h
  · exact type h
  · exact type h
  · exact type h
  · obtain ⟨e, he, h⟩ := Meaning.bind_eq_ok.1 h
    cases h
    exact Enumeration.meets_of_ofForm hP hf he
  · obtain ⟨a, ha, h⟩ := Meaning.bind_eq_ok.1 h
    cases h
    exact Augmentation.meets_of_ofForm hP hf ha
  · cases h

end ReadFrom

/-- Added members leave the other parts as they are. -/
theorem TypeDeclaration.Meets.addMembers {P : Parts} {d : TypeDeclaration} (hd : d.Meets P)
    {members : List Member} (hm : ∀ m ∈ members, m.Meets P) : (d.addMembers members).Meets P :=
  { hd with
    members := fun m h => (List.mem_append.1 h).elim (hd.members m) (hm m) }

end ApiCatalog
