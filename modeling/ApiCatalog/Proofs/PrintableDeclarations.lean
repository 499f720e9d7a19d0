import ApiCatalog.Proofs.ExpressibleDeclarations

/-!
# Forms of declarations can be printed

The words of a form are those of the language and the names of the declaration, and these were
read from a spelled form. Only an enumeration has numbers in it, which are printed as they are
if they are finite.

Main statement: `Declaration.madeOf_toForm`.
-/

namespace ApiCatalog

/-- Names, symbols, keywords and references are spelled, and types have printable forms. -/
def Parts.printable : Parts where
  name n := (Atom.symbol n).IsPrintable
  symbol n := (Atom.symbol n).IsPrintable
  keyword n := (Atom.keyword n).IsPrintable
  type t := t.toForm.MadeOf Atom.IsPrintable
  reference r := (Atom.symbol r.text).IsPrintable

theorem Parts.printable_readFrom : Parts.printable.ReadFrom (·.MadeOf Atom.IsSpelled) where
  items h := h.items
  name hf h _ := hf.symbol? h
  symbol hf h := hf.symbol? h
  keyword hf h := hf.keyword? h
  type hf h := (TypeExpr.readFrom_of_ofForm h).2 hf
  void := (by decide : (Atom.symbol "void").IsPrintable)
  reference {f r} hf h := by
    simp only [Reference.ofForm] at h
    split at h
    · rename_i r' hr
      cases h
      obtain ⟨s, hs, hr⟩ := Option.bind_eq_some_iff.1 hr
      show (Atom.symbol r.text).IsPrintable
      rw [Reference.text_of_ofText? hr]
      exact hf.symbol? hs
    · simp at h

/-! ### Clauses -/

/-- Whether all of the forms can be printed. -/
def ArePrintable (fs : List Form) : Prop := ∀ f ∈ fs, f.MadeOf Atom.IsPrintable

theorem ArePrintable.nil : ArePrintable [] := fun _ h => (List.not_mem_nil h).elim

theorem ArePrintable.cons {f : Form} {fs : List Form} (hf : f.MadeOf Atom.IsPrintable)
    (hfs : ArePrintable fs) : ArePrintable (f :: fs) := List.forall_mem_cons.2 ⟨hf, hfs⟩

theorem ArePrintable.append {fs gs : List Form} (hfs : ArePrintable fs) (hgs : ArePrintable gs) :
    ArePrintable (fs ++ gs) := List.forall_mem_append.2 ⟨hfs, hgs⟩

theorem ArePrintable.map {α : Type} {k : α → Form} {xs : List α}
    (h : ∀ x ∈ xs, (k x).MadeOf Atom.IsPrintable) : ArePrintable (xs.map k) :=
  List.forall_mem_map.2 h

theorem ArePrintable.ite {p : Prop} [Decidable p] {fs gs : List Form} (hfs : ArePrintable fs)
    (hgs : ArePrintable gs) : ArePrintable (if p then fs else gs) := by
  split
  · exact hfs
  · exact hgs

theorem ArePrintable.list {fs : List Form} (h : ArePrintable fs) :
    (Form.list fs).MadeOf Atom.IsPrintable := Form.madeOf_list.2 h

theorem ArePrintable.vector {fs : List Form} (h : ArePrintable fs) :
    (Form.vector fs).MadeOf Atom.IsPrintable := Form.madeOf_vector.2 h

theorem arePrintable_clause {key : String} {value : Form} (hkey : (Atom.keyword key).IsPrintable)
    (hvalue : value.MadeOf Atom.IsPrintable) : ArePrintable (clause key value) :=
  .cons hkey (.cons hvalue .nil)

theorem arePrintable_clauseIf (condition : Bool) {key : String} {value : Form}
    (hkey : (Atom.keyword key).IsPrintable) (hvalue : value.MadeOf Atom.IsPrintable) :
    ArePrintable (clauseIf condition key value) :=
  .ite (arePrintable_clause hkey hvalue) .nil

theorem arePrintable_namesClause {key : String} {names : List String}
    (hkey : (Atom.keyword key).IsPrintable) (h : ∀ n ∈ names, (Atom.symbol n).IsPrintable) :
    ArePrintable (namesClause key names) :=
  arePrintable_clauseIf _ hkey (ArePrintable.map h).vector

theorem Deprecation.madeOf_toForm {d : Deprecation} (h : d.Meets .printable) :
    d.toForm.MadeOf Atom.IsPrintable := by
  obtain ⟨_ | r, _ | note⟩ := d
  · trivial
  · trivial
  · exact h r rfl
  · have replacement : (Atom.keyword "replacement").IsPrintable := by decide
    have note : (Atom.keyword "note").IsPrintable := by decide
    exact Form.madeOf_map.2 (List.forall_mem_cons.2 ⟨⟨replacement, h r rfl⟩,
      List.forall_mem_singleton.2 ⟨note, trivial⟩⟩)

theorem arePrintable_annotations {deprecated : Option Deprecation} (see : List String)
    (h : ∀ d, deprecated = some d → d.Meets .printable) :
    ArePrintable (annotations deprecated see) := by
  have links : ArePrintable (see.map .string) := .map fun _ _ => trivial
  refine .append ?_ (arePrintable_clauseIf _ (by decide) links.vector)
  cases deprecated with
  | none => exact .nil
  | some d => exact arePrintable_clause (by decide) (Deprecation.madeOf_toForm (h d rfl))

/-! ### Members -/

theorem Parameter.madeOf_toForm {p : Parameter} (h : p.Meets .printable) :
    p.toForm.MadeOf Atom.IsPrintable :=
  ArePrintable.list (.cons h.1 (.cons h.2 (.ite (.cons (by decide) .nil) .nil)))

theorem Parameter.madeOf_vector {params : List Parameter} (h : AllMeet .printable params) :
    (Parameter.vector params).MadeOf Atom.IsPrintable :=
  ArePrintable.vector (.map fun p hp => Parameter.madeOf_toForm (h.2 p hp))

theorem Member.madeOf_toForm {m : Member} (h : m.Meets .printable) :
    m.toForm.MadeOf Atom.IsPrintable := by
  obtain ⟨name, kind, deprecated, see⟩ := m
  refine ArePrintable.list (.append ?_ (arePrintable_annotations see h.deprecated))
  cases kind with
  | property type isReadonly isConstant =>
    refine .append (.append (.cons ?_ (.cons h.name (.cons h.kind .nil)))
      (.ite (.cons ?_ .nil) .nil)) (.ite (.cons ?_ .nil) .nil) <;> decide
  | method params returns mutates =>
    obtain ⟨hparams, hreturns, hmutates⟩ := h.kind
    refine .append (.append (.cons ?_ (.cons h.name (.cons (Parameter.madeOf_vector hparams) .nil)))
      (.ite .nil (.cons hreturns .nil))) (arePrintable_namesClause ?_ hmutates) <;> decide

theorem Member.madeOf_vector {members : List Member} (h : ∀ m ∈ members, m.Meets .printable) :
    (Member.vector members).MadeOf Atom.IsPrintable :=
  ArePrintable.vector (.map fun m hm => Member.madeOf_toForm (h m hm))

/-! ### Declarations -/

theorem TypeDeclaration.madeOf_toForm {d : TypeDeclaration} (h : d.Meets .printable) :
    d.toForm.MadeOf Atom.IsPrintable := by
  refine ArePrintable.list (.append (.append (.append (.append (.append (.append (.append
    (.cons ?_ (.cons h.name .nil)) ?_) ?_) ?_) ?_) ?_) ?_) ?_)
  · cases d.kind <;> decide
  · cases ht : d.aliased with
    | none => exact .nil
    | some t => exact .cons (h.aliased t ht) .nil
  · cases hp : d.parent with
    | none => exact .nil
    | some p => exact arePrintable_clause (by decide) (h.parent p hp)
  · exact arePrintable_namesClause (by decide) h.capabilities
  · exact arePrintable_namesClause (by decide) h.template
  · unfold constructorClause
    split
    · rename_i params _ hparams
      exact arePrintable_clauseIf _ (by decide)
        (Parameter.madeOf_vector (h.constructor params hparams))
    · exact .nil
  · exact arePrintable_annotations d.see h.deprecated
  · exact arePrintable_clauseIf _ (by decide) (Member.madeOf_vector h.members)

/-- Whether the number, if it is one of floating point, is finite. -/
def Literal.IsFinite : Literal → Prop
  | .float x => x.isFinite
  | _ => True

theorem Literal.madeOf_toForm {v : Literal} (h : v.IsFinite) :
    v.toForm.MadeOf Atom.IsPrintable := by
  cases v with
  | string | int => trivial
  | float x => exact h

/-- Whether all numbers of the enumeration are finite. -/
def Enumeration.IsFinite (d : Enumeration) : Prop := ∀ v ∈ d.symbols, v.value.IsFinite

theorem Enumeration.madeOf_toForm {d : Enumeration} (h : d.Meets .printable) (hd : d.IsFinite) :
    d.toForm.MadeOf Atom.IsPrintable := by
  refine ArePrintable.list (.append (.append (.append (.cons ?_ (.cons h.name .nil))
    (arePrintable_clause ?_ ?_)) (arePrintable_annotations d.see h.deprecated))
    (arePrintable_clause ?_ (Form.madeOf_map.2 (List.forall_mem_map.2 fun v hv => ?_))))
  · decide
  · decide
  · cases d.kind <;> decide
  · decide
  · exact ⟨(h.symbols v hv).1, Literal.madeOf_toForm (hd v hv)⟩

theorem Augmentation.madeOf_toForm {a : Augmentation} (h : a.Meets .printable) :
    a.toForm.MadeOf Atom.IsPrintable := by
  refine ArePrintable.list (.append (.cons ?_ (.cons h.target .nil))
    (arePrintable_clause ?_ (Member.madeOf_vector h.members))) <;> decide

/-- Whether all numbers of the declaration are finite. -/
def Declaration.IsFinite : Declaration → Prop
  | .enum d => d.IsFinite
  | _ => True

/-- The form of a declaration that was read from a spelled form can be printed. -/
theorem Declaration.madeOf_toForm {d : Declaration} (h : d.Meets .printable) (hd : d.IsFinite) :
    d.toForm.MadeOf Atom.IsPrintable := by
  cases d with
  | type d => exact TypeDeclaration.madeOf_toForm h.1
  | enum d => exact Enumeration.madeOf_toForm h hd
  | augment a => exact Augmentation.madeOf_toForm h

end ApiCatalog
