import ApiCatalog.TypeExpr.OfForm
import ApiCatalog.TypeExpr.ToForm
import ApiCatalog.Proofs.Spelling

/-!
# Type expressions that can be written

A type expression is expressible if its form denotes it again. That is a condition on the names,
unions and records in it: a name that is referred to must not read as a primitive type, as a
qualified name or as a path, a union has two alternatives at least, and the fields of a record
have different names.

Main statements: `TypeExpr.ofForm_toForm`, an expressible type is what its form denotes;
`TypeExpr.readFrom_of_ofForm`, what a form denotes is expressible and has a printable form if that
form is spelled; `TypeExpr.ofForm_toForm_eq_ok_iff`, hence no other type is what its form denotes.
-/

namespace ApiCatalog

namespace TypeExpr

/-! ### Names -/

/-- Whether a name refers to a type: it reads neither as a primitive type nor as any type, has
no qualifier in front, no slash in it and no colon at its end. -/
structure IsTypeName (name : String) : Prop where
  ne_empty : name.toList ≠ []
  ne_any : name.toList ≠ ['*']
  not_nullable : name.toList.head? ≠ some '?'
  not_nonNull : name.toList.head? ≠ some '!'
  no_slash : '/' ∉ name.toList
  no_colon : name.toList.getLast? ≠ some ':'
  not_primitive : Primitive.ofName? name = none

theorem ofName_of_isTypeName {name : String} (h : IsTypeName name) :
    ofName name.toList = some (.named name) := by
  obtain ⟨empty, any, nullable, nonNull, slash, colon, primitive⟩ := h
  rw [ofName.eq_def]
  split
  · contradiction
  · contradiction
  · rename_i h; simp [h] at nullable
  · rename_i h; simp [h] at nullable
  · rename_i h; simp [h] at nonNull
  · simp [slash, colon, primitive]

theorem name_of_ofName? {name : String} {kind : Primitive}
    (h : Primitive.ofName? name = some kind) : kind.name = name := by
  simpa using List.find?_some h

theorem qualified_ofList (q : Char) (cs : List Char) :
    String.ofList [q] ++ String.ofList cs = String.ofList (q :: cs) := by
  rw [← String.ofList_append, List.singleton_append]

/-- What a name with qualifiers denotes is written as that name. -/
theorem toForm_of_ofName {cs : List Char} {t : TypeExpr} (h : ofName cs = some t) :
    t.toForm = .symbol (String.ofList cs) := by
  fun_induction ofName cs generalizing t with
  | case1 => cases h
  | case2 => cases h; rfl
  | case3 => cases h; rfl
  | case4 cs _ ih =>
    obtain ⟨u, hu, rfl⟩ := Option.map_eq_some_iff.1 h
    rw [toForm, ih hu, ← qualified_ofList]
    rfl
  | case5 cs ih =>
    obtain ⟨u, hu, rfl⟩ := Option.map_eq_some_iff.1 h
    rw [toForm, ih hu, ← qualified_ofList]
    rfl
  | case6 => cases h
  | case7 name _ _ _ _ _ _ kind hkind =>
    cases h
    rw [toForm, name_of_ofName? hkind]
  | case8 => cases h; rfl

/-! ### Expressible types -/

mutual

/-- Whether the type is the one that its form denotes. -/
def IsExpressible : TypeExpr → Prop
  | .named name => IsTypeName name
  | .nullable inner => inner.IsExpressible
  | .nonNull inner => inner.IsExpressible
  | .array element => element.IsExpressible
  | .promise payload => payload.IsExpressible
  | .union alternatives => 2 ≤ alternatives.length ∧ AllExpressible alternatives
  | .function params returns => ParamsExpressible params ∧ returns.IsExpressible
  | .record fields => (fields.map (·.1)).Nodup ∧ FieldsExpressible fields
  | .primitive _ | .any | .unknown | .buffer _ => True

/-- Whether all of the types are expressible. -/
def AllExpressible : List TypeExpr → Prop
  | [] => True
  | t :: ts => t.IsExpressible ∧ AllExpressible ts

/-- Whether the types of all of the parameters are expressible. -/
def ParamsExpressible : List (TypeExpr × Bool) → Prop
  | [] => True
  | (t, _) :: ts => t.IsExpressible ∧ ParamsExpressible ts

/-- Whether the types of all of the fields are expressible. -/
def FieldsExpressible : List (String × TypeExpr) → Prop
  | [] => True
  | (_, t) :: ts => t.IsExpressible ∧ FieldsExpressible ts

end

theorem isExpressible_of_ofName {cs : List Char} {t : TypeExpr} (h : ofName cs = some t) :
    t.IsExpressible := by
  fun_induction ofName cs generalizing t with
  | case1 => cases h
  | case2 => cases h; trivial
  | case3 => cases h; trivial
  | case4 cs _ ih =>
    obtain ⟨u, hu, rfl⟩ := Option.map_eq_some_iff.1 h
    show u.IsExpressible
    exact ih hu
  | case5 cs ih =>
    obtain ⟨u, hu, rfl⟩ := Option.map_eq_some_iff.1 h
    show u.IsExpressible
    exact ih hu
  | case6 => cases h
  | case7 => cases h; trivial
  | case8 cs hempty hany hunknown hnullable hnonNull hplain hprimitive =>
    cases h
    simp only [Bool.or_eq_true, List.contains_iff_mem, beq_iff_eq, not_or] at hplain
    have head (c : Char) (h : cs.head? = some c) : ∃ rest, cs = c :: rest := by
      cases cs with
      | nil => cases h
      | cons d rest => exact ⟨rest, by simpa using h⟩
    refine ⟨?_, ?_, fun h => ?_, fun h => ?_, ?_, ?_, hprimitive⟩ <;>
      simp only [String.toList_ofList] at *
    · exact hempty
    · exact hany
    · obtain ⟨rest, hrest⟩ := head _ h; exact hnullable rest hrest
    · obtain ⟨rest, hrest⟩ := head _ h; exact hnonNull rest hrest
    · exact hplain.1
    · exact hplain.2

/-! ### Reading a written type -/

theorem eq_void_of_isVoid {t : TypeExpr} (h : t.isVoid = true) : t = .void := by
  cases t with
  | primitive kind => cases kind <;> first | rfl | cases h
  | _ => cases h

/-- The form of a type is never a keyword. -/
theorem isKeyword_toForm (t : TypeExpr) : t.toForm.isKeyword = false := by
  cases t with
  | nullable inner | nonNull inner => simp only [toForm, qualifiedForm]; split <;> rfl
  | _ => rfl

/-- A symbol that denotes a type denotes the qualified type with a qualifier in front. -/
theorem ofName_qualified {name : String} {t : TypeExpr} (h : ofName name.toList = some t) :
    ofName ("?" ++ name).toList = some (.nullable t) ∧
      ofName ("!" ++ name).toList = some (.nonNull t) := by
  rw [String.toList_append, String.toList_append]
  have nonempty : name.toList ≠ [] := fun hn => by rw [hn, ofName] at h; cases h
  constructor
  · change ofName ('?' :: name.toList) = _
    rw [ofName.eq_4 _ nonempty, h]; rfl
  · change ofName ('!' :: name.toList) = _
    rw [ofName, h]; rfl

theorem ofForm_qualifiedForm {f : Form} {t : TypeExpr} (h : ofForm f = .ok t) :
    ofForm (qualifiedForm "?" f) = .ok (.nullable t) ∧
      ofForm (qualifiedForm "!" f) = .ok (.nonNull t) := by
  simp only [qualifiedForm]
  split
  · rename_i name hname
    rcases f with ⟨_ | _ | _ | _ | _ | _, s⟩ | _ <;> cases hname
    cases hof : ofName name.toList with
    | none => simp [ofForm, hof] at h
    | some u =>
      simp only [ofForm, hof, Except.ok.injEq] at h
      subst h
      simp only [Form.symbol, Form.ofAtom, ofForm, ofName_qualified hof, and_self]
  · simp [Form.list, Form.symbol, Form.ofAtom, ofForm, Form.symbol?, ofSingle, h]

/-- A form that denotes a type denotes a parameter that a call has to pass: `opt` is no type. -/
theorem ofParams_cons {f : Form} {t : TypeExpr} (h : ofForm f = .ok t) (fs : List Form) :
    ofParams (f :: fs) = ofParams fs >>= fun ts => .ok ((t, false) :: ts) := by
  rw [ofParams.eq_def]
  dsimp only
  split
  · rename_i mark u s
    split
    · -- an optional parameter would be a type built with the constructor opt
      rename_i hmark
      rw [beq_iff_eq] at hmark
      simp [ofForm, hmark] at h
    · simp [h]
  · simp [h]

theorem toForms_eq_map (ts : List TypeExpr) : toForms ts = ts.map toForm := by
  induction ts with
  | nil => rfl
  | cons t ts ih => rw [toForms, ih, List.map_cons]

mutual

/-- An expressible type is what its form denotes. -/
theorem ofForm_toForm : ∀ t : TypeExpr, t.IsExpressible → ofForm t.toForm = .ok t
  | .primitive kind, _ => by cases kind <;> rfl
  | .any, _ => rfl
  | .unknown, _ => rfl
  | .named name, h => by
    simp only [toForm, Form.symbol, Form.ofAtom, ofForm, ofName_of_isTypeName h]
  | .nullable inner, h => (ofForm_qualifiedForm (ofForm_toForm inner h)).1
  | .nonNull inner, h => (ofForm_qualifiedForm (ofForm_toForm inner h)).2
  | .array element, h => by
    have := ofForm_toForm element h
    simp [toForm, Form.list, Form.symbol, Form.ofAtom, ofForm, Form.symbol?, ofSingle, this]
  | .buffer kind, _ => by cases kind <;> rfl
  | .promise payload, h => by
    have := ofForm_toForm payload h
    simp [toForm, Form.list, Form.symbol, Form.ofAtom, ofForm, Form.symbol?, ofSingle, this]
  | .union alternatives, h => by
    have all := ofForms_toForms alternatives h.2
    have two : ¬(toForms alternatives).length < 2 := by
      rw [toForms_eq_map, List.length_map, Nat.not_lt]
      exact h.1
    rw [toForm, Form.list, ofForm.eq_def]
    simp [Form.symbol, Form.ofAtom, Form.symbol?, two, all]
  | .function params returns, h => by
    have head := ofParams_toForms params h.1
    have tail := ofForm_toForm returns h.2
    by_cases hvoid : returns.isVoid
    · obtain rfl := eq_void_of_isVoid hvoid
      simp [toForm, Form.list, Form.symbol, Form.vector, Form.ofAtom, ofForm, Form.symbol?,
        hvoid, head]
    · simp [toForm, Form.list, Form.symbol, Form.vector, Form.ofAtom, ofForm, Form.symbol?,
        hvoid, head, tail]
  | .record fields, h => by
    have := ofFields_toForms [] fields h.2 h.1 (fun _ _ => List.not_mem_nil)
    simp [toForm, Form.map, ofForm, this]

theorem ofForms_toForms : ∀ ts : List TypeExpr, AllExpressible ts → ofForms (toForms ts) = .ok ts
  | [], _ => rfl
  | t :: ts, h => by simp [toForms, ofForms, ofForm_toForm t h.1, ofForms_toForms ts h.2]

theorem ofParams_toForms : ∀ ts : List (TypeExpr × Bool), ParamsExpressible ts →
    ofParams (toFormsOfParams ts) = .ok ts
  | [], _ => rfl
  | (t, true) :: ts, h => by
    have first := ofForm_toForm t h.1
    have rest := ofParams_toForms ts h.2
    simp [toFormsOfParams, paramForm, Form.list, Form.symbol, Form.ofAtom, ofParams, Form.symbol?,
      first, rest]
  | (t, false) :: ts, h => by
    have first := ofForm_toForm t h.1
    have rest := ofParams_toForms ts h.2
    simp [toFormsOfParams, paramForm, ofParams_cons first, rest]

theorem ofFields_toForms (names : List String) : ∀ fields : List (String × TypeExpr),
    FieldsExpressible fields → (fields.map (·.1)).Nodup → (∀ n ∈ fields.map (·.1), n ∉ names) →
    ofFields names ((toFormsOfFields fields).flatMap fun e => [e.1, e.2]) = .ok fields
  | [], _, _, _ => rfl
  | (name, t) :: fields, h, distinct, new => by
    obtain ⟨fresh, distinct⟩ := List.nodup_cons.1 distinct
    have first := ofForm_toForm t h.1
    have unseen : name ∉ names := new name (by simp)
    have rest := ofFields_toForms (name :: names) fields h.2 distinct fun n hn hmem => by
      rcases List.mem_cons.1 hmem with rfl | hmem
      · exact fresh hn
      · exact new n (by simp [hn]) hmem
    simp [toFormsOfFields, ofFields, Form.keyword, Form.ofAtom, Form.keyword?, unseen, first, rest]

end

/-! ### What is read can be written -/

/-- The type is expressible, and its form is printable if it was read from a spelled one. -/
def ReadFrom (f : Form) (t : TypeExpr) : Prop :=
  t.IsExpressible ∧ (f.MadeOf Atom.IsSpelled → t.toForm.MadeOf Atom.IsPrintable)

theorem isPrintable_qualifiedForm {q : Char} (hq : q = '?' ∨ q = '!') {f : Form}
    (h : f.MadeOf Atom.IsPrintable) :
    (qualifiedForm (String.ofList [q]) f).MadeOf Atom.IsPrintable := by
  simp only [qualifiedForm]
  split
  · rename_i name hname
    have spelled : isSymbolText name.toList = true := h.symbol? hname
    simpa [Atom.IsPrintable, Atom.IsSpelled] using isSymbolText_qualified hq spelled
  · refine Form.madeOf_list.2 (List.forall_mem_cons.2 ⟨Form.madeOf_symbol.2 ?_, by simpa using h⟩)
    rcases hq with rfl | rfl <;> decide

theorem isPrintable_constructed {name : String} (hname : (Atom.symbol name).IsPrintable)
    {fs : List Form} (hfs : ∀ f ∈ fs, f.MadeOf Atom.IsPrintable) :
    (Form.list (.symbol name :: fs)).MadeOf Atom.IsPrintable := by
  simpa [hname] using hfs

theorem exists_of_ofSingle {constructor : String} {s : Span} {args : List Form} {t : TypeExpr}
    (h : ofSingle constructor s args = .ok t) : ∃ arg, args = [arg] ∧ ofForm arg = .ok t := by
  rcases args with _ | ⟨arg, _ | ⟨_, _⟩⟩
  · cases h
  · exact ⟨arg, rfl, h⟩
  · cases h

mutual

/-- What a form denotes can be written, and printed if the form is spelled. -/
theorem readFrom_of_ofForm : ∀ {f : Form} {t : TypeExpr}, ofForm f = .ok t → t.ReadFrom f
  | .atom a s, t, h => by
    cases a <;> try cases h
    rename_i name
    cases hof : ofName name.toList with
    | none => simp [ofForm, hof] at h
    | some u =>
      simp only [ofForm, hof, Except.ok.injEq] at h
      subst h
      refine ⟨isExpressible_of_ofName hof, fun hs => ?_⟩
      rw [toForm_of_ofName hof, String.ofList_toList]
      exact hs
  | .seq .square _ _, t, h => by cases h
  | .seq .curly items s, t, h => by
    obtain ⟨fields, hfields, h⟩ := Meaning.bind_eq_ok.1 h
    cases h
    obtain ⟨all, distinct, -, printable⟩ := readFrom_of_ofFields hfields
    exact ⟨⟨distinct, all⟩, fun hs => Form.madeOf_map.2 (printable hs.items)⟩
  | .seq .round [] _, t, h => by cases h
  | .seq .round (head :: args) s, t, h => by
    -- the constructors with one argument differ in the type that they make alone
    have single (make : TypeExpr → TypeExpr) {constructor : String}
        (expressible : ∀ u, u.IsExpressible → (make u).IsExpressible)
        (printable : ∀ u, u.toForm.MadeOf Atom.IsPrintable →
          (make u).toForm.MadeOf Atom.IsPrintable)
        (h : (ofSingle constructor s args >>= fun u => .ok (make u)) = .ok t) :
        t.ReadFrom (.seq .round (head :: args) s) := by
      obtain ⟨u, hu, h⟩ := Meaning.bind_eq_ok.1 h
      cases h
      obtain ⟨arg, rfl, harg⟩ := exists_of_ofSingle hu
      obtain ⟨inner, innerPrintable⟩ := readFrom_of_ofForm harg
      exact ⟨expressible u inner, fun hs => printable u (innerPrintable (hs.items arg (by simp)))⟩
    rw [ofForm.eq_def] at h
    dsimp only at h
    split at h
    · simp at h
    · exact single .nullable (fun _ hu => hu) (fun _ => isPrintable_qualifiedForm (.inl rfl)) h
    · exact single .nonNull (fun _ hu => hu) (fun _ => isPrintable_qualifiedForm (.inr rfl)) h
    · exact single .array (fun _ hu => hu)
        (fun _ hu => isPrintable_constructed (by decide) (by simpa using hu)) h
    · exact single .promise (fun _ hu => hu)
        (fun _ hu => isPrintable_constructed (by decide) (by simpa using hu)) h
    · split at h
      · split at h
        · rename_i kind _
          cases h
          exact ⟨trivial, fun _ => by
            cases kind <;> exact isPrintable_constructed (by decide) (by simp; decide)⟩
        · simp at h
      · cases h
    · split at h
      · cases h
      · rename_i two
        obtain ⟨ts, hts, h⟩ := Meaning.bind_eq_ok.1 h
        cases h
        obtain ⟨all, length, printable⟩ := readFrom_of_ofForms hts
        exact ⟨⟨by omega, all⟩, fun hs => isPrintable_constructed (by decide)
          (printable fun f hf => hs.items f (by simp [hf]))⟩
    · split at h
      · rename_i params s'
        obtain ⟨ts, hts, h⟩ := Meaning.bind_eq_ok.1 h
        cases h
        obtain ⟨all, printable⟩ := readFrom_of_ofParams hts
        refine ⟨⟨all, trivial⟩, fun hs => isPrintable_constructed (by decide) ?_⟩
        have hparams := hs.items (.seq .square params s') (by simp)
        simpa [isVoid, void] using printable hparams.items
      · rename_i params s' returns
        obtain ⟨ts, hts, h⟩ := Meaning.bind_eq_ok.1 h
        obtain ⟨r, hr, h⟩ := Meaning.bind_eq_ok.1 h
        cases h
        obtain ⟨all, printable⟩ := readFrom_of_ofParams hts
        obtain ⟨result, resultPrintable⟩ := readFrom_of_ofForm hr
        refine ⟨⟨all, result⟩, fun hs => isPrintable_constructed (by decide) ?_⟩
        have hparams := printable (hs.items (.seq .square params s') (by simp)).items
        have hreturns := resultPrintable (hs.items returns (by simp))
        split <;> simpa [hreturns] using hparams
      · simp at h
      · simp at h
      · cases h
    · cases h

theorem readFrom_of_ofForms : ∀ {fs : List Form} {ts : List TypeExpr}, ofForms fs = .ok ts →
    AllExpressible ts ∧ ts.length = fs.length ∧
      ((∀ f ∈ fs, f.MadeOf Atom.IsSpelled) → ∀ f ∈ toForms ts, f.MadeOf Atom.IsPrintable)
  | [], ts, h => by cases h; exact ⟨trivial, rfl, by simp [toForms]⟩
  | f :: fs, ts, h => by
    obtain ⟨t, ht, h⟩ := Meaning.bind_eq_ok.1 h
    obtain ⟨ts, hts, h⟩ := Meaning.bind_eq_ok.1 h
    cases h
    obtain ⟨first, firstPrintable⟩ := readFrom_of_ofForm ht
    obtain ⟨rest, length, restPrintable⟩ := readFrom_of_ofForms hts
    refine ⟨⟨first, rest⟩, by simp [length], fun hs => ?_⟩
    simp only [List.forall_mem_cons, toForms] at hs ⊢
    exact ⟨firstPrintable hs.1, restPrintable hs.2⟩

theorem readFrom_of_ofParams : ∀ {fs : List Form} {ts : List (TypeExpr × Bool)},
    ofParams fs = .ok ts → ParamsExpressible ts ∧
      ((∀ f ∈ fs, f.MadeOf Atom.IsSpelled) → ∀ f ∈ toFormsOfParams ts, f.MadeOf Atom.IsPrintable)
  | [], ts, h => by cases h; exact ⟨trivial, by simp [toFormsOfParams]⟩
  | f :: fs, ts, h => by
    have required {t : TypeExpr} (ht : t.ReadFrom f) {ts : List (TypeExpr × Bool)}
        (hts : ofParams fs = .ok ts) : ParamsExpressible ((t, false) :: ts) ∧
          ((∀ g ∈ f :: fs, g.MadeOf Atom.IsSpelled) →
            ∀ g ∈ toFormsOfParams ((t, false) :: ts), g.MadeOf Atom.IsPrintable) := by
      obtain ⟨rest, restPrintable⟩ := readFrom_of_ofParams hts
      refine ⟨⟨ht.1, rest⟩, fun hs => ?_⟩
      simp only [toFormsOfParams, paramForm, Bool.false_eq_true, if_false, List.forall_mem_cons]
        at hs ⊢
      exact ⟨ht.2 hs.1, restPrintable hs.2⟩
    rw [ofParams.eq_def] at h
    simp only [Meaning.ok_bind] at h
    split at h
    · rename_i mark u s
      split at h
      · obtain ⟨t, ht, h⟩ := Meaning.bind_eq_ok.1 h
        obtain ⟨ts, hts, h⟩ := Meaning.bind_eq_ok.1 h
        cases h
        obtain ⟨first, firstPrintable⟩ := readFrom_of_ofForm ht
        obtain ⟨rest, restPrintable⟩ := readFrom_of_ofParams hts
        refine ⟨⟨first, rest⟩, fun hs => ?_⟩
        rw [List.forall_mem_cons] at hs
        have hu := firstPrintable (hs.1.items u (by simp))
        simp only [toFormsOfParams, paramForm, if_true, List.forall_mem_cons]
        exact ⟨isPrintable_constructed (by decide) (by simpa using hu), restPrintable hs.2⟩
      · obtain ⟨t, ht, h⟩ := Meaning.bind_eq_ok.1 h
        obtain ⟨ts, hts, h⟩ := Meaning.bind_eq_ok.1 h
        cases h
        exact required (readFrom_of_ofForm ht) hts
    · obtain ⟨t, ht, h⟩ := Meaning.bind_eq_ok.1 h
      obtain ⟨ts, hts, h⟩ := Meaning.bind_eq_ok.1 h
      cases h
      exact required (readFrom_of_ofForm ht) hts

theorem readFrom_of_ofFields : ∀ {names : List String} {items : List Form}
    {fields : List (String × TypeExpr)}, ofFields names items = .ok fields →
    FieldsExpressible fields ∧ (fields.map (·.1)).Nodup ∧ (∀ n ∈ fields.map (·.1), n ∉ names) ∧
      ((∀ f ∈ items, f.MadeOf Atom.IsSpelled) → ∀ e ∈ toFormsOfFields fields,
        e.1.MadeOf Atom.IsPrintable ∧ e.2.MadeOf Atom.IsPrintable)
  | _, [], fields, h => by cases h; exact ⟨trivial, .nil, by simp, by simp [toFormsOfFields]⟩
  | _, [_], fields, h => by cases h; exact ⟨trivial, .nil, by simp, by simp [toFormsOfFields]⟩
  | names, key :: value :: rest, fields, h => by
    simp only [ofFields] at h
    split at h
    · simp at h
    · rename_i name hname
      split at h
      · simp at h
      · rename_i unseen
        obtain ⟨t, ht, h⟩ := Meaning.bind_eq_ok.1 h
        obtain ⟨more, hmore, h⟩ := Meaning.bind_eq_ok.1 h
        cases h
        obtain ⟨first, firstPrintable⟩ := readFrom_of_ofForm ht
        obtain ⟨all, distinct, new, printable⟩ := readFrom_of_ofFields hmore
        refine ⟨⟨first, all⟩, ?_, ?_, fun hs => ?_⟩
        · exact List.nodup_cons.2 ⟨fun hn => new name hn (by simp), distinct⟩
        · intro n hn hmem
          rcases List.mem_cons.1 hn with rfl | hn
          · exact unseen (by simpa using hmem)
          · exact new n hn (by simp [hmem])
        · simp only [List.forall_mem_cons] at hs
          obtain ⟨hkey, hvalue, hrest⟩ := hs
          rw [toFormsOfFields, List.forall_mem_cons]
          exact ⟨⟨hkey.keyword? hname, firstPrintable hvalue⟩, printable hrest⟩

end

/-! ### What can be written -/

/-- What is asked of a type so that it is expressible, whatever the types inside of it. -/
def IsExpressibleOutside : TypeExpr → Prop
  | .named name => IsTypeName name
  | .union alternatives => 2 ≤ alternatives.length
  | .record fields => (fields.map (·.1)).Nodup
  | _ => True

mutual

/-- A type is expressible exactly if each part of it has what is asked of that part. -/
theorem isExpressible_iff : ∀ t : TypeExpr,
    t.IsExpressible ↔ ∀ p ∈ t.parts, p.IsExpressibleOutside
  | .primitive _ | .any | .unknown | .buffer _ | .named _ => by
    simp only [parts, List.forall_mem_singleton, IsExpressible, IsExpressibleOutside]
  | .nullable inner | .nonNull inner | .array inner | .promise inner => by
    rw [parts, List.forall_mem_cons, ← isExpressible_iff inner]
    exact (and_iff_right trivial).symm
  | .union alternatives => by
    rw [parts, List.forall_mem_cons, ← allExpressible_iff alternatives]
    exact Iff.rfl
  | .function params returns => by
    rw [parts, List.forall_mem_cons, List.forall_mem_append, ← paramsExpressible_iff params,
      ← isExpressible_iff returns]
    exact (and_iff_right trivial).symm
  | .record fields => by
    rw [parts, List.forall_mem_cons, ← fieldsExpressible_iff fields]
    exact Iff.rfl

theorem allExpressible_iff : ∀ ts : List TypeExpr,
    AllExpressible ts ↔ ∀ p ∈ partsOfAll ts, p.IsExpressibleOutside
  | [] => by simp [AllExpressible, partsOfAll]
  | t :: ts => by
    rw [AllExpressible, partsOfAll, List.forall_mem_append, isExpressible_iff t,
      allExpressible_iff ts]

theorem paramsExpressible_iff : ∀ ts : List (TypeExpr × Bool),
    ParamsExpressible ts ↔ ∀ p ∈ partsOfParams ts, p.IsExpressibleOutside
  | [] => by simp [ParamsExpressible, partsOfParams]
  | (t, _) :: ts => by
    rw [ParamsExpressible, partsOfParams, List.forall_mem_append, isExpressible_iff t,
      paramsExpressible_iff ts]

theorem fieldsExpressible_iff : ∀ ts : List (String × TypeExpr),
    FieldsExpressible ts ↔ ∀ p ∈ partsOfFields ts, p.IsExpressibleOutside
  | [] => by simp [FieldsExpressible, partsOfFields]
  | (_, t) :: ts => by
    rw [FieldsExpressible, partsOfFields, List.forall_mem_append, isExpressible_iff t,
      fieldsExpressible_iff ts]

end

/-- A type is what its form denotes exactly if, everywhere in it, a union has two alternatives at
least, the fields of a record have different names, and a name that is referred to reads as the name
of a type. -/
theorem ofForm_toForm_eq_ok_iff (t : TypeExpr) :
    ofForm t.toForm = .ok t ↔
      (∀ alternatives, .union alternatives ∈ t.parts → 2 ≤ alternatives.length) ∧
        (∀ fields, .record fields ∈ t.parts → (fields.map (·.1)).Nodup) ∧
        ∀ name, .named name ∈ t.parts → IsTypeName name := by
  constructor
  · intro h
    have all := (isExpressible_iff t).1 (readFrom_of_ofForm h).1
    exact ⟨fun _ hp => all _ hp, fun _ hp => all _ hp, fun _ hp => all _ hp⟩
  · rintro ⟨unions, records, names⟩
    refine ofForm_toForm t ((isExpressible_iff t).2 fun p hp => ?_)
    cases p with
    | union alternatives => exact unions alternatives hp
    | record fields => exact records fields hp
    | named name => exact names name hp
    | _ => trivial

/-- A qualified name that is taken for a name reads as something else. -/
example : ofForm (TypeExpr.array (.named "?T")).toForm = .ok (.array (.nullable (.named "T"))) := by
  rfl

end TypeExpr

end ApiCatalog
