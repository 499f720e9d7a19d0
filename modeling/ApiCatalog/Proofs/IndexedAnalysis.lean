import ApiCatalog.Declaration.OfForm

/-!
# Declarations whose items are reached by index

The items of a declaration or member are gone through with an index that a clause moves by one or
two, and an item that is at fault is found again by going back as far. An index outside the items
has no result, and neither has one below zero. Each index that comes up lies inside, so the
declarations found in this way are those that the items denote, whatever the form.

Main definitions: `Reached`, `Indexed.member`, `Indexed.declaration`.
Main statements: `Indexed.member_eq`, `Indexed.declaration_eq`.
-/

namespace ApiCatalog

/-! ### Items that are reached -/

/-- The items from an index on, which must not lie behind the end. -/
def itemsFrom? {α : Type} (i : Nat) (items : List α) : Option (List α) :=
  if i ≤ items.length then some (items.drop i) else none

/-- The items before an index, which must not lie behind the end. -/
def itemsTo? {α : Type} (i : Nat) (items : List α) : Option (List α) :=
  if i ≤ items.length then some (items.take i) else none

/-- A meaning for which items are reached by index; none if one of them does not exist. -/
abbrev Reached (α : Type) := ExceptT FaultAt Option α

/-- A meaning for which nothing has to be reached. -/
def Meaning.certain {α : Type} (m : Meaning α) : Reached α := ExceptT.mk (some m)

namespace Indexed

variable {α β σ : Type}

/-- What exists, if it does. -/
def reach (a? : Option α) : Reached α := ExceptT.mk (a?.map .ok)

/-- The item at an index. -/
def item (items : List Form) (i : Nat) : Reached Form := reach items[i]?

/-- The items from an index on. -/
def itemsFrom (i : Nat) (items : List Form) : Reached (List Form) := reach (itemsFrom? i items)

/-- The index `n` places before another. -/
def indexBefore (i n : Nat) : Reached Nat := reach (if n ≤ i then some (i - n) else none)

theorem reach_bind {a? : Option α} {a : α} (h : a? = some a) (f : α → Reached β) :
    (reach a? >>= f) = f a := by
  subst h
  rfl

theorem indexBefore_bind (i n : Nat) (f : Nat → Reached β) : (indexBefore (i + n) n >>= f) = f i :=
  reach_bind (by rw [if_pos (Nat.le_add_left n i), Nat.add_sub_cancel]) f

theorem certain_bind {m : Meaning α} {f : α → Reached β} {g : α → Meaning β}
    (h : ∀ a, m = .ok a → f a = (g a).certain) : (m.certain >>= f) = (m >>= g).certain := by
  cases m with
  | error fault => rfl
  | ok a => exact h a rfl

theorem foldlM_certain {f : σ → β → Reached σ} {g : σ → β → Meaning σ}
    (h : ∀ s b, f s b = (g s b).certain) (s : σ) (bs : List β) :
    bs.foldlM f s = (bs.foldlM g s).certain := by
  induction bs generalizing s with
  | nil => rfl
  | cons b bs ih =>
    rw [List.foldlM_cons, List.foldlM_cons, h]
    exact certain_bind fun s' _ => ih s'

theorem mapM_certain {f : β → Reached α} {g : β → Meaning α} (h : ∀ b, f b = (g b).certain)
    (bs : List β) : bs.mapM f = (bs.mapM g).certain := by
  induction bs with
  | nil => rfl
  | cons b bs ih =>
    rw [List.mapM_cons, List.mapM_cons, h]
    refine certain_bind fun a _ => ?_
    rw [ih]
    exact certain_bind fun as _ => rfl

/-! ### Clauses -/

/-- The clauses from an index on, behind those found before. -/
def clausesFrom (span : Span) (items : List Form) (i : Nat) (found : List (String × Form)) :
    Reached (List (String × Form)) :=
  if i < items.length then do
    let key ← item items i
    let name ← key.expectKeyword.certain
    match items[i + 1]? with
    | none => Meaning.certain (.error ⟨.valueMissing name, span⟩)
    | some value =>
      if found.any (·.1 == name) then do
        (← item items i).reject (.duplicateClause name) |> Meaning.certain
      else clausesFrom span items (i + 2) (found ++ [(name, value)])
  else Meaning.certain (.ok found)
termination_by items.length - i

/-- The property with the flags and annotations from an index on. -/
def propertyClausesFrom (span : Span) (items : List Form) (type : TypeExpr) (i : Nat)
    (isReadonly isConstant : Bool) (m : Member) : Reached Member :=
  if i < items.length then do
    let key ← item items i
    let name ← key.expectKeyword.certain
    if name = "readonly" then propertyClausesFrom span items type (i + 1) true isConstant m
    else if name = "const" then propertyClausesFrom span items type (i + 1) isReadonly true m
    else if name = "deprecated" ∨ name = "see" then
      match items[i + 1]? with
      | none => Meaning.certain (.error ⟨.valueMissing name, span⟩)
      | some value => do
        let m ← (m.annotate name value).certain
        propertyClausesFrom span items type (i + 2) isReadonly isConstant m
    else do
      let last ← indexBefore (i + 1) 1
      (← item items last).reject (.unknownPropertyFlag name) |> Meaning.certain
  else Meaning.certain (.ok { m with kind := .property type isReadonly isConstant })
termination_by items.length - i

/-- The method with the clauses from an index on. -/
def methodClausesFrom (span : Span) (items : List Form) (params : List Parameter)
    (returns : TypeExpr) (i : Nat) (mutates : List String) (m : Member) : Reached Member :=
  if i < items.length then do
    let key ← item items i
    let name ← key.expectKeyword.certain
    match items[i + 1]? with
    | none => Meaning.certain (.error ⟨.valueMissing name, span⟩)
    | some value =>
      if name = "mutates" then do
        let names ← (value.expectVector ":mutates").certain
        let mutates ← (names.mapM Member.mutatedName).certain
        methodClausesFrom span items params returns (i + 2) mutates m
      else if name = "deprecated" ∨ name = "see" then do
        let m ← (m.annotate name value).certain
        methodClausesFrom span items params returns (i + 2) mutates m
      else do
        let last ← indexBefore (i + 2) 2
        (← item items last).reject (.unknownMethodClause name) |> Meaning.certain
  else Meaning.certain (.ok { m with kind := .method params returns mutates })
termination_by items.length - i

/-! ### Members -/

/-- The property that a form denotes. -/
def property (f : Form) : Reached Member := do
  let items ← (f.expectHead "property").certain
  let (name, _) ← (Form.takeMemberName f.span "property" items).certain
  match items[2]? with
  | none => (f.reject (.propertyTypeMissing name)).certain
  | some type => do
    let type ← (TypeExpr.ofForm type).certain
    propertyClausesFrom f.span items type 3 false false (.property name type)

/-- The method that a form denotes. -/
def method (f : Form) : Reached Member := do
  let items ← (f.expectHead "method").certain
  let (name, _) ← (Form.takeMemberName f.span "method" items).certain
  match items[2]? with
  | none => (f.reject (.paramsMissing name)).certain
  | some params => do
    let params ← (Parameter.listOfForm params).certain
    let (returns, i) ← match items[3]? with
      | none => Meaning.certain (.ok (TypeExpr.void, 3))
      | some returns =>
        if returns.isKeyword then Meaning.certain (.ok (TypeExpr.void, 3))
        else do
          let returns ← (TypeExpr.ofForm returns).certain
          Meaning.certain (.ok (returns, 4))
    methodClausesFrom f.span items params returns i [] (.method name params returns)

/-- The member that a form denotes. -/
def member (f : Form) : Reached Member :=
  match f.head? with
  | some "property" => property f
  | some "method" => method f
  | _ => (f.reject .notMember).certain

/-- The members that a vector denotes. -/
def members (f : Form) : Reached (List Member) := do
  (← (f.expectVector ":members").certain).mapM member

/-! ### Declarations -/

/-- The declaration of a type with one more clause. -/
def addClause (d : TypeDeclaration) (clause : String × Form) : Reached TypeDeclaration :=
  if clause.1 = "members" ∧ d.kind ≠ .typedef then do
    let members ← members clause.2
    Meaning.certain (.ok { d with members })
  else (d.addClause clause).certain

/-- The declaration of a type that a form denotes. -/
def type (kind : TypeKind) (f : Form) : Reached TypeDeclaration := do
  let items ← (f.expectHead kind.head).certain
  let (name, _) ← (Form.takeName f.span kind.head items).certain
  let rest ← itemsFrom 2 items
  let (draft, rest) ← Meaning.certain <| match kind, rest with
    | .typedef, [] => .error ⟨.aliasMissing, f.span⟩
    | .typedef, aliased :: rest => do
      .ok (TypeDeclaration.ofTypedef name (← TypeExpr.ofForm aliased), rest)
    | .classLike, rest => .ok (TypeDeclaration.ofClass name, rest)
    | kind, rest => .ok ({ name, kind }, rest)
  (← clausesFrom f.span rest 0 []).foldlM addClause draft

/-- The enumeration that a form denotes. -/
def enumeration (f : Form) : Reached Enumeration := do
  let items ← (f.expectHead "enum:").certain
  let (name, _) ← (Form.takeName f.span "enum:" items).certain
  let clauses ← clausesFrom f.span (← itemsFrom 2 items) 0 []
  let draft ← (clauses.foldlM EnumDraft.addClause {}).certain
  Meaning.certain <| match draft.kind with
    | none => f.reject .literalKindMissing
    | some kind => do
      let symbols ← draft.values.mapM (EnumSymbol.ofEntry kind)
      .ok ⟨name, kind, symbols, draft.deprecated, draft.see⟩

/-- The augmentation with one more clause. -/
def addAugmentClause (a : Augmentation) (clause : String × Form) : Reached Augmentation :=
  if clause.1 = "members" then do
    let members ← members clause.2
    Meaning.certain (.ok { a with members })
  else (a.addClause clause).certain

/-- The augmentation that a form denotes. -/
def augmentation (f : Form) : Reached Augmentation := do
  let items ← (f.expectHead "augment:").certain
  let (target, _) ← (Form.takeName f.span "augment:" items).certain
  (← clausesFrom f.span (← itemsFrom 2 items) 0 []).foldlM addAugmentClause ⟨target, []⟩

/-- The declaration that a form denotes, if its head is one of a declaration. -/
def declaration? (f : Form) : Reached (Option Declaration) :=
  let type (kind : TypeKind) : Reached (Option Declaration) := do
    return some (.type (← type kind f))
  match f.head? with
  | some "class:" => type .classLike
  | some "interface:" => type .interface
  | some "record:" => type .record
  | some "typedef:" => type .typedef
  | some "enum:" => do return some (.enum (← enumeration f))
  | some "augment:" => do return some (.augment (← augmentation f))
  | _ => return none

/-- The declaration that a form denotes. -/
def declaration (f : Form) : Reached Declaration := do
  match ← declaration? f with
  | some d => Meaning.certain (.ok d)
  | none =>
    match f.head? with
    | some head => (f.reject (.unknownDeclaration head)).certain
    | none => (f.reject (.notDeclaration f.sort)).certain

/-! ### Every index lies inside -/

section Rest

variable {items rest : List Form} {i : Nat} {first : Form}

theorem of_drop_eq_cons (h : items.drop i = first :: rest) :
    i < items.length ∧ items[i]? = some first ∧ items.drop (i + 1) = rest := by
  have inside : i < items.length := Nat.lt_of_not_le fun outside => by
    rw [List.drop_eq_nil_of_le outside] at h
    cases h
  rw [List.drop_eq_getElem_cons inside] at h
  cases h
  exact ⟨inside, List.getElem?_eq_getElem inside, rfl⟩

theorem of_drop_eq_nil (h : items.drop i = []) : ¬i < items.length ∧ items[i]? = none := by
  have outside := List.drop_eq_nil_iff.1 h
  exact ⟨Nat.not_lt_of_le outside, List.getElem?_eq_none outside⟩

theorem item_bind (h : items.drop i = first :: rest) (f : Form → Reached β) :
    (item items i >>= f) = f first :=
  reach_bind (of_drop_eq_cons h).2.1 f

end Rest

/-- The clauses from an index on are those of the items that are left. -/
theorem clausesFrom_eq (span : Span) (items : List Form) (i : Nat) {seen : List String}
    {found : List (String × Form)} (known : ∀ n, seen.contains n = found.any (·.1 == n)) :
    clausesFrom span items i found =
      (do .ok (found ++ (← Form.clauses span seen (items.drop i)))).certain := by
  generalize hrest : items.drop i = rest
  -- One side looks for the key among the clauses found, the other among the names seen.
  fun_induction Form.clauses span seen rest generalizing i found with
  | case1 seen =>
    rw [clausesFrom, if_neg (of_drop_eq_nil hrest).1, Meaning.ok_bind, List.append_nil]
  | case2 seen key =>
    obtain ⟨inside, -, hnext⟩ := of_drop_eq_cons hrest
    rw [clausesFrom, if_pos inside, item_bind hrest, bind_assoc]
    refine certain_bind fun name _ => ?_
    rw [(of_drop_eq_nil hnext).2]
    rfl
  | case3 seen key value rest ih =>
    obtain ⟨inside, -, hnext⟩ := of_drop_eq_cons hrest
    obtain ⟨-, hvalue, hrest'⟩ := of_drop_eq_cons hnext
    rw [clausesFrom, if_pos inside, item_bind hrest, bind_assoc]
    refine certain_bind fun name _ => ?_
    simp only [hvalue, ← known name]
    cases again : seen.contains name with
    | true =>
      rw [if_pos rfl, if_pos rfl, item_bind hrest]
      rfl
    | false =>
      have known' (n : String) :
          (name :: seen).contains n = (found ++ [(name, value)]).any (·.1 == n) := by
        rw [List.contains_cons, known, List.any_append, Bool.or_comm]
        simp [BEq.comm]
      rw [if_neg Bool.false_ne_true, if_neg Bool.false_ne_true, ih name (i + 2) known' hrest',
        bind_assoc]
      simp only [Meaning.ok_bind, List.append_assoc, List.singleton_append]

/-- The clauses of a property from an index on are those of the items that are left. -/
theorem propertyClausesFrom_eq (span : Span) (items : List Form) (type : TypeExpr) (i : Nat)
    (isReadonly isConstant : Bool) (m : Member) :
    propertyClausesFrom span items type i isReadonly isConstant m =
      (m.addPropertyClauses span type isReadonly isConstant (items.drop i)).certain := by
  -- A flag moves the index by one and an annotation by two, so the induction is on the number of
  -- items that are left.
  induction hlength : (items.drop i).length using Nat.strongRecOn
    generalizing i isReadonly isConstant m with
  | _ n ih =>
    subst hlength
    have ih (j : Nat) (later : (items.drop j).length < (items.drop i).length)
        (isReadonly isConstant : Bool) (m : Member) :=
      ih _ later j isReadonly isConstant m rfl
    rcases hrest : items.drop i with _ | ⟨key, rest⟩
    · rw [propertyClausesFrom, if_neg (of_drop_eq_nil hrest).1]
      rfl
    · obtain ⟨inside, -, hnext⟩ := of_drop_eq_cons hrest
      have next := ih (i + 1) (by rw [hnext, hrest]; exact Nat.lt_succ_self _)
      rw [hnext] at next
      rw [propertyClausesFrom, if_pos inside, item_bind hrest, Member.addPropertyClauses]
      refine certain_bind fun name _ => ?_
      split
      · exact next true isConstant m
      · split
        · exact next isReadonly true m
        · split
          · rcases rest with _ | ⟨value, rest⟩
            · rw [(of_drop_eq_nil hnext).2]
            · obtain ⟨-, hvalue, hrest'⟩ := of_drop_eq_cons hnext
              have next' := ih (i + 2) (by rw [hrest', hrest]; simp only [List.length_cons]; omega)
              rw [hrest'] at next'
              rw [hvalue]
              exact certain_bind fun m' _ => next' isReadonly isConstant m'
          · rw [indexBefore_bind, item_bind hrest]

/-- The clauses of a method from an index on are those of the items that are left. -/
theorem methodClausesFrom_eq (span : Span) (items : List Form) (params : List Parameter)
    (returns : TypeExpr) (i : Nat) (mutates : List String) (m : Member) :
    methodClausesFrom span items params returns i mutates m =
      (m.addMethodClauses span params returns mutates (items.drop i)).certain := by
  generalize hrest : items.drop i = rest
  fun_induction Member.addMethodClauses span params returns mutates m rest generalizing i with
  | case1 mutates m =>
    rw [methodClausesFrom, if_neg (of_drop_eq_nil hrest).1]
  | case2 mutates m key =>
    obtain ⟨inside, -, hnext⟩ := of_drop_eq_cons hrest
    rw [methodClausesFrom, if_pos inside, item_bind hrest]
    refine certain_bind fun name _ => ?_
    rw [(of_drop_eq_nil hnext).2]
  | case3 mutates m key value rest ih ih' =>
    obtain ⟨inside, -, hnext⟩ := of_drop_eq_cons hrest
    obtain ⟨-, hvalue, hrest'⟩ := of_drop_eq_cons hnext
    rw [methodClausesFrom, if_pos inside, item_bind hrest]
    refine certain_bind fun name _ => ?_
    simp only [hvalue]
    split
    · exact certain_bind fun names _ => certain_bind fun mutates' _ =>
        ih mutates' (i + 2) hrest'
    · split
      · exact certain_bind fun m' _ => ih' m' (i + 2) hrest'
      · rw [indexBefore_bind, item_bind hrest]

theorem property_eq (f : Form) : property f = (Member.propertyOfForm f).certain := by
  refine certain_bind fun items _ => certain_bind fun (name, rest) hname => ?_
  obtain ⟨first, second, rfl⟩ := Form.exists_items_of_takeMemberName hname
  rcases rest with _ | ⟨type, rest⟩
  · rfl
  · refine certain_bind fun t _ => ?_
    exact propertyClausesFrom_eq f.span _ t 3 false false _

theorem method_eq (f : Form) : method f = (Member.methodOfForm f).certain := by
  refine certain_bind fun items _ => certain_bind fun (name, rest) hname => ?_
  obtain ⟨first, second, rfl⟩ := Form.exists_items_of_takeMemberName hname
  rcases rest with _ | ⟨params, rest⟩
  · rfl
  · refine certain_bind fun ps _ => ?_
    have loop := methodClausesFrom_eq f.span (first :: second :: params :: rest) ps
    rcases rest with _ | ⟨returns, rest⟩
    · exact loop .void 3 [] _
    · simp only [List.getElem?_cons_succ, List.getElem?_cons_zero]
      split
      · exact loop .void 3 [] _
      · cases TypeExpr.ofForm returns with
        | error fault => rfl
        | ok t => exact loop t 4 [] _

/-- A member is found by index as it is denoted. -/
theorem member_eq (f : Form) : member f = (Member.ofForm f).certain := by
  unfold member Member.ofForm
  generalize f.head? = head
  split
  · exact property_eq f
  · exact method_eq f
  · simp only

theorem members_eq (f : Form) : members f = (Member.listOfForm f).certain :=
  certain_bind fun items _ => mapM_certain member_eq items

/-! ### Declarations are found as they are denoted -/

theorem addClause_eq (d : TypeDeclaration) (clause : String × Form) :
    addClause d clause = (d.addClause clause).certain := by
  unfold addClause
  split
  · rename_i h
    obtain ⟨key, value⟩ := clause
    obtain ⟨rfl, kind⟩ := h
    have read : d.addClause ("members", value) =
        (do .ok { d with members := ← Member.listOfForm value }) := by
      simp [TypeDeclaration.addClause, kind]
    rw [members_eq, read]
    exact certain_bind fun ms _ => rfl
  · rfl

theorem addAugmentClause_eq (a : Augmentation) (clause : String × Form) :
    addAugmentClause a clause = (a.addClause clause).certain := by
  unfold addAugmentClause
  split
  · rename_i h
    obtain ⟨key, value⟩ := clause
    obtain rfl := h
    rw [members_eq]
    exact certain_bind fun ms _ => rfl
  · rfl

theorem itemsFrom_two_bind (first second : Form) (rest : List Form) (f : List Form → Reached β) :
    (itemsFrom 2 (first :: second :: rest) >>= f) = f rest := rfl

theorem clausesFrom_zero (span : Span) (items : List Form) :
    clausesFrom span items 0 [] = (Form.clauses span [] items).certain := by
  have known (n : String) :
      ([] : List String).contains n = ([] : List (String × Form)).any (·.1 == n) := rfl
  rw [clausesFrom_eq span items 0 known, List.drop_zero]
  cases Form.clauses span [] items <;> rfl

theorem type_eq (kind : TypeKind) (f : Form) :
    type kind f = (TypeDeclaration.ofForm kind f).certain := by
  have addClauses (draft : TypeDeclaration) (rest : List Form) :
      (do (← clausesFrom f.span rest 0 []).foldlM addClause draft : Reached TypeDeclaration) =
        Meaning.certain (do
          (← Form.clauses f.span [] rest).foldlM TypeDeclaration.addClause draft) := by
    rw [clausesFrom_zero]
    exact certain_bind fun clauses _ => foldlM_certain addClause_eq draft clauses
  refine certain_bind fun items _ => certain_bind fun (name, rest) hname => ?_
  obtain ⟨first, second, rfl⟩ := Form.exists_items_of_takeName hname
  simp only [itemsFrom_two_bind]
  cases kind
  case typedef =>
    rcases rest with _ | ⟨aliased, rest⟩
    · rfl
    · simp only
      cases TypeExpr.ofForm aliased with
      | error fault => rfl
      | ok t => exact addClauses _ rest
  all_goals exact addClauses _ rest

theorem enumeration_eq (f : Form) : enumeration f = (Enumeration.ofForm f).certain := by
  refine certain_bind fun items _ => certain_bind fun (name, rest) hname => ?_
  obtain ⟨first, second, rfl⟩ := Form.exists_items_of_takeName hname
  simp only [itemsFrom_two_bind, clausesFrom_zero]
  refine certain_bind fun clauses _ => certain_bind fun draft _ => ?_
  cases draft.kind <;> rfl

theorem augmentation_eq (f : Form) : augmentation f = (Augmentation.ofForm f).certain := by
  refine certain_bind fun items _ => certain_bind fun (name, rest) hname => ?_
  obtain ⟨first, second, rfl⟩ := Form.exists_items_of_takeName hname
  simp only [itemsFrom_two_bind, clausesFrom_zero]
  exact certain_bind fun clauses _ => foldlM_certain addAugmentClause_eq _ clauses

/-- A declaration is found by index as it is denoted. -/
theorem declaration?_eq (f : Form) : declaration? f = (Declaration.ofForm? f).certain := by
  have type (kind : TypeKind) :
      (do return some (.type (← type kind f)) : Reached (Option Declaration)) =
        Meaning.certain (do .ok (some (.type (← TypeDeclaration.ofForm kind f)))) := by
    rw [type_eq]
    exact certain_bind fun d _ => rfl
  unfold declaration? Declaration.ofForm?
  generalize f.head? = head
  split
  · exact type .classLike
  · exact type .interface
  · exact type .record
  · exact type .typedef
  · rw [enumeration_eq]
    exact certain_bind fun d _ => rfl
  · rw [augmentation_eq]
    exact certain_bind fun d _ => rfl
  · simp only
    rfl

theorem declaration_eq (f : Form) : declaration f = (Declaration.ofForm f).certain := by
  unfold declaration Declaration.ofForm
  rw [declaration?_eq]
  refine certain_bind fun d? _ => ?_
  cases d? with
  | some d => rfl
  | none => cases f.head? <;> rfl

end Indexed

end ApiCatalog
