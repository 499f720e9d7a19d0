import ApiCatalog.Proofs.AssignableChains
import ApiCatalog.Proofs.Soundness

/-!
# Members in place of inherited ones

Validation compares a member with the nearest one that it shadows, and the member that a type has
may be in the place of many others: of one that is shadowed in turn, or of one on another capability.
In a catalog without problems each member along a chain of them fits in the place of the next, and
a lineage makes such a chain. Whether the first fits in the place of the last too is a matter of
comparing types in a row; and what is on no common chain is never compared.

Main statements: `Catalog.memberNamed_of_mem_ancestors`, `Catalog.not_isSubstitutable_of_clean`.
-/

namespace ApiCatalog

open Relation

/-- Whether a member that takes the place of another has a parameter for each of its parameters,
and returns nothing only if the other does. -/
structure Member.Keeps (old new : Member) : Prop where
  params : old.params.length ≤ new.params.length
  result : ∀ t, new.result? = some t → t.isVoid = true → ∀ u, old.result? = some u → u.isVoid = true

namespace Catalog

variable {c : Catalog} {s t u : TypeExpr}

/-! ### Comparisons in a row -/

/-- Whether a type is one of those that are compared transitively. -/
structure IsComparable (c : Catalog) (t : TypeExpr) : Prop where
  plain : c.IsPlain t
  noBuffer : HasNoBuffer t
  levels : t.levels ≤ 15

theorem IsComparable.trans (hkeyed : IsKeyed c.types) (hs : c.IsComparable s)
    (ht : c.IsComparable t) (hu : c.IsComparable u) (hst : c.isAssignable s t = true)
    (htu : c.isAssignable t u = true) : c.isAssignable s u = true := by
  have hlevels : s.levels + u.levels < assignabilityDepth := by
    have := hs.levels
    have := hu.levels
    rw [assignabilityDepth]
    omega
  exact isAssignableWithin_of_levels hs.plain hu.plain hlevels
    (isAssignableWithin_trans hkeyed (Nat.le_refl _) hs.plain hs.noBuffer ht.plain hu.plain hst htu)

/-- Whether parameters accept the calls that others accept: each is of a wider type, may be left
out if that may, and may be left out if there is none in its place. -/
inductive AcceptsParams (c : Catalog) : List Parameter → List Parameter → Prop
  | nil (olds : List Parameter) : AcceptsParams c olds []
  | extra {new : Parameter} {news : List Parameter} (optional : new.optional = true)
      (rest : AcceptsParams c [] news) : AcceptsParams c [] (new :: news)
  | cons {old new : Parameter} {olds news : List Parameter}
      (type : c.isAssignable old.type new.type = true)
      (optional : old.optional = true → new.optional = true)
      (rest : AcceptsParams c olds news) : AcceptsParams c (old :: olds) (new :: news)

theorem paramFault?_eq_none_iff {olds news : List Parameter} :
    c.paramFault? olds news = none ↔ c.AcceptsParams olds news := by
  constructor
  · intro h
    fun_induction paramFault? c olds news with
    | case1 => exact .nil _
    | case2 new rest hoptional ih => exact .extra hoptional (ih h)
    | case3 | case4 | case5 => cases h
    | case6 old olds new rest htype hoptional ih =>
      simp only [Bool.and_eq_true, Bool.not_eq_true', not_and, Bool.not_eq_false] at htype hoptional
      exact .cons htype hoptional (ih h)
  · intro h
    induction h with
    | nil olds => cases olds <;> rfl
    | extra optional _ ih => rw [paramFault?, if_pos optional, ih]
    | cons type optional _ ih =>
      rw [paramFault?, type, ih]
      simpa using optional

theorem AcceptsParams.trans (hkeyed : IsKeyed c.types) {olds mids news : List Parameter}
    (first : c.AcceptsParams olds mids) (second : c.AcceptsParams mids news)
    (hlength : olds.length ≤ mids.length) (holds : ∀ p ∈ olds, c.IsComparable p.type)
    (hmids : ∀ p ∈ mids, c.IsComparable p.type) (hnews : ∀ p ∈ news, c.IsComparable p.type) :
    c.AcceptsParams olds news := by
  induction second generalizing olds with
  | nil => exact .nil olds
  | extra optional rest =>
    obtain rfl : olds = [] := List.length_eq_zero_iff.1 (Nat.le_zero.1 hlength)
    exact .extra optional rest
  | cons type optional _ ih =>
    rw [List.forall_mem_cons] at hmids hnews
    cases first with
    | extra optional' rest =>
      exact .extra (optional optional') (ih rest (Nat.zero_le _) (by simp) hmids.2 hnews.2)
    | cons type' optional' rest =>
      rw [List.forall_mem_cons] at holds
      exact .cons (holds.1.trans hkeyed hmids.1 hnews.1 type' type) (optional ∘ optional')
        (ih rest (Nat.le_of_succ_le_succ hlength) holds.2 hmids.2 hnews.2)

theorem overrideFault?_eq_none_iff {old new : Member} :
    c.overrideFault? old new = none ↔
      match old.kind, new.kind with
      | .property s .., .property t .. => c.isAssignable t s = true
      | .method ss s _, .method ts t _ =>
        (s.isVoid = true ∨ c.isAssignable t s = true) ∧ c.AcceptsParams ss ts
      | _, _ => False := by
  rw [overrideFault?]
  cases old.kind with
  | property s =>
    cases new.kind with
    | property t => cases c.isAssignable t s <;> simp
    | method => simp
  | method ss s =>
    cases new.kind with
    | property => simp
    | method ts t =>
      dsimp only
      rw [← paramFault?_eq_none_iff]
      cases s.isVoid <;> cases c.isAssignable t s <;> simp

/-- A member that fits in the place of one that fits in the place of another fits there too, if the
one between keeps what that has. -/
theorem overrideFault?_trans (hkeyed : IsKeyed c.types) {old mid new : Member}
    (first : c.overrideFault? old mid = none) (second : c.overrideFault? mid new = none)
    (hkeeps : old.Keeps mid) (hold : ∀ t, old.Writes t → c.IsComparable t)
    (hmid : ∀ t, mid.Writes t → c.IsComparable t) (hnew : ∀ t, new.Writes t → c.IsComparable t) :
    c.overrideFault? old new = none := by
  rw [overrideFault?_eq_none_iff] at first second ⊢
  simp only [Member.writes_iff] at hold hmid hnew
  obtain ⟨hparams, hresult⟩ := hkeeps
  simp only [Member.params, Member.result?] at hparams hresult
  cases hold' : old.kind <;> cases hmid' : mid.kind <;> cases hnew' : new.kind <;>
    simp only [hold', hmid', hnew'] at first second hold hmid hnew hparams hresult ⊢
  · exact (hnew _ rfl).trans hkeyed (hmid _ rfl) (hold _ rfl) second first
  · rename_i ss s _ ts t _ us u _
    obtain ⟨hst, hss⟩ := first
    obtain ⟨htu, hts⟩ := second
    constructor
    · by_cases hvoid : s.isVoid = true
      · exact .inl hvoid
      · have hvoid' : ¬t.isVoid = true := fun h => hvoid (hresult t rfl h s rfl)
        exact .inr ((hnew u (.inr rfl)).trans hkeyed (hmid t (.inr rfl)) (hold s (.inr rfl))
          (htu.resolve_left hvoid') (hst.resolve_left hvoid))
    · exact hss.trans hkeyed hts hparams (fun p hp => hold _ (.inl ⟨p, hp, rfl⟩))
        (fun p hp => hmid _ (.inl ⟨p, hp, rfl⟩)) fun p hp => hnew _ (.inl ⟨p, hp, rfl⟩)

/-! ### Chains of members -/

section Shadows

variable {name : String} {d a : TypeDeclaration} {old : Member} {f g : FoundMember}
  {ds es : List TypeDeclaration}

/-- Whether a member is in the place of another: of the inherited members with its name the other
is the nearest. -/
def Shadows (c : Catalog) (name : String) (f g : FoundMember) : Prop :=
  c.inheritedMember? f.owner.name name = some g

theorem firstMember?_append :
    firstMember? name (ds ++ es) = (firstMember? name ds).or (firstMember? name es) :=
  List.findSome?_append

theorem exists_firstMember? (ha : a ∈ ds) (hold : a.member? name = some old) :
    ∃ f, firstMember? name ds = some f := by
  rw [← Option.isSome_iff_exists, firstMember?, List.findSome?_isSome_iff]
  exact ⟨a, ha, by rw [hold]; rfl⟩

theorem firstMember?_of_prefix (hds : ds <+: es) (h : firstMember? name ds = some f) :
    firstMember? name es = some f := by
  obtain ⟨rest, rfl⟩ := hds
  rw [firstMember?_append, h, Option.some_or]

/-- From the first member along a lineage every other one is come to, each in the place of the
next. -/
theorem IsBuilt.reflTransGen_shadows (h : c.IsBuilt) {D : String} (hds : Lineage c.types D ds)
    (ha : a ∈ ds) (hold : a.member? name = some old) (hf : firstMember? name ds = some f) :
    ReflTransGen (c.Shadows name) f ⟨a, old⟩ := by
  induction hds generalizing f with
  | undeclared => cases ha
  | root =>
    rw [List.mem_singleton] at ha
    subst ha
    rw [firstMember?, List.findSome?_singleton, hold] at hf
    cases hf
    exact .refl
  | @step D parent d ds hd hp rest ih =>
    rw [firstMember?, List.findSome?_cons, ← firstMember?] at hf
    cases hown : d.member? name with
    | none =>
      rw [hown] at hf
      rcases List.mem_cons.1 ha with rfl | ha
      · rw [hown] at hold
        cases hold
      · exact ih ha hf
    | some m =>
      rw [hown] at hf
      cases hf
      rcases List.mem_cons.1 ha with rfl | ha
      · rw [hown] at hold
        cases hold
        exact .refl
      · obtain ⟨g, hg⟩ := exists_firstMember? ha hold
        have next : ds <+: (c.lookupOrder D).drop 1 := by
          obtain ⟨more, hmore⟩ := h.lineage_isPrefix_lookupOrder (.step hd hp rest)
          exact ⟨more, by rw [← hmore]; rfl⟩
        refine .head ?_ (ih ha hg)
        rw [Shadows, h.isKeyed _ _ hd]
        exact firstMember?_of_prefix next hg

/-- A search begins with the lineage of its type, so that from what is found every declaration in
the lineage is come to. -/
theorem IsBuilt.reflTransGen_shadows_of_search (h : c.IsBuilt) {D : String}
    (hds : Lineage c.types D ds) (ha : a ∈ ds) (hold : a.member? name = some old)
    (hf : firstMember? name (c.lookupOrder D) = some f) :
    ReflTransGen (c.Shadows name) f ⟨a, old⟩ := by
  obtain ⟨g, hg⟩ := exists_firstMember? ha hold
  have same := firstMember?_of_prefix (h.lineage_isPrefix_lookupOrder hds) hg
  rw [hf] at same
  cases same
  exact h.reflTransGen_shadows hds ha hold hg

/-- From the member of a declared type every declaration in the lineage of that type is come to. -/
theorem IsBuilt.reflTransGen_shadows_of_owner (h : c.IsBuilt)
    (hd : c.type? f.owner.name = some f.owner) (hm : f.owner.member? name = some f.member)
    (hds : Lineage c.types f.owner.name ds) (ha : a ∈ ds) (hold : a.member? name = some old) :
    ReflTransGen (c.Shadows name) f ⟨a, old⟩ := by
  obtain ⟨rest, rfl⟩ := hds.exists_cons hd
  refine h.reflTransGen_shadows hds ha hold ?_
  -- a lineage begins with its type, which has the member itself
  rw [firstMember?, List.findSome?_cons, hm]
  rfl

/-- The members that one is in the place of, up to another, of which all types are comparable, and
those between keep what the next has. -/
structure IsComparableChain (c : Catalog) (name : String) (f g : FoundMember) : Prop where
  linked : ReflTransGen (c.Shadows name) f g
  types : ∀ k, ReflTransGen (c.Shadows name) f k → ReflTransGen (c.Shadows name) k g →
    ∀ t, k.member.Writes t → c.IsComparable t
  keeps : ∀ k l, TransGen (c.Shadows name) f k → c.Shadows name k l →
    ReflTransGen (c.Shadows name) l g → l.member.Keeps k.member

theorem IsComparableChain.eq_or_overrideFault?_eq_none (hkeyed : IsKeyed c.types)
    (h : c.IsComparableChain name f g)
    (hfits : ∀ k l, ReflTransGen (c.Shadows name) f k → c.Shadows name k l →
      c.overrideFault? l.member k.member = none) :
    f = g ∨ c.overrideFault? g.member f.member = none := by
  have all (k : FoundMember) (hk : TransGen (c.Shadows name) f k)
      (hg : ReflTransGen (c.Shadows name) k g) : c.overrideFault? k.member f.member = none := by
    induction hk with
    | single hnext => exact hfits _ _ .refl hnext
    | @tail l k hl hnext ih =>
      have hlg := hg.head hnext
      exact overrideFault?_trans hkeyed (hfits _ _ hl.to_reflTransGen hnext) (ih hlg)
        (h.keeps _ _ hl hnext hg) (h.types _ (hl.tail hnext).to_reflTransGen hg)
        (h.types _ hl.to_reflTransGen hlg) (h.types _ .refl h.linked)
  rcases reflTransGen_iff_eq_or_transGen.1 h.linked with rfl | hg
  · exact .inl rfl
  · exact .inr (all g hg .refl)

/-- Every member along a chain is one of a declared type. -/
theorem declared_of_reflTransGen_shadows (hkeyed : IsKeyed c.types)
    (hd : c.type? f.owner.name = some f.owner) (hm : f.owner.member? name = some f.member)
    (h : ReflTransGen (c.Shadows name) f g) :
    c.type? g.owner.name = some g.owner ∧ g.owner.member? name = some g.member := by
  induction h with
  | refl => exact ⟨hd, hm⟩
  | tail _ hnext => exact of_inheritedMember? hkeyed hnext

/-- In a sound catalog a member fits in the place of the one that it shadows. -/
theorem IsSound.overrideFault?_eq_none (h : c.IsBuilt) {checkNames : Bool}
    (hsound : c.IsSound checkNames) (hd : c.type? f.owner.name = some f.owner)
    (hm : f.owner.member? name = some f.member) (hfg : c.Shadows name f g) :
    c.overrideFault? g.member f.member = none := by
  have hname : f.member.name = name := by simpa using List.find?_some hm
  have conforms := (hsound.type _ (h.mem_values_iff.2 hd)).conformance f.member
    (List.mem_of_find?_eq_some hm)
  exact conforms g (hname ▸ hfg)

end Shadows

theorem ancestors_eq_ok {D : String} {d : TypeDeclaration} (hd : c.type? D = some d) :
    c.ancestors D = .ok (((c.lookupOrder D).drop 1).map (·.name)) := by
  rw [ancestors, typeNamed, hd]
  rfl

/-- What an ancestor of a type is, and that the type is declared. -/
theorem exists_of_mem_ancestors (hkeyed : IsKeyed c.types) {D A : String} {names : List String}
    (hnames : c.ancestors D = .ok names) (hA : A ∈ names) :
    (∃ d, c.type? D = some d) ∧ ∃ a ∈ c.lookupOrder D, c.type? A = some a := by
  cases hd : c.type? D with
  | none =>
    rw [ancestors, typeNamed, hd] at hnames
    cases hnames
  | some d =>
    rw [ancestors_eq_ok hd] at hnames
    cases hnames
    obtain ⟨a, ha, rfl⟩ := List.mem_map.1 hA
    have ha := List.mem_of_mem_drop ha
    exact ⟨⟨d, rfl⟩, a, ha, (isSearched_lookupOrder hkeyed D).declared a ha⟩

theorem memberNamed_eq_ok {D name : String} {d : TypeDeclaration} {found : FoundMember}
    (hd : c.type? D = some d) (h : firstMember? name (c.lookupOrder D) = some found) :
    c.memberNamed D name = .ok found := by
  rw [memberNamed, hd]
  dsimp only
  rw [h]

/-! ### Small catalogs -/

/-- Whether a search of so many walks shows that a type is sound: what its methods change can be
assigned, and its members fit in the place of the next ones. -/
def PassesWithin (c : Catalog) (walks : Nat) (d : TypeDeclaration) : Prop :=
  c.type? d.name = some d ∧ c.cycle? d.name = none ∧
    (∀ name ∈ d.parent.toList ++ d.capabilities, c.types.contains name = true) ∧
    (∀ r ∈ d.deprecated.toList ++ d.members.filterMap (·.deprecated), r.replacement = none) ∧
    (d.members.map (·.name)).Nodup ∧
    ∃ order ∈ c.searchWithin walks [] [d.name], ∀ m ∈ d.members,
      (∀ property ∈ m.mutates, ∃ found ∈ firstMember? property order,
        found.member.isMethod = false ∧ found.member.isReadonly = false) ∧
      ∀ found ∈ firstMember? m.name (order.drop 1), c.overrideFault? found.member m = none

instance (c : Catalog) (walks : Nat) (d : TypeDeclaration) : Decidable (c.PassesWithin walks d) :=
  inferInstanceAs (Decidable (_ ∧ _))

theorem PassesWithin.isSoundType (h : c.IsBuilt) {walks : Nat} (hd : c.PassesWithin walks d) :
    c.IsSoundType false d := by
  obtain ⟨hdeclared, hchain, hnames, hreplacement, distinct, order, horder, hmembers⟩ := hd
  replace horder : c.lookupOrder d.name = order := searchFrom_of_searchWithin horder
  exact {
    parent := fun name hname => hnames name (by simp [hname])
    chain := (cycle?_eq_none_iff h.isKeyed).1 hchain
    capability := fun name hname => hnames name (by simp [hname])
    replacement := fun r hr => by
      obtain ⟨x, hx, hr⟩ := Option.bind_eq_some_iff.1 hr
      rw [hreplacement x (by simp [hx])] at hr
      cases hr
    distinct := distinct
    memberReplacement := fun m hm r hr => by
      obtain ⟨x, hx, hr⟩ := Option.bind_eq_some_iff.1 hr
      rw [hreplacement x (List.mem_append_right _ (List.mem_filterMap.2 ⟨m, hm, hx⟩))] at hr
      cases hr
    mutation := fun m hm property hproperty => by
      obtain ⟨found, hfound, hkind⟩ := (hmembers m hm).1 property hproperty
      exact ⟨found, memberNamed_eq_ok hdeclared (horder ▸ hfound), hkind⟩
    conformance := fun m hm found hfound => by
      rw [inheritedMember?, horder] at hfound
      exact (hmembers m hm).2 found hfound
    names := by simp }

theorem isSound_ofDeclarations {types : List TypeDeclaration}
    (distinct : (types.map (·.name)).Nodup) {checkNames : Bool}
    (h : ∀ d ∈ types, (ofDeclarations types []).IsSoundType checkNames d) :
    (ofDeclarations types []).IsSound checkNames where
  type d hd := by
    have hd := (IsBuilt.ofDeclarations types []).mem_values_iff.1 hd
    rw [type?_ofDeclarations [] distinct] at hd
    exact h d (List.mem_of_find?_eq_some hd)
  enum e he := by cases he

theorem problems_ofDeclarations_eq_nil {types : List TypeDeclaration}
    (distinct : (types.map (·.name)).Nodup) (walks : Nat)
    (h : ∀ d ∈ types, (ofDeclarations types []).PassesWithin walks d) :
    (ofDeclarations types []).problems false = [] :=
  have built : (ofDeclarations types []).IsBuilt := .ofDeclarations types []
  built.problems_eq_nil_iff.2
    (isSound_ofDeclarations distinct fun d hd => (h d hd).isSoundType built)

/-! ### Interfaces with one member -/

/-- An interface with a member of the kind. -/
def generation (name : String) (parent : Option String) (kind : MemberKind) : TypeDeclaration :=
  { name, kind := .interface, parent, members := [⟨"m", kind, none, []⟩] }

/-- An interface is sound if its member fits in the place of the nearest one in its lineage. -/
theorem IsBuilt.isSoundType_generation (h : c.IsBuilt) {name : String} {parent : Option String}
    {kind : MemberKind} {ds : List TypeDeclaration}
    (hlineage : Lineage c.types name (generation name parent kind :: ds))
    (hcapabilities : ∀ d ∈ generation name parent kind :: ds, d.capabilities = [])
    (hparent : ∀ n, parent = some n → c.types.contains n = true)
    (hmutates : (⟨"m", kind, none, []⟩ : Member).mutates = [])
    (hfits : ∀ found, firstMember? "m" ds = some found →
      c.overrideFault? found.member ⟨"m", kind, none, []⟩ = none) :
    c.IsSoundType false (generation name parent kind) where
  parent := hparent
  chain := exists_lineage_iff.1 ⟨_, hlineage⟩
  capability := by simp [generation]
  replacement r hr := by cases hr
  distinct := by simp [generation]
  memberReplacement m hm r hr := by
    rw [List.mem_singleton.1 hm] at hr
    cases hr
  mutation m hm := by
    rw [List.mem_singleton.1 hm, hmutates]
    simp
  conformance m hm found hfound := by
    rw [List.mem_singleton.1 hm] at hfound ⊢
    replace hfound : c.inheritedMember? name "m" = some found := hfound
    rw [inheritedMember?, h.lookupOrder_of_lineage hlineage hcapabilities] at hfound
    exact hfits found hfound
  names := by simp

/-- An interface, a child of it and a child of that. -/
def generations (oldest middle youngest : MemberKind) : Catalog :=
  ofDeclarations [generation "Root" none oldest, generation "Middle" (some "Root") middle,
    generation "Leaf" (some "Middle") youngest] []

section Generations

variable {oldest middle youngest : MemberKind}

theorem isBuilt_generations : (generations oldest middle youngest).IsBuilt := .ofDeclarations _ _

theorem type?_root : (generations oldest middle youngest).type? "Root" =
    some (generation "Root" none oldest) :=
  type?_ofDeclarations [] (by simp [generation])

theorem type?_middle : (generations oldest middle youngest).type? "Middle" =
    some (generation "Middle" (some "Root") middle) :=
  type?_ofDeclarations [] (by simp [generation])

theorem type?_leaf : (generations oldest middle youngest).type? "Leaf" =
    some (generation "Leaf" (some "Middle") youngest) :=
  type?_ofDeclarations [] (by simp [generation])

theorem kind_mem_of_member? {n : String} {d : TypeDeclaration} {m : Member}
    (hd : (generations oldest middle youngest).type? n = some d) (hm : d.member? "m" = some m) :
    m.kind ∈ [oldest, middle, youngest] := by
  rw [generations, type?_ofDeclarations [] (by simp [generation])] at hd
  have hmem := List.mem_of_find?_eq_some hd
  simp only [List.mem_cons, List.not_mem_nil, or_false] at hmem
  rcases hmem with rfl | rfl | rfl <;> cases hm <;> simp

theorem lineage_leaf :
    Lineage (generations oldest middle youngest).types "Leaf"
      [generation "Leaf" (some "Middle") youngest, generation "Middle" (some "Root") middle,
        generation "Root" none oldest] :=
  .step type?_leaf rfl (.step type?_middle rfl (.root type?_root rfl))

theorem lookupOrder_leaf :
    (generations oldest middle youngest).lookupOrder "Leaf" =
      [generation "Leaf" (some "Middle") youngest, generation "Middle" (some "Root") middle,
        generation "Root" none oldest] :=
  isBuilt_generations.lookupOrder_of_lineage lineage_leaf (by simp [generation])

theorem memberNamed_leaf :
    (generations oldest middle youngest).memberNamed "Leaf" "m" =
      .ok ⟨generation "Leaf" (some "Middle") youngest, ⟨"m", youngest, none, []⟩⟩ :=
  memberNamed_eq_ok type?_leaf (by rw [lookupOrder_leaf]; rfl)

theorem ancestors_leaf :
    (generations oldest middle youngest).ancestors "Leaf" = .ok ["Middle", "Root"] := by
  rw [ancestors_eq_ok type?_leaf, lookupOrder_leaf]
  rfl

/-- Only neighbours are compared. -/
theorem problems_generations
    (hmutates : ∀ k ∈ [oldest, middle, youngest], (⟨"m", k, none, []⟩ : Member).mutates = [])
    (hmiddle : (generations oldest middle youngest).overrideFault? ⟨"m", oldest, none, []⟩
      ⟨"m", middle, none, []⟩ = none)
    (hyoungest : (generations oldest middle youngest).overrideFault? ⟨"m", middle, none, []⟩
      ⟨"m", youngest, none, []⟩ = none) :
    (generations oldest middle youngest).problems false = [] := by
  have built := @isBuilt_generations oldest middle youngest
  refine built.problems_eq_nil_iff.2 (isSound_ofDeclarations (by simp [generation]) ?_)
  simp only [List.forall_mem_cons] at hmutates ⊢
  refine ⟨?_, ?_, ?_, by simp⟩
  · refine built.isSoundType_generation (.root type?_root rfl) (by simp [generation])
      (by rintro _ ⟨⟩) hmutates.1 ?_
    rintro _ ⟨⟩
  · refine built.isSoundType_generation (.step type?_middle rfl (.root type?_root rfl))
      (by simp [generation]) ?_ hmutates.2.1 ?_
    · rintro _ ⟨⟩
      exact OrderedMap.contains_of_get? type?_root
    · rintro _ ⟨⟩
      exact hmiddle
  · refine built.isSoundType_generation lineage_leaf (by simp [generation]) ?_ hmutates.2.2.1 ?_
    · rintro _ ⟨⟩
      exact OrderedMap.contains_of_get? type?_middle
    · rintro _ ⟨⟩
      exact hyoungest

end Generations

/-! ### Members in the place of those of ancestors -/

/-- In a catalog without problems a type has every member that an ancestor declares. The one that it
has fits in the place of the one that it shadows, and so on along the chain of those. Every
declaration on the lineage of the type is on that chain, and so is every one on the lineage of a type
with a member on the chain. If the types along the chain up to the ancestor's declaration are
compared transitively, and the members between keep what the next has, then the member fits in the
place of the ancestor's declaration itself. -/
theorem memberNamed_of_mem_ancestors (h : c.IsBuilt) {checkNames : Bool}
    (hclean : c.problems checkNames = []) {D A name : String} {names : List String}
    {a : TypeDeclaration} {old : Member} (hnames : c.ancestors D = .ok names) (hA : A ∈ names)
    (ha : c.type? A = some a) (hold : a.member? name = some old) :
    ∃ found, c.memberNamed D name = .ok found ∧
      (∀ f g, ReflTransGen (c.Shadows name) found f → c.Shadows name f g →
        c.overrideFault? g.member f.member = none) ∧
      (∀ ds, Lineage c.types D ds → a ∈ ds → ReflTransGen (c.Shadows name) found ⟨a, old⟩) ∧
      (∀ f, ReflTransGen (c.Shadows name) found f → ∀ ds, Lineage c.types f.owner.name ds →
        a ∈ ds → ReflTransGen (c.Shadows name) found ⟨a, old⟩) ∧
      (c.IsComparableChain name found ⟨a, old⟩ →
        found = ⟨a, old⟩ ∨ c.overrideFault? old found.member = none) := by
  have hkeyed := h.isKeyed
  have hsound := h.problems_eq_nil_iff.1 hclean
  obtain ⟨⟨d, hd⟩, a', hmem, ha'⟩ := exists_of_mem_ancestors hkeyed hnames hA
  rw [ha] at ha'
  cases ha'
  obtain ⟨found, hfound⟩ := exists_firstMember? hmem hold
  have declared (f : FoundMember) (hf : ReflTransGen (c.Shadows name) found f) :
      c.type? f.owner.name = some f.owner ∧ f.owner.member? name = some f.member := by
    obtain ⟨howner, hmember⟩ := of_firstMember? hfound
    exact declared_of_reflTransGen_shadows hkeyed
      ((isSearched_lookupOrder hkeyed D).declared _ howner) hmember hf
  have fits (f g : FoundMember) (hf : ReflTransGen (c.Shadows name) found f)
      (hfg : c.Shadows name f g) : c.overrideFault? g.member f.member = none :=
    hsound.overrideFault?_eq_none h (declared f hf).1 (declared f hf).2 hfg
  refine ⟨found, memberNamed_eq_ok hd hfound, fits, fun ds hds hads => ?_,
    fun f hf ds hds hads => ?_, fun hchain => hchain.eq_or_overrideFault?_eq_none hkeyed fits⟩
  · exact h.reflTransGen_shadows_of_search hds hads hold hfound
  · obtain ⟨hdeclared, hmember⟩ := declared f hf
    exact hf.trans (h.reflTransGen_shadows_of_owner hdeclared hmember hds hads hold)

/-- A property that is narrowed from one generation to the next. -/
theorem memberNamed_of_mem_ancestors_generations :
    let oldest := TypeExpr.union [.primitive .number, .primitive .string, .primitive .boolean]
    let middle := TypeExpr.union [.primitive .number, .primitive .string]
    let youngest := TypeExpr.primitive .number
    let c := generations (.property oldest false false) (.property middle false false)
      (.property youngest true false)
    c.problems false = [] ∧ ∃ found, c.memberNamed "Leaf" "m" = .ok found ∧
      c.overrideFault? ⟨"m", .property oldest false false, none, []⟩ found.member = none := by
  intro oldest middle youngest c
  have clean : c.problems false = [] :=
    problems_generations (by simp [Member.mutates]) (by decide +kernel) (by decide +kernel)
  have hold : (generation "Root" none (.property oldest false false)).member? "m" =
    some ⟨"m", .property oldest false false, none, []⟩ := rfl
  obtain ⟨found, hfound, -, hlineage, -, hchain⟩ := memberNamed_of_mem_ancestors isBuilt_generations
    clean ancestors_leaf (List.mem_cons_of_mem _ List.mem_cons_self) type?_root hold
  obtain rfl : found = ⟨generation "Leaf" (some "Middle") (.property youngest true false),
      ⟨"m", .property youngest true false, none, []⟩⟩ := by
    rw [memberNamed_leaf] at hfound
    cases hfound
    rfl
  have comparable : ∀ t ∈ [oldest, middle, youngest], c.IsComparable t := by
    simp only [List.forall_mem_cons]
    exact ⟨⟨by decide +kernel, by decide +kernel, by decide⟩,
      ⟨by decide +kernel, by decide +kernel, by decide⟩,
      ⟨by decide +kernel, by decide +kernel, by decide⟩, by simp⟩
  -- each member along the chain is one of the three properties
  have properties {k : FoundMember}
      (hk : ReflTransGen (c.Shadows "m") ⟨generation "Leaf" (some "Middle")
        (.property youngest true false), ⟨"m", .property youngest true false, none, []⟩⟩ k) :
      ∃ t ∈ [oldest, middle, youngest], ∃ readonly, k.member.kind = .property t readonly false := by
    obtain ⟨hd, hm⟩ := declared_of_reflTransGen_shadows isBuilt_generations.isKeyed type?_leaf rfl hk
    have hkind := kind_mem_of_member? hd hm
    simp only [List.mem_cons, List.not_mem_nil, or_false] at hkind
    rcases hkind with h | h | h
    · exact ⟨oldest, by simp, false, h⟩
    · exact ⟨middle, by simp, false, h⟩
    · exact ⟨youngest, by simp, true, h⟩
  refine ⟨clean, _, hfound, (hchain ⟨hlineage _ lineage_leaf (by simp), ?_, ?_⟩).resolve_left
    (by simp [generation])⟩
  · intro k hk _ t ht
    obtain ⟨u, hu, readonly, hkind⟩ := properties hk
    rw [Member.writes_iff, hkind] at ht
    exact comparable t (ht ▸ hu)
  · intro k l hk hkl _
    obtain ⟨t, -, r, hk'⟩ := properties hk.to_reflTransGen
    obtain ⟨u, -, r', hl⟩ := properties (hk.tail hkl).to_reflTransGen
    exact ⟨by simp [Member.params, hl], by simp [Member.result?, hk']⟩

/-! ### Where members do not fit -/

/-- Whether every member that a type has is, or fits in the place of, each one with its name that an
ancestor declares. -/
def IsSubstitutable (c : Catalog) : Prop :=
  ∀ D names, c.ancestors D = .ok names → ∀ A ∈ names, ∀ a, c.type? A = some a →
    ∀ name old, a.member? name = some old → ∃ found, c.memberNamed D name = .ok found ∧
      (found = ⟨a, old⟩ ∨ c.overrideFault? old found.member = none)

theorem not_isSubstitutable_generations {oldest middle youngest : MemberKind}
    (h : (generations oldest middle youngest).overrideFault? ⟨"m", oldest, none, []⟩
      ⟨"m", youngest, none, []⟩ ≠ none) : ¬(generations oldest middle youngest).IsSubstitutable := by
  intro hall
  obtain ⟨found, hfound, hfits⟩ := hall "Leaf" _ ancestors_leaf "Root" (by simp)
    (generation "Root" none oldest) type?_root "m"
    ⟨"m", oldest, none, []⟩ rfl
  rw [memberNamed_leaf] at hfound
  cases hfound
  rcases hfits with same | hfits
  · simp [generation] at same
  · exact h hfits

/-- Two interfaces with members of one name and unlike types, and a class that has both. -/
def diamond : Catalog :=
  ofDeclarations [generation "X" none (.property (.primitive .number) false false),
    generation "Y" none (.property (.primitive .string) false false),
    { name := "D", kind := .classLike, capabilities := ["X", "Y"] }] []

theorem problems_diamond : diamond.problems false = [] :=
  problems_ofDeclarations_eq_nil (by decide) 3 (by decide +kernel)

theorem not_isSubstitutable_diamond : ¬diamond.IsSubstitutable := by
  have hd : diamond.type? "D" =
      some { name := "D", kind := .classLike, capabilities := ["X", "Y"] } := by decide +kernel
  have order : diamond.lookupOrder "D" =
      [{ name := "D", kind := .classLike, capabilities := ["X", "Y"] },
        generation "X" none (.property (.primitive .number) false false),
        generation "Y" none (.property (.primitive .string) false false)] :=
    searchFrom_of_searchWithin (n := 3) (by decide +kernel)
  have hnames : diamond.ancestors "D" = .ok ["X", "Y"] := by
    rw [ancestors_eq_ok hd, order]
    rfl
  have hfound : diamond.memberNamed "D" "m" =
      .ok ⟨generation "X" none (.property (.primitive .number) false false),
        ⟨"m", .property (.primitive .number) false false, none, []⟩⟩ :=
    memberNamed_eq_ok hd (by rw [order]; rfl)
  intro hall
  obtain ⟨found, hfound', hfits⟩ := hall "D" _ hnames "Y" (by simp)
    (generation "Y" none (.property (.primitive .string) false false)) (by decide +kernel) "m" _ rfl
  rw [hfound] at hfound'
  cases hfound'
  rcases hfits with same | hfits
  · simp [generation] at same
  · exact absurd hfits (by decide +kernel)

/-- A catalog without problems need not be substitutable: two capabilities of a class are on no
common chain; between a number and a string there may be a property of unknown type, a method that
leaves out a parameter, or one that returns nothing. -/
theorem not_isSubstitutable_of_clean :
    (diamond.problems false = [] ∧ ¬diamond.IsSubstitutable) ∧
      (let c := generations (.property (.primitive .number) false false)
        (.property .unknown false false) (.property (.primitive .string) false false)
       c.problems false = [] ∧ ¬c.IsSubstitutable) ∧
      (let c := generations (.method [⟨"a", .primitive .number, false⟩] .void [])
        (.method [] .void []) (.method [⟨"a", .primitive .string, true⟩] .void [])
       c.problems false = [] ∧ ¬c.IsSubstitutable) ∧
      (let c := generations (.method [] (.union [.void, .primitive .number]) [])
        (.method [] .void []) (.method [] (.primitive .string) [])
       c.problems false = [] ∧ ¬c.IsSubstitutable) := by
  refine ⟨⟨problems_diamond, not_isSubstitutable_diamond⟩, ?_, ?_, ?_⟩
  all_goals
    refine ⟨problems_generations (by simp [Member.mutates]) ?_ ?_, not_isSubstitutable_generations ?_⟩
    all_goals decide +kernel

end Catalog

end ApiCatalog
