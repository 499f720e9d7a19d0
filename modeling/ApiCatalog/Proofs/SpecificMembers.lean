import ApiCatalog.Proofs.MemberQueries
import ApiCatalog.Proofs.Substitution

/-!
# Which member counts as the most specific

A member that several types declare is to be seen as its most specific declaration. But a search is
depth first: it goes up the parents, then into the capabilities of the types passed, in the order
written, and enters no type twice. So what it finds behind the types it has seen is what can be
reached without entering those, and between two types it comes to first the one that some choice on
the way put first.

There are two such choices. The parents of a type are searched before its capabilities, and of two
capabilities the one written first is searched out before the other is entered. Wherever a type is
found before one that it does not inherit from, one of these is the reason. So a member is not that
of its most specific declaration exactly if such a choice put a less specific one first, and it is
wherever more specific types are listed first.

Main definitions: `Catalog.LeadsPast`, `Catalog.SearchedAhead`, `Catalog.SeesMostSpecific`,
`Catalog.ListsSpecificFirst`.
Main statements: `Catalog.mem_searchFrom_iff`, `Catalog.seesMostSpecific_iff`.
-/

namespace ApiCatalog.Catalog

variable {c : Catalog} {name goal first : String} {d e o x y : TypeDeclaration}
  {order before behind : List TypeDeclaration} {seen pending rest : List String}

/-- Whether a search that has seen some names comes from one name to another: no type that has been
seen is entered, and no type whose chain of parents is cyclic is left. -/
inductive LeadsPast (c : Catalog) (seen : List String) : String → String → Prop
  | here {name : String} {d : TypeDeclaration} (declared : c.type? name = some d)
      (new : name ∉ seen) : LeadsPast c seen name name
  | onward {name next goal : String} {d : TypeDeclaration} (declared : c.type? name = some d)
      (new : name ∉ seen) (acyclic : c.isCyclic name = false)
      (edge : d.parent = some next ∨ next ∈ d.capabilities) (later : LeadsPast c seen next goal) :
      LeadsPast c seen name goal

/-- Why a search comes to one type before another. -/
inductive SearchedAhead (c : Catalog) (before : List TypeDeclaration) (former latter : String) :
    Prop
  /-- A type searched before has the one on its chain of parents, and comes to the other through
  one of its capabilities. -/
  | parent (heir : TypeDeclaration) (capability : String) (searched : heir ∈ before)
      (above : former ∈ (c.chain [] heir.name).map (·.name))
      (listed : capability ∈ c.searchedCapabilities heir)
      (leads : c.isSubtype capability latter = true)
  /-- Of two capabilities on the chain of a type searched before, the first comes to the one and not
  to the other, unless through types searched until then, and the second to the other. -/
  | capability (searched : List TypeDeclaration) (heir : TypeDeclaration) (first second : String)
      (earlier : searched <+: before) (passed : heir ∈ searched)
      (listed : [first, second].Sublist ((c.chain [] heir.name).flatMap c.searchedCapabilities))
      (leads : c.LeadsPast (searched.map (·.name)) first former)
      (misses : ¬c.LeadsPast (searched.map (·.name)) first latter)
      (follows : c.isSubtype second latter = true)

/-- The types that a search passes on its walk from a name, behind the types in order. -/
def nextWalk (c : Catalog) (order : List TypeDeclaration) (name : String) : List TypeDeclaration :=
  c.chain (order.map (·.name)) name

/-- The capabilities that are pending behind that walk. -/
def nextCapabilities (c : Catalog) (order : List TypeDeclaration) (name : String) : List String :=
  (c.nextWalk order name).flatMap c.searchedCapabilities

/-- Whether of two pending names the first comes to one type and not to the other, when its turn is,
and the second to the other. -/
def PendingAhead (c : Catalog) (order : List TypeDeclaration) (pending : List String)
    (former latter : String) : Prop :=
  ∃ earlier first later, pending = earlier ++ first :: later ∧
    c.LeadsPast ((c.searchFrom order earlier).map (·.name)) first former ∧
    ¬c.LeadsPast ((c.searchFrom order earlier).map (·.name)) first latter ∧
    ∃ second ∈ later, c.isSubtype second latter = true

namespace LeadsPast

theorem declared (h : c.LeadsPast seen name goal) : ∃ d, c.type? name = some d := by
  cases h with
  | here declared => exact ⟨_, declared⟩
  | onward declared => exact ⟨_, declared⟩

theorem start_not_mem (h : c.LeadsPast seen name goal) : name ∉ seen := by
  cases h with
  | here _ new => exact new
  | onward _ new => exact new

theorem goal_not_mem (h : c.LeadsPast seen name goal) : goal ∉ seen := by
  induction h with
  | here _ new => exact new
  | onward _ _ _ _ _ ih => exact ih

/-- What is reached past more types is reached past fewer. -/
theorem mono {seen' : List String} (h : c.LeadsPast seen' name goal) (fewer : seen ⊆ seen') :
    c.LeadsPast seen name goal := by
  induction h with
  | here declared new => exact .here declared fun met => new (fewer met)
  | onward declared new acyclic edge _ ih =>
    exact .onward declared (fun met => new (fewer met)) acyclic edge ih

theorem trans {next : String} (h : c.LeadsPast seen name next) (h' : c.LeadsPast seen next goal) :
    c.LeadsPast seen name goal := by
  induction h with
  | here => exact h'
  | onward declared new acyclic edge _ ih => exact .onward declared new acyclic edge (ih h')

end LeadsPast

/-! ### One walk -/

/-- A walk that has seen more stops earlier on the same way. -/
theorem chain_isPrefix_of_subset {seen' : List String} (fewer : seen ⊆ seen') :
    c.chain seen' name <+: c.chain seen name := by
  fun_induction chain c seen' name generalizing seen with
  | case1 | case2 => exact List.nil_prefix
  | case3 seen' name d declared new | case4 seen' name d declared new =>
    rw [chain_of_type? declared fun met => new (fewer met)]
    exact List.cons_prefix_cons.2 ⟨rfl, List.nil_prefix⟩
  | case5 seen' name d declared new acyclic parent hparent _ ih =>
    rw [chain_of_type? declared fun met => new (fewer met), if_neg acyclic, hparent]
    exact List.cons_prefix_cons.2 ⟨rfl, ih (List.cons_subset_cons _ fewer)⟩

section Keyed

variable (hkeyed : IsKeyed c.types)
include hkeyed

/-- A walk goes on from any type that it passes as one that began there. -/
theorem behind_isPrefix_chain {ahead : List TypeDeclaration}
    (h : c.chain seen name = ahead ++ d :: behind) : d :: behind <+: c.chain [] d.name := by
  fun_induction chain c seen name generalizing ahead with
  | case1 | case2 => simp at h
  | case3 seen name e declared new | case4 seen name e declared new =>
    obtain ⟨rfl, hd⟩ := List.singleton_eq_append_iff.1 h |>.resolve_right (by simp)
    cases hd
    rw [chain_of_type? (hkeyed _ _ declared ▸ declared) List.not_mem_nil]
    exact List.cons_prefix_cons.2 ⟨rfl, List.nil_prefix⟩
  | case5 seen name e declared new acyclic parent hparent _ ih =>
    rcases List.cons_eq_append_iff.1 h with ⟨rfl, hd⟩ | ⟨ahead, rfl, hd⟩
    · cases hd
      rw [chain_of_type? (hkeyed _ _ declared ▸ declared) List.not_mem_nil, if_neg acyclic, hparent]
      exact List.cons_prefix_cons.2
        ⟨rfl, chain_isPrefix_of_subset (List.cons_subset_cons _ (List.nil_subset _))⟩
    · exact ih hd

/-- A walk comes to every type that it passes. -/
theorem leadsPast_of_mem_chain (h : d ∈ c.chain seen name) : c.LeadsPast seen name d.name := by
  fun_induction chain c seen name with
  | case1 | case2 => cases h
  | case3 seen name e declared new | case4 seen name e declared new =>
    have same := hkeyed _ _ declared
    rw [List.mem_singleton.1 h, same]
    exact .here declared (same ▸ new)
  | case5 seen name e declared new acyclic parent hparent _ ih =>
    have same := hkeyed _ _ declared
    rcases List.mem_cons.1 h with rfl | h
    · rw [same]
      exact .here declared (same ▸ new)
    · exact .onward declared (same ▸ new) (same ▸ Bool.eq_false_iff.2 acyclic) (.inl hparent)
        ((ih h).mono (List.subset_cons_self _ _))

/-- What is reached from anywhere is passed by a walk, or reached past the types of the walk from
there or from one of their capabilities. -/
theorem LeadsPast.past_walk {start : String} (h : c.LeadsPast seen start goal) (name : String) :
    goal ∈ (c.chain seen name).map (·.name) ∨
      c.LeadsPast (seen ++ (c.chain seen name).map (·.name)) start goal ∨
      ∃ y ∈ c.chain seen name, ∃ capability ∈ c.searchedCapabilities y,
        c.LeadsPast (seen ++ (c.chain seen name).map (·.name)) capability goal := by
  induction h with
  | @here start d declared new =>
    by_cases passed : start ∈ (c.chain seen name).map (·.name)
    · exact .inl passed
    · exact .inr (.inl (.here declared (by simp [new, passed])))
  | @onward start next goal d declared new acyclic edge later ih =>
    refine ih.imp_right fun ih => ih.elim (fun later' => ?_) .inr
    by_cases passed : start ∈ (c.chain seen name).map (·.name)
    · -- the last type of the way that the walk passes: the next is no parent, so a capability
      obtain ⟨y, hy, rfl⟩ := List.mem_map.1 passed
      have same := type?_of_mem_chain hkeyed hy
      rw [declared] at same
      cases same
      refine .inr ⟨d, hy, next, (mem_searchedCapabilities acyclic).2 (edge.resolve_left ?_), later'⟩
      intro hparent
      obtain ⟨e, he⟩ := later.declared
      exact later'.start_not_mem
        (List.mem_append.2 (parent_of_mem_chain hkeyed hy acyclic hparent he))
    · exact .inl (.onward declared (by simp [new, passed]) acyclic edge later')

/-- What is reached from where a walk begins is passed by it or reached from a capability. -/
theorem LeadsPast.walk (h : c.LeadsPast seen name goal) :
    goal ∈ (c.chain seen name).map (·.name) ∨
      ∃ y ∈ c.chain seen name, ∃ capability ∈ c.searchedCapabilities y,
        c.LeadsPast (seen ++ (c.chain seen name).map (·.name)) capability goal := by
  refine (h.past_walk hkeyed name).imp_right fun h' => h'.resolve_left fun past => ?_
  obtain ⟨d, hd⟩ := h.declared
  have same := hkeyed _ _ hd
  refine past.start_not_mem (List.mem_append_right _ ?_)
  simp [chain_of_type? hd (same ▸ h.start_not_mem), same]

/-- From where a walk begins, a search comes to all that the capabilities on it lead to. -/
theorem leadsPast_of_capability (hy : y ∈ c.chain seen name) {capability : String}
    (hcapability : capability ∈ c.searchedCapabilities y)
    (h : c.LeadsPast seen capability goal) : c.LeadsPast seen name goal := by
  have reached := leadsPast_of_mem_chain hkeyed hy
  refine reached.trans ?_
  rw [searchedCapabilities] at hcapability
  split at hcapability
  · cases hcapability
  · rename_i acyclic
    exact .onward (type?_of_mem_chain hkeyed hy) reached.goal_not_mem (Bool.eq_false_iff.2 acyclic)
      (.inr hcapability) h

/-! ### The whole search -/

/-- One walk changes nothing in what there is to find. -/
theorem found_or_pending_walk :
    (goal ∈ (order ++ c.nextWalk order name).map (·.name) ∨
        ∃ n ∈ c.nextCapabilities order name ++ rest,
          c.LeadsPast ((order ++ c.nextWalk order name).map (·.name)) n goal) ↔
      (goal ∈ order.map (·.name) ∨
        ∃ n ∈ name :: rest, c.LeadsPast (order.map (·.name)) n goal) := by
  rw [List.map_append, List.mem_append]
  have fewer : order.map (·.name) ⊆ order.map (·.name) ++ (c.nextWalk order name).map (·.name) :=
    List.subset_append_left _ _
  constructor
  · rintro ((found | found) | ⟨n, hn, h⟩)
    · exact .inl found
    · obtain ⟨y, hy, rfl⟩ := List.mem_map.1 found
      exact .inr ⟨name, List.mem_cons_self, leadsPast_of_mem_chain hkeyed hy⟩
    · refine .inr ?_
      rcases List.mem_append.1 hn with hn | hn
      · obtain ⟨y, hy, hn⟩ := List.mem_flatMap.1 hn
        exact ⟨name, List.mem_cons_self, leadsPast_of_capability hkeyed hy hn (h.mono fewer)⟩
      · exact ⟨n, List.mem_cons_of_mem _ hn, h.mono fewer⟩
  · rintro (found | ⟨n, hn, h⟩)
    · exact .inl (.inl found)
    · have listed {y : TypeDeclaration} (hy : y ∈ c.nextWalk order name) {capability : String}
          (hcapability : capability ∈ c.searchedCapabilities y) :
          capability ∈ c.nextCapabilities order name ++ rest :=
        List.mem_append_left _ (List.mem_flatMap.2 ⟨y, hy, hcapability⟩)
      rcases h.past_walk hkeyed name with passed | h' | ⟨y, hy, capability, hcapability, h'⟩
      · exact .inl (.inr passed)
      · rcases List.mem_cons.1 hn with rfl | hn
        · exact (h.walk hkeyed).imp .inr fun ⟨y, hy, capability, hcapability, h'⟩ =>
            ⟨capability, listed hy hcapability, h'⟩
        · exact .inr ⟨n, List.mem_append_right _ hn, h'⟩
      · exact .inr ⟨capability, listed hy hcapability, h'⟩

/-- A search finds what can be reached from the pending names past the types it has seen. -/
theorem mem_searchFrom_iff :
    goal ∈ (c.searchFrom order pending).map (·.name) ↔
      goal ∈ order.map (·.name) ∨
        ∃ n ∈ pending, c.LeadsPast (order.map (·.name)) n goal := by
  have same := searchFrom_induction (P := fun found pending' =>
    (goal ∈ found.map (·.name) ∨ ∃ n ∈ pending', c.LeadsPast (found.map (·.name)) n goal) ↔
      (goal ∈ order.map (·.name) ∨ ∃ n ∈ pending, c.LeadsPast (order.map (·.name)) n goal))
    (fun _ _ _ same => (found_or_pending_walk hkeyed).trans same) Iff.rfl
  simpa using same

end Keyed

/-- Names that are pending together are searched one part after the other. -/
theorem searchFrom_append (c : Catalog) (order : List TypeDeclaration)
    (pending rest : List String) :
    c.searchFrom order (pending ++ rest) = c.searchFrom (c.searchFrom order pending) rest := by
  fun_induction searchFrom c order pending with
  | case1 => rfl
  | case2 order name pending empty ih =>
    rw [List.cons_append, searchFrom_cons, empty, List.append_nil]
    exact ih
  | case3 order name pending d ds found _ ih =>
    rw [List.cons_append, searchFrom_cons, found, ← List.append_assoc]
    exact ih

/-! ### Which of two types is found first -/

/-- What a search has found when it comes to a type stands before it. -/
theorem isPrefix_before {found : List TypeDeclaration} (h : found <+: before ++ o :: behind)
    (new : o ∉ found) : found <+: before := by
  have upto : before ++ [o] <+: before ++ o :: behind := ⟨behind, by simp⟩
  rcases List.prefix_or_prefix_of_prefix h upto with h | h
  · exact (List.prefix_concat_iff.1 h).resolve_left fun same => new (by simp [same])
  · exact absurd (h.subset (by simp)) new

theorem name_not_mem_of_behind {found : List TypeDeclaration}
    (distinct : ((before ++ o :: behind).map (·.name)).Nodup) (hx : x ∈ behind)
    (h : found <+: before) : x.name ∉ found.map (·.name) := by
  rw [List.map_append, List.map_cons] at distinct
  exact fun met => List.disjoint_of_nodup_append distinct (List.map_subset _ h.subset met)
    (List.mem_cons_of_mem _ (List.mem_map.2 ⟨x, hx, rfl⟩))

section Keyed

variable (hkeyed : IsKeyed c.types)
include hkeyed

theorem isSubtype_of_leadsPast (h : c.LeadsPast seen name goal) : c.isSubtype name goal = true :=
  isSubtype_iff.2 (.inr ((mem_searchFrom_iff hkeyed).2
    (.inr ⟨name, List.mem_singleton_self _, h.mono (List.nil_subset _)⟩)))

/-- Where a walk passes a type, what is reached from its beginning is passed before, or reached from
that type, or from a capability of a type passed before. -/
theorem LeadsPast.ahead_or_behind (h : c.LeadsPast seen name goal)
    {ahead tail : List TypeDeclaration} (split : c.chain seen name = ahead ++ o :: tail) :
    goal ∈ ahead.map (·.name) ∨ c.isSubtype o.name goal = true ∨
      ∃ y ∈ ahead, o.name ∈ (c.chain [] y.name).map (·.name) ∧
        ∃ capability ∈ c.searchedCapabilities y, c.isSubtype capability goal = true := by
  have onward : o :: tail <+: c.chain [] o.name := behind_isPrefix_chain hkeyed split
  rcases h.walk hkeyed with passed | ⟨y, hy, capability, hcapability, h'⟩
  · rw [split, List.map_append, List.mem_append] at passed
    refine passed.imp_right fun passed => .inl ?_
    obtain ⟨y, hy, rfl⟩ := List.mem_map.1 passed
    exact isSubtype_of_leadsPast hkeyed (leadsPast_of_mem_chain hkeyed (onward.subset hy))
  · rw [split, List.mem_append] at hy
    rcases hy with hy | hy
    · obtain ⟨upto, between, rfl⟩ := List.append_of_mem hy
      have above : y :: (between ++ o :: tail) <+: c.chain [] y.name :=
        behind_isPrefix_chain hkeyed (split.trans (List.append_assoc _ _ _))
      exact .inr (.inr ⟨y, hy, List.mem_map.2 ⟨o, above.subset (by simp), rfl⟩, capability,
        hcapability, isSubtype_of_leadsPast hkeyed h'⟩)
    · exact .inr (.inl (isSubtype_of_leadsPast hkeyed (leadsPast_of_capability hkeyed
        (onward.subset hy) hcapability (h'.mono (List.nil_subset _)))))

/-- The choice between two capabilities on the walk that a search begins with is one of a type
searched before. -/
theorem searchedAhead_of_listed {earlier later : List String} {second : String}
    (listed : c.nextCapabilities order name = earlier ++ first :: later) (hsecond : second ∈ later)
    (passed : c.searchFrom (order ++ c.nextWalk order name) earlier <+: before)
    (leads : c.LeadsPast ((c.searchFrom (order ++ c.nextWalk order name) earlier).map (·.name))
      first o.name)
    (misses : ¬c.LeadsPast ((c.searchFrom (order ++ c.nextWalk order name) earlier).map (·.name))
      first x.name)
    (follows : c.isSubtype second x.name = true) : c.SearchedAhead before o.name x.name := by
  rw [nextCapabilities] at listed
  cases walk : c.nextWalk order name with
  | nil =>
    rw [walk] at listed
    simp at listed
  | cons heir heirs =>
    rw [walk] at listed passed leads misses
    have onChain : heir :: heirs <+: c.chain [] heir.name :=
      behind_isPrefix_chain hkeyed (walk.trans (List.nil_append _).symm)
    have pair : [first, second].Sublist (first :: later) :=
      (List.singleton_sublist.2 hsecond).cons_cons first
    refine .capability _ heir first second passed
      ((isPrefix_searchFrom c _ _).subset (by simp)) ?_ leads misses follows
    refine (pair.trans (List.sublist_append_right earlier _)).trans ?_
    rw [← listed]
    exact onChain.sublist.flatMap _

section Found

variable (hfound : c.searchFrom order (name :: rest) = before ++ o :: behind) (hx : x ∈ behind)
include hfound hx

/-- What is found behind the types reached from a name is reached from a name pending behind it. -/
theorem exists_follows (misses : ¬c.LeadsPast (order.map (·.name)) name x.name)
    (new : x.name ∉ order.map (·.name)) :
    ∃ second ∈ rest, c.isSubtype second x.name = true := by
  have found : x.name ∈ (c.searchFrom order (name :: rest)).map (·.name) := by
    rw [hfound]
    exact List.mem_map.2 ⟨x, by simp [hx], rfl⟩
  obtain ⟨second, hsecond, h⟩ := ((mem_searchFrom_iff hkeyed).1 found).resolve_left new
  rcases List.mem_cons.1 hsecond with rfl | hsecond
  · exact absurd h misses
  · exact ⟨second, hsecond, isSubtype_of_leadsPast hkeyed h⟩

variable (distinct : ((before ++ o :: behind).map (·.name)).Nodup)
include distinct

/-- A search comes to a type on the walk it begins with before another one that the type does not
inherit from. Then the other one is behind a capability of a type ahead on the walk, or it is not
reached from where the walk begins. -/
theorem searchedAhead_of_mem_nextWalk (apart : c.isSubtype o.name x.name = false)
    (ho : o ∈ c.nextWalk order name) :
    c.SearchedAhead before o.name x.name ∨ c.PendingAhead order (name :: rest) o.name x.name := by
  obtain ⟨ahead, tail, split⟩ := List.append_of_mem ho
  have passed : order ++ ahead <+: before := by
    have found : order ++ ahead ++ o :: tail <+: before ++ o :: behind := by
      rw [← hfound, searchFrom_cons, ← nextWalk, split, List.append_assoc]
      exact isPrefix_searchFrom c _ _
    refine isPrefix_before ((List.prefix_append _ _).trans found) fun met => ?_
    have once := (distinct.of_map _).sublist found.sublist
    exact List.disjoint_of_nodup_append once met List.mem_cons_self
  have new := name_not_mem_of_behind distinct hx passed
  rw [List.map_append, List.mem_append, not_or] at new
  by_cases reached : c.LeadsPast (order.map (·.name)) name x.name
  · rcases reached.ahead_or_behind hkeyed split with
      h | h | ⟨y, hy, above, capability, hcapability, h⟩
    · exact absurd h new.2
    · rw [h] at apart
      cases apart
    · exact .inl (.parent y capability (passed.subset (List.mem_append_right _ hy)) above
        hcapability h)
  · have leads := leadsPast_of_mem_chain hkeyed ho
    refine .inr ⟨[], name, rest, rfl, ?_, ?_, exists_follows hkeyed hfound hx reached new.1⟩
    · rwa [searchFrom]
    · rwa [searchFrom]

omit hfound in
/-- Where the first of two names that put one type ahead is a capability on the walk that a search
begins with, the second is one too, or the choice was pending before. -/
theorem searchedAhead_of_first_listed {earlier later : List String} {second : String}
    (listed : c.nextCapabilities order name = earlier ++ first :: later)
    (hsecond : second ∈ later ++ rest)
    (passed : c.searchFrom (order ++ c.nextWalk order name) earlier <+: before)
    (leads : c.LeadsPast ((c.searchFrom (order ++ c.nextWalk order name) earlier).map (·.name))
      first o.name)
    (misses : ¬c.LeadsPast ((c.searchFrom (order ++ c.nextWalk order name) earlier).map (·.name))
      first x.name)
    (follows : c.isSubtype second x.name = true) :
    c.SearchedAhead before o.name x.name ∨ c.PendingAhead order (name :: rest) o.name x.name := by
  have onWalk {second : String} (hsecond : second ∈ later)
      (follows : c.isSubtype second x.name = true) : c.SearchedAhead before o.name x.name :=
    searchedAhead_of_listed hkeyed listed hsecond passed leads misses follows
  rcases List.mem_append.1 hsecond with hsecond | hsecond
  · exact .inl (onWalk hsecond follows)
  · by_cases reached : c.LeadsPast (order.map (·.name)) name x.name
    · -- then a later capability on the walk leads there
      have found : x.name ∈ (c.searchFrom order [name]).map (·.name) :=
        (mem_searchFrom_iff hkeyed).2 (.inr ⟨name, List.mem_singleton_self _, reached⟩)
      rw [searchFrom_cons, ← nextWalk, ← nextCapabilities, List.append_nil, listed,
        searchFrom_append, mem_searchFrom_iff hkeyed] at found
      obtain ⟨n, hn, h⟩ := found.resolve_left (name_not_mem_of_behind distinct hx passed)
      rcases List.mem_cons.1 hn with rfl | hn
      · exact absurd h misses
      · exact .inl (onWalk hn (isSubtype_of_leadsPast hkeyed h))
    · obtain ⟨y, hy, hfirst⟩ : ∃ y ∈ c.nextWalk order name, first ∈ c.searchedCapabilities y :=
        List.mem_flatMap.1 (by rw [← nextCapabilities, listed]; simp)
      have fewer : order <+: c.searchFrom (order ++ c.nextWalk order name) earlier :=
        (List.prefix_append _ _).trans (isPrefix_searchFrom c _ _)
      have leads := leadsPast_of_capability hkeyed hy hfirst
        (leads.mono (List.map_subset _ fewer.subset))
      refine .inr ⟨[], name, rest, rfl, ?_, ?_, second, hsecond, follows⟩
      · rwa [searchFrom]
      · rwa [searchFrom]

/-- Where a choice among the names pending behind a walk puts one type first, that is the reason if
both names are capabilities on the walk; else the choice was pending before. -/
theorem searchedAhead_of_pendingAhead
    (h : c.PendingAhead (order ++ c.nextWalk order name) (c.nextCapabilities order name ++ rest)
      o.name x.name) :
    c.SearchedAhead before o.name x.name ∨ c.PendingAhead order (name :: rest) o.name x.name := by
  obtain ⟨earlier, first, later, split, leads, misses, second, hsecond, follows⟩ := h
  have walked (names : List String) : c.searchFrom order (name :: names) =
      c.searchFrom (order ++ c.nextWalk order name) (c.nextCapabilities order name ++ names) :=
    searchFrom_cons c order name names
  have behindRest (names : List String) (hrest : rest = names ++ first :: later)
      (hearlier : earlier = c.nextCapabilities order name ++ names) :
      c.PendingAhead order (name :: rest) o.name x.name := by
    rw [hearlier, ← walked] at leads misses
    exact ⟨name :: names, first, later, by rw [hrest, List.cons_append], leads, misses, second,
      hsecond, follows⟩
  rcases List.append_eq_append_iff.1 split with ⟨names, hearlier, hrest⟩ | ⟨names, listed, hlater⟩
  · exact .inr (behindRest names hrest hearlier)
  · rcases names with - | ⟨first', names⟩
    · exact .inr (behindRest [] (by simpa using hlater.symm) (by simpa using listed.symm))
    · cases hlater
      have found : c.searchFrom (order ++ c.nextWalk order name) earlier <+:
          before ++ o :: behind := by
        rw [← hfound, walked, split, searchFrom_append]
        exact isPrefix_searchFrom c _ _
      have passed := isPrefix_before found fun met =>
        leads.goal_not_mem (List.mem_map.2 ⟨o, met, rfl⟩)
      exact searchedAhead_of_first_listed hkeyed hx distinct listed hsecond passed leads misses
        follows

end Found

/-- Wherever a search finds a type before one that it does not inherit from, the types found before
say why, or a choice among the names that were pending. -/
theorem searchedAhead_or_pendingAhead (hfound : c.searchFrom order pending = before ++ o :: behind)
    (hx : x ∈ behind) (distinct : ((before ++ o :: behind).map (·.name)).Nodup)
    (apart : c.isSubtype o.name x.name = false) (new : o ∉ order) :
    c.SearchedAhead before o.name x.name ∨ c.PendingAhead order pending o.name x.name := by
  have step {order name rest}
      (hfound : c.searchFrom order (name :: rest) = before ++ o :: behind) (new : o ∉ order)
      (ih : o ∉ order ++ c.nextWalk order name →
        c.SearchedAhead before o.name x.name ∨
          c.PendingAhead (order ++ c.nextWalk order name) (c.nextCapabilities order name ++ rest)
            o.name x.name) :
      c.SearchedAhead before o.name x.name ∨
        c.PendingAhead order (name :: rest) o.name x.name := by
    by_cases ho : o ∈ c.nextWalk order name
    · exact searchedAhead_of_mem_nextWalk hkeyed hfound hx distinct apart ho
    · exact (ih (by simp [new, ho])).elim .inl
        (searchedAhead_of_pendingAhead hkeyed hfound hx distinct)
  fun_induction searchFrom c order pending with
  | case1 order => exact absurd (by simp [hfound]) new
  | case2 order name rest empty ih =>
    refine step (by rw [searchFrom_cons, empty]; simpa using hfound) new fun new' => ?_
    rw [nextCapabilities, nextWalk, empty, List.append_nil]
    exact ih hfound new
  | case3 order name rest d ds walk _ ih =>
    refine step (by rw [searchFrom_cons, walk]; exact hfound) new fun new' => ?_
    rw [nextCapabilities, nextWalk, walk]
    rw [nextWalk, walk] at new'
    exact ih hfound new'

/-- Where a type comes before one that it does not inherit from in the order of search, the types
before it say why. -/
theorem searchedAhead_of_lookupOrder (hfound : c.lookupOrder name = before ++ o :: behind)
    (hx : x ∈ behind) (apart : c.isSubtype o.name x.name = false) :
    c.SearchedAhead before o.name x.name := by
  have distinct : ((before ++ o :: behind).map (·.name)).Nodup := by
    rw [← hfound]
    exact nodup_searchFrom .nil
  rcases searchedAhead_or_pendingAhead hkeyed hfound hx distinct apart List.not_mem_nil with
    h | ⟨earlier, first, later, split, _, _, second, hsecond, _⟩
  · exact h
  · -- a single name was pending
    obtain ⟨rfl, hsplit⟩ := (List.singleton_eq_append_iff.1 split).resolve_right (by simp)
    cases hsplit
    cases hsecond

/-- What a type leads to is searched from every type that is searched before it. -/
theorem mem_lookupOrder_of_leadsPast (hd : d ∈ c.lookupOrder name) (hx : c.type? x.name = some x)
    (h : c.LeadsPast [] d.name x.name) : x ∈ c.lookupOrder name := by
  have found : x.name ∈ (c.lookupOrder d.name).map (·.name) :=
    (mem_searchFrom_iff hkeyed).2 (.inr ⟨d.name, List.mem_singleton_self _, h⟩)
  obtain ⟨e, he, same⟩ := List.mem_map.1 found
  -- both are what is declared under that name
  have declared := (isSearched_lookupOrder hkeyed d.name).declared e he
  rw [same, hx] at declared
  cases declared
  exact mem_lookupOrder_trans hkeyed hd he

theorem leadsPast_of_isSubtype (h : c.isSubtype name goal = true)
    (declared : (c.type? goal).isSome) : c.LeadsPast [] name goal := by
  rcases isSubtype_iff.1 h with rfl | found
  · obtain ⟨d, hd⟩ := Option.isSome_iff_exists.1 declared
    exact .here hd List.not_mem_nil
  · obtain ⟨n, hn, leads⟩ := ((mem_searchFrom_iff hkeyed).1 found).resolve_left List.not_mem_nil
    rwa [List.mem_singleton.1 hn] at leads

/-- A type that another one is searched ahead of is searched too. -/
theorem SearchedAhead.mem_lookupOrder (h : c.SearchedAhead before goal x.name)
    (searched : before <+: c.lookupOrder name) (hx : c.type? x.name = some x) :
    x ∈ c.lookupOrder name := by
  have declared : (c.type? x.name).isSome := by rw [hx]; rfl
  have reached {heir y : TypeDeclaration} (hheir : heir ∈ before)
      (hy : y ∈ c.chain [] heir.name) {capability : String}
      (hcapability : capability ∈ c.searchedCapabilities y)
      (leads : c.isSubtype capability x.name = true) : x ∈ c.lookupOrder name :=
    mem_lookupOrder_of_leadsPast hkeyed (searched.subset hheir) hx
      (leadsPast_of_capability hkeyed hy hcapability (leadsPast_of_isSubtype hkeyed leads declared))
  cases h with
  | parent heir capability passed _ listed leads =>
    have hheir := (isSearched_lookupOrder hkeyed name).declared heir (searched.subset passed)
    refine reached passed ?_ listed leads
    rw [chain_of_type? hheir List.not_mem_nil]
    exact List.mem_cons_self
  | capability upto heir first second earlier passed listed _ _ follows =>
    obtain ⟨y, hy, hsecond⟩ := List.mem_flatMap.1 (listed.subset (by simp : second ∈ _))
    exact reached (earlier.subset passed) hy hsecond follows

end Keyed

/-- A way that does not lead to a type does not pass it. -/
theorem LeadsPast.past_missed (h : c.LeadsPast seen name goal) {missed : String}
    (misses : ¬c.LeadsPast seen name missed) : c.LeadsPast [missed] name goal := by
  induction h with
  | here declared new =>
    refine .here declared fun met => misses ?_
    rw [← List.mem_singleton.1 met]
    exact .here declared new
  | onward declared new acyclic edge later ih =>
    refine .onward declared (fun met => misses ?_) acyclic edge
      (ih fun leads => misses (.onward declared new acyclic edge leads))
    rw [← List.mem_singleton.1 met]
    exact .here declared new

/-! ### Members -/

/-- Whether a type inherits from another one: the other one is among its ancestors. -/
def Inherits (c : Catalog) (heir ancestor : String) : Prop :=
  ∃ names, c.ancestors heir = .ok names ∧ ancestor ∈ names

/-- Whether a type sees a member as its most specific declaration: where the member is that of a
type outside its own chain of parents, no type that it searches declares the member and inherits
from that one, unless each of them inherits from the other. -/
def SeesMostSpecific (c : Catalog) (type member : String) : Prop :=
  ∀ found, c.memberNamed type member = .ok found →
    found.owner.name ∉ (c.chain [] type).map (·.name) →
    ∀ x ∈ c.lookupOrder type, (x.member? member).isSome →
      c.Inherits x.name found.owner.name → c.Inherits found.owner.name x.name

/-- Whether a type declares a member more specifically than another one outside the chain of parents
of the type that is asked. -/
structure Redeclares (c : Catalog) (type member : String) (x o : TypeDeclaration) : Prop where
  declared : c.type? x.name = some x
  specific : (x.member? member).isSome
  general : (o.member? member).isSome
  inherits : c.Inherits x.name o.name
  apart : ¬c.Inherits o.name x.name
  outside : o.name ∉ (c.chain [] type).map (·.name)

/-- Whether none of the types that a type searches puts the less specific one of two declarations
ahead: no way on which it comes to a more specific one behind a parent or behind another
capability. -/
structure ListsSpecificFirst (c : Catalog) (type member : String) : Prop where
  /-- A type with the less specific one on its chain of parents has no capability that leads to the
  more specific one. -/
  parent : ∀ x o, c.Redeclares type member x o → ∀ heir ∈ c.lookupOrder type,
    o.name ∈ (c.chain [] heir.name).map (·.name) →
    ∀ capability ∈ c.searchedCapabilities heir, c.isSubtype capability x.name = false
  /-- Where the second of two capabilities leads to the more specific one, the first leads to the
  less specific one through it or not at all. -/
  capability : ∀ x o, c.Redeclares type member x o → ∀ heir ∈ c.lookupOrder type,
    ∀ first second,
      [first, second].Sublist ((c.chain [] heir.name).flatMap c.searchedCapabilities) →
      c.isSubtype second x.name = true → ¬c.LeadsPast [x.name] first o.name

theorem inherits_of_ancestors {names : List String} (h : c.ancestors name = .ok names) :
    c.Inherits name goal ↔ goal ∈ names :=
  ⟨fun ⟨_, h', found⟩ => by rw [h, Except.ok.injEq] at h'; rwa [h'], fun found => ⟨names, h, found⟩⟩

/-- The owner of a member is the first type with such a member in the order of search. -/
theorem memberNamed_eq_ok_iff_before {type member : String} {found : FoundMember} :
    c.memberNamed type member = .ok found ↔
      found.owner.member? member = some found.member ∧
        ∃ before, before ++ [found.owner] <+: c.lookupOrder type ∧
          ∀ d ∈ before, d.member? member = none := by
  cases hd : c.type? type with
  | none =>
    have nothing : c.lookupOrder type = [] := by
      rw [lookupOrder_eq, chain_of_undeclared hd, List.flatMap_nil, searchFrom]
    have undeclared : c.memberNamed type member = .error ⟨.typeNotFound type, none⟩ := by
      rw [memberNamed, hd]
    rw [undeclared, nothing]
    constructor
    · intro h
      cases h
    · rintro ⟨-, before, upto, -⟩
      simp at upto
  | some d =>
    obtain ⟨o, m⟩ := found
    rw [memberNamed_eq_ok_iff hd, firstMember?, List.findSome?_eq_some_iff]
    constructor
    · rintro ⟨before, o', behind, order, ho, others⟩
      obtain ⟨m', hm, same⟩ := Option.map_eq_some_iff.1 ho
      cases same
      exact ⟨hm, before, ⟨behind, by rw [order, List.append_assoc]; rfl⟩,
        fun d hd => by simpa using others d hd⟩
    · rintro ⟨hm, before, ⟨behind, order⟩, without⟩
      exact ⟨before, o, behind, by rw [← order, List.append_assoc]; rfl,
        Option.map_eq_some_iff.2 ⟨m, hm, rfl⟩, fun d hd => by simp [without d hd]⟩

section Keyed

variable (hkeyed : IsKeyed c.types)
include hkeyed

/-- The ancestors of a type are the other types that it is a subtype of. -/
theorem inherits_iff (hd : c.type? name = some d) :
    c.Inherits name goal ↔ goal ≠ name ∧ c.isSubtype name goal = true := by
  rw [inherits_of_ancestors (ancestors_eq_ok hd), drop_lookupOrder hkeyed hd, isSubtype_iff]
  simp only [List.mem_map, List.mem_filter, decide_eq_true_eq, searched, Set.mem_ofPred_eq]
  constructor
  · rintro ⟨a, ⟨ha, other⟩, rfl⟩
    exact ⟨other, .inr ⟨a, ha, rfl⟩⟩
  · rintro ⟨other, rfl | ⟨a, ha, rfl⟩⟩
    · exact absurd rfl other
    · exact ⟨a, ⟨ha, other⟩, rfl⟩

variable {type member : String}

/-- A member is that of its most specific declaration exactly if the types searched before its owner
do not put that one ahead of a more specific one. -/
theorem sees_iff_not_searchedAhead :
    c.SeesMostSpecific type member ↔
      ∀ before o x, before ++ [o] <+: c.lookupOrder type →
        (∀ d ∈ before, d.member? member = none) → c.Redeclares type member x o →
        ¬c.SearchedAhead before o.name x.name := by
  constructor
  · intro sees before o x upto without again ahead
    obtain ⟨m, hm⟩ := Option.isSome_iff_exists.1 again.general
    have found : c.memberNamed type member = .ok ⟨o, m⟩ :=
      memberNamed_eq_ok_iff_before.2 ⟨hm, before, upto, without⟩
    have searched : before <+: c.lookupOrder type := (List.prefix_append _ _).trans upto
    have hx := ahead.mem_lookupOrder hkeyed searched again.declared
    exact again.apart (sees _ found again.outside x hx again.specific again.inherits)
  · intro never found hfound outside x hx specific inherits
    obtain ⟨hm, before, ⟨behind, order⟩, without⟩ := memberNamed_eq_ok_iff_before.1 hfound
    have declared := (isSearched_lookupOrder hkeyed type).declared
    rw [List.append_assoc, List.singleton_append] at order
    by_contra apart
    have other := ((inherits_iff hkeyed (declared x hx)).1 inherits).1
    have inherits' : c.isSubtype found.owner.name x.name = false := by
      refine Bool.eq_false_iff.2 fun sub => apart ?_
      exact (inherits_iff hkeyed (declared _ (by simp [← order]))).2 ⟨other.symm, sub⟩
    have behindOwner : x ∈ behind := by
      rw [← order, List.mem_append, List.mem_cons] at hx
      rcases hx with hx | rfl | hx
      · rw [without x hx] at specific
        cases specific
      · exact absurd rfl other
      · exact hx
    refine never before found.owner x ⟨behind, by rw [List.append_assoc]; exact order⟩ without
      ⟨declared x hx, specific, by rw [hm]; rfl, inherits, apart, outside⟩ ?_
    exact searchedAhead_of_lookupOrder hkeyed order.symm behindOwner inherits'

omit hkeyed in
/-- Types that list what is more specific first put nothing less specific ahead. -/
theorem ListsSpecificFirst.not_searchedAhead (h : c.ListsSpecificFirst type member)
    (searched : before <+: c.lookupOrder type) (again : c.Redeclares type member x o) :
    ¬c.SearchedAhead before o.name x.name := by
  intro ahead
  cases ahead with
  | parent heir capability passed above listed leads =>
    have misses := h.parent x o again heir (searched.subset passed) above capability listed
    rw [misses] at leads
    cases leads
  | capability upto heir first second earlier passed pair leads misses follows =>
    exact h.capability x o again heir (searched.subset (earlier.subset passed)) first second pair
      follows (leads.past_missed misses)

/-- A type sees a member as its most specific declaration unless the types searched before the owner
put that one ahead of a more specific one: as a parent ahead of what is behind a capability, or with
a capability that is written first. So it does where specific declarations are listed first. -/
theorem seesMostSpecific_iff (type member : String) :
    (c.SeesMostSpecific type member ↔
      ∀ before o x, before ++ [o] <+: c.lookupOrder type →
        (∀ d ∈ before, d.member? member = none) → c.Redeclares type member x o →
        ¬c.SearchedAhead before o.name x.name) ∧
      (c.ListsSpecificFirst type member → c.SeesMostSpecific type member) := by
  refine ⟨sees_iff_not_searchedAhead hkeyed, fun h => (sees_iff_not_searchedAhead hkeyed).2 ?_⟩
  intro before o x upto _ again
  exact h.not_searchedAhead ((List.prefix_append _ _).trans upto) again

end Keyed

/-! ### Less specific members found first -/

theorem chain_of_root (hd : c.type? name = some d) (root : d.parent = none) :
    c.chain [] name = [d] := by
  rw [chain_of_type? hd List.not_mem_nil, root, Option.map_none, Option.getD_none, ite_self]

theorem chain_subset_lookupOrder : c.chain [] name ⊆ c.lookupOrder name := by
  rw [lookupOrder_eq]
  exact (isPrefix_searchFrom c _ _).subset

/-- An interface with a number. -/
def base : TypeDeclaration := generation "Base" none (.property (.primitive .number) false false)

/-- A more specific interface, which declares the number again. -/
def mixin : TypeDeclaration :=
  generation "Mixin" (some "Base") (.property (.primitive .number) false false)

/-- A class with two capabilities. -/
def heirOfBoth (first second : String) : TypeDeclaration :=
  ((TypeDeclaration.ofClass "U").withCapability first).withCapability second

/-- Both interfaces, and a class that has them as capabilities, the less specific one first. -/
def writtenFirst : Catalog := ofDeclarations [base, mixin, heirOfBoth "Base" "Mixin"] []

/-- The same with the more specific one first. -/
def specificFirst : Catalog := ofDeclarations [base, mixin, heirOfBoth "Mixin" "Base"] []

/-- What is searched in a catalog with both interfaces. -/
structure HasBoth (c : Catalog) (heir : TypeDeclaration) (order : List TypeDeclaration) : Prop where
  type_base : c.type? "Base" = some base
  type_mixin : c.type? "Mixin" = some mixin
  type_heir : c.type? "U" = some heir
  order_base : c.searchWithin 4 [] ["Base"] = some [base]
  order_mixin : c.searchWithin 4 [] ["Mixin"] = some [mixin, base]
  order_heir : c.searchWithin 4 [] ["U"] = some order

theorem hasBoth_writtenFirst :
    writtenFirst.HasBoth (heirOfBoth "Base" "Mixin") [heirOfBoth "Base" "Mixin", base, mixin] := by
  constructor <;> decide +kernel

theorem hasBoth_specificFirst :
    specificFirst.HasBoth (heirOfBoth "Mixin" "Base") [heirOfBoth "Mixin" "Base", mixin, base] := by
  constructor <;> decide +kernel

namespace HasBoth

variable {heir : TypeDeclaration} {order : List TypeDeclaration} (h : c.HasBoth heir order)
include h

theorem lookupOrder_heir : c.lookupOrder "U" = order := searchFrom_of_searchWithin h.order_heir

theorem lookupOrder_base : c.lookupOrder "Base" = [base] :=
  searchFrom_of_searchWithin h.order_base

theorem lookupOrder_mixin : c.lookupOrder "Mixin" = [mixin, base] :=
  searchFrom_of_searchWithin h.order_mixin

theorem inherits_mixin : c.Inherits "Mixin" "Base" := by
  rw [inherits_of_ancestors (ancestors_eq_ok h.type_mixin), h.lookupOrder_mixin]
  exact List.mem_singleton_self _

theorem not_inherits_base : ¬c.Inherits "Base" goal := by
  rw [inherits_of_ancestors (ancestors_eq_ok h.type_base), h.lookupOrder_base]
  exact List.not_mem_nil

theorem chain_subset (hd : d ∈ [mixin, base]) : c.chain [] d.name ⊆ [mixin, base] := by
  intro e he
  have found := chain_subset_lookupOrder he
  rcases List.mem_pair.1 hd with rfl | rfl
  · exact h.lookupOrder_mixin ▸ found
  · exact List.mem_cons_of_mem _ (h.lookupOrder_base ▸ found)

end HasBoth

/-- The interfaces have no capabilities. -/
theorem searchedCapabilities_of_mem (hd : d ∈ [mixin, base]) : c.searchedCapabilities d = [] := by
  have none : d.capabilities = [] := by
    rcases List.mem_pair.1 hd with rfl | rfl <;> rfl
  rw [searchedCapabilities, none, ite_self]

/-- In the second catalog every type lists what is more specific first. -/
theorem listsSpecificFirst_specificFirst : specificFirst.ListsSpecificFirst "U" "m" := by
  have h := hasBoth_specificFirst
  constructor
  · intro x o again heir hheir above capability hcapability
    rw [h.lookupOrder_heir] at hheir
    rcases List.mem_cons.1 hheir with rfl | hheir
    · exact absurd above again.outside
    · rw [searchedCapabilities_of_mem hheir] at hcapability
      cases hcapability
  · intro x o again heir hheir first second pair follows leads
    rw [h.lookupOrder_heir] at hheir
    rcases List.mem_cons.1 hheir with rfl | hheir
    · have listed : (specificFirst.chain [] "U").flatMap specificFirst.searchedCapabilities =
          ["Mixin", "Base"] := by
        rw [chain_of_root h.type_heir rfl]
        decide +kernel
      have same : [first, second] = ["Mixin", "Base"] :=
        (listed ▸ pair : [first, second].Sublist ["Mixin", "Base"]).eq_of_length rfl
      cases same
      -- the second capability leads to the interface without ancestors only
      have hx : x.name = "Base" := by
        rcases isSubtype_iff.1 follows with same | found
        · exact same.symm
        · rw [searched, h.lookupOrder_base] at found
          exact List.mem_singleton.1 found
      exact h.not_inherits_base (hx ▸ again.inherits)
    · have none : (specificFirst.chain [] heir.name).flatMap specificFirst.searchedCapabilities =
          [] :=
        List.flatMap_eq_nil_iff.2 fun d hd =>
          searchedCapabilities_of_mem (h.chain_subset hheir hd)
      rw [none] at pair
      cases pair

/-- With the less specific interface first the class has its number. -/
theorem memberNamed_writtenFirst :
    writtenFirst.memberNamed "U" "m" =
      .ok ⟨base, ⟨"m", .property (.primitive .number) false false, none, []⟩⟩ := by
  refine memberNamed_eq_ok hasBoth_writtenFirst.type_heir ?_
  rw [hasBoth_writtenFirst.lookupOrder_heir]
  decide +kernel

theorem redeclares_writtenFirst : writtenFirst.Redeclares "U" "m" mixin base where
  declared := hasBoth_writtenFirst.type_mixin
  specific := rfl
  general := rfl
  inherits := hasBoth_writtenFirst.inherits_mixin
  apart := hasBoth_writtenFirst.not_inherits_base
  outside := by
    rw [chain_of_root hasBoth_writtenFirst.type_heir rfl]
    decide

theorem not_seesMostSpecific_writtenFirst : ¬writtenFirst.SeesMostSpecific "U" "m" := by
  have again := redeclares_writtenFirst
  refine fun sees => again.apart (sees _ memberNamed_writtenFirst again.outside mixin ?_
    again.specific again.inherits)
  rw [hasBoth_writtenFirst.lookupOrder_heir]
  exact List.mem_of_getLast? rfl

/-- Of two classes that differ in the order of their capabilities, one sees the most specific
number. In the other one the less specific interface is searched ahead. -/
theorem seesMostSpecific_iff_both :
    specificFirst.SeesMostSpecific "U" "m" ∧
      ∃ before o x, before ++ [o] <+: writtenFirst.lookupOrder "U" ∧
        writtenFirst.Redeclares "U" "m" x o ∧ writtenFirst.SearchedAhead before o.name x.name := by
  have keyed {ts : List TypeDeclaration} : IsKeyed (ofDeclarations ts []).types :=
    (IsBuilt.ofDeclarations _ _).isKeyed
  refine ⟨(seesMostSpecific_iff keyed "U" "m").2 listsSpecificFirst_specificFirst, ?_⟩
  by_contra never
  refine not_seesMostSpecific_writtenFirst ((seesMostSpecific_iff keyed "U" "m").1.2 ?_)
  exact fun before o x upto _ again ahead => never ⟨before, o, x, upto, again, ahead⟩

/-- A catalog without problems in which a class sees the number of the less specific interface,
because that one is written first. -/
theorem not_seesMostSpecific_of_clean :
    writtenFirst.problems false = [] ∧ ¬writtenFirst.SeesMostSpecific "U" "m" :=
  ⟨problems_ofDeclarations_eq_nil (by decide) 5 (by decide +kernel),
    not_seesMostSpecific_writtenFirst⟩

end ApiCatalog.Catalog
