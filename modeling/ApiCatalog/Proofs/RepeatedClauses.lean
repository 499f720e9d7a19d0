import Mathlib.Data.List.Nodup
import ApiCatalog.Declaration.OfForm

/-!
# Clauses that are repeated

The analysis of a declaration refuses a clause whose key it has met before. The clauses of a member
and the entries of the map of a deprecation are taken one after the other without that check: each
sets one part of what is put together, whatever has been set before. So of those with the same key
the last one counts, and nothing is left of the others, although each of them must be one that is
accepted by itself.

Main definitions: `Form.clauseRow?`, `Form.keys`, `Form.withoutOverwritten`.
Main statement: `Form.keys_nodup_or_overwritten`.
-/

namespace ApiCatalog

/-! ### Updates that replace one another -/

section Updates

variable {σ β κ : Type} [DecidableEq κ]

/-- The last entry of each key, in order. -/
def lastOfEachKey (key : β → κ) : List β → List β
  | [] => []
  | b :: bs =>
    if key b ∈ bs.map key then lastOfEachKey key bs else b :: lastOfEachKey key bs

/-- The entries whose key comes again behind them. -/
def overwritten (key : β → κ) : List β → List β
  | [] => []
  | b :: bs =>
    if key b ∈ bs.map key then b :: overwritten key bs else overwritten key bs

theorem lastOfEachKey_subset (key : β → κ) (bs : List β) : lastOfEachKey key bs ⊆ bs := by
  induction bs with
  | nil => exact List.Subset.refl _
  | cons b bs ih =>
    rw [lastOfEachKey]
    split
    · exact List.subset_cons_of_subset b ih
    · exact List.cons_subset_cons b ih

theorem overwritten_subset (key : β → κ) (bs : List β) : overwritten key bs ⊆ bs := by
  induction bs with
  | nil => exact List.Subset.refl _
  | cons b bs ih =>
    rw [overwritten]
    split
    · exact List.cons_subset_cons b ih
    · exact List.subset_cons_of_subset b ih

theorem nodup_lastOfEachKey (key : β → κ) (bs : List β) :
    ((lastOfEachKey key bs).map key).Nodup := by
  induction bs with
  | nil => exact .nil
  | cons b bs ih =>
    rw [lastOfEachKey]
    split
    · exact ih
    · rename_i last
      exact List.nodup_cons.2 ⟨fun h => last (List.map_subset key (lastOfEachKey_subset key bs) h), ih⟩

/-- The state after one more entry, which is read as a function of the state. -/
def update (read : β → Meaning (σ → σ)) (s : σ) (b : β) : Meaning σ := do .ok ((← read b) s)

/-- Whether each key has a part of the state to itself: what an entry sets is set anew by an entry
with the same key, and left alone by one with another. -/
structure Replaces (key : β → κ) (read : β → Meaning (σ → σ)) : Prop where
  same : ∀ {a b u v}, key a = key b → read a = .ok u → read b = .ok v → ∀ s, v (u s) = v s
  apart : ∀ {a b u v}, key a ≠ key b → read a = .ok u → read b = .ok v → ∀ s, v (u s) = u (v s)

variable {key : β → κ} {read : β → Meaning (σ → σ)}

theorem foldlM_update_cons (s : σ) (b : β) (bs : List β) :
    (b :: bs).foldlM (update read) s = read b >>= fun u => bs.foldlM (update read) (u s) := by
  rw [List.foldlM_cons, update]
  cases read b <;> rfl

/-- An entry whose key comes again leaves nothing behind. -/
theorem Replaces.foldlM_update_of_mem (h : Replaces key read) {b : β} {bs : List β} {u : σ → σ}
    (hu : read b = .ok u) (again : key b ∈ bs.map key) (s : σ) :
    bs.foldlM (update read) (u s) = bs.foldlM (update read) s := by
  induction bs generalizing s with
  | nil => cases again
  | cons c cs ih =>
    rw [foldlM_update_cons, foldlM_update_cons]
    cases hv : read c with
    | error fault => rfl
    | ok v =>
      rw [Meaning.ok_bind, Meaning.ok_bind]
      by_cases hkey : key b = key c
      · rw [h.same hkey hu hv]
      · rw [h.apart hkey hu hv]
        exact ih ((List.mem_cons.1 again).resolve_left hkey) (v s)

/-- Entries come to what the last of each key come to, provided that the others can be read. -/
theorem Replaces.foldlM_update_eq_ok_iff (h : Replaces key read) {bs : List β} {s t : σ} :
    bs.foldlM (update read) s = .ok t ↔
      (lastOfEachKey key bs).foldlM (update read) s = .ok t ∧
        ∀ b ∈ overwritten key bs, ∃ u, read b = .ok u := by
  induction bs generalizing s with
  | nil => simp [lastOfEachKey, overwritten]
  | cons b bs ih =>
    rw [lastOfEachKey, overwritten, foldlM_update_cons]
    split
    · rename_i again
      rw [List.forall_mem_cons, Meaning.bind_eq_ok]
      constructor
      · rintro ⟨u, hu, ht⟩
        rw [h.foldlM_update_of_mem hu again, ih] at ht
        exact ⟨ht.1, ⟨u, hu⟩, ht.2⟩
      · rintro ⟨ht, ⟨u, hu⟩, others⟩
        refine ⟨u, hu, ?_⟩
        rw [h.foldlM_update_of_mem hu again, ih]
        exact ⟨ht, others⟩
    · rw [foldlM_update_cons, Meaning.bind_eq_ok, Meaning.bind_eq_ok]
      simp only [ih]
      exact ⟨fun ⟨u, hu, ht, others⟩ => ⟨⟨u, hu, ht⟩, others⟩,
        fun ⟨⟨u, hu, ht⟩, others⟩ => ⟨u, hu, ht, others⟩⟩

end Updates

/-! ### Rows of clauses -/

/-- A key with its value; a flag has none. -/
structure Clause where
  key : Form
  value? : Option Form

namespace Clause

/-- The name of the key. -/
def name? (c : Clause) : Option String := c.key.keyword?

/-- The items that the clause is written as. -/
def items (c : Clause) : List Form := c.key :: c.value?.toList

@[simp] theorem items_flag (key : Form) : items ⟨key, none⟩ = [key] := rfl

@[simp] theorem items_value (key value : Form) : items ⟨key, some value⟩ = [key, value] := rfl

/-- Whether the key is a keyword, and one among `flags` if and only if there is no value. -/
def Fits (flags : List String) (c : Clause) : Prop :=
  ∃ name, c.key.keyword? = some name ∧ (c.value? = none ↔ name ∈ flags)

/-- The clauses that items are a row of. -/
def row? (flags : List String) : List Form → Option (List Clause)
  | [] => some []
  | key :: rest =>
    match key.keyword? with
    | none => none
    | some name =>
      if name ∈ flags then (row? flags rest).map (⟨key, none⟩ :: ·)
      else
        match rest with
        | [] => none
        | value :: rest => (row? flags rest).map (⟨key, some value⟩ :: ·)

theorem row?_flag {flags : List String} {key : Form} {name : String} (h : key.keyword? = some name)
    (flag : name ∈ flags) (rest : List Form) :
    row? flags (key :: rest) = (row? flags rest).map (⟨key, none⟩ :: ·) := by
  rw [row?.eq_def]
  simp only [h, if_pos flag]

theorem row?_value {flags : List String} {key : Form} {name : String} (h : key.keyword? = some name)
    (flag : name ∉ flags) (value : Form) (rest : List Form) :
    row? flags (key :: value :: rest) = (row? flags rest).map (⟨key, some value⟩ :: ·) := by
  rw [row?.eq_def]
  simp only [h, if_neg flag]

theorem row?_flatMap_items {flags : List String} {row : List Clause}
    (h : ∀ c ∈ row, c.Fits flags) : row? flags (row.flatMap items) = some row := by
  induction row with
  | nil => rfl
  | cons c row ih =>
    obtain ⟨⟨name, hname, hflag⟩, others⟩ := List.forall_mem_cons.1 h
    obtain ⟨key, value?⟩ := c
    cases value? with
    | none =>
      rw [List.flatMap_cons, items_flag, List.singleton_append, row?_flag hname (hflag.1 rfl),
        ih others]
      rfl
    | some value =>
      have flag : name ∉ flags := fun flag => nomatch hflag.2 flag
      rw [List.flatMap_cons, items_value, List.cons_append, List.singleton_append,
        row?_value hname flag, ih others]
      rfl

/-- The items of a row of clauses are those of the clauses in turn. -/
theorem flatMap_items_of_row? {flags : List String} {fs : List Form} {row : List Clause}
    (h : row? flags fs = some row) :
    row.flatMap items = fs ∧ ∀ c ∈ row, c.Fits flags := by
  fun_induction row? flags fs generalizing row with
  | case1 =>
    cases h
    exact ⟨rfl, List.forall_mem_nil _⟩
  | case2 => cases h
  | case3 key rest name hname flag ih =>
    obtain ⟨more, hmore, rfl⟩ := Option.map_eq_some_iff.1 h
    obtain ⟨rfl, fits⟩ := ih hmore
    exact ⟨rfl, List.forall_mem_cons.2 ⟨⟨name, hname, by simpa using flag⟩, fits⟩⟩
  | case4 => cases h
  | case5 key name hname flag value rest ih =>
    obtain ⟨more, hmore, rfl⟩ := Option.map_eq_some_iff.1 h
    obtain ⟨rfl, fits⟩ := ih hmore
    exact ⟨rfl, List.forall_mem_cons.2 ⟨⟨name, hname, by simpa using flag⟩, fits⟩⟩

end Clause

namespace Form

/-- The keywords that stand without a value among the items of the form. -/
def flags (f : Form) : List String :=
  if f.head? = some "property" then ["readonly", "const"] else []

/-- The number of items before the first clause: head and name, then the type of a property or
typedef, or the parameters of a method and its result, if no keyword stands there. -/
def leading (f : Form) : Nat :=
  match f.head?, f.list? with
  | some "property", _ => 3
  | some "typedef:", _ => 3
  | some "method", some (_ :: _ :: _ :: returns :: _) => if returns.isKeyword then 3 else 4
  | some "method", _ => 3
  | _, _ => 2

/-- The clauses of a declaration or member, or the entries of a map. -/
def clauseRow? (f : Form) : Option (List Clause) :=
  match f with
  | .seq .round items _ => Clause.row? f.flags (items.drop f.leading)
  | .seq .curly items _ => some ((pairs items).map fun e => ⟨e.1, some e.2⟩)
  | _ => none

/-- The keys of the form that have a value. -/
def keys (f : Form) : List String :=
  (f.clauseRow?.getD []).filterMap fun c => c.value?.bind fun _ => c.name?

/-- The form with other clauses. -/
def withClauses (f : Form) (row : List Clause) : Form :=
  match f with
  | .seq .round items s => .seq .round (items.take f.leading ++ row.flatMap Clause.items) s
  | .seq .curly _ s => .seq .curly (row.flatMap Clause.items) s
  | f => f

theorem head?_round (first : Form) (rest : List Form) (s : Span) :
    (seq .round (first :: rest) s).head? = first.symbol? := rfl

section Method

variable {first : Form} (h : first.symbol? = some "method") (name params : Form) (s : Span)
include h

theorem leading_method : (seq .round [first, name, params] s).leading = 3 := by
  simp [leading, head?_round, h, list?]

theorem leading_method_cons (next : Form) (rest : List Form) :
    (seq .round (first :: name :: params :: next :: rest) s).leading =
      if next.isKeyword then 3 else 4 := by
  simp [leading, head?_round, h, list?]

end Method

/-- The form without the clauses whose key is repeated behind them. -/
def withoutOverwritten (f : Form) : Form :=
  match f.clauseRow? with
  | none => f
  | some row => f.withClauses (lastOfEachKey Clause.name? row)

/-- The clauses whose key is repeated behind them. -/
def overwrittenClauses (f : Form) : List Clause :=
  overwritten Clause.name? (f.clauseRow?.getD [])

end Form

/-! ### What a clause sets -/

theorem Form.name_of_expectKeyword {f : Form} {name : String} (h : f.expectKeyword = .ok name) :
    f.keyword? = some name := by
  unfold expectKeyword at h
  split at h
  · cases h
    assumption
  · cases h

namespace Member

/-- The member as a property that is read only. -/
def setReadonly (m : Member) : Member :=
  match m.kind with
  | .property type _ isConstant => { m with kind := .property type true isConstant }
  | .method .. => m

/-- The member as a constant. -/
def setConstant (m : Member) : Member :=
  match m.kind with
  | .property type isReadonly _ => { m with kind := .property type isReadonly true }
  | .method .. => m

/-- The member as a method that changes the properties. -/
def setMutates (mutates : List String) (m : Member) : Member :=
  match m.kind with
  | .method params returns _ => { m with kind := .method params returns mutates }
  | .property .. => m

/-- What the clause of a key sets in a member. -/
inductive Sets : String → (Member → Member) → Prop
  | readonly : Sets "readonly" setReadonly
  | const : Sets "const" setConstant
  | mutates (mutates : List String) : Sets "mutates" (setMutates mutates)
  | deprecated (deprecated : Option Deprecation) :
    Sets "deprecated" fun m => { m with deprecated }
  | see (see : List String) : Sets "see" fun m => { m with see }

theorem Sets.same {name other : String} {u v : Member → Member} (hu : Sets name u)
    (hv : Sets other v) (h : name = other) (m : Member) : v (u m) = v m := by
  obtain ⟨_, _ | _, _, _⟩ := m <;> cases hu <;> cases hv <;>
    first
    | rfl
    | exact absurd h (by decide)

theorem Sets.apart {name other : String} {u v : Member → Member} (hu : Sets name u)
    (hv : Sets other v) (h : name ≠ other) (m : Member) : v (u m) = u (v m) := by
  obtain ⟨_, _ | _, _, _⟩ := m <;> cases hu <;> cases hv <;>
    first
    | rfl
    | exact absurd rfl h

/-- What a clause sets in a member that has the keys; `unknown` is the fault of another key. -/
def readClause (keys : List String) (unknown : String → FormFault) (c : Clause) :
    Meaning (Member → Member) := do
  let name ← c.key.expectKeyword
  if name ∉ keys then c.key.reject (unknown name)
  else
    match name, c.value? with
    | "readonly", none => .ok setReadonly
    | "const", none => .ok setConstant
    | "mutates", some value => do
      let mutates ← (← value.expectVector ":mutates").mapM mutatedName
      .ok (setMutates mutates)
    | "deprecated", some value => do
      let deprecated ← Deprecation.ofForm value
      .ok fun m => { m with deprecated }
    | "see", some value => do
      let see ← linksOfForm value
      .ok fun m => { m with see }
    | name, _ => c.key.reject (unknown name)

variable {keys : List String} {unknown : String → FormFault}

theorem sets_of_readClause {c : Clause} {u : Member → Member}
    (h : readClause keys unknown c = .ok u) : ∃ name, c.name? = some name ∧ Sets name u := by
  obtain ⟨name, hname, h⟩ := Meaning.bind_eq_ok.1 h
  refine ⟨name, Form.name_of_expectKeyword hname, ?_⟩
  split at h
  · cases h
  · split at h
    · cases h
      exact .readonly
    · cases h
      exact .const
    · obtain ⟨_, _, h⟩ := Meaning.bind_eq_ok.1 h
      obtain ⟨mutates, _, h⟩ := Meaning.bind_eq_ok.1 h
      cases h
      exact .mutates mutates
    · obtain ⟨deprecated, _, h⟩ := Meaning.bind_eq_ok.1 h
      cases h
      exact .deprecated deprecated
    · obtain ⟨see, _, h⟩ := Meaning.bind_eq_ok.1 h
      cases h
      exact .see see
    · cases h

/-- Each key of a member sets a part of its own. -/
theorem replaces_readClause : Replaces Clause.name? (readClause keys unknown) where
  same hkey hu hv := by
    obtain ⟨name, hname, hu⟩ := sets_of_readClause hu
    obtain ⟨other, hother, hv⟩ := sets_of_readClause hv
    exact hu.same hv (Option.some.inj (hname.symm.trans (hkey.trans hother)))
  apart hkey hu hv := by
    obtain ⟨name, hname, hu⟩ := sets_of_readClause hu
    obtain ⟨other, hother, hv⟩ := sets_of_readClause hv
    exact hu.apart hv fun same => hkey (hname.trans (same ▸ hother.symm))

/-- What a clause sets in a property. -/
def readPropertyClause : Clause → Meaning (Member → Member) :=
  readClause ["readonly", "const", "deprecated", "see"] .unknownPropertyFlag

/-- What a clause sets in a method. -/
def readMethodClause : Clause → Meaning (Member → Member) :=
  readClause ["mutates", "deprecated", "see"] .unknownMethodClause

theorem expectKeyword_of_name? {c : Clause} {name : String} (h : c.name? = some name) :
    c.key.expectKeyword = .ok name := by
  unfold Form.expectKeyword
  rw [show c.key.keyword? = some name from h]

theorem addPropertyClauses_flatMap_items {s : Span} {type : TypeExpr} {row : List Clause}
    (h : ∀ c ∈ row, c.Fits ["readonly", "const"]) (isReadonly isConstant : Bool) (m : Member) :
    addPropertyClauses s type isReadonly isConstant m (row.flatMap Clause.items) =
      row.foldlM (update readPropertyClause) { m with kind := .property type isReadonly isConstant } := by
  induction row generalizing isReadonly isConstant m with
  | nil => rfl
  | cons c row ih =>
    obtain ⟨⟨name, hname, hflag⟩, others⟩ := List.forall_mem_cons.1 h
    have hkey := expectKeyword_of_name? hname
    obtain ⟨key, value?⟩ := c
    rw [foldlM_update_cons, List.flatMap_cons]
    cases value? with
    | none =>
      have flag : name = "readonly" ∨ name = "const" := by simpa using hflag.1 rfl
      rw [Clause.items_flag, List.singleton_append, addPropertyClauses, hkey, Meaning.ok_bind]
      rcases flag with rfl | rfl
      · rw [if_pos rfl, ih others]
        simp [readPropertyClause, readClause, hkey, setReadonly]
      · rw [if_neg (by decide), if_pos rfl, ih others]
        simp [readPropertyClause, readClause, hkey, setConstant]
    | some value =>
      have flag : name ≠ "readonly" ∧ name ≠ "const" := by simpa using hflag.not.1 nofun
      rw [Clause.items_value, List.cons_append, List.singleton_append, addPropertyClauses, hkey,
        Meaning.ok_bind, if_neg flag.1, if_neg flag.2]
      by_cases deprecated : name = "deprecated"
      · subst deprecated
        simp [readPropertyClause, readClause, hkey, annotate, ih others]
      · by_cases see : name = "see"
        · subst see
          simp [readPropertyClause, readClause, hkey, annotate, ih others]
        · simp [readPropertyClause, readClause, hkey, flag, deprecated, see, Form.reject]

theorem addMethodClauses_flatMap_items {s : Span} {params : List Parameter} {returns : TypeExpr}
    {row : List Clause} (h : ∀ c ∈ row, c.Fits []) (mutates : List String) (m : Member) :
    addMethodClauses s params returns mutates m (row.flatMap Clause.items) =
      row.foldlM (update readMethodClause) { m with kind := .method params returns mutates } := by
  induction row generalizing mutates m with
  | nil => rfl
  | cons c row ih =>
    obtain ⟨⟨name, hname, hflag⟩, others⟩ := List.forall_mem_cons.1 h
    have hkey := expectKeyword_of_name? hname
    obtain ⟨key, value?⟩ := c
    rw [foldlM_update_cons, List.flatMap_cons]
    cases value? with
    | none => exact absurd (hflag.1 rfl) List.not_mem_nil
    | some value =>
      rw [Clause.items_value, List.cons_append, List.singleton_append, addMethodClauses, hkey,
        Meaning.ok_bind]
      by_cases changes : name = "mutates"
      · subst changes
        simp [readMethodClause, readClause, hkey, setMutates, ih others]
      · by_cases deprecated : name = "deprecated"
        · subst deprecated
          simp [readMethodClause, readClause, hkey, annotate, ih others]
        · by_cases see : name = "see"
          · subst see
            simp [readMethodClause, readClause, hkey, annotate, ih others]
          · simp [readMethodClause, readClause, hkey, changes, deprecated, see, Form.reject]

variable {head name params type : Form} {s : Span} {row : List Clause}

/-- The clauses of a property are taken in turn, behind its name and type. -/
theorem ofForm_property (hhead : head.symbol? = some "property")
    (h : ∀ c ∈ row, c.Fits ["readonly", "const"]) :
    ofForm (.seq .round (head :: name :: type :: row.flatMap Clause.items) s) =
      ofForm (.seq .round [head, name, type] s) >>= row.foldlM (update readPropertyClause) := by
  have items (rest : List Form) : (Form.seq .round (head :: rest) s).head? = some "property" := hhead
  simp only [ofForm, items, propertyOfForm, Form.expectHead, beq_self_eq_true, if_true,
    Meaning.ok_bind, Form.takeMemberName]
  split
  · split
    · simp only [Meaning.ok_bind]
      cases TypeExpr.ofForm type with
      | error fault => rfl
      | ok t => exact addPropertyClauses_flatMap_items h false false _
    · rfl
  · rfl

theorem isKeyword_of_fits {flags : List String} {c : Clause} (h : c.Fits flags) :
    c.key.isKeyword = true := by
  obtain ⟨name, hname, -⟩ := h
  rw [Form.isKeyword, hname]
  rfl

/-- The clauses of a method are taken in turn, behind its name and parameters. -/
theorem ofForm_method (hhead : head.symbol? = some "method") (h : ∀ c ∈ row, c.Fits []) :
    ofForm (.seq .round (head :: name :: params :: row.flatMap Clause.items) s) =
      ofForm (.seq .round [head, name, params] s) >>= row.foldlM (update readMethodClause) := by
  have items (rest : List Form) : (Form.seq .round (head :: rest) s).head? = some "method" := hhead
  simp only [ofForm, items, methodOfForm, Form.expectHead, beq_self_eq_true, if_true,
    Meaning.ok_bind, Form.takeMemberName]
  split
  · split
    · simp only [Meaning.ok_bind]
      cases Parameter.listOfForm params with
      | error fault => rfl
      | ok ps =>
        cases row with
        | nil => rfl
        | cons c row =>
          have key := isKeyword_of_fits (h c List.mem_cons_self)
          simp only [List.flatMap_cons, Clause.items, List.cons_append, key, if_true,
            Meaning.ok_bind]
          exact addMethodClauses_flatMap_items h [] _
    · rfl
  · rfl

/-- The clauses of a method are taken in turn, behind its name, parameters and result. -/
theorem ofForm_method_returns {returns : Form} (hhead : head.symbol? = some "method")
    (hreturns : returns.isKeyword = false) (h : ∀ c ∈ row, c.Fits []) :
    ofForm (.seq .round (head :: name :: params :: returns :: row.flatMap Clause.items) s) =
      ofForm (.seq .round [head, name, params, returns] s) >>=
        row.foldlM (update readMethodClause) := by
  have items (rest : List Form) : (Form.seq .round (head :: rest) s).head? = some "method" := hhead
  simp only [ofForm, items, methodOfForm, Form.expectHead, beq_self_eq_true, if_true,
    Meaning.ok_bind, Form.takeMemberName]
  split
  · split
    · simp only [Meaning.ok_bind, hreturns]
      cases Parameter.listOfForm params with
      | error fault => rfl
      | ok ps =>
        cases ht : TypeExpr.ofForm returns with
        | error fault => rfl
        | ok t => exact addMethodClauses_flatMap_items h [] _
    · rfl
  · rfl

end Member

/-! ### Deprecations -/

namespace Deprecation

/-- What an entry sets in a deprecation. -/
inductive Sets : String → (Deprecation → Deprecation) → Prop
  | replacement (r : Reference) : Sets "replacement" fun d => { d with replacement := some r }
  | note (note : String) : Sets "note" fun d => { d with note := some note }

/-- What an entry of a map sets in a deprecation. -/
def readEntry (c : Clause) : Meaning (Option Deprecation → Option Deprecation) :=
  match c.name?, c.value? with
  | some "replacement", some value => do
    let r ← Reference.ofForm value
    .ok (Option.map fun d => { d with replacement := some r })
  | some "note", some value =>
    match value.string? with
    | some note => .ok (Option.map fun d => { d with note := some note })
    | none => value.reject .noteNotString
  | _, _ => c.key.reject .unknownDeprecationKey

theorem sets_of_readEntry {c : Clause} {u : Option Deprecation → Option Deprecation}
    (h : readEntry c = .ok u) : ∃ name v, c.name? = some name ∧ Sets name v ∧ u = Option.map v := by
  unfold readEntry at h
  split at h
  · rename_i hname _
    obtain ⟨r, _, h⟩ := Meaning.bind_eq_ok.1 h
    cases h
    exact ⟨_, _, hname, .replacement r, rfl⟩
  · rename_i hname _
    split at h
    · cases h
      exact ⟨_, _, hname, .note _, rfl⟩
    · cases h
  · cases h

theorem replaces_readEntry : Replaces Clause.name? readEntry where
  same hkey hu hv := by
    obtain ⟨name, _, hname, first, rfl⟩ := sets_of_readEntry hu
    obtain ⟨other, _, hother, second, rfl⟩ := sets_of_readEntry hv
    have same := Option.some.inj (hname.symm.trans (hkey.trans hother))
    rintro (_ | _)
    · rfl
    · cases first <;> cases second <;>
        first
        | rfl
        | exact absurd same (by decide)
  apart hkey hu hv := by
    obtain ⟨name, _, hname, first, rfl⟩ := sets_of_readEntry hu
    obtain ⟨other, _, hother, second, rfl⟩ := sets_of_readEntry hv
    rintro (_ | _)
    · rfl
    · cases first <;> cases second <;>
        first
        | rfl
        | exact absurd (hname.trans hother.symm) hkey

theorem update_readEntry (e : Form × Form) (d : Deprecation) :
    update readEntry (some d) ⟨e.1, some e.2⟩ = d.addEntry e >>= fun d => .ok (some d) := by
  unfold update readEntry addEntry Clause.name?
  split
  · rename_i hkey hvalue
    cases hvalue
    simp only [hkey]
    cases Reference.ofForm e.2 <;> rfl
  · rename_i hkey hvalue
    cases hvalue
    simp only [hkey]
    cases e.2.string? <;> rfl
  · rename_i noReplacement noNote
    split
    · rename_i hkey
      exact (noReplacement e.2 hkey rfl).elim
    · rename_i hkey
      exact (noNote e.2 hkey rfl).elim
    · rfl

theorem foldlM_addEntry (entries : List (Form × Form)) (d : Deprecation) :
    (entries.foldlM addEntry d >>= fun d => .ok (some d)) =
      (entries.map fun e => (⟨e.1, some e.2⟩ : Clause)).foldlM (update readEntry) (some d) := by
  induction entries generalizing d with
  | nil => rfl
  | cons e es ih =>
    rw [List.map_cons, List.foldlM_cons, List.foldlM_cons, update_readEntry]
    cases d.addEntry e with
    | error fault => rfl
    | ok d' => exact ih d'

end Deprecation

/-! ### Forms with repeated keys -/

/-- Whether the form is given a meaning by taking its clauses in turn, each setting a part of its
own. -/
structure Form.TakesInTurn {α : Type} (ofForm : Form → Meaning α) (f : Form)
    (row : List Clause) : Prop where
  whole : ofForm (f.withClauses row) = ofForm f
  exists_read : ∃ read : Clause → Meaning (α → α), Replaces Clause.name? read ∧ ∀ part ⊆ row,
    ofForm (f.withClauses part) = ofForm (f.withClauses []) >>= part.foldlM (update read)

theorem Form.TakesInTurn.eq_ok_iff {α : Type} {ofForm : Form → Meaning α} {f : Form}
    {row : List Clause} (h : f.TakesInTurn ofForm row) {a : α} :
    ofForm f = .ok a ↔
      ofForm (f.withClauses (lastOfEachKey Clause.name? row)) = .ok a ∧
        ∀ c ∈ overwritten Clause.name? row, ∃ b, ofForm (f.withClauses [c]) = .ok b := by
  obtain ⟨whole, read, replaces, turn⟩ := h
  have alone : ∀ c ∈ overwritten Clause.name? row, ∀ b, ofForm (f.withClauses []) = .ok b →
      ((∃ b, ofForm (f.withClauses [c]) = .ok b) ↔ ∃ u, read c = .ok u) := by
    intro c hc b hb
    have part : [c] ⊆ row := List.cons_subset.2 ⟨overwritten_subset _ _ hc, List.nil_subset _⟩
    rw [turn _ part, hb, Meaning.ok_bind, foldlM_update_cons]
    cases read c with
    | error fault => simp
    | ok u => exact ⟨fun _ => ⟨u, rfl⟩, fun _ => ⟨u b, rfl⟩⟩
  rw [← whole, turn row (List.Subset.refl _), turn _ (lastOfEachKey_subset _ _)]
  cases hb : ofForm (f.withClauses []) with
  | error fault => simp
  | ok b =>
    rw [Meaning.ok_bind, Meaning.ok_bind, replaces.foldlM_update_eq_ok_iff]
    exact and_congr_right fun _ => forall₂_congr fun c hc => (alone c hc b hb).symm

theorem Form.takesInTurn_nil {α : Type} {ofForm : Form → Meaning α} {f : Form}
    (whole : ofForm (f.withClauses []) = ofForm f) {read : Clause → Meaning (α → α)}
    (h : Replaces Clause.name? read) : f.TakesInTurn ofForm [] where
  whole := whole
  exists_read := by
    refine ⟨read, h, fun part hpart => ?_⟩
    rw [List.subset_nil.1 hpart]
    cases ofForm (f.withClauses []) <;> rfl

/-- Clauses with values are paired again. -/
theorem map_pairs_flatMap_items {row : List Clause} (h : ∀ c ∈ row, c.value? ≠ none) :
    (pairs (row.flatMap Clause.items)).map (fun e => (⟨e.1, some e.2⟩ : Clause)) = row := by
  induction row with
  | nil => rfl
  | cons c row ih =>
    obtain ⟨hc, others⟩ := List.forall_mem_cons.1 h
    obtain ⟨key, _ | value⟩ := c
    · exact absurd rfl hc
    · rw [List.flatMap_cons, Clause.items_value, List.cons_append, List.singleton_append, pairs,
        List.map_cons, ih others]

theorem Deprecation.ofForm_map (items : List Form) (s : Span) :
    ofForm (.seq .curly items s) =
      ((pairs items).map fun e => (⟨e.1, some e.2⟩ : Clause)).foldlM (update readEntry) (some {}) :=
  foldlM_addEntry (pairs items) {}

theorem Deprecation.takesInTurn {items : List Form} {s : Span} {row : List Clause}
    (h : (Form.seq .curly items s).clauseRow? = some row) :
    (Form.seq .curly items s).TakesInTurn ofForm row := by
  have values : ∀ c ∈ row, c.value? ≠ none := by
    cases h
    intro c hc
    obtain ⟨e, -, rfl⟩ := List.mem_map.1 hc
    exact Option.some_ne_none e.2
  have turn (part : List Clause) (hpart : part ⊆ row) :
      ofForm ((Form.seq .curly items s).withClauses part) =
        part.foldlM (update readEntry) (some {}) := by
    rw [Form.withClauses, ofForm_map, map_pairs_flatMap_items fun c hc => values c (hpart hc)]
  refine ⟨?_, readEntry, replaces_readEntry, fun part hpart => ?_⟩
  · rw [turn row (List.Subset.refl _), ofForm_map]
    cases h
    rfl
  · rw [turn part hpart]
    rfl

theorem Clause.flatMap_items_ne_nil {row : List Clause} (h : row ≠ []) :
    row.flatMap items ≠ [] := by
  obtain ⟨c, more, rfl⟩ := List.exists_cons_of_ne_nil h
  exact List.cons_ne_nil _ _

theorem Form.withClauses_clauseRow? {items : List Form} {s : Span} {row : List Clause}
    (h : (Form.seq .round items s).clauseRow? = some row) :
    (Form.seq .round items s).withClauses row = .seq .round items s := by
  rw [withClauses, (Clause.flatMap_items_of_row? h).1, List.take_append_drop]

theorem Member.takesInTurn_property {items : List Form} {s : Span} {row : List Clause}
    (h : (Form.seq .round items s).clauseRow? = some row) (nonempty : row ≠ [])
    (head : (Form.seq .round items s).head? = some "property") :
    (Form.seq .round items s).TakesInTurn ofForm row := by
  have leading : (Form.seq .round items s).leading = 3 := by
    simp [Form.leading, head]
  have flags : (Form.seq .round items s).flags = ["readonly", "const"] := if_pos head
  obtain ⟨cut, fits⟩ := Clause.flatMap_items_of_row? h
  have rest := Clause.flatMap_items_ne_nil nonempty
  rw [cut, leading] at rest
  rw [flags] at fits
  refine ⟨by rw [Form.withClauses_clauseRow? h], readPropertyClause, replaces_readClause,
    fun part hpart => ?_⟩
  obtain _ | ⟨first, _ | ⟨name, _ | ⟨type, clauses⟩⟩⟩ := items
  · exact absurd rfl rest
  · exact absurd rfl rest
  · exact absurd rfl rest
  · rw [Form.withClauses, Form.withClauses, leading]
    exact ofForm_property head fun c hc => fits c (hpart hc)

theorem Member.takesInTurn_method {items : List Form} {s : Span} {row : List Clause}
    (h : (Form.seq .round items s).clauseRow? = some row) (nonempty : row ≠ [])
    (head : (Form.seq .round items s).head? = some "method") :
    (Form.seq .round items s).TakesInTurn ofForm row := by
  have flags : (Form.seq .round items s).flags = [] := by simp [Form.flags, head]
  obtain ⟨cut, fits⟩ := Clause.flatMap_items_of_row? h
  have rest := Clause.flatMap_items_ne_nil nonempty
  rw [cut] at rest
  rw [flags] at fits
  refine ⟨by rw [Form.withClauses_clauseRow? h], readMethodClause, replaces_readClause,
    fun part hpart => ?_⟩
  have fits' : ∀ c ∈ part, c.Fits [] := fun c hc => fits c (hpart hc)
  obtain _ | ⟨first, _ | ⟨name, _ | ⟨params, _ | ⟨returns, clauses⟩⟩⟩⟩ := items
  · exact absurd (List.drop_nil) rest
  · simp [Form.leading, head, Form.list?] at rest
  · simp [Form.leading, head, Form.list?] at rest
  · simp [Form.leading, head, Form.list?] at rest
  · have leading := Form.leading_method_cons head name params s returns clauses
    cases keyword : returns.isKeyword with
    | true =>
      rw [keyword, if_pos rfl] at leading
      rw [Form.withClauses, Form.withClauses, leading]
      exact ofForm_method head fits'
    | false =>
      rw [keyword, if_neg Bool.false_ne_true] at leading
      rw [Form.withClauses, Form.withClauses, leading]
      exact ofForm_method_returns head keyword fits'

/-- Members take their clauses in turn. -/
theorem Member.takesInTurn {items : List Form} {s : Span} {row : List Clause}
    (h : (Form.seq .round items s).clauseRow? = some row)
    (head : (Form.seq .round items s).head? = some "property" ∨
      (Form.seq .round items s).head? = some "method") :
    (Form.seq .round items s).TakesInTurn ofForm row := by
  by_cases none : row = []
  · subst none
    have replaces : Replaces Clause.name? readMethodClause := replaces_readClause
    exact Form.takesInTurn_nil (by rw [Form.withClauses_clauseRow? h]) replaces
  · exact head.elim (takesInTurn_property h none) (takesInTurn_method h none)

/-! ### A form without its overwritten clauses repeats no key -/

namespace Form

theorem head?_withClauses {items : List Form} {s : Span} (some : items ≠ []) (part : List Clause) :
    ((seq .round items s).withClauses part).head? = (seq .round items s).head? := by
  obtain ⟨first, rest, rfl⟩ := List.exists_cons_of_ne_nil some
  have two : ∃ n, (seq .round (first :: rest) s).leading = n + 1 := by
    unfold leading
    split
    · exact ⟨2, rfl⟩
    · exact ⟨2, rfl⟩
    · split
      · exact ⟨2, rfl⟩
      · exact ⟨3, rfl⟩
    · exact ⟨2, rfl⟩
    · exact ⟨1, rfl⟩
  obtain ⟨n, hn⟩ := two
  rw [withClauses, hn]
  rfl

theorem leading_eq_of_head?_eq {f g : Form} (h : g.head? = f.head?) (other : f.head? ≠ some "method") :
    g.leading = f.leading := by
  unfold leading
  rw [h]
  split <;> simp_all

theorem leading_withClauses {items : List Form} {s : Span} {row part : List Clause}
    (h : (seq .round items s).clauseRow? = some row) (hpart : part ⊆ row) :
    ((seq .round items s).withClauses part).leading = (seq .round items s).leading := by
  by_cases none : row = []
  · subst none
    rw [List.subset_nil.1 hpart, withClauses_clauseRow? h]
  obtain ⟨cut, fits⟩ := Clause.flatMap_items_of_row? h
  have rest := Clause.flatMap_items_ne_nil none
  rw [cut] at rest
  have some : items ≠ [] := fun empty => rest (by rw [empty, List.drop_nil])
  have head? := head?_withClauses (s := s) some part
  by_cases method : (seq .round items s).head? = Option.some "method"
  · obtain _ | ⟨first, _ | ⟨name, _ | ⟨params, _ | ⟨returns, clauses⟩⟩⟩⟩ := items
    · exact absurd rfl some
    · simp [leading, method, list?] at rest
    · simp [leading, method, list?] at rest
    · simp [leading, method, list?] at rest
    · have cons := leading_method_cons method name params s
      rw [withClauses, cons returns clauses]
      cases keyword : returns.isKeyword with
      | true =>
        cases part with
        | nil => exact leading_method method name params s
        | cons c part =>
          have key := Member.isKeyword_of_fits (fits c (hpart List.mem_cons_self))
          exact (cons c.key _).trans (if_pos key)
      | false => exact (cons returns _).trans (by rw [keyword])
  · exact leading_eq_of_head?_eq head? method

theorem clauseRow?_withClauses {f : Form} {row part : List Clause} (h : f.clauseRow? = some row)
    (hpart : part ⊆ row) : (f.withClauses part).clauseRow? = some part := by
  rcases f with _ | ⟨_ | _ | _, items, s⟩
  · cases h
  · obtain ⟨cut, fits⟩ := Clause.flatMap_items_of_row? h
    by_cases none : row = []
    · subst none
      rwa [List.subset_nil.1 hpart, withClauses_clauseRow? h]
    have rest := Clause.flatMap_items_ne_nil none
    rw [cut] at rest
    have some : items ≠ [] := fun empty => rest (by rw [empty, List.drop_nil])
    have flags : ((seq .round items s).withClauses part).flags = (seq .round items s).flags := by
      rw [Form.flags, Form.flags, head?_withClauses some]
    have leading := leading_withClauses h hpart
    have long : (seq .round items s).leading ≤ items.length :=
      Nat.le_of_lt (Nat.lt_of_not_le fun short => rest (List.drop_eq_nil_of_le short))
    show Clause.row? ((seq .round items s).withClauses part).flags
      (List.drop ((seq .round items s).withClauses part).leading
        (items.take (seq .round items s).leading ++ part.flatMap Clause.items)) = _
    rw [flags, leading, List.drop_left' (by rw [List.length_take, Nat.min_eq_left long])]
    exact Clause.row?_flatMap_items fun c hc => fits c (hpart hc)
  · cases h
  · cases h
    refine congrArg some (map_pairs_flatMap_items fun c hc => ?_)
    obtain ⟨e, -, rfl⟩ := List.mem_map.1 (hpart hc)
    exact Option.some_ne_none e.2

theorem keys_nodup_of_clauseRow? {f : Form} {row : List Clause} (h : f.clauseRow? = some row)
    (distinct : (row.map Clause.name?).Nodup) : f.keys.Nodup := by
  rw [keys, h, Option.getD_some, List.Nodup, List.pairwise_filterMap]
  refine (List.pairwise_map.1 distinct).imp fun {c d} apart n hn m hm => ?_
  obtain ⟨_, _, hn⟩ := Option.bind_eq_some_iff.1 hn
  obtain ⟨_, _, hm⟩ := Option.bind_eq_some_iff.1 hm
  rintro rfl
  exact apart (hn.trans hm.symm)

end Form

/-! ### Declarations have no clause twice -/

theorem Form.exists_of_expectHead {f : Form} {head : String} {items : List Form}
    (h : f.expectHead head = .ok items) :
    ∃ s, f = .seq .round items s ∧ f.head? = some head := by
  rcases f with _ | ⟨_ | _ | _, items, s⟩ <;> try cases h
  simp only [expectHead] at h
  split at h
  · rename_i same
    cases h
    exact ⟨s, rfl, by simpa using same⟩
  · simp at h

/-- Clauses are a row in which no name comes twice. -/
theorem Form.row?_of_clauses {s : Span} {seen : List String} {items : List Form}
    {cs : List (String × Form)} (h : clauses s seen items = .ok cs) :
    ∃ row, Clause.row? [] items = some row ∧ row.map Clause.name? = cs.map (some ·.1) ∧
      (cs.map (·.1)).Nodup ∧ ∀ n ∈ cs.map (·.1), n ∉ seen := by
  fun_induction clauses s seen items generalizing cs with
  | case1 =>
    cases h
    exact ⟨[], rfl, rfl, .nil, List.forall_mem_nil _⟩
  | case2 seen key =>
    obtain ⟨_, _, h⟩ := Meaning.bind_eq_ok.1 h
    cases h
  | case3 seen key value rest ih =>
    obtain ⟨name, hname, h⟩ := Meaning.bind_eq_ok.1 h
    split at h
    · simp at h
    · rename_i new
      obtain ⟨more, hmore, h⟩ := Meaning.bind_eq_ok.1 h
      cases h
      obtain ⟨row, hrow, names, distinct, apart⟩ := ih name hmore
      have hkey := name_of_expectKeyword hname
      refine ⟨⟨key, some value⟩ :: row, ?_, ?_, ?_, ?_⟩
      · rw [Clause.row?_value hkey List.not_mem_nil, hrow]
        rfl
      · rw [List.map_cons, names]
        exact congrArg (· :: _) hkey
      · exact List.nodup_cons.2 ⟨fun h => apart _ h List.mem_cons_self, distinct⟩
      · exact List.forall_mem_cons.2 ⟨by simpa using new,
          fun n hn h => apart n hn (List.mem_cons_of_mem _ h)⟩

theorem Form.keys_nodup_of_clauses {f : Form} {items rest : List Form} {s s' : Span}
    {cs : List (String × Form)} (hf : f = .seq .round items s)
    (flags : f.head? ≠ some "property") (behind : items.drop f.leading = rest)
    (h : clauses s' [] rest = .ok cs) : f.keys.Nodup := by
  obtain ⟨row, hrow, names, distinct, -⟩ := row?_of_clauses h
  have clauseRow : f.clauseRow? = some row := by
    subst hf
    rw [clauseRow?, behind, Form.flags, if_neg flags]
    exact hrow
  have renamed : cs.map (some ·.1) = (cs.map (·.1)).map some := by rw [List.map_map]; rfl
  refine keys_nodup_of_clauseRow? clauseRow ?_
  rw [names, renamed]
  exact distinct.map fun _ _ h => Option.some.inj h

theorem Form.drop_two_of_takeName {s : Span} {head n : String} {items rest : List Form}
    (h : takeName s head items = .ok (n, rest)) : items.drop 2 = rest := by
  obtain ⟨_, _, rfl⟩ := exists_items_of_takeName h
  rfl

theorem TypeDeclaration.keys_nodup {kind : TypeKind} {f : Form} {d : TypeDeclaration}
    (h : ofForm kind f = .ok d) : f.keys.Nodup := by
  obtain ⟨items, hitems, h⟩ := Meaning.bind_eq_ok.1 h
  obtain ⟨⟨name, rest⟩, hname, h⟩ := Meaning.bind_eq_ok.1 h
  obtain ⟨s, hf, head⟩ := Form.exists_of_expectHead hitems
  have behind := Form.drop_two_of_takeName hname
  have flags : f.head? ≠ some "property" := by
    rw [head]
    cases kind <;> decide
  have clauses {d₀ : TypeDeclaration} {rest : List Form} (behind : items.drop f.leading = rest)
      (h : (do (← Form.clauses f.span [] rest).foldlM addClause d₀) = .ok d) : f.keys.Nodup := by
    obtain ⟨cs, hcs, -⟩ := Meaning.bind_eq_ok.1 h
    exact Form.keys_nodup_of_clauses hf flags behind hcs
  cases kind
  case typedef =>
    have leading : f.leading = 3 := by
      simp [Form.leading, head, TypeKind.head, TypeKind.name]
    rcases rest with _ | ⟨aliased, rest⟩
    · cases h
    · obtain ⟨_, _, h⟩ := Meaning.bind_eq_ok.1 h
      refine clauses ?_ h
      rw [leading, show 3 = 2 + 1 from rfl, ← List.drop_drop, behind]
      rfl
  all_goals
    have leading : f.leading = 2 := by
      simp [Form.leading, head, TypeKind.head, TypeKind.name]
    exact clauses (leading ▸ behind) h

theorem Enumeration.keys_nodup {f : Form} {d : Enumeration} (h : ofForm f = .ok d) :
    f.keys.Nodup := by
  obtain ⟨items, hitems, h⟩ := Meaning.bind_eq_ok.1 h
  obtain ⟨⟨name, rest⟩, hname, h⟩ := Meaning.bind_eq_ok.1 h
  obtain ⟨s, hf, head⟩ := Form.exists_of_expectHead hitems
  obtain ⟨cs, hcs, -⟩ := Meaning.bind_eq_ok.1 h
  have leading : f.leading = 2 := by simp [Form.leading, head]
  exact Form.keys_nodup_of_clauses hf (by simp [head])
    (leading ▸ Form.drop_two_of_takeName hname) hcs

theorem Augmentation.keys_nodup {f : Form} {a : Augmentation} (h : ofForm f = .ok a) :
    f.keys.Nodup := by
  obtain ⟨items, hitems, h⟩ := Meaning.bind_eq_ok.1 h
  obtain ⟨⟨name, rest⟩, hname, h⟩ := Meaning.bind_eq_ok.1 h
  obtain ⟨s, hf, head⟩ := Form.exists_of_expectHead hitems
  obtain ⟨cs, hcs, -⟩ := Meaning.bind_eq_ok.1 h
  have leading : f.leading = 2 := by simp [Form.leading, head]
  exact Form.keys_nodup_of_clauses hf (by simp [head])
    (leading ▸ Form.drop_two_of_takeName hname) hcs

theorem Declaration.keys_nodup {f : Form} {d : Declaration} (h : ofForm? f = .ok (some d)) :
    f.keys.Nodup := by
  have type {kind : TypeKind}
      (h : (do .ok (some (Declaration.type (← TypeDeclaration.ofForm kind f))) :
        Meaning (Option Declaration)) = .ok (some d)) : f.keys.Nodup := by
    obtain ⟨t, ht, -⟩ := Meaning.bind_eq_ok.1 h
    exact TypeDeclaration.keys_nodup ht
  simp only [ofForm?] at h
  split at h
  · exact type h
  · exact type h
  · exact type h
  · exact type h
  · obtain ⟨e, he, -⟩ := Meaning.bind_eq_ok.1 h
    exact Enumeration.keys_nodup he
  · obtain ⟨a, ha, -⟩ := Meaning.bind_eq_ok.1 h
    exact Augmentation.keys_nodup ha
  · cases h

/-! ### Which repetitions are accepted -/

namespace Form

theorem withoutOverwritten_of_clauseRow? {f : Form} {row : List Clause}
    (h : f.clauseRow? = some row) :
    f.withoutOverwritten = f.withClauses (lastOfEachKey Clause.name? row) := by
  rw [withoutOverwritten, h]

theorem overwrittenClauses_of_clauseRow? {f : Form} {row : List Clause}
    (h : f.clauseRow? = some row) :
    f.overwrittenClauses = overwritten Clause.name? row := by
  rw [overwrittenClauses, h, Option.getD_some]

theorem keys_nodup_withoutOverwritten (f : Form) : f.withoutOverwritten.keys.Nodup := by
  cases h : f.clauseRow? with
  | none => simp [withoutOverwritten, keys, h]
  | some row =>
    rw [withoutOverwritten_of_clauseRow? h]
    exact keys_nodup_of_clauseRow? (clauseRow?_withClauses h (lastOfEachKey_subset _ _))
      (nodup_lastOfEachKey _ _)

/-- Whether the form means what it means without the clauses that are overwritten, provided that
each of them is accepted in their place. -/
def OverwritesIn {α : Type} (ofForm : Form → Meaning α) (f : Form) : Prop :=
  ∀ a, ofForm f = .ok a ↔
    ofForm f.withoutOverwritten = .ok a ∧
      ∀ c ∈ f.overwrittenClauses, ∃ b, ofForm (f.withClauses [c]) = .ok b

variable {α : Type} {ofForm : Form → Meaning α} {f : Form}

theorem overwritesIn_of_clauseRow?_none (h : f.clauseRow? = none) : f.OverwritesIn ofForm := by
  intro a
  simp [withoutOverwritten, overwrittenClauses, h, overwritten]

theorem overwritesIn_of_rejected (h : ∀ a, ofForm f ≠ .ok a)
    (without : ∀ a, ofForm f.withoutOverwritten ≠ .ok a) : f.OverwritesIn ofForm :=
  fun a => iff_of_false (h a) fun accepted => without a accepted.1

theorem TakesInTurn.overwritesIn {row : List Clause} (h : f.TakesInTurn ofForm row)
    (hrow : f.clauseRow? = some row) : f.OverwritesIn ofForm := by
  intro a
  rw [withoutOverwritten_of_clauseRow? hrow, overwrittenClauses_of_clauseRow? hrow]
  exact h.eq_ok_iff

theorem head?_withoutOverwritten (f : Form) : f.withoutOverwritten.head? = f.head? := by
  cases h : f.clauseRow? with
  | none => rw [withoutOverwritten, h]
  | some row =>
    rw [withoutOverwritten_of_clauseRow? h]
    rcases f with _ | ⟨_ | _ | _, items, s⟩
    · rfl
    · cases items with
      | nil =>
        have empty : row = [] := by simpa [clauseRow?, Clause.row?, eq_comm] using h
        rw [empty, lastOfEachKey, withClauses_clauseRow? (empty ▸ h)]
      | cons first rest => exact head?_withClauses (List.cons_ne_nil _ _) _
    · rfl
    · rfl

end Form

theorem Member.head?_of_ofForm {f : Form} {m : Member} (h : ofForm f = .ok m) :
    f.head? = some "property" ∨ f.head? = some "method" := by
  unfold ofForm at h
  split at h
  · exact .inl ‹_›
  · exact .inr ‹_›
  · cases h

theorem Member.overwritesIn (f : Form) : f.OverwritesIn ofForm := by
  by_cases head : f.head? = some "property" ∨ f.head? = some "method"
  · cases h : f.clauseRow? with
    | none => exact Form.overwritesIn_of_clauseRow?_none h
    | some row =>
      rcases f with _ | ⟨_ | _ | _, items, s⟩
      · cases h
      · exact (takesInTurn h head).overwritesIn h
      · cases h
      · exact absurd head (by simp [Form.head?, Form.list?])
  · refine Form.overwritesIn_of_rejected (fun m h => head (head?_of_ofForm h)) fun m h => ?_
    exact head (f.head?_withoutOverwritten ▸ head?_of_ofForm h)

theorem Deprecation.overwritesIn (f : Form) : f.OverwritesIn ofForm := by
  cases h : f.clauseRow? with
  | none => exact Form.overwritesIn_of_clauseRow?_none h
  | some row =>
    rcases f with _ | ⟨_ | _ | _, items, s⟩
    · cases h
    · refine Form.overwritesIn_of_rejected (fun d => nofun) fun d => ?_
      rw [Form.withoutOverwritten_of_clauseRow? h]
      nofun
    · cases h
    · exact (takesInTurn h).overwritesIn h

/-- A declaration that is accepted has no key twice, so one that repeats a key is refused. A member
or a deprecation that repeats keys is taken for what is left when only the last clause of each key
is kept, exactly if each of the clauses overwritten is accepted in their place. -/
theorem Form.keys_nodup_or_overwritten (f : Form) :
    (∀ d, Declaration.ofForm? f = .ok (some d) → f.keys.Nodup) ∧
      (¬f.keys.Nodup → ∃ fault, Declaration.ofForm f = .error fault) ∧
      f.withoutOverwritten.keys.Nodup ∧
      f.OverwritesIn Member.ofForm ∧ f.OverwritesIn Deprecation.ofForm := by
  refine ⟨fun d h => Declaration.keys_nodup h, fun repeated => ?_, f.keys_nodup_withoutOverwritten,
    Member.overwritesIn f, Deprecation.overwritesIn f⟩
  cases h : Declaration.ofForm f with
  | error fault => exact ⟨fault, rfl⟩
  | ok d =>
    obtain ⟨d?, hd, h⟩ := Meaning.bind_eq_ok.1 h
    cases d? with
    | none =>
      cases head : f.head? with
      | none => simp [head] at h
      | some name => simp [head] at h
    | some d => exact absurd (Declaration.keys_nodup hd) repeated

/-- A property is accepted although its note comes twice, and the first note is lost. -/
theorem Member.ofForm_repeated_note :
    let f := Form.list [.symbol "property", .symbol "x", .symbol "number", .keyword "deprecated",
      .string "a", .keyword "deprecated", .string "b"]
    ¬f.keys.Nodup ∧ ofForm f =
      .ok ⟨"x", .property (.primitive .number) false false, some { note := some "b" }, []⟩ := by
  decide +kernel

end ApiCatalog
