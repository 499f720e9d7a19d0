import Mathlib.Data.Set.Finite.List
import Mathlib.Logic.Relation
import Mathlib.Order.WellFoundedSet
import ApiCatalog.Proofs.AliasPaths

/-!
# Types with their aliases written out

The expansion of a type has, in place of every alias and at any depth, the expansion of the type
that the alias stands for. It is defined for all catalogs: an alias that comes back to itself is
left where it is met again. In a catalog without such loops the expansion of an alias is that of
its type, whatever has been met before, and the type found by following aliases has the shape of
the expansion.

Main statements: `Catalog.expanded_named`, the expansion of an alias; `Catalog.expanded_expanded`,
expanding once is enough; `Catalog.bare_expanded`, the shape of an expansion.
-/

namespace ApiCatalog

open Relation

namespace TypeExpr

variable {f g : String → TypeExpr} {t : TypeExpr} {name : String}

/-- Induction over types: what holds of a type as soon as it holds of the types in it holds of
all types. -/
@[elab_as_elim, induction_eliminator]
theorem induction {motive : TypeExpr → Prop}
    (primitive : ∀ kind, motive (.primitive kind)) (any : motive .any) (unknown : motive .unknown)
    (named : ∀ name, motive (.named name)) (nullable : ∀ t, motive t → motive (.nullable t))
    (nonNull : ∀ t, motive t → motive (.nonNull t)) (array : ∀ t, motive t → motive (.array t))
    (buffer : ∀ kind, motive (.buffer kind))
    (union : ∀ ts, (∀ t ∈ ts, motive t) → motive (.union ts))
    (promise : ∀ t, motive t → motive (.promise t))
    (function : ∀ ps t, (∀ p ∈ ps, motive p.1) → motive t → motive (.function ps t))
    (record : ∀ fs, (∀ e ∈ fs, motive e.2) → motive (.record fs)) (t : TypeExpr) : motive t :=
  @TypeExpr.rec motive (∀ t ∈ ·, motive t) (∀ p ∈ ·, motive p.1) (∀ e ∈ ·, motive e.2)
    (motive ·.1) (motive ·.2) primitive any unknown named nullable nonNull array buffer union
    promise function record (by simp) (fun _ _ head tail => List.forall_mem_cons.2 ⟨head, tail⟩)
    (by simp) (fun _ _ head tail => List.forall_mem_cons.2 ⟨head, tail⟩)
    (by simp) (fun _ _ head tail => List.forall_mem_cons.2 ⟨head, tail⟩)
    (fun _ _ h => h) (fun _ _ h => h) t

/-! ### Substitution -/

mutual

/-- The type with the given types in place of names. -/
def substitute (f : String → TypeExpr) : TypeExpr → TypeExpr
  | .named name => f name
  | .nullable inner => .nullable (inner.substitute f)
  | .nonNull inner => .nonNull (inner.substitute f)
  | .array element => .array (element.substitute f)
  | .union alternatives => .union (substituteAll f alternatives)
  | .promise payload => .promise (payload.substitute f)
  | .function params returns => .function (substituteParams f params) (returns.substitute f)
  | .record fields => .record (substituteFields f fields)
  | .primitive kind => .primitive kind
  | .any => .any
  | .unknown => .unknown
  | .buffer kind => .buffer kind

/-- Types with the given ones in place of names. -/
def substituteAll (f : String → TypeExpr) : List TypeExpr → List TypeExpr
  | [] => []
  | t :: ts => t.substitute f :: substituteAll f ts

/-- Parameters with the given types in place of names. -/
def substituteParams (f : String → TypeExpr) : List (TypeExpr × Bool) → List (TypeExpr × Bool)
  | [] => []
  | (t, optional) :: ts => (t.substitute f, optional) :: substituteParams f ts

/-- Fields with the given types in place of names. -/
def substituteFields (f : String → TypeExpr) :
    List (String × TypeExpr) → List (String × TypeExpr)
  | [] => []
  | (name, t) :: ts => (name, t.substitute f) :: substituteFields f ts

end

@[simp] theorem substituteAll_eq (f : String → TypeExpr) (ts : List TypeExpr) :
    substituteAll f ts = ts.map (substitute f) := by
  induction ts with
  | nil => rfl
  | cons t ts ih => rw [substituteAll, ih, List.map_cons]

@[simp] theorem substituteParams_eq (f : String → TypeExpr) (ps : List (TypeExpr × Bool)) :
    substituteParams f ps = ps.map fun p => (p.1.substitute f, p.2) := by
  induction ps with
  | nil => rfl
  | cons p ps ih => rw [substituteParams, ih, List.map_cons]

@[simp] theorem substituteFields_eq (f : String → TypeExpr) (fs : List (String × TypeExpr)) :
    substituteFields f fs = fs.map fun e => (e.1, e.2.substitute f) := by
  induction fs with
  | nil => rfl
  | cons e fs ih => rw [substituteFields, ih, List.map_cons]

theorem mem_mentions : name ∈ t.mentions ↔ .named name ∈ t.parts := by
  rw [mentions, List.mem_filterMap]
  constructor
  · rintro ⟨u, hu, h⟩
    split at h
    · exact Option.some.inj h ▸ hu
    · cases h
  · exact fun h => ⟨_, h, rfl⟩

theorem mem_mentions_of_bare (h : t.bare = .named name) : name ∈ t.mentions :=
  mem_mentions.2 (h ▸ bare_mem_parts t)

/-- Only the names in a type matter for a substitution. -/
theorem substitute_congr (h : ∀ n ∈ t.mentions, f n = g n) : t.substitute f = t.substitute g := by
  simp only [mem_mentions] at h
  induction t with
  | primitive | any | unknown | buffer => simp only [substitute]
  | named name => simpa only [substitute] using h name (mem_parts_self _)
  | nullable t ih | nonNull t ih | array t ih | promise t ih =>
    rw [substitute, substitute, ih fun n hn => h n (by rw [parts]; exact List.mem_cons_of_mem _ hn)]
  | union ts ih =>
    simp only [substitute, substituteAll_eq, union.injEq, List.map_inj_left]
    exact fun t ht => ih t ht fun n hn =>
      h n (parts_subset_of_mem_components (t := .union ts) ht hn)
  | function ps t ihps ih =>
    have inside {x} (hx : x ∈ components (.function ps t)) := parts_subset_of_mem_components hx
    simp only [substitute, substituteParams_eq, function.injEq, List.map_inj_left, Prod.mk.injEq,
      and_true]
    exact ⟨fun p hp => ihps p hp fun n hn =>
        h n (inside (List.mem_cons_of_mem _ (List.mem_map_of_mem hp)) hn),
      ih fun n hn => h n (inside List.mem_cons_self hn)⟩
  | record fs ih =>
    simp only [substitute, substituteFields_eq, record.injEq, List.map_inj_left, Prod.mk.injEq,
      true_and]
    exact fun e he => ih e he fun n hn =>
      h n (parts_subset_of_mem_components (t := .record fs) (List.mem_map_of_mem he) hn)

/-- Two substitutions, one after the other, are one. -/
theorem substitute_substitute (f g : String → TypeExpr) (t : TypeExpr) :
    (t.substitute f).substitute g = t.substitute fun n => (f n).substitute g := by
  induction t with
  | primitive | any | unknown | buffer | named => simp only [substitute]
  | nullable t ih | nonNull t ih | array t ih | promise t ih => simp only [substitute, ih]
  | union ts ih => simpa [substitute] using ih
  | function ps t ihps ih => simpa [substitute, ih] using ihps
  | record fs ih => simpa [substitute] using fun m u h => ih (m, u) h

theorem bare_substitute : ∀ t : TypeExpr, (t.substitute f).bare = (t.bare.substitute f).bare
  | .nullable inner => bare_substitute inner
  | .nonNull inner => bare_substitute inner
  | .primitive _ | .any | .unknown | .named _ | .array _ | .buffer _ | .union _ | .promise _
  | .function _ _ | .record _ => rfl

/-- Only in place of a name there may be another name. -/
theorem exists_bare_eq_named : ∀ {t : TypeExpr}, (t.substitute f).bare = .named name →
    ∃ n, t.bare = .named n
  | .nullable inner, h | .nonNull inner, h => exists_bare_eq_named (t := inner) h
  | .named n, _ => ⟨n, rfl⟩

/-- Substitution does not change the shape of a type, unless the type is a name. -/
theorem components_substitute : ∀ {t : TypeExpr},
    (∀ n, t.bare = .named n → f n = .named n) →
      (t.substitute f).components = t.components.map (substitute f)
  | .nullable inner, h | .nonNull inner, h => components_substitute (t := inner) h
  | .named name, h => by
    rw [substitute, h name rfl]
    rfl
  | .function ps t, _ => by simp [substitute, components, bare]
  | .union _, _ | .record _, _ => by simp [substitute, components, bare]
  | .array _, _ | .promise _, _ | .primitive _, _ | .any, _ | .unknown, _ | .buffer _, _ => rfl

end TypeExpr

namespace Catalog

variable {c : Catalog} {s t u x : TypeExpr} {n m name : String} {seen : List String}

theorem alike_substitute {f : String → TypeExpr} : ∀ {t : TypeExpr},
    (∀ n, t.bare = .named n → f n = .named n) →
      (∀ ps r, t.bare = .function ps r → (r.substitute f).isVoid = r.isVoid) →
        Alike (fun x e => x ∈ t.components ∧ x.substitute f = e) t.bare (t.substitute f).bare
  | .nullable inner, hf, hvoid | .nonNull inner, hf, hvoid =>
    alike_substitute (t := inner) hf hvoid
  | .named name, hf, _ => by
    rw [TypeExpr.substitute, hf name rfl]
    exact .named name
  | .primitive kind, _, _ => .primitive kind
  | .any, _, _ => .any
  | .unknown, _, _ => .unknown
  | .buffer kind, _, _ => .buffer kind
  | .array x, _, _ => .array ⟨List.mem_singleton_self x, rfl⟩
  | .promise x, _, _ => .promise ⟨List.mem_singleton_self x, rfl⟩
  | .union ts, _, _ => by
    rw [TypeExpr.substitute, TypeExpr.substituteAll_eq]
    exact .union (List.forall₂_map_right_iff.2 (List.forall₂_same.2 fun x hx => ⟨hx, rfl⟩))
  | .function ps r, _, hvoid => by
    rw [TypeExpr.substitute, TypeExpr.substituteParams_eq]
    refine .function (List.forall₂_map_right_iff.2 (List.forall₂_same.2 fun p hp => ?_))
      ⟨List.mem_cons_self, rfl⟩ (hvoid ps r rfl).symm
    exact ⟨⟨List.mem_cons_of_mem _ (List.mem_map_of_mem hp), rfl⟩, rfl⟩
  | .record fs, _, _ => by
    rw [TypeExpr.substitute, TypeExpr.substituteFields_eq]
    refine .record (List.forall₂_map_right_iff.2 (List.forall₂_same.2 fun e he => ?_))
    exact ⟨rfl, List.mem_map_of_mem he, rfl⟩

/-! ### Expansion -/

/-- The expansion of a name: the one of the type that it stands for, or the name itself if it
stands for none or is among those being expanded. -/
def expandName (c : Catalog) (seen : List String) (name : String) : TypeExpr :=
  match aliased : c.alias? name with
  | none => .named name
  | some t =>
    if met : name ∈ seen then .named name
    else
      have : unmet c.types.entries.names (name :: seen) < unmet c.types.entries.names seen :=
        unmet_lt (mem_names_of_alias? aliased) met (by simp) (by simp +contextual)
      t.substitute fun n => expandName c (name :: seen) n
termination_by unmet c.types.entries.names seen

/-- The type with the expansion of its type in place of each alias, inside the qualifiers that
stand there. -/
def expanded (c : Catalog) (t : TypeExpr) : TypeExpr := t.substitute (c.expandName [])

theorem expandName_of_none (h : c.alias? name = none) : c.expandName seen name = .named name := by
  rw [expandName]
  split
  · rfl
  · rename_i ht
    rw [h] at ht
    cases ht

theorem expandName_of_alias? (h : c.alias? name = some t) (hn : name ∉ seen) :
    c.expandName seen name = t.substitute (c.expandName (name :: seen)) := by
  rw [expandName]
  split
  · rename_i ht
    rw [h] at ht
    cases ht
  · rename_i ht
    rw [h] at ht
    cases ht
    rw [dif_neg hn]

/-! ### Loops -/

/-- Whether the first name is an alias of a type that refers to the second. -/
def AliasRefers (c : Catalog) (n m : String) : Prop := ∃ t, c.alias? n = some t ∧ m ∈ t.mentions

/-- Whether no alias leads back to itself. -/
def HasNoAliasLoop (c : Catalog) : Prop := ∀ n, ¬ TransGen c.AliasRefers n n

/-- Aliases of types that refer to aliases of lower rank only have no loop. -/
theorem HasNoAliasLoop.of_rank (rank : String → Nat)
    (h : ∀ n ∈ c.types.entries.names, ∀ t ∈ c.alias? n, ∀ m ∈ t.mentions, rank m < rank n) :
    c.HasNoAliasLoop := by
  have less {n m : String} (hreach : TransGen c.AliasRefers n m) : rank m < rank n := by
    induction hreach with
    | single hm =>
      obtain ⟨t, ht, hm⟩ := hm
      exact h _ (mem_names_of_alias? ht) t ht _ hm
    | tail _ hm ih =>
      obtain ⟨t, ht, hm⟩ := hm
      exact (h _ (mem_names_of_alias? ht) t ht _ hm).trans ih
  exact fun n hn => Nat.lt_irrefl _ (less hn)

section NoLoop

variable (hloop : c.HasNoAliasLoop)
include hloop

/-- Without loops of aliases there is no endless descent through them, since only finitely many
names are declared. -/
theorem HasNoAliasLoop.wellFounded : WellFounded fun m n => c.AliasRefers n m := by
  let r (m n : String) : Prop := TransGen c.AliasRefers n m
  have : IsStrictOrder String r :=
    { irrefl := hloop, trans := fun _ _ _ h h' => h'.trans h }
  have wf := Set.wellFoundedOn_iff.1
    ((List.finite_toSet c.types.entries.names).wellFoundedOn (r := r))
  have mem {n m : String} (h : c.AliasRefers n m) : n ∈ c.types.entries.names := by
    obtain ⟨_, ht, _⟩ := h
    exact mem_names_of_alias? ht
  refine ⟨fun n => wf.induction n fun n ih => ⟨n, fun m hm => ?_⟩⟩
  -- A name that is not declared refers to nothing.
  by_cases hdeclared : m ∈ c.types.entries.names
  · exact ih m ⟨.single hm, hdeclared, mem hm⟩
  · exact ⟨m, fun k hk => absurd (mem hk) hdeclared⟩

/-- What an alias refers to leads back neither to the alias nor to what the alias does not lead
to. -/
theorem HasNoAliasLoop.fresh (h : c.AliasRefers n m)
    (fresh : ∀ k ∈ seen, ¬ ReflTransGen c.AliasRefers n k) :
    ∀ k ∈ n :: seen, ¬ ReflTransGen c.AliasRefers m k := by
  intro k hk hreach
  rcases List.mem_cons.1 hk with rfl | hk
  · exact hloop _ (.head' h hreach)
  · exact fresh k hk (.head h hreach)

/-- Names that an alias does not lead to do not matter for its expansion. -/
theorem expandName_of_fresh (fresh : ∀ k ∈ seen, ¬ ReflTransGen c.AliasRefers n k) :
    c.expandName seen n = c.expandName [] n := by
  -- Both sides go on with more names seen, so the induction is over all lists of them.
  induction n using hloop.wellFounded.induction generalizing seen with
  | _ n ih =>
    cases h : c.alias? n with
    | none => rw [expandName_of_none h, expandName_of_none h]
    | some t =>
      rw [expandName_of_alias? h fun hn => fresh n hn .refl, expandName_of_alias? h (by simp)]
      refine TypeExpr.substitute_congr fun m hm => ?_
      have refers : c.AliasRefers n m := ⟨t, h, hm⟩
      rw [ih m refers (hloop.fresh refers fresh), ih m refers (hloop.fresh refers (by simp))]

/-- The expansion of an alias is that of the type that it stands for. -/
theorem expanded_named (h : c.alias? n = some t) : c.expanded (.named n) = c.expanded t := by
  rw [expanded, TypeExpr.substitute, expandName_of_alias? h (by simp), expanded]
  refine TypeExpr.substitute_congr fun m hm => expandName_of_fresh hloop ?_
  exact hloop.fresh ⟨t, h, hm⟩ (by simp)

/-- Expanding once is enough. -/
theorem expanded_expanded (t : TypeExpr) : c.expanded (c.expanded t) = c.expanded t := by
  have names (n : String) : c.expanded (c.expandName [] n) = c.expandName [] n := by
    induction n using hloop.wellFounded.induction with
    | _ n ih =>
      cases h : c.alias? n with
      | none => rw [expandName_of_none h, expanded, TypeExpr.substitute, expandName_of_none h]
      | some t =>
        have same : c.expandName [] n = t.substitute (c.expandName []) := expanded_named hloop h
        rw [same, expanded, TypeExpr.substitute_substitute]
        exact TypeExpr.substitute_congr fun m hm => ih m ⟨t, h, hm⟩
  rw [expanded, expanded, TypeExpr.substitute_substitute]
  exact TypeExpr.substitute_congr fun n _ => names n

/-! ### Following aliases -/

/-- What holds of the last type of a chain of aliases, and of a reference to an alias if it holds
of the type that the alias stands for, holds of all types. -/
theorem alias_induction {motive : TypeExpr → Prop}
    (last : ∀ t, (∀ n, t.bare = .named n → c.alias? n = none) → motive t)
    (follow : ∀ t n u, t.bare = .named n → c.alias? n = some u → motive u → motive t)
    (t : TypeExpr) : motive t := by
  have of_named (t : TypeExpr) (h : ∀ n, t.bare = .named n → motive t) : motive t := by
    by_cases hnamed : ∃ n, t.bare = .named n
    · exact hnamed.elim h
    · exact last t fun n hn => absurd ⟨n, hn⟩ hnamed
  have all (n : String) : ∀ t : TypeExpr, t.bare = .named n → motive t := by
    induction n using hloop.wellFounded.induction with
    | _ n ih =>
      intro t ht
      cases h : c.alias? n with
      | none =>
        refine last t fun m hm => ?_
        rw [ht] at hm
        cases hm
        exact h
      | some u =>
        refine follow t n u ht h (of_named u fun m hm => ?_)
        exact ih m ⟨u, h, TypeExpr.mem_mentions_of_bare hm⟩ u hm
  exact of_named t fun n hn => all n t hn

/-- Names that a type does not lead to do not matter for what it stands for. -/
theorem followAliases_of_fresh
    (fresh : ∀ n, t.bare = .named n → ∀ k ∈ seen, ¬ ReflTransGen c.AliasRefers n k) :
    c.followAliases seen t = c.dealiased t := by
  induction t using alias_induction hloop generalizing seen with
  | last t h => rw [followAliases_eq_self h, dealiased_eq_self h]
  | follow t n u ht h ih =>
    have refers {m : String} (hm : u.bare = .named m) : c.AliasRefers n m :=
      ⟨u, h, TypeExpr.mem_mentions_of_bare hm⟩
    rw [dealiased, followAliases_of_alias? ht h fun hn => fresh n ht n hn .refl,
      followAliases_of_alias? ht h (by simp),
      ih fun m hm => hloop.fresh (refers hm) (fresh n ht),
      ih fun m hm => hloop.fresh (refers hm) (by simp)]

/-- A reference to an alias stands for what the type of the alias stands for. -/
theorem dealiased_of_alias? (ht : t.bare = .named n) (h : c.alias? n = some u) :
    c.dealiased t = c.dealiased u := by
  rw [dealiased, followAliases_of_alias? ht h (by simp)]
  refine followAliases_of_fresh hloop fun m hm => ?_
  exact hloop.fresh ⟨u, h, TypeExpr.mem_mentions_of_bare hm⟩ (by simp)

/-- What a type stands for is not an alias. -/
theorem alias?_of_bare_dealiased (h : (c.dealiased t).bare = .named n) : c.alias? n = none := by
  induction t using alias_induction hloop with
  | last t ht => exact ht n (dealiased_eq_self ht ▸ h)
  | follow t m u ht hm ih => exact ih (dealiased_of_alias? hloop ht hm ▸ h)

/-- Following aliases keeps the expansion, qualifiers aside. -/
theorem bare_expanded_dealiased (t : TypeExpr) :
    (c.expanded (c.dealiased t)).bare = (c.expanded t).bare := by
  induction t using alias_induction hloop with
  | last t h => rw [dealiased_eq_self h]
  | follow t n u ht h ih =>
    rw [dealiased_of_alias? hloop ht h, ih, ← expanded_named hloop h, ← ht]
    exact TypeExpr.bare_substitute t |>.symm

/-- An expansion is, qualifiers aside, that of what the type stands for. -/
theorem bare_expanded (t : TypeExpr) :
    (c.expanded t).bare = (c.expanded (c.dealiased t).bare).bare := by
  rw [← bare_expanded_dealiased hloop, expanded, TypeExpr.bare_substitute, expanded]

theorem expandName_of_bare_dealiased (h : (c.dealiased t).bare = .named n) :
    c.expandName [] n = .named n :=
  expandName_of_none (alias?_of_bare_dealiased hloop h)

/-- The components of an expansion are the expansions of the components of what the type stands
for. -/
theorem components_expanded (t : TypeExpr) :
    (c.expanded t).components = (c.dealiased t).components.map c.expanded := by
  rw [← TypeExpr.components_bare, ← bare_expanded_dealiased hloop, TypeExpr.components_bare]
  exact TypeExpr.components_substitute fun n => expandName_of_bare_dealiased hloop

/-- An expansion has the shape of what the type stands for. -/
theorem alike_expanded
    (hvoid : ∀ ps r, (c.dealiased t).bare = .function ps r → (c.expanded r).isVoid = r.isVoid) :
    Alike (fun x e => x ∈ (c.dealiased t).components ∧ c.expanded x = e) (c.dealiased t).bare
      (c.expanded t).bare := by
  rw [← bare_expanded_dealiased hloop]
  exact alike_substitute (fun n => expandName_of_bare_dealiased hloop) hvoid

/-- An expansion stands for itself. -/
theorem dealiased_expanded (t : TypeExpr) : c.dealiased (c.expanded t) = c.expanded t := by
  refine dealiased_eq_self fun n hn => ?_
  rw [bare_expanded hloop] at hn
  obtain ⟨m, hm⟩ := TypeExpr.exists_bare_eq_named hn
  rw [TypeExpr.bare_bare] at hm
  have hnone := alias?_of_bare_dealiased hloop hm
  rw [hm, expanded, TypeExpr.substitute, expandName_of_none hnone] at hn
  cases hn
  exact hnone

end NoLoop

end Catalog

end ApiCatalog
