import Mathlib.Logic.Relation
import ApiCatalog.Proofs.Comparison

/-!
# Paths along aliases

Following aliases goes along a path of names, none of them twice, to a type that is no alias or to
the first name that was met before. There the path has come to a loop of aliases, and from that name
it would lead around the loop to the same type again.

Main statements: `Catalog.dealiased_dealiased`, following aliases once is enough;
`Catalog.dealiased_ends`, a type that is left and is an alias is on a loop.
-/

namespace ApiCatalog.Catalog

open Relation

variable {c : Catalog} {s t u r : TypeExpr} {n name : String} {ns ms seen : List String}

/-! ### One alias -/

theorem followAliases_of_alias? (ht : t.bare = .named name) (h : c.alias? name = some u)
    (hn : name ∉ seen) : c.followAliases seen t = c.followAliases (name :: seen) u := by
  rw [followAliases]
  split
  · rename_i m hm
    rw [ht] at hm
    cases hm
    split
    · rename_i hu
      rw [h] at hu
      cases hu
    · rename_i hu
      rw [h] at hu
      cases hu
      rw [dif_neg hn]
  · rename_i hne
    exact absurd ht (hne name)

/-- A name that was seen before is not followed again. -/
theorem followAliases_of_mem (ht : t.bare = .named name) (hn : name ∈ seen) :
    c.followAliases seen t = t := by
  rw [followAliases]
  split
  · rename_i m hm
    rw [ht] at hm
    cases hm
    split
    · rfl
    · rw [dif_pos hn]
  · rfl

/-! ### Paths -/

/-- The names of the aliases that are followed from one type to another. -/
inductive AliasPath (c : Catalog) : TypeExpr → List String → TypeExpr → Prop
  | nil (t : TypeExpr) : AliasPath c t [] t
  | cons {t u r : TypeExpr} {n : String} {ns : List String} (ht : t.bare = .named n)
      (h : c.alias? n = some u) (rest : AliasPath c u ns r) : AliasPath c t (n :: ns) r

namespace AliasPath

/-- Qualifiers around the first name do not matter. -/
theorem of_bare (h : c.AliasPath t (n :: ns) r) (hs : s.bare = t.bare) :
    c.AliasPath s (n :: ns) r := by
  cases h with
  | cons ht h rest => exact .cons (hs.trans ht) h rest

theorem exists_of_append (h : c.AliasPath t (ms ++ ns) r) :
    ∃ u, c.AliasPath t ms u ∧ c.AliasPath u ns r := by
  induction ms generalizing t with
  | nil => exact ⟨t, .nil t, h⟩
  | cons m ms ih =>
    cases h with
    | cons ht h rest =>
      obtain ⟨u, first, second⟩ := ih rest
      exact ⟨u, .cons ht h first, second⟩

theorem bare_eq (h : c.AliasPath t (n :: ns) r) : t.bare = .named n := by
  cases h with
  | cons ht => exact ht

/-- Names that are met for the first time are followed. -/
theorem followAliases_eq (h : c.AliasPath t ns r) (distinct : ns.Nodup)
    (new : ∀ n ∈ ns, n ∉ seen) :
    c.followAliases seen t = c.followAliases (ns.reverse ++ seen) r := by
  induction h generalizing seen with
  | nil t => rfl
  | @cons t u r n ns ht h rest ih =>
    rw [List.nodup_cons] at distinct
    rw [List.forall_mem_cons] at new
    rw [followAliases_of_alias? ht h new.1, ih distinct.2 fun m hm => ?_]
    · simp
    · rw [List.mem_cons, not_or]
      exact ⟨fun same => distinct.1 (same ▸ hm), new.2 m hm⟩

end AliasPath

/-- Aliases are followed along a path of new names, up to a type that is no alias or a name met
before. -/
theorem exists_aliasPath (c : Catalog) (seen : List String) (t : TypeExpr) :
    ∃ ns, c.AliasPath t ns (c.followAliases seen t) ∧ ns.Nodup ∧ (∀ n ∈ ns, n ∉ seen) ∧
      ∀ m, (c.followAliases seen t).bare = .named m → c.alias? m = none ∨ m ∈ ns ∨ m ∈ seen := by
  fun_induction followAliases c seen t with
  | case1 seen t name ht haliased =>
    refine ⟨[], .nil t, .nil, by simp, fun m hm => .inl ?_⟩
    rw [ht] at hm
    cases hm
    exact haliased
  | case2 seen t name ht target haliased met =>
    refine ⟨[], .nil t, .nil, by simp, fun m hm => .inr (.inr ?_)⟩
    rw [ht] at hm
    cases hm
    exact met
  | case3 seen t name ht target haliased met _ ih =>
    obtain ⟨ns, path, distinct, new, stop⟩ := ih
    have fresh : name ∉ ns := fun hmem => new name hmem List.mem_cons_self
    refine ⟨name :: ns, .cons ht haliased path, List.nodup_cons.2 ⟨fresh, distinct⟩,
      List.forall_mem_cons.2 ⟨met, fun m hm => fun hseen => new m hm (by simp [hseen])⟩,
      fun m hm => ?_⟩
    rcases stop m hm with hnone | hmem | hmem
    · exact .inl hnone
    · exact .inr (.inl (List.mem_cons_of_mem _ hmem))
    · rcases List.mem_cons.1 hmem with rfl | hmem
      · exact .inr (.inl List.mem_cons_self)
      · exact .inr (.inr hmem)
  | case4 seen t other =>
    refine ⟨[], .nil t, .nil, by simp, fun m hm => ?_⟩
    exact absurd hm (other m)

/-- A type that aliases are followed to is a name of an alias only if a path leads from it back to
it. -/
theorem exists_aliasPath_self (h : (c.dealiased t).bare = .named n) (hn : c.alias? n ≠ none) :
    ∃ ns, (n :: ns).Nodup ∧ c.AliasPath (c.dealiased t) (n :: ns) (c.dealiased t) := by
  obtain ⟨ns, path, distinct, -, stop⟩ := exists_aliasPath c [] t
  have hmem : n ∈ ns := by
    rcases stop n h with hnone | hmem | hmem
    · exact absurd hnone hn
    · exact hmem
    · cases hmem
  obtain ⟨before, behind, rfl⟩ := List.append_of_mem hmem
  obtain ⟨u, -, loop⟩ := path.exists_of_append
  exact ⟨behind, (List.nodup_append.1 distinct).2.1, loop.of_bare (h.trans loop.bare_eq.symm)⟩

/-- Following aliases once is enough: a loop of aliases that is left at a name is followed from
there back to that name. -/
theorem dealiased_dealiased (t : TypeExpr) : c.dealiased (c.dealiased t) = c.dealiased t := by
  by_cases h : ∃ n, (c.dealiased t).bare = .named n ∧ c.alias? n ≠ none
  · obtain ⟨n, hn, haliased⟩ := h
    obtain ⟨ns, distinct, loop⟩ := exists_aliasPath_self hn haliased
    rw [dealiased, loop.followAliases_eq distinct (by simp)]
    exact followAliases_of_mem hn (by simp)
  · refine dealiased_eq_self fun n hn => ?_
    by_contra haliased
    exact h ⟨n, hn, haliased⟩

/-! ### Where aliases end -/

/-- Whether the first name is an alias of the second, be it qualified. -/
def AliasNames (c : Catalog) (n m : String) : Prop :=
  ∃ t, c.alias? n = some t ∧ t.bare = .named m

/-- A path from a name to a name leads along aliases of names. -/
theorem AliasPath.transGen (h : c.AliasPath t (n :: ns) r) (hr : r.bare = .named name) :
    TransGen c.AliasNames n name := by
  induction ns generalizing t n with
  | nil =>
    cases h with
    | cons _ haliased rest =>
      cases rest
      exact .single ⟨r, haliased, hr⟩
  | cons m ns ih =>
    cases h with
    | cons _ haliased rest => exact .head ⟨_, haliased, rest.bare_eq⟩ (ih rest)

/-- The names on a path are declared. -/
theorem AliasPath.subset_names (h : c.AliasPath t ns r) : ns ⊆ c.types.entries.names := by
  induction h with
  | nil t => exact List.nil_subset _
  | cons ht haliased rest ih => exact List.cons_subset.2 ⟨mem_names_of_alias? haliased, ih⟩

/-- From any type, aliases are followed along a path of different names, so in no more steps than
types are declared. The type at its end is followed no further: if it is an alias, then of a name on
the path, and that name is on a loop of aliases. It does not matter where the loop was entered:
followed from its end, the path comes to the same end again. -/
theorem dealiased_ends (c : Catalog) (t : TypeExpr) :
    (∃ ns, c.AliasPath t ns (c.dealiased t) ∧ ns.Nodup ∧
        ns.length ≤ c.types.entries.names.length ∧
        ∀ n, (c.dealiased t).bare = .named n → c.alias? n ≠ none → n ∈ ns) ∧
      c.dealiased (c.dealiased t) = c.dealiased t ∧
      ∀ n, (c.dealiased t).bare = .named n → c.alias? n ≠ none → TransGen c.AliasNames n n := by
  refine ⟨?_, dealiased_dealiased t, ?_⟩
  · obtain ⟨ns, path, distinct, -, stop⟩ := exists_aliasPath c [] t
    refine ⟨ns, path, distinct, distinct.length_le_of_subset path.subset_names, ?_⟩
    intro n hn haliased
    rcases stop n hn with hnone | hmem | hmem
    · exact absurd hnone haliased
    · exact hmem
    · cases hmem
  · intro n hn haliased
    obtain ⟨ns, -, loop⟩ := exists_aliasPath_self hn haliased
    exact loop.transGen hn

/-- A loop of two aliases that is entered from a third one and left with the qualifier of its last
step. -/
theorem dealiased_ends_tail :
    let tail := TypeDeclaration.ofTypedef "Tail" (.nullable (.named "Odd"))
    let odd := TypeDeclaration.ofTypedef "Odd" (.named "Even")
    let even := TypeDeclaration.ofTypedef "Even" (.nonNull (.named "Odd"))
    let c := ofDeclarations [tail, odd, even] []
    c.dealiased (.named "Tail") = .nonNull (.named "Odd") ∧
      c.dealiased (.nonNull (.named "Odd")) = .nonNull (.named "Odd") ∧
      TransGen c.AliasNames "Odd" "Odd" := by
  intro tail odd even c
  have left : c.dealiased (.named "Tail") = .nonNull (.named "Odd") := by decide +kernel
  obtain ⟨-, again, loop⟩ := dealiased_ends c (.named "Tail")
  rw [left] at again loop
  exact ⟨left, again, loop "Odd" rfl (by decide +kernel)⟩

end ApiCatalog.Catalog
