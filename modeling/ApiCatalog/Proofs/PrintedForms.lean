import ApiCatalog.Form.Layout
import ApiCatalog.Proofs.PrintedAtoms

/-!
# Printed forms divide into their tokens

However a form is laid out, its text is divided into its brackets and atoms: between two items there
is a blank or a line end, and no more is needed to tell them apart.

Main statements: `Form.spells_print`, `Form.spells_layout`.
-/

namespace ApiCatalog

namespace Form

mutual

/-- The brackets and atoms of a form. -/
def kinds : Form → List TokenKind
  | .atom a _ => [.atom a]
  | .seq bracket items _ => .opening bracket :: kindsOf items ++ [.closing bracket]

/-- The brackets and atoms of forms. -/
def kindsOf : List Form → List TokenKind
  | [] => []
  | f :: fs => f.kinds ++ kindsOf fs

end

/-! ### On one line -/

theorem isDelimited_space (cs : List Char) : IsDelimited (' ' :: cs) :=
  isDelimited_of_isBlank (by decide) cs

mutual

/-- A form on one line is divided into its brackets and atoms. -/
theorem spells_print : ∀ f : Form, f.MadeOf Atom.IsPrintable → Spells f.print f.kinds
  | .atom _ _, h => Atom.spells_print h
  | .seq bracket items _, h => (spells_printItems items h.items).bracketed bracket

theorem spells_printItems : ∀ items : List Form, (∀ f ∈ items, f.MadeOf Atom.IsPrintable) →
    Spells (printItems items) (kindsOf items)
  | [], _ => .nil
  | [item], h => by
    rw [kindsOf, kindsOf, List.append_nil]
    exact spells_print item (h item (by simp))
  | item :: next :: rest, h => by
    rw [List.forall_mem_cons] at h
    have space : ∀ c ∈ [' '], isBlank c = true := List.forall_mem_singleton.2 (by decide)
    have others := spells_printItems (next :: rest) h.2
    exact (spells_print item h.1).append (others.blanks_append space)
      (isDelimited_space _)

end

/-! ### Over lines -/

theorem isBlank_of_mem_newLine {column : Nat} : ∀ c ∈ newLine column, isBlank c = true := by
  intro c hc
  rcases List.mem_cons.1 hc with rfl | hc
  · decide
  · rw [List.eq_of_mem_replicate hc]
    decide

theorem isBlank_of_mem_gap (p : Prop) [Decidable p] {bs : List Char}
    (h : ∀ c ∈ bs, isBlank c = true) : ∀ c ∈ if p then [] else bs, isBlank c = true := by
  split
  · simp
  · exact h

theorem isDelimited_newLine (column : Nat) (cs : List Char) :
    IsDelimited (newLine column ++ cs) :=
  isDelimited_of_isBlank (by decide) _

variable (style : LayoutStyle)

/-- A clause begins with a blank, unless it is the first item of a declaration. -/
theorem isDelimited_layoutClauses (indent : Nat) {state : ClauseState} (h : state ≠ .first)
    (column : Nat) (items : List Form) :
    IsDelimited (layoutClauses style indent state column items) := by
  cases items with
  | nil => exact isDelimited_nil
  | cons item rest =>
    rw [layoutClauses]
    split
    · rw [List.append_assoc]
      exact isDelimited_newLine _ _
    · exact isDelimited_space _

theorem isDelimited_layoutItems (column : Nat) (items : List Form) :
    IsDelimited (layoutItems style column false items) := by
  cases items with
  | nil => exact isDelimited_nil
  | cons item rest =>
    rw [layoutItems, List.append_assoc]
    exact isDelimited_newLine _ _

theorem isDelimited_layoutEntries (column : Nat) (items : List Form) :
    IsDelimited (layoutEntries style column false items) := by
  rcases items with _ | ⟨key, _ | ⟨value, rest⟩⟩
  · exact isDelimited_nil
  · exact isDelimited_newLine _ _
  · rw [layoutEntries]
    simp only [List.append_assoc]
    exact isDelimited_newLine _ _

mutual

/-- A form over lines is divided into its brackets and atoms. -/
theorem spells_layout : ∀ (column : Nat) (f : Form), f.MadeOf Atom.IsPrintable →
    Spells (f.layout style column) f.kinds
  | _, .atom a s, h => spells_print (.atom a s) h
  | column, .seq .round items s, h => by
    rw [layout]
    split
    · exact (spells_layoutClauses _ _ _ items h.items).bracketed .round
    · exact spells_print (.seq .round items s) h
  | column, .seq .square items s, h => by
    rw [layout]
    split
    · exact spells_print (.seq .square items s) h
    · exact (spells_layoutItems _ _ items h.items).bracketed .square
  | column, .seq .curly items s, h => by
    rw [layout]
    split
    · exact spells_print (.seq .curly items s) h
    · exact (spells_layoutEntries _ _ items h.items).bracketed .curly

theorem spells_layoutClauses : ∀ (indent : Nat) (state : ClauseState) (column : Nat)
    (items : List Form), (∀ f ∈ items, f.MadeOf Atom.IsPrintable) →
    Spells (layoutClauses style indent state column items) (kindsOf items)
  | _, _, _, [], _ => .nil
  | indent, state, column, item :: rest, h => by
    rw [List.forall_mem_cons] at h
    rw [layoutClauses]
    split
    · exact ((spells_print item h.1).blanks_append isBlank_of_mem_newLine).append
        (spells_layoutClauses _ _ _ rest h.2) (isDelimited_layoutClauses style _ (by decide) _ _)
    · have space : ∀ c ∈ [' '], isBlank c = true := List.forall_mem_singleton.2 (by decide)
      have gap := isBlank_of_mem_gap (state = .first) space
      refine ((spells_layout _ item h.1).blanks_append gap).append
        (spells_layoutClauses _ _ _ rest h.2) (isDelimited_layoutClauses style _ ?_ _ _)
      split <;> decide

theorem spells_layoutItems : ∀ (column : Nat) (isFirst : Bool) (items : List Form),
    (∀ f ∈ items, f.MadeOf Atom.IsPrintable) →
    Spells (layoutItems style column isFirst items) (kindsOf items)
  | _, _, [], _ => .nil
  | column, isFirst, item :: rest, h => by
    rw [List.forall_mem_cons] at h
    have gap := isBlank_of_mem_gap isFirst (@isBlank_of_mem_newLine column)
    exact ((spells_layout _ item h.1).blanks_append gap).append
      (spells_layoutItems column false rest h.2) (isDelimited_layoutItems style _ _)

theorem spells_layoutEntries : ∀ (column : Nat) (isFirst : Bool) (items : List Form),
    (∀ f ∈ items, f.MadeOf Atom.IsPrintable) →
    Spells (layoutEntries style column isFirst items) (kindsOf items)
  | _, _, [], _ => .nil
  | column, isFirst, [key], h => by
    have gap := isBlank_of_mem_gap isFirst (@isBlank_of_mem_newLine column)
    rw [layoutEntries, kindsOf, kindsOf, List.append_nil]
    exact (spells_print key (h key (by simp))).blanks_append gap
  | column, isFirst, key :: value :: rest, h => by
    simp only [List.forall_mem_cons] at h
    have gap := isBlank_of_mem_gap isFirst (@isBlank_of_mem_newLine column)
    have space : ∀ c ∈ [' '], isBlank c = true := List.forall_mem_singleton.2 (by decide)
    have first := (spells_print key h.1).blanks_append gap
    have second := (spells_layout (columnAfter column
      ((if isFirst then [] else newLine column) ++ key.print ++ [' '])) value h.2.1).blanks_append
        space
    have entry := (first.append second (isDelimited_space _)).append
      (spells_layoutEntries column false rest h.2.2) (isDelimited_layoutEntries style _ _)
    rw [layoutEntries, kindsOf, kindsOf]
    simpa only [List.append_assoc] using entry

end

end Form

end ApiCatalog
