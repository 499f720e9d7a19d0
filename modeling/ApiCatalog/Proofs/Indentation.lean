import ApiCatalog.Proofs.Counters
import ApiCatalog.Proofs.DecimalText
import ApiCatalog.Proofs.Spelling

/-!
# Indented text

If clauses are indented, every line of a form but the first begins with a blank. So no token but
the first one of the form can stand in the first column, where a declaration is taken to begin.

Main statements: `Form.isIndented_layout`, `IsIndented.not_isInFirstColumn`.
-/

namespace ApiCatalog

/-- Whether every line but the first begins with a blank. -/
def IsIndented : List Char → Prop
  | [] => True
  | c :: cs => (c = '\n' → cs.head? = some ' ') ∧ IsIndented cs

namespace IsIndented

theorem append {cs ds : List Char} (hcs : IsIndented cs) (hds : IsIndented ds) :
    IsIndented (cs ++ ds) := by
  induction cs with
  | nil => exact hds
  | cons c cs ih =>
    refine ⟨fun hc => ?_, ih hcs.2⟩
    have head := hcs.1 hc
    cases cs with
    | nil => cases head
    | cons d cs => exact head

theorem of_not_mem {cs : List Char} (h : '\n' ∉ cs) : IsIndented cs := by
  induction cs with
  | nil => trivial
  | cons c cs ih =>
    rw [List.mem_cons, not_or] at h
    exact ⟨fun hc => absurd hc.symm h.1, ih h.2⟩

theorem cons {c : Char} {cs : List Char} (hc : c ≠ '\n') (h : IsIndented cs) :
    IsIndented (c :: cs) := ⟨fun hline => absurd hline hc, h⟩

end IsIndented

/-! ### Columns -/

/-- Whether the position is behind the first column, or in it before a blank. -/
def Position.IsIndented (p : Position) (cs : List Char) : Prop :=
  p.column = 1 → ∀ c ∈ cs.head?, c = ' '

/-- Whether on the way through a text no column goes round to zero. -/
def Position.Counts (p : Position) (cs : List Char) : Prop :=
  ∀ before, before <+: cs → (p.after before).column ≠ 0

/-- A column that fits is not zero, since columns are counted from one. -/
theorem ColumnsFit.counts {source : List Char} (h : ColumnsFit source) :
    Position.start.Counts source := by
  intro before hbefore zero
  have column := UInt32.toNat_ofNat_of_lt' (h before hbefore)
  rw [Position.start_after] at zero
  have zero : UInt32.ofNat (columnOf before) = 0 := zero
  rw [zero, columnOf, UInt32.toNat_zero] at column
  omega

namespace Position

namespace Counts

variable {p : Position} {c : Char} {cs ds : List Char}

theorem column_ne_zero (h : p.Counts cs) : p.column ≠ 0 := h [] (List.nil_prefix)

theorem left (h : p.Counts (cs ++ ds)) : p.Counts cs := fun before hbefore =>
  h before (hbefore.trans (List.prefix_append cs ds))

theorem after (h : p.Counts (cs ++ ds)) : (p.after cs).Counts ds := by
  intro before hbefore
  rw [← after_append]
  exact h _ ((List.prefix_append_right_inj cs).2 hbefore)

theorem advance (h : p.Counts (c :: cs)) : (p.advance c).Counts cs := @after p [c] cs h

end Counts

theorem isIndented_advance {p : Position} (hp : p.column ≠ 0) {c : Char} {cs : List Char}
    (h : ApiCatalog.IsIndented (c :: cs)) : (p.advance c).IsIndented cs := by
  intro first d hd
  unfold Position.advance at first
  split at first
  · rename_i hc
    have := (h.1 hc).symm.trans hd
    exact (Option.some.inj this).symm
  · exact absurd (by simpa using first) hp

/-- Behind any part of an indented text there is no first column but before a blank. -/
theorem isIndented_after {p : Position} {c : Char} {cs ds : List Char}
    (counts : p.Counts (c :: cs ++ ds)) (h : ApiCatalog.IsIndented (c :: cs ++ ds)) :
    (p.after (c :: cs)).IsIndented ds ∧ ApiCatalog.IsIndented ds := by
  induction cs generalizing p c with
  | nil => exact ⟨isIndented_advance counts.column_ne_zero h, h.2⟩
  | cons d cs ih => exact ih counts.advance h.2

theorem isIndented_after_scan {p : Position} {c : Char} {cs : List Char}
    (counts : p.Counts (c :: cs)) (h : ApiCatalog.IsIndented (c :: cs)) :
    (p.after (scan c cs).text).Counts (scan c cs).rest ∧
      (p.after (scan c cs).text).IsIndented (scan c cs).rest ∧
      ApiCatalog.IsIndented (scan c cs).rest := by
  have whole := scan_text_append_rest c cs
  rcases htext : (scan c cs).text with _ | ⟨d, ds⟩
  · exact absurd htext (scan_text_ne_nil c cs)
  · rw [htext] at whole
    rw [← whole] at counts h
    exact ⟨counts.after, isIndented_after counts h⟩

end Position

theorem not_isInFirstColumn_of_isIndented {p : Position} {cs : List Char} (counts : p.Counts cs)
    (h : IsIndented cs) (hcs : p.IsIndented cs) :
    ∀ t ∈ (lexFrom p cs).tokens, t.span.isInFirstColumn = false := by
  induction cs using lex_induction generalizing p with
  | nil => rw [lexFrom_nil]; simp
  | blank c cs hc ih =>
    rw [lexFrom_cons_blank p hc]
    exact ih counts.advance h.2 (Position.isIndented_advance counts.column_ne_zero h)
  | token c cs hc ih =>
    -- what stands in the first column is a blank, and no token begins with one
    have first : p.column ≠ 1 := fun first => by
      rw [hcs first c rfl] at hc
      exact absurd hc (by decide)
    obtain ⟨counts, place, rest⟩ := Position.isIndented_after_scan counts h
    rw [lexFrom_cons p hc, List.forall_mem_cons]
    exact ⟨by simpa [Span.isInFirstColumn, Span.between] using first, ih counts rest place⟩

/-- Of the tokens of an indented text only the first can stand in the first column, if no column
goes round. -/
theorem IsIndented.not_isInFirstColumn {p : Position} {cs : List Char} (counts : p.Counts cs)
    (h : IsIndented cs) : ∀ t ∈ (lexFrom p cs).tokens.tail, t.span.isInFirstColumn = false := by
  induction cs using lex_induction generalizing p with
  | nil => rw [lexFrom_nil]; simp
  | blank c cs hc ih =>
    rw [lexFrom_cons_blank p hc]
    exact ih counts.advance h.2
  | token c cs hc =>
    obtain ⟨counts, place, rest⟩ := Position.isIndented_after_scan counts h
    rw [lexFrom_cons p hc]
    exact not_isInFirstColumn_of_isIndented counts rest place

/-! ### Indents -/

/-- Whether the clauses of a declaration are indented, in whatever of the first columns it
begins. -/
def LayoutStyle.Indents (style : LayoutStyle) (n : Nat) : Prop :=
  ∀ column, column < n → 0 < style.indentFrom column

/-- Clauses are indented as long as the sum that says how far does not go round. -/
theorem LayoutStyle.indents_of_le {style : LayoutStyle} (h : 0 < style.indentWidth) {n : Nat}
    (hn : n + style.indentWidth.toNat ≤ UInt64.size) : style.Indents n := by
  intro column hcolumn
  have width : 0 < style.indentWidth.toNat := UInt64.lt_iff_toNat_lt.1 h
  have size : UInt64.size = 18446744073709551616 := rfl
  have fits : column < UInt64.size := by omega
  rw [indentFrom, UInt64.toNat_add, UInt64.toNat_ofNat_of_lt' fits]
  omega

/-- Whether a text that begins in a column reaches none but the first columns. -/
def StaysBelow (n column : Nat) (text : List Char) : Prop :=
  ∀ before, before <+: text → columnAfter column before < n

namespace StaysBelow

variable {n column : Nat} {cs ds : List Char}

theorem lt (h : StaysBelow n column cs) : column < n := h [] List.nil_prefix

theorem left (h : StaysBelow n column (cs ++ ds)) : StaysBelow n column cs :=
  fun before hbefore => h before (hbefore.trans (List.prefix_append cs ds))

theorem right (h : StaysBelow n column (cs ++ ds)) : StaysBelow n (columnAfter column cs) ds := by
  intro before hbefore
  rw [← columnAfter_append]
  exact h _ ((List.prefix_append_right_inj cs).2 hbefore)

theorem inside (b : Bracket) (h : StaysBelow n column (b.opening :: cs ++ [b.closing])) :
    StaysBelow n (column + 1) cs := by
  rw [← columnAfter_opening column b]
  exact @right n column [b.opening] cs h.left

end StaysBelow

theorem ColumnsFit.staysBelow {source : List Char} (h : ColumnsFit source) :
    StaysBelow UInt32.size 0 source := by
  intro before hbefore
  have := h before hbefore
  rw [columnOf_eq] at this
  omega

/-! ### Printed forms -/

theorem canContinueSymbol_newline : ¬ canContinueSymbol '\n' = true := by decide +kernel

theorem newline_not_mem_escape (c : Char) : '\n' ∉ escape c := by
  unfold escape
  split
  case h_6 hline _ _ => simpa using Ne.symm hline
  all_goals decide

/-- The text of an atom that can be printed is on one line. -/
theorem Atom.newline_not_mem_print {a : Atom} (h : a.IsPrintable) : '\n' ∉ a.print := by
  cases a with
  | bool b => cases b <;> decide
  | int n =>
    have digits : '\n' ∉ Integer.digits n.toInt.natAbs := fun hmem =>
      absurd (Nat.isDigit_of_mem_toDigits (by decide) (by decide) hmem) (by decide)
    show '\n' ∉ Integer.text n
    unfold Integer.text
    split
    · simpa using digits
    · exact digits
  | float x =>
    obtain ⟨whole, fraction, -, -, digits, written, -⟩ := Binary64.exists_literal h
    show '\n' ∉ x.literal
    rw [written, Binary64.mem_signed, List.mem_append, List.mem_cons]
    rintro (⟨-, hc⟩ | hc | hc | hc)
    · cases hc
    · exact absurd (digits _ (List.mem_append_left _ hc)) (by decide)
    · cases hc
    · exact absurd (digits _ (List.mem_append_right _ hc)) (by decide)
  | string s =>
    simp only [print, List.mem_append, List.mem_cons, List.mem_flatMap, List.not_mem_nil]
    rintro ((hc | ⟨c, -, hc⟩) | hc | hc)
    · cases hc
    · exact newline_not_mem_escape c hc
    · cases hc
    · exact hc
  | symbol name => exact fun hmem => canContinueSymbol_newline (canContinueSymbol_of_mem h hmem)
  | keyword name =>
    have h : isKeywordText name.toList = true := h
    simp only [isKeywordText, Bool.and_eq_true, List.all_eq_true] at h
    show '\n' ∉ ':' :: name.toList
    rw [List.mem_cons, not_or]
    exact ⟨by decide, fun hmem => canContinueSymbol_newline (h.2 _ hmem)⟩

namespace Form

mutual

theorem newline_not_mem_print : ∀ f : Form, f.MadeOf Atom.IsPrintable → '\n' ∉ f.print
  | .atom _ _, h => Atom.newline_not_mem_print h
  | .seq bracket items _, h => by
    rw [print, List.cons_append, List.mem_cons, List.mem_append, List.mem_singleton, not_or, not_or]
    refine ⟨?_, newline_not_mem_printItems items h.items, ?_⟩ <;> cases bracket <;> decide

theorem newline_not_mem_printItems : ∀ items : List Form,
    (∀ f ∈ items, f.MadeOf Atom.IsPrintable) → '\n' ∉ printItems items
  | [], _ => List.not_mem_nil
  | [item], h => newline_not_mem_print item (h item (by simp))
  | item :: next :: rest, h => by
    rw [List.forall_mem_cons] at h
    rw [printItems, List.mem_append, List.mem_cons, not_or, not_or]
    exact ⟨newline_not_mem_print item h.1, by decide, newline_not_mem_printItems _ h.2⟩

end

theorem isIndented_print {f : Form} (h : f.MadeOf Atom.IsPrintable) : IsIndented f.print :=
  .of_not_mem (newline_not_mem_print f h)

theorem isIndented_newLine {column : Nat} (h : 0 < column) : IsIndented (newLine column) := by
  obtain ⟨n, rfl⟩ := Nat.exists_eq_add_one.2 h
  exact ⟨fun _ => rfl, .of_not_mem fun hmem => absurd (List.eq_of_mem_replicate hmem) (by decide)⟩

theorem isIndented_gap (p : Prop) [Decidable p] {cs : List Char} (h : IsIndented cs) :
    IsIndented (if p then [] else cs) := by
  split
  · trivial
  · exact h

theorem newline_not_mem_gap (p : Prop) [Decidable p] : '\n' ∉ if p then [] else [' '] := by
  split <;> decide

theorem isIndented_bracketed (b : Bracket) {cs : List Char} (h : IsIndented cs) :
    IsIndented (b.opening :: cs ++ [b.closing]) := by
  refine .append (.cons ?_ h) (.of_not_mem ?_) <;> cases b <;> decide

variable {style : LayoutStyle} {n : Nat}

mutual

/-- The lines of a form behind the first are indented if clauses are, in all columns that the text
reaches. -/
theorem isIndented_layout (hstyle : style.Indents n) : ∀ (column : Nat) (f : Form),
    f.MadeOf Atom.IsPrintable → StaysBelow n column (f.layout style column) →
    IsIndented (f.layout style column)
  | _, .atom a s, h, _ => isIndented_print (f := .atom a s) h
  | column, .seq .round items s, h, hn => by
    revert hn
    rw [layout]
    split <;> intro hn
    · exact isIndented_bracketed .round (isIndented_layoutClauses hstyle _ _
        (hstyle column hn.lt) _ items h.items (hn.inside .round))
    · exact isIndented_print h
  | column, .seq .square items s, h, hn => by
    revert hn
    rw [layout]
    split <;> intro hn
    · exact isIndented_print h
    · exact isIndented_bracketed .square (isIndented_layoutItems hstyle _ _ _
        (Nat.succ_pos column) (fun _ => rfl) items h.items (hn.inside .square))
  | column, .seq .curly items s, h, hn => by
    revert hn
    rw [layout]
    split <;> intro hn
    · exact isIndented_print h
    · exact isIndented_bracketed .curly (isIndented_layoutEntries hstyle _ _ _
        (Nat.succ_pos column) (fun _ => rfl) items h.items (hn.inside .curly))

theorem isIndented_layoutClauses (hstyle : style.Indents n) : ∀ (indent : Nat)
    (state : ClauseState), 0 < indent → ∀ (column : Nat) (items : List Form),
    (∀ f ∈ items, f.MadeOf Atom.IsPrintable) →
    StaysBelow n column (layoutClauses style indent state column items) →
    IsIndented (layoutClauses style indent state column items)
  | _, _, _, _, [], _, _ => trivial
  | indent, state, hindent, column, item :: rest, h, hn => by
    rw [List.forall_mem_cons] at h
    revert hn
    rw [layoutClauses]
    split <;> intro hn
    · exact ((isIndented_newLine hindent).append (isIndented_print h.1)).append
        (isIndented_layoutClauses hstyle _ _ hindent _ rest h.2 hn.right)
    · have text := hn.left.right
      rw [columnAfter_of_not_mem (newline_not_mem_gap _)] at text
      exact ((isIndented_gap _ (.of_not_mem (by decide))).append
        (isIndented_layout hstyle _ item h.1 text)).append
          (isIndented_layoutClauses hstyle _ _ hindent _ rest h.2 hn.right)

theorem isIndented_layoutItems (hstyle : style.Indents n) : ∀ (start column : Nat)
    (isFirst : Bool), 0 < column → (isFirst = true → start = column) → ∀ items : List Form,
    (∀ f ∈ items, f.MadeOf Atom.IsPrintable) →
    StaysBelow n start (layoutItems style column isFirst items) →
    IsIndented (layoutItems style column isFirst items)
  | _, _, _, _, _, [], _, _ => trivial
  | start, column, isFirst, hcolumn, hstart, item :: rest, h, hn => by
    rw [List.forall_mem_cons] at h
    rw [layoutItems] at hn ⊢
    have text := hn.left.right
    rw [columnAfter_gap hstart] at text
    exact ((isIndented_gap _ (isIndented_newLine hcolumn)).append
      (isIndented_layout hstyle column item h.1 text)).append
        (isIndented_layoutItems hstyle _ column false hcolumn (fun later => by cases later) rest
          h.2 hn.right)

theorem isIndented_layoutEntries (hstyle : style.Indents n) : ∀ (start column : Nat)
    (isFirst : Bool), 0 < column → (isFirst = true → start = column) → ∀ items : List Form,
    (∀ f ∈ items, f.MadeOf Atom.IsPrintable) →
    StaysBelow n start (layoutEntries style column isFirst items) →
    IsIndented (layoutEntries style column isFirst items)
  | _, _, _, _, _, [], _, _ => trivial
  | _, column, isFirst, hcolumn, _, [key], h, _ =>
    (isIndented_gap _ (isIndented_newLine hcolumn)).append (isIndented_print (h key (by simp)))
  | start, column, isFirst, hcolumn, hstart, key :: value :: rest, h, hn => by
    simp only [List.forall_mem_cons] at h
    rw [layoutEntries] at hn ⊢
    have entry := (isIndented_gap (isFirst = true) (isIndented_newLine hcolumn)).append
      (isIndented_print h.1)
    have text := hn.left.right
    rw [List.append_assoc, columnAfter_append, columnAfter_gap hstart] at text
    have place : columnAfter column (key.print ++ [' ']) =
        columnAfter column ((if isFirst then [] else newLine column) ++ (key.print ++ [' '])) := by
      rw [columnAfter_append _ _ (key.print ++ [' ']), columnAfter_gap fun _ => rfl]
    rw [place, ← List.append_assoc] at text
    exact ((entry.append (.of_not_mem (by decide))).append
      (isIndented_layout hstyle _ value h.2.1 text)).append
        (isIndented_layoutEntries hstyle _ column false hcolumn (fun later => by cases later) rest
          h.2.2 hn.right)

end

end Form

end ApiCatalog
