import Mathlib.Data.List.Induction
import ApiCatalog.Form.Layout
import ApiCatalog.Proofs.Lexing

/-!
# What the counters count

The place where a text ends has a line and a column that can be counted in the text at once. A
position keeps them modulo `2 ^ 32`, and holds the numbers themselves as long as they stay below
that bound.

Main definitions: `lineOf`, `columnOf`, `Position.endOf`, `CountsFit`, `Span.IsCounted`.
Main statement: `Position.start_after`.
-/

namespace ApiCatalog

/-- The line that a text ends on, counted from one. -/
def lineOf (cs : List Char) : Nat := 1 + cs.count '\n'

/-- The column that a text ends in, counted from one: the characters on its last line are before
it. -/
def columnOf (cs : List Char) : Nat := 1 + (cs.reverse.takeWhile (· ≠ '\n')).length

theorem lineOf_concat (cs : List Char) (c : Char) :
    lineOf (cs ++ [c]) = if c = '\n' then lineOf cs + 1 else lineOf cs := by
  rw [lineOf, List.count_append, List.count_singleton]
  split <;> simp_all [lineOf, Nat.add_assoc]

theorem columnOf_concat (cs : List Char) (c : Char) :
    columnOf (cs ++ [c]) = if c = '\n' then 1 else columnOf cs + 1 := by
  rw [columnOf, List.reverse_append, List.reverse_singleton, List.singleton_append,
    List.takeWhile_cons]
  split <;> simp_all [columnOf, Nat.add_assoc]

namespace Position

/-- The place where a text ends: the bytes before it, and what 32 bits keep of its line and
column. -/
def endOf (cs : List Char) : Position :=
  ⟨byteCount cs, .ofNat (lineOf cs), .ofNat (columnOf cs)⟩

theorem advance_endOf (cs : List Char) (c : Char) :
    (endOf cs).advance c = endOf (cs ++ [c]) := by
  have bytes : byteCount (cs ++ [c]) = byteCount cs + c.utf8Size := by
    rw [byteCount_append, byteCount, byteCount, Nat.add_zero]
  have one : UInt32.ofNat 1 = 1 := rfl
  rw [advance, endOf, endOf, bytes, lineOf_concat, columnOf_concat]
  split <;> simp only [UInt32.ofNat_add, one]

/-- Counting character by character comes to the place that is counted at once. -/
theorem start_after (cs : List Char) : start.after cs = endOf cs := by
  induction cs using List.reverseRecOn with
  | nil => rfl
  | append_singleton cs c ih => rw [after_append, ih, after_cons, after_nil, advance_endOf]

theorem endOf_append (cs ds : List Char) : (endOf cs).after ds = endOf (cs ++ ds) := by
  rw [← start_after, ← start_after, after_append]

end Position

/-! ### The columns of a layout -/

theorem columnAfter_append (column : Nat) (text more : List Char) :
    columnAfter column (text ++ more) = columnAfter (columnAfter column text) more :=
  List.foldl_append

theorem columnAfter_of_not_mem {line : List Char} (unbroken : '\n' ∉ line) (column : Nat) :
    columnAfter column line = column + line.length := by
  induction line generalizing column with
  | nil => rfl
  | cons c cs ih =>
    obtain ⟨other, unbroken⟩ := List.ne_and_not_mem_of_not_mem_cons unbroken
    rw [columnAfter, List.foldl_cons, if_neg (Ne.symm other), ← columnAfter, ih unbroken,
      List.length_cons]
    omega

theorem columnAfter_newLine (start column : Nat) : columnAfter start (newLine column) = column := by
  have unbroken : '\n' ∉ List.replicate column ' ' := by simp
  have blanks := columnAfter_of_not_mem unbroken 0
  rwa [List.length_replicate, Nat.zero_add] at blanks

/-- An item is either the first, which begins where the output ends, or begins a line. -/
theorem columnAfter_gap {start column : Nat} {isFirst : Bool}
    (h : isFirst = true → start = column) :
    columnAfter start (if isFirst then [] else newLine column) = column := by
  cases isFirst with
  | true => exact h rfl
  | false => exact columnAfter_newLine start column

theorem columnAfter_opening (column : Nat) (b : Bracket) :
    columnAfter column [b.opening] = column + 1 := by
  cases b <;> rfl

/-- A layout counts the characters before a column, and a position the column itself. -/
theorem columnOf_eq (cs : List Char) : columnOf cs = columnAfter 0 cs + 1 := by
  induction cs using List.reverseRecOn with
  | nil => rfl
  | append_singleton cs c ih =>
    rw [columnOf_concat, columnAfter_append, ih]
    show _ = (if c = '\n' then 0 else columnAfter 0 cs + 1) + 1
    split <;> rfl

/-! ### Counts below the bound -/

/-- Whether no line of a text is too long for its columns to be counted in 32 bits. -/
def ColumnsFit (source : List Char) : Prop :=
  ∀ before, before <+: source → columnOf before < UInt32.size

/-- Whether the lines and columns of a text can be counted in 32 bits. -/
structure CountsFit (source : List Char) : Prop where
  lines : lineOf source < UInt32.size
  columns : ColumnsFit source

theorem lineOf_le_lineOf {before source : List Char} (h : before <+: source) :
    lineOf before ≤ lineOf source :=
  Nat.add_le_add_left (h.sublist.count_le _) 1

/-- A line has at most as many columns as there are characters. -/
theorem columnsFit_of_length {source : List Char} (h : source.length + 1 < UInt32.size) :
    ColumnsFit source := by
  intro before hbefore
  have short := hbefore.length_le
  have columns := (before.reverse.takeWhile_prefix (· ≠ '\n')).length_le
  rw [List.length_reverse] at columns
  rw [columnOf]
  omega

/-- A text has at most as many lines, and a line as many columns, as there are characters. -/
theorem countsFit_of_length {source : List Char} (h : source.length + 1 < UInt32.size) :
    CountsFit source := by
  refine ⟨?_, columnsFit_of_length h⟩
  have lines := source.count_le_length (a := '\n')
  rw [lineOf]
  omega

namespace CountsFit

variable {source before : List Char} (h : CountsFit source) (hbefore : before <+: source)
include h hbefore

theorem toNat_line : (Position.endOf before).line.toNat = lineOf before :=
  UInt32.toNat_ofNat_of_lt' (Nat.lt_of_le_of_lt (lineOf_le_lineOf hbefore) h.lines)

theorem toNat_column : (Position.endOf before).column.toNat = columnOf before :=
  UInt32.toNat_ofNat_of_lt' (h.columns before hbefore)

end CountsFit

/-- Whether a span begins on the line and in the column that are counted in the text before it. -/
def Span.IsCounted (s : Span) (source : List Char) : Prop :=
  ∀ before, before <+: source → byteCount before = s.start →
    s.line.toNat = lineOf before ∧ s.column.toNat = columnOf before

/-- The parts at the beginning of a text differ in their bytes. -/
theorem eq_of_byteCount_eq {source before before' : List Char} (h : before <+: source)
    (h' : before' <+: source) (bytes : byteCount before = byteCount before') :
    before = before' := by
  have same {cs ds : List Char} (part : cs <+: ds) (bytes : byteCount cs = byteCount ds) :
      cs = ds := by
    obtain ⟨more, rfl⟩ := part
    rw [byteCount_append] at bytes
    cases more with
    | nil => rw [List.append_nil]
    | cons c more =>
      have := byteCount_pos (List.cons_ne_nil c more)
      omega
  rcases List.prefix_or_prefix_of_prefix h h' with part | part
  · exact same part bytes
  · exact (same part bytes.symm).symm

/-- A span that begins where a part of a text ends is counted, if lines and columns fit. -/
theorem CountsFit.isCounted_between {source before : List Char} (h : CountsFit source)
    (hbefore : before <+: source) (q : Position) :
    (Span.between (.endOf before) q).IsCounted source := by
  intro before' hbefore' bytes
  obtain rfl := eq_of_byteCount_eq hbefore' hbefore bytes
  exact ⟨h.toNat_line hbefore, h.toNat_column hbefore⟩

end ApiCatalog
