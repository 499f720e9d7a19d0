import ApiCatalog.Form.Lexer

/-!
# Spelled atoms

A symbol or keyword is spelled if its text is one that a token can have: a symbol begins with a
letter or mark, does not begin like a number and is no truth value; both are made of symbol
characters. Every other atom has a text that is a token.

Main definitions: `Atom.IsSpelled`, `Atom.IsPrintable`, `Form.MadeOf`.
-/

namespace ApiCatalog

/-- Whether a text is divided into one symbol. -/
def isSymbolText : List Char → Bool
  | [] => false
  | c :: rest =>
    canBeginSymbol c && !startsNumber c rest && rest.all canContinueSymbol &&
      c :: rest != "true".toList && c :: rest != "false".toList

/-- Whether a text makes one keyword behind a colon. -/
def isKeywordText (cs : List Char) : Bool := !cs.isEmpty && cs.all canContinueSymbol

/-- Whether some text is divided into the atom. -/
def Atom.IsSpelled : Atom → Prop
  | .symbol name => isSymbolText name.toList
  | .keyword name => isKeywordText name.toList
  | _ => True

instance (a : Atom) : Decidable a.IsSpelled := by
  cases a <;> unfold Atom.IsSpelled <;> infer_instance

/-- Whether the text of the atom is divided into the atom again: a number that is not finite has a
text, but one that is no number. -/
def Atom.IsPrintable : Atom → Prop
  | .float x => x.isFinite
  | a => a.IsSpelled

instance (a : Atom) : Decidable a.IsPrintable := by
  cases a <;> unfold Atom.IsPrintable <;> infer_instance

theorem canContinueSymbol_of_canBeginSymbol {c : Char} (h : canBeginSymbol c = true) :
    canContinueSymbol c = true := by
  simp [canContinueSymbol, h]

theorem isSymbolText_cons {c : Char} {rest : List Char} :
    isSymbolText (c :: rest) = true ↔
      canBeginSymbol c = true ∧ startsNumber c rest = false ∧
        (∀ d ∈ rest, canContinueSymbol d = true) ∧
        c :: rest ≠ "true".toList ∧ c :: rest ≠ "false".toList := by
  simp [isSymbolText, and_assoc]

theorem canContinueSymbol_of_mem {cs : List Char} (h : isSymbolText cs = true) {c : Char}
    (hc : c ∈ cs) : canContinueSymbol c = true := by
  cases cs with
  | nil => cases hc
  | cons d rest =>
    obtain ⟨begins, -, continues, -⟩ := isSymbolText_cons.1 h
    rcases List.mem_cons.1 hc with rfl | hc
    · exact canContinueSymbol_of_canBeginSymbol begins
    · exact continues c hc

/-- A qualifier in front of a symbol makes a symbol. -/
theorem isSymbolText_qualified {q : Char} {cs : List Char} (hq : q = '?' ∨ q = '!')
    (h : isSymbolText cs = true) : isSymbolText (q :: cs) = true := by
  refine isSymbolText_cons.2 ⟨?_, ?_, fun c hc => canContinueSymbol_of_mem h hc, ?_, ?_⟩ <;>
    rcases hq with rfl | rfl
  · decide
  · decide
  · rfl
  · rfl
  all_goals exact fun h => absurd (List.cons.inj h).1 (by decide)

/-! ### Atoms of a form -/

namespace Form

mutual

/-- Whether every atom in the form has the property, and every key in it has a value. -/
def MadeOf (P : Atom → Prop) : Form → Prop
  | .atom a _ => P a
  | .seq bracket items _ => (bracket = .curly → items.length % 2 = 0) ∧ AllMadeOf P items

/-- Whether all of the forms are made of atoms that have the property. -/
def AllMadeOf (P : Atom → Prop) : List Form → Prop
  | [] => True
  | f :: fs => f.MadeOf P ∧ AllMadeOf P fs

end

variable {P : Atom → Prop}

@[simp] theorem allMadeOf_iff {fs : List Form} : AllMadeOf P fs ↔ ∀ f ∈ fs, f.MadeOf P := by
  induction fs with
  | nil => simp [AllMadeOf]
  | cons f fs ih => simp [AllMadeOf, ih]

theorem madeOf_seq {b : Bracket} {items : List Form} {s : Span} :
    (Form.seq b items s).MadeOf P ↔
      (b = .curly → items.length % 2 = 0) ∧ ∀ f ∈ items, f.MadeOf P :=
  and_congr_right fun _ => allMadeOf_iff

theorem MadeOf.items {b : Bracket} {items : List Form} {s : Span}
    (h : (Form.seq b items s).MadeOf P) : ∀ f ∈ items, f.MadeOf P := (madeOf_seq.1 h).2

@[simp] theorem madeOf_symbol {name : String} : (symbol name).MadeOf P ↔ P (.symbol name) := .rfl

instance {name : String} [h : Decidable (P (.symbol name))] :
    Decidable ((symbol name).MadeOf P) := h

instance {name : String} [h : Decidable (P (.keyword name))] :
    Decidable ((keyword name).MadeOf P) := h

@[simp] theorem madeOf_list {items : List Form} :
    (list items).MadeOf P ↔ ∀ f ∈ items, f.MadeOf P := by
  simp [list, madeOf_seq]

@[simp] theorem madeOf_vector {items : List Form} :
    (vector items).MadeOf P ↔ ∀ f ∈ items, f.MadeOf P := by
  simp [vector, madeOf_seq]

@[simp] theorem madeOf_map {entries : List (Form × Form)} :
    (map entries).MadeOf P ↔ ∀ e ∈ entries, e.1.MadeOf P ∧ e.2.MadeOf P := by
  have paired : (entries.flatMap fun e => [e.1, e.2]).length % 2 = 0 := by
    simp [List.length_flatMap, List.map_const']
  simp only [map, madeOf_seq, paired, implies_true, true_and, List.mem_flatMap, List.mem_cons,
    List.not_mem_nil, or_false]
  constructor
  · exact fun h e he => ⟨h _ ⟨e, he, .inl rfl⟩, h _ ⟨e, he, .inr rfl⟩⟩
  · rintro h f ⟨e, he, rfl | rfl⟩
    · exact (h e he).1
    · exact (h e he).2

/-- A symbol in a form is one of its atoms. -/
theorem MadeOf.symbol? {f : Form} (h : f.MadeOf P) {name : String} (hn : f.symbol? = some name) :
    P (.symbol name) := by
  rcases f with ⟨_ | _ | _ | _ | _ | _, s⟩ | _ <;> cases hn
  exact h

/-- A keyword in a form is one of its atoms. -/
theorem MadeOf.keyword? {f : Form} (h : f.MadeOf P) {name : String}
    (hn : f.keyword? = some name) : P (.keyword name) := by
  rcases f with ⟨_ | _ | _ | _ | _ | _, s⟩ | _ <;> cases hn
  exact h

end Form

end ApiCatalog
