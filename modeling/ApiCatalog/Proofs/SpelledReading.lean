import ApiCatalog.Form.Reader
import ApiCatalog.Proofs.Lexing
import ApiCatalog.Proofs.Spelling

/-!
# What is read is spelled

An atom is a token of the text that it is read from, and a map is closed only behind the value of
its last key.

Main statement: `Form.madeOf_of_all`, the forms of a text are made of spelled atoms.
-/

namespace ApiCatalog

/-! ### Tokens -/

/-- Whether the token, if it is an atom, has the property. -/
def TokenKind.Holds (P : Atom → Prop) : TokenKind → Prop
  | .atom a => P a
  | _ => True

theorem holds_keywordKind {name : List Char} (h : ∀ c ∈ name, canContinueSymbol c = true) :
    (keywordKind name).Holds Atom.IsSpelled := by
  unfold keywordKind
  split
  · trivial
  · rename_i hne
    show isKeywordText (String.ofList name).toList = true
    simpa [isKeywordText, hne] using h

theorem holds_symbolKind {c : Char} {rest : List Char} (begins : canBeginSymbol c = true)
    (notNumber : startsNumber c rest = false) (h : ∀ d ∈ rest, canContinueSymbol d = true) :
    (symbolKind (c :: rest)).Holds Atom.IsSpelled := by
  unfold symbolKind
  split
  · trivial
  · rename_i htrue
    split
    · trivial
    · rename_i hfalse
      show isSymbolText (String.ofList (c :: rest)).toList = true
      rw [String.toList_ofList]
      exact isSymbolText_cons.2 ⟨begins, notNumber, h, htrue, hfalse⟩

theorem startsNumber_takeWhile {c : Char} {cs : List Char} (h : startsNumber c cs = false)
    (p : Char → Bool) : startsNumber c (cs.takeWhile p) = false := by
  cases cs with
  | nil => exact h
  | cons d cs =>
    rw [List.takeWhile_cons]
    split
    · exact h
    · simp only [startsNumber, Bool.or_eq_false_iff] at h ⊢
      exact ⟨h.1, by simp⟩

theorem holds_scanQuoted (read cs : List Char) :
    (scanQuoted read cs).kind.Holds Atom.IsSpelled := by
  fun_induction scanQuoted read cs with
  | case1 | case2 | case3 | case5 => trivial
  | case4 _ _ _ _ _ ih | case6 _ _ _ _ _ _ ih => exact ih

theorem holds_scanNumeral (negative : Bool) (cs : List Char) :
    (scanNumeral negative cs).kind.Holds Atom.IsSpelled := by
  simp only [scanNumeral]
  split
  · split
    · split <;> trivial
    · trivial
  · split <;> trivial

/-- An atom that a text is divided into is spelled. -/
theorem holds_scan (c : Char) (cs : List Char) : (scan c cs).kind.Holds Atom.IsSpelled := by
  have continues {ds : List Char} : ∀ d ∈ ds.takeWhile canContinueSymbol,
      canContinueSymbol d = true := List.all_eq_true.1 List.all_takeWhile
  unfold scan
  split <;> try trivial
  · unfold scanMark
    split <;> trivial
  · exact holds_keywordKind continues
  · exact holds_scanQuoted [] cs
  · split
    · split
      · exact holds_scanNumeral false _
      · exact holds_scanNumeral _ cs
    · rename_i notNumber
      split
      · rename_i begins
        show (symbolKind ((c :: cs).takeWhile canContinueSymbol)).Holds Atom.IsSpelled
        rw [List.takeWhile_cons, if_pos (canContinueSymbol_of_canBeginSymbol begins)]
        exact holds_symbolKind begins (startsNumber_takeWhile (by simpa using notNumber) _)
          continues
      · trivial

theorem holds_lexFrom (p : Position) (cs : List Char) :
    ∀ t ∈ (lexFrom p cs).tokens, t.kind.Holds Atom.IsSpelled := by
  induction cs using lex_induction generalizing p with
  | nil => rw [lexFrom_nil]; simp
  | blank c cs hc ih => rw [lexFrom_cons_blank p hc]; exact ih _
  | token c cs hc ih =>
    rw [lexFrom_cons p hc]
    exact List.forall_mem_cons.2 ⟨holds_scan c cs, ih _⟩

/-! ### Forms -/

section MadeOf

variable (P : Atom → Prop)

/-- Whether the forms read so far are made of atoms that have the property. -/
def Frame.MadeOf : Frame → Prop
  | .items _ _ read => ∀ f ∈ read, f.MadeOf P
  | .discard _ => True

/-- Whether what is complete after a step is made of atoms that have the property. -/
def Step.MadeOf : Step → Prop
  | .more stack => ∀ frame ∈ stack, frame.MadeOf P
  | .done form => form.MadeOf P
  | .failed .. => True

variable {P}

namespace Stack

theorem madeOf_accept {f : Form} (hf : f.MadeOf P) {stack : Stack}
    (h : ∀ frame ∈ stack, frame.MadeOf P) : (accept f stack).MadeOf P := by
  rcases stack with _ | ⟨⟨bracket, start, read⟩ | mark, outer⟩
  · exact hf
  · rw [List.forall_mem_cons] at h
    exact List.forall_mem_cons.2 ⟨List.forall_mem_cons.2 ⟨hf, h.1⟩, h.2⟩
  · exact (List.forall_mem_cons.1 h).2

theorem madeOf_close (bracket : Bracket) (span : Span) {stack : Stack}
    (h : ∀ frame ∈ stack, frame.MadeOf P) : (close bracket span stack).MadeOf P := by
  rcases stack with _ | ⟨⟨opened, start, read⟩ | mark, outer⟩
  · trivial
  · rw [List.forall_mem_cons] at h
    rw [close]
    split
    · trivial
    · split
      · trivial
      · -- a curly bracket is closed only behind an even number of items
        rename_i even
        refine madeOf_accept (Form.madeOf_seq.2 ⟨fun hb => ?_, ?_⟩) h.2
        · rw [List.length_reverse]
          have := mt (And.intro hb) even
          omega
        · exact fun f hf => h.1 f (List.mem_reverse.1 hf)
  · trivial

theorem madeOf_step {stack : Stack} (h : ∀ frame ∈ stack, frame.MadeOf P) {t : Token}
    (ht : t.kind.Holds P) : (step stack t).MadeOf P := by
  obtain ⟨kind, span⟩ := t
  cases kind with
  | comment text => exact h
  | discard => exact List.forall_mem_cons.2 ⟨trivial, h⟩
  | opening bracket => exact List.forall_mem_cons.2 ⟨fun _ hf => (List.not_mem_nil hf).elim, h⟩
  | atom a => exact madeOf_accept (f := .atom a span) ht h
  | closing bracket => exact madeOf_close bracket span h
  | fault f => trivial

end Stack

theorem madeOf_of_readForms {stop : Span} {stack : Stack} {ts : List Token} {forms : List Form}
    (hts : ∀ t ∈ ts, t.kind.Holds P) (hstack : ∀ frame ∈ stack, frame.MadeOf P)
    (h : readForms stop stack ts = .ok forms) : ∀ f ∈ forms, f.MadeOf P := by
  induction ts generalizing stack forms with
  | nil =>
    rw [readForms] at h
    split at h <;> cases h
    simp
  | cons t ts ih =>
    rw [List.forall_mem_cons] at hts
    have step := Stack.madeOf_step hstack hts.1
    rw [readForms] at h
    split at h <;> rename_i hstep <;> rw [hstep] at step
    · exact ih hts.2 step h
    · cases hrest : readForms stop [] ts with
      | error failure => rw [hrest] at h; cases h
      | ok rest =>
        rw [hrest] at h
        cases h
        exact List.forall_mem_cons.2 ⟨step, ih hts.2 (by simp) hrest⟩
    · cases h

end MadeOf

/-- The forms of a text are made of spelled atoms. -/
theorem Form.madeOf_of_all {source : List Char} {forms : List Form}
    (h : Form.all source = .ok forms) : ∀ f ∈ forms, f.MadeOf Atom.IsSpelled := by
  simp only [all, Reader.all, Reader.ofText] at h
  split at h <;> cases h
  rename_i hread
  exact madeOf_of_readForms (holds_lexFrom .start source) (by simp) hread

end ApiCatalog
