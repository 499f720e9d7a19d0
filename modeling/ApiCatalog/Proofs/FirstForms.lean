import ApiCatalog.Proofs.ExactSpans
import ApiCatalog.TypeExpr.OfForm

/-!
# The first form of a text

The first form of a text is read without a look at what is behind it. So it is the only form of a
text that is cut off behind it, and a text has no other form exactly if nothing is found by a reader
that goes on from there.

The type that a text denotes is the one of its first form. Hence a text denotes a type if a front of
it is a type expression by itself; whatever follows is not looked at.

Main statements: `Form.first_eq_ok_iff`, `Form.all_eq_ok_singleton_iff`,
`TypeExpr.ofText_eq_ok_iff`.
-/

namespace ApiCatalog

/-! ### Tokens -/

/-- All forms are the first one and those that are read from the tokens behind it. -/
theorem readForms_eq_ok_cons_iff {stop : Span} {stack : Stack} {ts : List Token} {f : Form}
    {forms : List Form} :
    readForms stop stack ts = .ok (f :: forms) ↔
      ∃ rest, readForm stop stack ts = .ok (f, rest) ∧ readForms stop [] rest = .ok forms := by
  induction ts generalizing stack with
  | nil =>
    rw [readForms, readForm]
    split <;> simp
  | cons t ts ih =>
    rw [readForms, readForm]
    cases stack.step t with
    | more next => exact ih
    | done g => cases hrest : readForms stop [] ts <;> simp [Except.map, and_assoc, hrest]
    | failed fault span left => simp

/-- What is behind the tokens does not matter for the first form. -/
theorem readForm_append {stop stop' : Span} {stack : Stack} {ts rest : List Token} {f : Form}
    (h : readForm stop stack ts = .ok (f, rest)) (more : List Token) :
    readForm stop' stack (ts ++ more) = .ok (f, rest ++ more) := by
  obtain ⟨us, last, next, rfl, hrun, hlast⟩ := readForm_eq_ok_iff.1 h
  exact readForm_eq_ok_iff.2 ⟨us, last, next, by simp, hrun, hlast⟩

/-- The first form is the only one of the tokens up to its last, and no fault is among these. -/
theorem exists_append_of_readForm {stop : Span} {stack : Stack} {ts rest : List Token} {f : Form}
    (h : readForm stop stack ts = .ok (f, rest)) :
    ∃ us, us ≠ [] ∧ ts = us ++ rest ∧ (∀ t ∈ us, ∀ fault, t.kind ≠ .fault fault) ∧
      ∀ stop', readForms stop' stack us = .ok [f] := by
  obtain ⟨us, last, next, rfl, hrun, hlast⟩ := readForm_eq_ok_iff.1 h
  refine ⟨us ++ [last], List.append_ne_nil_of_right_ne_nil us (List.cons_ne_nil last []),
    List.append_cons us last rest, List.forall_mem_append.2 ⟨?_, ?_⟩, ?_⟩
  · exact Stack.kind_ne_fault_of_run hrun
  · exact List.forall_mem_singleton.2 (Stack.kind_ne_fault_of_step (congrArg Step.next? hlast))
  · intro stop'
    rw [readForms_append_of_run hrun, readForms, hlast]
    rfl

/-! ### Texts -/

namespace Form

variable {source : List Char} {f : Form}

theorem first_eq_ok_iff_exists_readForm :
    first source = .ok f ↔
      ∃ rest, readForm (lex source).stop [] (lex source).tokens = .ok (f, rest) := by
  simp only [first, Reader.next, Reader.ofText]
  cases readForm (lex source).stop [] (lex source).tokens with
  | ok found =>
    obtain ⟨g, rest⟩ := found
    simp
  | error failure => simp

/-- A text begins with a form exactly if it can be cut off, at the end of a token, so that this is
its only form. -/
theorem first_eq_ok_iff :
    first source = .ok f ↔
      ∃ part, part <+: source ∧ (lex part).tokens <+: (lex source).tokens ∧ all part = .ok [f] := by
  rw [first_eq_ok_iff_exists_readForm]
  constructor
  · rintro ⟨rest, h⟩
    obtain ⟨us, some, tokens, faultless, read⟩ := exists_append_of_readForm h
    obtain ⟨part, post, rfl, cut, -⟩ := exists_lexFrom_upto (p := .start) tokens some faultless
    have cut : (lex part).tokens = us := cut
    refine ⟨part, List.prefix_append part post, ?_, ?_⟩
    · rw [tokens, cut]
      exact List.prefix_append us rest
    · rw [all_eq_ok_iff, cut]
      exact read _
  · rintro ⟨part, -, ⟨more, tokens⟩, read⟩
    obtain ⟨rest, h, -⟩ := readForms_eq_ok_cons_iff.1 (all_eq_ok_iff.1 read)
    rw [← tokens]
    exact ⟨rest ++ more, readForm_append h more⟩

/-- A text has one form exactly if it begins with the form, and a reader that has read it finds no
form and no fault behind it. -/
theorem all_eq_ok_singleton_iff :
    all source = .ok [f] ↔
      first source = .ok f ∧ (Reader.ofText source).next.2.all.1 = .ok [] := by
  rw [all_eq_ok_iff, readForms_eq_ok_cons_iff, first_eq_ok_iff_exists_readForm]
  simp only [Reader.next, Reader.all, Reader.ofText]
  cases readForm (lex source).stop [] (lex source).tokens with
  | ok found =>
    obtain ⟨g, rest⟩ := found
    cases hrest : readForms (lex source).stop [] rest <;> simp [hrest]
  | error failure => simp

end Form

/-! ### Types -/

namespace TypeExpr

theorem ofText_eq_ok_iff_exists_first {source : List Char} {t : TypeExpr} :
    ofText source = .ok t ↔ ∃ f, Form.first source = .ok f ∧ ofForm f = .ok t := by
  rw [ofText]
  cases Form.first source with
  | ok f => cases hf : ofForm f <;> simp [Except.mapError, hf]
  | error problem => simp

/-- A text denotes a type exactly if a front of it, up to the end of a token, has one form and this
denotes the type. The text itself has one form that denotes the type exactly if, besides, a reader
that has read the first form finds no form and no fault behind it. -/
theorem ofText_eq_ok_iff (source : List Char) (t : TypeExpr) :
    (ofText source = .ok t ↔
      ∃ part f, part <+: source ∧ (lex part).tokens <+: (lex source).tokens ∧
        Form.all part = .ok [f] ∧ ofForm f = .ok t) ∧
    ((∃ f, Form.all source = .ok [f] ∧ ofForm f = .ok t) ↔
      ofText source = .ok t ∧ (Reader.ofText source).next.2.all.1 = .ok []) := by
  rw [ofText_eq_ok_iff_exists_first]
  constructor
  · constructor
    · rintro ⟨f, hfirst, hf⟩
      obtain ⟨part, front, tokens, read⟩ := Form.first_eq_ok_iff.1 hfirst
      exact ⟨part, f, front, tokens, read, hf⟩
    · rintro ⟨part, f, front, tokens, read, hf⟩
      exact ⟨f, Form.first_eq_ok_iff.2 ⟨part, front, tokens, read⟩, hf⟩
  · constructor
    · rintro ⟨f, read, hf⟩
      obtain ⟨hfirst, nothing⟩ := Form.all_eq_ok_singleton_iff.1 read
      exact ⟨⟨f, hfirst, hf⟩, nothing⟩
    · rintro ⟨⟨f, hfirst, hf⟩, nothing⟩
      exact ⟨f, Form.all_eq_ok_singleton_iff.2 ⟨hfirst, nothing⟩, hf⟩

/-- A text of two forms denotes the type of the first; so does one with a bracket behind that closes
nothing. -/
theorem ofText_before_more :
    (ofText "number string".toList = .ok (.primitive .number) ∧
        ¬ ∃ f, Form.all "number string".toList = .ok [f] ∧ ofForm f = .ok (.primitive .number)) ∧
      ofText "number )".toList = .ok (.primitive .number) ∧
        ¬ ∃ f, Form.all "number )".toList = .ok [f] ∧ ofForm f = .ok (.primitive .number) := by
  have two : (Form.all "number string".toList).toOption.map List.length = some 2 := by
    decide +kernel
  have malformed : (Form.all "number )".toList).toOption.map List.length = none := by
    decide +kernel
  refine ⟨⟨by decide +kernel, ?_⟩, by decide +kernel, ?_⟩
  · rintro ⟨f, h, -⟩
    rw [h] at two
    cases two
  · rintro ⟨f, h, -⟩
    rw [h] at malformed
    cases malformed

end TypeExpr

end ApiCatalog
