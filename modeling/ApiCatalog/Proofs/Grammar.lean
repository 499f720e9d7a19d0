import ApiCatalog.Proofs.Rereading

/-!
# The grammar of forms

A text is a row of forms with trivia around them. A form is an atom, or such a row in brackets; a
map has an even number of forms. Trivia are comments and marks, each mark with the form that it
discards and trivia between the two.

A derivation says how tokens follow from the grammar. Strict reading accepts the tokens that have
one, and gives the forms of the derivation that are not discarded. There is one derivation at most,
since the first token of each part tells it from whatever else could stand there.

Main statement: `Form.all_derivation`.
-/

namespace ApiCatalog

/-! ### Derivations -/

mutual

/-- How a form is derived: as an atom, or as a row of forms in brackets. -/
inductive FormTree
  | atom (value : Atom) (span : Span)
  | bracketed (bracket : Bracket) (opening : Span) (leading : TriviaTree) (row : RowTree)
      (closing : Span)

/-- How trivia are derived, one behind the other. A mark is followed by trivia and the form that it
discards. -/
inductive TriviaTree
  | nil
  | comment (text : String) (span : Span) (rest : TriviaTree)
  | discard (mark : Span) (between : TriviaTree) (form : FormTree) (rest : TriviaTree)

/-- How a row of forms is derived, each with the trivia behind it. -/
inductive RowTree
  | nil
  | cons (form : FormTree) (trailing : TriviaTree) (rest : RowTree)

end

/-! ### The tokens and forms of a derivation -/

mutual

/-- The tokens of a form. -/
def FormTree.tokens : FormTree → List Token
  | .atom a s => [⟨.atom a, s⟩]
  | .bracketed b opening leading row closing =>
    ⟨.opening b, opening⟩ :: (leading.tokens ++ row.tokens) ++ [⟨.closing b, closing⟩]

/-- The tokens of trivia. -/
def TriviaTree.tokens : TriviaTree → List Token
  | .nil => []
  | .comment text s rest => ⟨.comment text, s⟩ :: rest.tokens
  | .discard mark between form rest =>
    ⟨.discard, mark⟩ :: (between.tokens ++ form.tokens) ++ rest.tokens

/-- The tokens of a row of forms. -/
def RowTree.tokens : RowTree → List Token
  | .nil => []
  | .cons form trailing rest => form.tokens ++ (trailing.tokens ++ rest.tokens)

end

mutual

/-- The form that is derived. -/
def FormTree.form : FormTree → Form
  | .atom a s => .atom a s
  | .bracketed b opening _ row closing => .seq b row.forms (opening.through closing)

/-- The forms of a row, in order. -/
def RowTree.forms : RowTree → List Form
  | .nil => []
  | .cons form _ rest => form.form :: rest.forms

end

mutual

/-- Whether every map in the form, discarded or not, has an even number of forms. -/
def FormTree.IsPaired : FormTree → Prop
  | .atom _ _ => True
  | .bracketed b _ leading row _ =>
    (b = .curly → row.forms.length % 2 = 0) ∧ leading.IsPaired ∧ row.IsPaired

/-- Whether every map in the trivia has an even number of forms. -/
def TriviaTree.IsPaired : TriviaTree → Prop
  | .nil => True
  | .comment _ _ rest => rest.IsPaired
  | .discard _ between form rest => between.IsPaired ∧ form.IsPaired ∧ rest.IsPaired

/-- Whether every map in the row has an even number of forms. -/
def RowTree.IsPaired : RowTree → Prop
  | .nil => True
  | .cons form trailing rest => form.IsPaired ∧ trailing.IsPaired ∧ rest.IsPaired

end

/-- How the tokens of a text are derived: as trivia and a row of forms. -/
structure Derivation where
  leading : TriviaTree
  row : RowTree
  leading_isPaired : leading.IsPaired
  row_isPaired : row.IsPaired

namespace Derivation

/-- The tokens that are derived. -/
def tokens (d : Derivation) : List Token := d.leading.tokens ++ d.row.tokens

/-- The forms that are not discarded, in order. -/
def forms (d : Derivation) : List Form := d.row.forms

end Derivation

/-! ### One derivation at most -/

namespace Token

/-- Whether trivia begin with the token. -/
def beginsTrivia (t : Token) : Bool :=
  match t.kind with
  | .comment _ => true
  | .discard => true
  | _ => false

end Token

/-- Whether trivia end before the tokens. -/
def EndsTrivia (ts : List Token) : Prop := ∀ t ∈ ts.head?, t.beginsTrivia = false

/-- Whether a row of forms ends before the tokens. -/
def EndsRow (ts : List Token) : Prop := ∀ t ∈ ts.head?, t.isClosing = true

theorem endsRow_nil : EndsRow [] := fun _ h => by cases h

theorem endsRow_closing (b : Bracket) (s : Span) (ts : List Token) :
    EndsRow (⟨.closing b, s⟩ :: ts) := fun _ h => by cases h; rfl

theorem EndsRow.endsTrivia {ts : List Token} (h : EndsRow ts) : EndsTrivia ts := by
  intro t ht
  have closing := h t ht
  obtain ⟨kind, span⟩ := t
  cases kind with
  | closing b => rfl
  | _ => cases closing

theorem FormTree.endsTrivia_append (f : FormTree) (ts : List Token) :
    EndsTrivia (f.tokens ++ ts) := by
  intro t ht
  cases f <;> (rw [FormTree.tokens] at ht; cases ht; rfl)

theorem RowTree.endsTrivia_append (row : RowTree) {ts : List Token} (h : EndsRow ts) :
    EndsTrivia (row.tokens ++ ts) := by
  cases row with
  | nil => exact h.endsTrivia
  | cons f trailing rest =>
    rw [RowTree.tokens, List.append_assoc]
    exact f.endsTrivia_append _

mutual

/-- Where a form begins, one form begins at most, and it ends at one place. -/
theorem FormTree.tokens_append_inj : ∀ (f g : FormTree) {ts us : List Token},
    f.tokens ++ ts = g.tokens ++ us → f = g ∧ ts = us
  | .atom a s, .atom a' s', ts, us, h => by
    simp only [FormTree.tokens, List.cons_append, List.nil_append, List.cons.injEq, Token.mk.injEq,
      TokenKind.atom.injEq] at h
    obtain ⟨⟨rfl, rfl⟩, rfl⟩ := h
    exact ⟨rfl, rfl⟩
  | .atom _ _, .bracketed .., _, _, h => by simp [FormTree.tokens] at h
  | .bracketed .., .atom _ _, _, _, h => by simp [FormTree.tokens] at h
  | .bracketed b o leading row c, .bracketed b' o' leading' row' c', ts, us, h => by
    simp only [FormTree.tokens, List.cons_append, List.append_assoc, List.nil_append,
      List.cons.injEq, Token.mk.injEq, TokenKind.opening.injEq] at h
    obtain ⟨⟨rfl, rfl⟩, h⟩ := h
    have ends := endsRow_closing b c ts
    have ends' := endsRow_closing b c' us
    obtain ⟨rfl, behind⟩ := leading.tokens_append_inj leading' (row.endsTrivia_append ends)
      (row'.endsTrivia_append ends') h
    obtain ⟨rfl, last⟩ := row.tokens_append_inj row' ends ends' behind
    simp only [List.cons.injEq, Token.mk.injEq, true_and] at last
    obtain ⟨rfl, rfl⟩ := last
    exact ⟨rfl, rfl⟩

theorem TriviaTree.tokens_append_inj : ∀ (a b : TriviaTree) {ts us : List Token},
    EndsTrivia ts → EndsTrivia us → a.tokens ++ ts = b.tokens ++ us → a = b ∧ ts = us
  | .nil, .nil, _, _, _, _, h => ⟨rfl, h⟩
  | .nil, .comment .., _, _, hts, _, h => by
    subst h
    exact absurd (hts _ rfl) (by simp [Token.beginsTrivia])
  | .nil, .discard .., _, _, hts, _, h => by
    subst h
    exact absurd (hts _ rfl) (by simp [Token.beginsTrivia])
  | .comment .., .nil, _, _, _, hus, h => by
    subst h
    exact absurd (hus _ rfl) (by simp [Token.beginsTrivia])
  | .discard .., .nil, _, _, _, hus, h => by
    subst h
    exact absurd (hus _ rfl) (by simp [Token.beginsTrivia])
  | .comment .., .discard .., _, _, _, _, h => by simp [TriviaTree.tokens] at h
  | .discard .., .comment .., _, _, _, _, h => by simp [TriviaTree.tokens] at h
  | .comment text s rest, .comment text' s' rest', ts, us, hts, hus, h => by
    simp only [TriviaTree.tokens, List.cons_append, List.cons.injEq, Token.mk.injEq,
      TokenKind.comment.injEq] at h
    obtain ⟨⟨rfl, rfl⟩, h⟩ := h
    obtain ⟨rfl, rfl⟩ := rest.tokens_append_inj rest' hts hus h
    exact ⟨rfl, rfl⟩
  | .discard mark between f rest, .discard mark' between' f' rest', ts, us, hts, hus, h => by
    simp only [TriviaTree.tokens, List.cons_append, List.append_assoc, List.cons.injEq,
      Token.mk.injEq, true_and] at h
    obtain ⟨rfl, h⟩ := h
    obtain ⟨rfl, marked⟩ := between.tokens_append_inj between' (f.endsTrivia_append _)
      (f'.endsTrivia_append _) h
    obtain ⟨rfl, behind⟩ := f.tokens_append_inj f' marked
    obtain ⟨rfl, rfl⟩ := rest.tokens_append_inj rest' hts hus behind
    exact ⟨rfl, rfl⟩

theorem RowTree.tokens_append_inj : ∀ (a b : RowTree) {ts us : List Token},
    EndsRow ts → EndsRow us → a.tokens ++ ts = b.tokens ++ us → a = b ∧ ts = us
  | .nil, .nil, _, _, _, _, h => ⟨rfl, h⟩
  | .nil, .cons f _ _, _, _, hts, _, h => by
    subst h
    cases f <;> exact absurd (hts _ rfl) (by simp [Token.isClosing])
  | .cons f _ _, .nil, _, _, _, hus, h => by
    subst h
    cases f <;> exact absurd (hus _ rfl) (by simp [Token.isClosing])
  | .cons f trailing rest, .cons f' trailing' rest', ts, us, hts, hus, h => by
    simp only [RowTree.tokens, List.append_assoc] at h
    obtain ⟨rfl, behind⟩ := f.tokens_append_inj f' h
    obtain ⟨rfl, others⟩ := trailing.tokens_append_inj trailing' (rest.endsTrivia_append hts)
      (rest'.endsTrivia_append hus) behind
    obtain ⟨rfl, rfl⟩ := rest.tokens_append_inj rest' hts hus others
    exact ⟨rfl, rfl⟩

end

/-- The grammar is unambiguous. -/
theorem Derivation.tokens_injective : Function.Injective Derivation.tokens := by
  rintro ⟨leading, row, _, _⟩ ⟨leading', row', _, _⟩ h
  have h : leading.tokens ++ (row.tokens ++ []) = leading'.tokens ++ (row'.tokens ++ []) := by
    simpa [Derivation.tokens] using h
  obtain ⟨rfl, behind⟩ := leading.tokens_append_inj leading' (row.endsTrivia_append endsRow_nil)
    (row'.endsTrivia_append endsRow_nil) h
  obtain ⟨rfl, -⟩ := row.tokens_append_inj row' endsRow_nil endsRow_nil behind
  rfl

/-! ### What is derived is read -/

/-- Where a form that is put on the stack completes nothing at top level, reading goes on. -/
theorem Places.run_of_accept {ts : List Token} {g : Form} (h : Places ts g) {stack next : Stack}
    (hnext : stack.accept g = .more next) : stack.run ts = some next := by
  obtain ⟨us, t, rfl, run⟩ := h
  obtain ⟨stack', hrun, hstep⟩ := run stack
  rw [Stack.run_append, hrun]
  exact Stack.run_singleton (hstep.trans hnext)

mutual

/-- The tokens of a form put it on any stack. -/
theorem FormTree.places : ∀ f : FormTree, f.IsPaired → Places f.tokens f.form
  | .atom _ _, _ => ⟨[], _, rfl, fun stack => ⟨stack, rfl, rfl⟩⟩
  | .bracketed b opening leading row closing, h => by
    obtain ⟨even, hleading, hrow⟩ := h
    refine ⟨⟨.opening b, opening⟩ :: (leading.tokens ++ row.tokens), ⟨.closing b, closing⟩, rfl,
      fun stack => ⟨.items b opening row.forms.reverse :: stack, ?_, ?_⟩⟩
    · rw [Stack.run, Stack.step]
      simp only
      rw [Stack.run_append, leading.run_tokens hleading, Option.bind_some,
        row.run_tokens hrow, List.append_nil]
    · have even : ¬(b = .curly ∧ row.forms.reverse.length % 2 = 1) := by
        rintro ⟨rfl, odd⟩
        have := even rfl
        rw [List.length_reverse] at odd
        omega
      simp only [Stack.step, Stack.close, ne_eq, not_true_eq_false, if_false, if_neg even,
        List.reverse_reverse, FormTree.form]

/-- Trivia leave a stack as it is. -/
theorem TriviaTree.run_tokens : ∀ a : TriviaTree, a.IsPaired → ∀ stack : Stack,
    stack.run a.tokens = some stack
  | .nil, _, _ => rfl
  | .comment _ _ rest, h, stack => rest.run_tokens h stack
  | .discard mark between f rest, h, stack => by
    obtain ⟨hbetween, hf, hrest⟩ := h
    have discarded : Stack.run (.discard mark :: stack) f.tokens = some stack :=
      (f.places hf).run_of_accept rfl
    rw [TriviaTree.tokens, List.cons_append, Stack.run, Stack.step]
    simp only
    rw [Stack.run_append, Stack.run_append, between.run_tokens hbetween, Option.bind_some,
      discarded, Option.bind_some, rest.run_tokens hrest]

/-- A row of forms becomes the latest items of the innermost bracket. -/
theorem RowTree.run_tokens : ∀ row : RowTree, row.IsPaired → ∀ (b : Bracket) (start : Span)
    (read : List Form) (outer : Stack), Stack.run (.items b start read :: outer) row.tokens =
      some (.items b start (row.forms.reverse ++ read) :: outer)
  | .nil, _, _, _, _, _ => rfl
  | .cons f trailing rest, h, b, start, read, outer => by
    obtain ⟨hf, htrailing, hrest⟩ := h
    rw [RowTree.tokens, Stack.run_append, (f.places hf).run, Option.bind_some, Stack.run_append,
      trailing.run_tokens htrailing, Option.bind_some, rest.run_tokens hrest, RowTree.forms]
    simp

end

theorem RowTree.readForms_tokens (stop : Span) : ∀ row : RowTree, row.IsPaired →
    readForms stop [] row.tokens = .ok row.forms
  | .nil, _ => rfl
  | .cons f trailing rest, h => by
    obtain ⟨hf, htrailing, hrest⟩ := h
    rw [RowTree.tokens, readForms_append_of_places (f.places hf),
      readForms_append_of_run (trailing.run_tokens htrailing []), rest.readForms_tokens stop hrest]
    rfl

/-- Derived tokens are read as the derived forms. -/
theorem Derivation.readForms_tokens (d : Derivation) (stop : Span) :
    readForms stop [] d.tokens = .ok d.forms := by
  rw [Derivation.tokens, readForms_append_of_run (d.leading.run_tokens d.leading_isPaired []),
    d.row.readForms_tokens stop d.row_isPaired, Derivation.forms]

/-! ### What is read is derived -/

/-- The stack on which reading goes on. Behind a form at top level it is empty. -/
def Step.next? : Step → Option Stack
  | .more stack => some stack
  | .done _ => some []
  | .failed _ _ _ => none

/-- The stack with a complete form put in its place. -/
def Stack.put (f : Form) : Stack → Stack
  | [] => []
  | .items b start read :: outer => .items b start (f :: read) :: outer
  | .discard _ :: outer => outer

theorem Stack.next?_accept (f : Form) (stack : Stack) :
    (stack.accept f).next? = some (stack.put f) := by
  rcases stack with _ | ⟨⟨b, start, read⟩ | mark, outer⟩ <;> rfl

/-- Each step of a reading without a fault leads to another such reading. -/
theorem exists_next?_of_readForms {stop : Span} {stack : Stack} {t : Token} {ts : List Token}
    {forms : List Form} (h : readForms stop stack (t :: ts) = .ok forms) :
    ∃ next, (stack.step t).next? = some next ∧ ∃ forms, readForms stop next ts = .ok forms := by
  rw [readForms] at h
  cases hstep : stack.step t with
  | more next =>
    rw [hstep] at h
    exact ⟨next, rfl, forms, h⟩
  | done f =>
    rw [hstep] at h
    refine ⟨[], rfl, ?_⟩
    cases hrest : readForms stop [] ts with
    | ok others => exact ⟨others, rfl⟩
    | error failure =>
      simp only [hrest] at h
      cases h
  | failed fault span stack =>
    rw [hstep] at h
    cases h

/-- Whether the tokens complete everything on the stack and then a text: each open bracket is
closed behind trivia and a row of forms, and each mark is followed by trivia and a form. -/
inductive Completes : Stack → List Token → Prop
  | ends (leading : TriviaTree) (row : RowTree) (hleading : leading.IsPaired)
      (hrow : row.IsPaired) : Completes [] (leading.tokens ++ row.tokens)
  | closes {b : Bracket} {start : Span} {read : List Form} {outer : Stack} {rest : List Token}
      (leading : TriviaTree) (row : RowTree) (closing : Span) (hleading : leading.IsPaired)
      (hrow : row.IsPaired) (even : b = .curly → (read.length + row.forms.length) % 2 = 0)
      (h : Completes (Stack.put (.seq b (read.reverse ++ row.forms) (start.through closing)) outer)
        rest) :
      Completes (.items b start read :: outer)
        (leading.tokens ++ (row.tokens ++ ⟨.closing b, closing⟩ :: rest))
  | discards {mark : Span} {outer : Stack} {rest : List Token} (between : TriviaTree)
      (f : FormTree) (hbetween : between.IsPaired) (hf : f.IsPaired) (h : Completes outer rest) :
      Completes (.discard mark :: outer) (between.tokens ++ (f.tokens ++ rest))

namespace Completes

variable {stack : Stack} {ts : List Token}

theorem comment (text : String) (s : Span) (h : Completes stack ts) :
    Completes stack (⟨.comment text, s⟩ :: ts) := by
  cases h with
  | ends leading row hleading hrow => exact .ends (.comment text s leading) row hleading hrow
  | closes leading row closing hleading hrow even h =>
    exact .closes (.comment text s leading) row closing hleading hrow even h
  | discards between f hbetween hf h => exact .discards (.comment text s between) f hbetween hf h

/-- Trivia that begin with a mark come before the trivia that are there. -/
theorem discard {mark : Span} (h : Completes (.discard mark :: stack) ts) :
    Completes stack (⟨.discard, mark⟩ :: ts) := by
  cases h with
  | discards between f hbetween hf h =>
    rw [← List.append_assoc]
    cases h with
    | ends leading row hleading hrow =>
      simpa [TriviaTree.tokens] using
        ends (.discard mark between f leading) row ⟨hbetween, hf, hleading⟩ hrow
    | closes leading row closing hleading hrow even h =>
      simpa [TriviaTree.tokens] using closes (.discard mark between f leading) row closing
        ⟨hbetween, hf, hleading⟩ hrow even h
    | @discards mark' outer rest between' f' hbetween' hf' h =>
      have earlier : Completes (.discard mark' :: outer) _ :=
        discards (.discard mark between f between') f' ⟨hbetween, hf, hbetween'⟩ hf' h
      simpa [TriviaTree.tokens] using earlier

/-- A form comes before the row that is there; behind a mark it is the one that is discarded. -/
theorem form (f : FormTree) (hf : f.IsPaired) (h : Completes (stack.put f.form) ts) :
    Completes stack (f.tokens ++ ts) := by
  rcases stack with _ | ⟨⟨b, start, read⟩ | mark, outer⟩
  · cases h with
    | ends leading row hleading hrow =>
      exact .ends .nil (.cons f leading row) trivial ⟨hf, hleading, hrow⟩
  · cases h with
    | @closes _ _ _ _ rest leading row closing hleading hrow even h =>
      have even : b = .curly → (read.length + (f.form :: row.forms).length) % 2 = 0 := by
        simpa [Nat.add_assoc, Nat.add_comm 1] using even
      have h : Completes (Stack.put (.seq b (read.reverse ++ f.form :: row.forms)
          (start.through closing)) outer) rest := by
        simpa using h
      have whole := closes .nil (.cons f leading row) closing trivial ⟨hf, hleading, hrow⟩ even h
      simpa [TriviaTree.tokens, RowTree.tokens] using whole
  · exact .discards .nil f trivial hf h

/-- A bracket that is opened and closed is a form. -/
theorem opening {b : Bracket} {start : Span} (h : Completes (.items b start [] :: stack) ts) :
    Completes stack (⟨.opening b, start⟩ :: ts) := by
  cases h with
  | closes leading row closing hleading hrow even h =>
    have even : b = .curly → row.forms.length % 2 = 0 := by simpa using even
    have whole := form (.bracketed b start leading row closing) ⟨even, hleading, hrow⟩ h
    simpa [FormTree.tokens] using whole

/-- The bracket that closes the innermost one ends its row. -/
theorem closing {b : Bracket} {span : Span} {next : Stack}
    (hstep : (stack.close b span).next? = some next) (h : Completes next ts) :
    Completes stack (⟨.closing b, span⟩ :: ts) := by
  rcases stack with _ | ⟨⟨opened, start, read⟩ | mark, outer⟩
  · cases hstep
  · rw [Stack.close] at hstep
    split at hstep
    · cases hstep
    · rename_i same
      obtain rfl : opened = b := not_not.1 same
      split at hstep
      · cases hstep
      · rename_i even
        rw [Stack.next?_accept, Option.some.injEq] at hstep
        subst hstep
        refine closes .nil .nil span trivial trivial (fun hb => ?_) (by simpa [RowTree.forms] using h)
        have : read.length % 2 ≠ 1 := fun odd => even ⟨hb, odd⟩
        simp only [RowTree.forms, List.length_nil]
        omega
  · cases hstep

/-- A step that does not fail makes its token part of a derivation. -/
theorem step {t : Token} {next : Stack} (hstep : (stack.step t).next? = some next)
    (h : Completes next ts) : Completes stack (t :: ts) := by
  obtain ⟨kind, span⟩ := t
  cases kind with
  | comment text =>
    cases hstep
    exact h.comment text span
  | discard =>
    cases hstep
    exact h.discard
  | opening b =>
    cases hstep
    exact h.opening
  | atom a =>
    rw [Stack.step, Stack.next?_accept, Option.some.injEq] at hstep
    subst hstep
    exact form (.atom a span) trivial h
  | closing b => exact closing hstep h
  | fault f => cases hstep

end Completes

/-- What is read without a fault completes what was begun. -/
theorem completes_of_readForms {stop : Span} {stack : Stack} {ts : List Token} {forms : List Form}
    (h : readForms stop stack ts = .ok forms) : Completes stack ts := by
  induction ts generalizing stack forms with
  | nil =>
    cases stack with
    | nil => exact .ends .nil .nil trivial trivial
    | cons frame outer => cases h
  | cons t ts ih =>
    obtain ⟨next, hstep, forms, hread⟩ := exists_next?_of_readForms h
    exact (ih hread).step hstep

theorem exists_derivation_of_readForms {stop : Span} {ts : List Token} {forms : List Form}
    (h : readForms stop [] ts = .ok forms) :
    ∃ d : Derivation, d.tokens = ts ∧ d.forms = forms := by
  obtain ⟨d, rfl⟩ : ∃ d : Derivation, d.tokens = ts := by
    cases completes_of_readForms h with
    | ends leading row hleading hrow => exact ⟨⟨leading, row, hleading, hrow⟩, rfl⟩
  exact ⟨d, rfl, Except.ok.inj ((d.readForms_tokens stop).symm.trans h)⟩

/-! ### Texts -/

theorem Form.all_eq_ok_iff {source : List Char} {forms : List Form} :
    all source = .ok forms ↔ readForms (lex source).stop [] (lex source).tokens = .ok forms := by
  simp only [all, Reader.all, Reader.ofText]
  cases readForms (lex source).stop [] (lex source).tokens <;> simp

/-- A text is read as the forms that are derived from its tokens. -/
theorem Form.all_eq_ok_iff_exists_derivation {source : List Char} {forms : List Form} :
    all source = .ok forms ↔
      ∃ d : Derivation, d.tokens = (lex source).tokens ∧ d.forms = forms := by
  rw [all_eq_ok_iff]
  refine ⟨exists_derivation_of_readForms, ?_⟩
  rintro ⟨d, htokens, rfl⟩
  exact htokens ▸ d.readForms_tokens _

theorem Form.exists_of_all_eq_error {source : List Char} {problem : Problem}
    (h : all source = .error problem) : ∃ message line column sourceLine,
      problem = ⟨.malformed message line column sourceLine, none⟩ := by
  simp only [all, Reader.all, Reader.ofText] at h
  split at h
  · cases h
  · cases h
    exact ⟨_, _, _, _, rfl⟩

/-- A list of even length is paired without loss. -/
theorem flatMap_pairs {α : Type} {xs : List α} (h : xs.length % 2 = 0) :
    (pairs xs).flatMap (fun e => [e.1, e.2]) = xs := by
  fun_induction pairs xs with
  | case1 a b rest ih =>
    have : rest.length % 2 = 0 := by
      simp only [List.length_cons] at h
      omega
    rw [List.flatMap_cons, ih this]
    rfl
  | case2 xs short =>
    rcases xs with _ | ⟨a, _ | ⟨b, rest⟩⟩
    · rfl
    · cases h
    · exact absurd rfl (short a b rest)

/-- The entries of a map that is derived are its forms, two by two. -/
theorem FormTree.exists_entries {opening closing : Span} {leading : TriviaTree} {row : RowTree}
    (h : (bracketed .curly opening leading row closing).IsPaired) :
    ∃ entries, (bracketed .curly opening leading row closing).form.map? = some entries ∧
      row.forms = entries.flatMap fun e => [e.1, e.2] :=
  ⟨pairs row.forms, rfl, (flatMap_pairs (h.1 rfl)).symm⟩

/-- Strict reading accepts exactly the texts whose tokens are derived from the grammar. It gives the
forms of the derivation that are not discarded; there is no other derivation, and the forms in a
map are its keys and values by turns. Any other text is malformed. -/
theorem Form.all_derivation :
    Function.Injective Derivation.tokens ∧
      (∀ opening leading row closing,
        (FormTree.bracketed .curly opening leading row closing).IsPaired →
          ∃ entries, (FormTree.bracketed .curly opening leading row closing).form.map? =
              some entries ∧ row.forms = entries.flatMap fun e => [e.1, e.2]) ∧
      ∀ source : List Char,
        (∀ forms, all source = .ok forms ↔
          ∃ d : Derivation, d.tokens = (lex source).tokens ∧ d.forms = forms) ∧
        ((¬ ∃ d : Derivation, d.tokens = (lex source).tokens) ↔
          ∃ message line column sourceLine,
            all source = .error ⟨.malformed message line column sourceLine, none⟩) := by
  refine ⟨Derivation.tokens_injective, fun _ _ _ _ => FormTree.exists_entries, fun source =>
    ⟨fun _ => all_eq_ok_iff_exists_derivation, fun none => ?_, ?_⟩⟩
  · cases h : all source with
    | ok forms =>
      obtain ⟨d, htokens, -⟩ := all_eq_ok_iff_exists_derivation.1 h
      exact absurd ⟨d, htokens⟩ none
    | error problem =>
      obtain ⟨message, line, column, sourceLine, rfl⟩ := exists_of_all_eq_error h
      exact ⟨message, line, column, sourceLine, rfl⟩
  · rintro ⟨_, _, _, _, h⟩ ⟨d, htokens⟩
    have ok := all_eq_ok_iff_exists_derivation.2 ⟨d, htokens, rfl⟩
    rw [h] at ok
    cases ok

/-- Marks one behind the other discard the forms behind them in turn, and a map follows. -/
theorem Form.all_derivation_marks :
    ∃ map : Form, all "#_ #_ a b \x7b:k c\x7d".toList = .ok [map] ∧
      ∃ entries, map.map? = some entries ∧
        [.atom (.keyword "k") ⟨11, 13, 1, 12⟩, .atom (.symbol "c") ⟨14, 15, 1, 15⟩] =
          entries.flatMap fun e => [e.1, e.2] := by
  let row : RowTree := .cons (.atom (.keyword "k") ⟨11, 13, 1, 12⟩) .nil
    (.cons (.atom (.symbol "c") ⟨14, 15, 1, 15⟩) .nil .nil)
  let map : FormTree := .bracketed .curly ⟨10, 11, 1, 11⟩ .nil row ⟨15, 16, 1, 16⟩
  have paired : map.IsPaired := by
    simp [map, row, RowTree.IsPaired, FormTree.IsPaired, TriviaTree.IsPaired, RowTree.forms]
  let marks : TriviaTree := .discard ⟨0, 2, 1, 1⟩
    (.discard ⟨3, 5, 1, 4⟩ .nil (.atom (.symbol "a") ⟨6, 7, 1, 7⟩) .nil)
    (.atom (.symbol "b") ⟨8, 9, 1, 9⟩) .nil
  let d : Derivation := ⟨marks, .cons map .nil .nil,
    by simp [marks, TriviaTree.IsPaired, FormTree.IsPaired], paired, trivial, trivial⟩
  have tokens : marks.tokens ++ (RowTree.cons map .nil .nil).tokens =
      (lex "#_ #_ a b \x7b:k c\x7d".toList).tokens := by decide +kernel
  exact ⟨map.form, ((Form.all_derivation.2.2 _).1 _).2 ⟨d, tokens, rfl⟩,
    Form.all_derivation.2.1 _ _ _ _ paired⟩

end ApiCatalog
