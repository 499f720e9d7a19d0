import Mathlib.Data.List.Forall2
import ApiCatalog.Proofs.Indentation
import ApiCatalog.Proofs.PlacedReading
import ApiCatalog.Proofs.PrintedForms

/-!
# Printed forms are read again

The brackets and atoms of a form put the form on a reader's stack, whatever is there already. So
texts of forms, with blanks between them, are read as the forms. If their lines are indented and
their columns fit, no token stands in the first column but where a form begins, and the recovering
reader takes each of the forms for what it is.

Main statements: `Form.readsAs_intercalate`, `Form.recoversAs_intercalate`.
-/

namespace ApiCatalog

/-- The form as if it had not been read from a text. -/
def Form.unplace (f : Form) : Form := f.mapSpan fun _ => .unplaced

/-! ### The tokens of a form -/

namespace Stack

/-- The stack behind tokens that complete nothing at top level. -/
def run (stack : Stack) : List Token → Option Stack
  | [] => some stack
  | t :: ts =>
    match stack.step t with
    | .more stack => run stack ts
    | _ => none

theorem run_append (stack : Stack) (ts us : List Token) :
    stack.run (ts ++ us) = (stack.run ts).bind (run · us) := by
  induction ts generalizing stack with
  | nil => rfl
  | cons t ts ih =>
    simp only [List.cons_append, run]
    cases stack.step t with
    | more stack => exact ih stack
    | done form => rfl
    | failed fault span stack => rfl

theorem run_singleton {stack stack' : Stack} {t : Token} (h : stack.step t = .more stack') :
    stack.run [t] = some stack' := by
  rw [run, h]
  rfl

end Stack

/-- Whether the tokens, the last one by itself, put the form on any stack. -/
def Places (ts : List Token) (g : Form) : Prop :=
  ∃ us t, ts = us ++ [t] ∧ ∀ stack : Stack, ∃ stack', stack.run us = some stack' ∧
    stack'.step t = stack.accept g

/-- Inside a bracket a form that is put on the stack becomes the latest item. -/
theorem Places.run {ts : List Token} {g : Form} (h : Places ts g) (b : Bracket) (start : Span)
    (read : List Form) (outer : Stack) :
    Stack.run (.items b start read :: outer) ts = some (.items b start (g :: read) :: outer) := by
  obtain ⟨us, t, rfl, run⟩ := h
  obtain ⟨stack', hrun, hstep⟩ := run (.items b start read :: outer)
  rw [Stack.run_append, hrun]
  exact Stack.run_singleton hstep

namespace Form

variable {P : Atom → Prop}

mutual

/-- Tokens of the kinds that a form consists of put that form on the stack, with their own
places. -/
theorem exists_places : ∀ (f : Form), f.MadeOf P → ∀ {ts : List Token},
    ts.map (·.kind) = f.kinds → ∃ g : Form, g.unplace = f.unplace ∧ Places ts g
  | .atom a s, _, ts, hts => by
    obtain ⟨t, rfl, ht⟩ := List.map_eq_singleton_iff.1 hts
    refine ⟨.atom a t.span, rfl, [], t, rfl, fun stack => ⟨stack, rfl, ?_⟩⟩
    rw [Stack.step, ht]
  | .seq b items s, h, ts, hts => by
    obtain ⟨us, vs, rfl, hus, hvs⟩ := List.map_eq_append_iff.1 hts
    obtain ⟨first, us, rfl, hfirst, hus⟩ := List.map_eq_cons_iff.1 hus
    obtain ⟨last, rfl, hlast⟩ := List.map_eq_singleton_iff.1 hvs
    obtain ⟨gs, hgs, run⟩ := exists_items items h.items hus
    refine ⟨.seq b gs (first.span.through last.span), ?_, first :: us, last, rfl, fun stack => ?_⟩
    · rw [unplace, unplace, mapSpan_seq, mapSpan_seq]
      exact congrArg (Form.seq b · _) hgs
    · refine ⟨.items b first.span gs.reverse :: stack, ?_, ?_⟩
      · rw [Stack.run, Stack.step, hfirst]
        simpa using run b first.span [] stack
      · have length : gs.length = items.length := by
          simpa using congrArg List.length hgs
        -- a map is closed only behind a value
        have even : ¬(b = .curly ∧ gs.reverse.length % 2 = 1) := by
          rintro ⟨rfl, odd⟩
          have := (madeOf_seq.1 h).1 rfl
          rw [List.length_reverse] at odd
          omega
        rw [Stack.step, hlast]
        simp only [Stack.close, ne_eq, not_true_eq_false, if_false, if_neg even,
          List.reverse_reverse]

theorem exists_items : ∀ (items : List Form), (∀ f ∈ items, f.MadeOf P) → ∀ {ts : List Token},
    ts.map (·.kind) = kindsOf items → ∃ gs : List Form, gs.map unplace = items.map unplace ∧
      ∀ (b : Bracket) (start : Span) (read : List Form) (outer : Stack),
        Stack.run (.items b start read :: outer) ts =
          some (.items b start (gs.reverse ++ read) :: outer)
  | [], _, ts, hts => by
    obtain rfl := List.map_eq_nil_iff.1 hts
    exact ⟨[], rfl, fun _ _ _ _ => rfl⟩
  | f :: fs, h, ts, hts => by
    rw [List.forall_mem_cons] at h
    obtain ⟨us, vs, rfl, hus, hvs⟩ := List.map_eq_append_iff.1 hts
    obtain ⟨g, hg, first⟩ := exists_places f h.1 hus
    obtain ⟨gs, hgs, rest⟩ := exists_items fs h.2 hvs
    refine ⟨g :: gs, by rw [List.map_cons, List.map_cons, hg, hgs], fun b start read outer => ?_⟩
    rw [Stack.run_append, first.run]
    simpa using rest b start (g :: read) outer

end

end Form

/-! ### Strict reading -/

theorem readForms_append_of_run {stop : Span} {stack stack' : Stack} {ts rest : List Token}
    (hrun : stack.run ts = some stack') :
    readForms stop stack (ts ++ rest) = readForms stop stack' rest := by
  induction ts generalizing stack with
  | nil =>
    cases hrun
    rfl
  | cons t ts ih =>
    rw [Stack.run] at hrun
    split at hrun
    · rename_i next hstep
      rw [List.cons_append, readForms, hstep]
      exact ih hrun
    · cases hrun

/-- The tokens of a form at top level are read as that form. -/
theorem readForms_append_of_places {stop : Span} {ts rest : List Token} {g : Form}
    (h : Places ts g) :
    readForms stop [] (ts ++ rest) = (readForms stop [] rest).map (g :: ·) := by
  obtain ⟨us, last, rfl, run⟩ := h
  obtain ⟨stack', hrun, hstep⟩ := run []
  rw [List.append_assoc, readForms_append_of_run hrun, List.singleton_append, readForms, hstep]
  rfl

theorem readForms_flatten (stop : Span) {tss : List (List Token)} {gs : List Form}
    (h : List.Forall₂ Places tss gs) : readForms stop [] tss.flatten = .ok gs := by
  induction h with
  | nil => rfl
  | cons first _ ih =>
    rw [List.flatten_cons, readForms_append_of_places first, ih]
    rfl

/-! ### Recovering reading -/

namespace Recovery

variable {forms : List Form} {faults : List (ReadFault × Span)} {leftOpen : Nat}

/-- Where no declaration begins inside an open bracket, a token makes its step. -/
theorem feed_of_not_inside {stack : Stack} {t : Token}
    (h : (t.beginsDeclaration && !stack.isEmpty && 0 < leftOpen + stack.depth) = false) :
    Recovery.feed ⟨forms, faults, .reading leftOpen stack⟩ t =
      match stack.step t with
      | .more stack => ⟨forms, faults, .reading leftOpen stack⟩
      | .done form => ⟨form :: forms, faults, .reading 0 []⟩
      | .failed fault span _ => ⟨forms, (fault, span) :: faults, .skipping⟩ := by
  simp only [Recovery.feed, h, Bool.false_eq_true, if_false]
  rfl

theorem feed_of_not_beginsDeclaration {stack : Stack} {t : Token}
    (h : stack = [] ∨ t.span.isInFirstColumn = false) :
    Recovery.feed ⟨forms, faults, .reading leftOpen stack⟩ t =
      match stack.step t with
      | .more stack => ⟨forms, faults, .reading leftOpen stack⟩
      | .done form => ⟨form :: forms, faults, .reading 0 []⟩
      | .failed fault span _ => ⟨forms, (fault, span) :: faults, .skipping⟩ := by
  refine feed_of_not_inside ?_
  rcases h with rfl | h
  · simp
  · simp [Token.beginsDeclaration, h]

theorem foldl_feed_of_run {stack stack' : Stack} {ts : List Token}
    (h : ∀ t ∈ ts, t.span.isInFirstColumn = false) (hrun : stack.run ts = some stack') :
    ts.foldl Recovery.feed ⟨forms, faults, .reading leftOpen stack⟩ =
      ⟨forms, faults, .reading leftOpen stack'⟩ := by
  induction ts generalizing stack with
  | nil =>
    cases hrun
    rfl
  | cons t ts ih =>
    rw [List.forall_mem_cons] at h
    rw [Stack.run] at hrun
    split at hrun
    · rename_i next hstep
      rw [List.foldl_cons, feed_of_not_beginsDeclaration (.inr h.1), hstep]
      exact ih h.2 hrun
    · cases hrun

/-- The tokens of a form at top level are read as that form, if none but the first of them stands
in the first column. -/
theorem foldl_feed_of_places {ts : List Token} {g : Form} (h : Places ts g)
    (hcolumn : ∀ t ∈ ts.tail, t.span.isInFirstColumn = false) :
    ts.foldl Recovery.feed ⟨forms, faults, .reading leftOpen []⟩ =
      ⟨g :: forms, faults, .reading 0 []⟩ := by
  obtain ⟨us, last, rfl, run⟩ := h
  obtain ⟨stack', hrun, hstep⟩ := run []
  cases us with
  | nil =>
    cases hrun
    rw [List.nil_append, List.foldl_cons, feed_of_not_beginsDeclaration (.inl rfl), hstep]
    rfl
  | cons first us =>
    have hcolumn : ∀ t ∈ us ++ [last], t.span.isInFirstColumn = false := hcolumn
    rw [List.forall_mem_append, List.forall_mem_singleton] at hcolumn
    rw [Stack.run] at hrun
    split at hrun
    · -- the first token may stand in the first column: nothing is open there
      rename_i next hfirst
      rw [List.cons_append, List.foldl_cons, feed_of_not_beginsDeclaration (.inl rfl), hfirst,
        List.foldl_append, foldl_feed_of_run hcolumn.1 hrun, List.foldl_cons,
        feed_of_not_beginsDeclaration (.inr hcolumn.2), hstep]
      rfl
    · cases hrun

theorem foldl_feed_flatten {tss : List (List Token)} {gs : List Form}
    (h : List.Forall₂ (fun ts g => Places ts g ∧ ∀ t ∈ ts.tail, t.span.isInFirstColumn = false)
      tss gs) :
    tss.flatten.foldl Recovery.feed ⟨forms, faults, .reading 0 []⟩ =
      ⟨gs.reverse ++ forms, faults, .reading 0 []⟩ := by
  induction h generalizing forms with
  | nil => rfl
  | cons first _ ih =>
    rw [List.flatten_cons, List.foldl_append, foldl_feed_of_places first.1 first.2, ih]
    simp

end Recovery

/-! ### Texts of forms -/

/-- The tokens of texts with blanks between them are those of the texts, each where it stands. No
column goes round there if none does in the whole. -/
theorem exists_tokens_intercalate {b : Char} (hb : isBlank b = true) {bs final : List Char}
    (hbs : ∀ c ∈ bs, isBlank c = true) (hfinal : ∀ c ∈ final, isBlank c = true)
    {render : Form → List Char} {forms : List Form} (h : ∀ f ∈ forms, Spells (render f) f.kinds)
    (p : Position) :
    ∃ tss : List (List Token),
      List.Forall₂ (fun f ts => ∃ q : Position,
        (p.Counts ((b :: bs).intercalate (forms.map render) ++ final) → q.Counts (render f)) ∧
          ts = (lexFrom q (render f)).tokens) forms tss ∧
      (lexFrom p ((b :: bs).intercalate (forms.map render) ++ final)).tokens = tss.flatten := by
  have ending (q : Position) : (lexFrom q final).tokens = [] := by
    have := lexFrom_blanks q final hfinal []
    rw [List.append_nil, lexFrom_nil] at this
    rw [this]
  induction forms generalizing p with
  | nil => exact ⟨[], .nil, ending p⟩
  | cons f fs ih =>
    rw [List.forall_mem_cons] at h
    cases fs with
    | nil =>
      rw [List.map_singleton, List.intercalate_singleton]
      refine ⟨[_], .cons ⟨p, fun counts => counts.left, rfl⟩ .nil, ?_⟩
      cases final with
      | nil => rw [List.append_nil, List.flatten_singleton]
      | cons c final =>
        rw [h.1.lexFrom_append (isDelimited_of_isBlank (hfinal c (by simp)) final), ending,
          List.flatten_singleton, List.append_nil]
    | cons g fs =>
      have blank : ∀ c ∈ b :: bs, isBlank c = true := List.forall_mem_cons.2 ⟨hb, hbs⟩
      have delimited (cs : List Char) : IsDelimited (b :: bs ++ cs) :=
        isDelimited_of_isBlank hb (bs ++ cs)
      obtain ⟨tss, htss, rest⟩ := ih h.2 ((p.after (render f)).after (b :: bs))
      rw [List.map_cons, List.map_cons, List.intercalate_cons_cons, List.append_assoc,
        List.append_assoc, ← List.map_cons]
      refine ⟨_ :: tss, .cons ⟨p, fun counts => counts.left, rfl⟩ (htss.imp ?_), ?_⟩
      · rintro f ts ⟨q, counts, here⟩
        exact ⟨q, fun whole => counts whole.after.after, here⟩
      · rw [h.1.lexFrom_append (delimited _), lexFrom_blanks _ _ blank, rest, List.flatten_cons]

namespace Form

/-- Whether the text is read as the forms, wherever in it they stand. -/
def ReadsAs (source : List Char) (forms : List Form) : Prop :=
  ∃ gs : List Form, gs.map unplace = forms.map unplace ∧ all source = .ok gs

/-- Whether the recovering reader takes the text for the forms, wherever in it they stand, and
finds no fault. -/
def RecoversAs (source : List Char) (forms : List Form) : Prop :=
  ∃ gs : List Form, gs.map unplace = forms.map unplace ∧ allRecovering source = (gs, [])

/-- The tokens of each text put its form on the stack, and they have what the tokens of the text
have wherever it may stand. -/
theorem exists_forall₂_places {R : Position → Form → Prop} {Q : List Token → Prop}
    {render : Form → List Char} {forms : List Form} {tss : List (List Token)}
    (htss : List.Forall₂ (fun f ts => ∃ q : Position, R q f ∧ ts = (lexFrom q (render f)).tokens)
      forms tss)
    (h : ∀ f ∈ forms, f.MadeOf Atom.IsPrintable) (hspells : ∀ f ∈ forms, Spells (render f) f.kinds)
    (hQ : ∀ f ∈ forms, ∀ q : Position, R q f → Q (lexFrom q (render f)).tokens) :
    ∃ gs : List Form, gs.map unplace = forms.map unplace ∧
      List.Forall₂ (fun ts g => Places ts g ∧ Q ts) tss gs := by
  induction htss with
  | nil => exact ⟨[], rfl, .nil⟩
  | @cons f ts fs tss first rest ih =>
    rw [List.forall_mem_cons] at h hspells hQ
    obtain ⟨q, hq, rfl⟩ := first
    obtain ⟨g, hg, places⟩ := exists_places f h.1 (hspells.1.kinds_lexFrom q)
    obtain ⟨gs, hgs, others⟩ := ih h.2 hspells.2 hQ.2
    exact ⟨g :: gs, by rw [List.map_cons, List.map_cons, hg, hgs],
      .cons ⟨places, hQ.1 q hq⟩ others⟩

section Rendered

variable {b : Char} {bs final : List Char} {render : Form → List Char} {forms : List Form}
  (hb : isBlank b = true) (hbs : ∀ c ∈ bs, isBlank c = true)
  (hfinal : ∀ c ∈ final, isBlank c = true) (h : ∀ f ∈ forms, f.MadeOf Atom.IsPrintable)
  (hspells : ∀ f ∈ forms, Spells (render f) f.kinds)
include hb hbs hfinal h hspells

/-- Texts of forms with blanks between them are read as the forms. -/
theorem readsAs_intercalate : ReadsAs ((b :: bs).intercalate (forms.map render) ++ final) forms := by
  obtain ⟨tss, htss, tokens⟩ := exists_tokens_intercalate hb hbs hfinal hspells .start
  obtain ⟨gs, hgs, places⟩ :=
    exists_forall₂_places (Q := fun _ => True) htss h hspells fun _ _ _ _ => trivial
  refine ⟨gs, hgs, ?_⟩
  rw [← lex] at tokens
  have read (stop : Span) := readForms_flatten stop (places.imp fun _ _ => And.left)
  simp only [all, Reader.all, Reader.ofText, tokens, read]

/-- The recovering reader takes indented texts of forms for the forms, if their columns fit. -/
theorem recoversAs_intercalate (hindented : ∀ f ∈ forms, IsIndented (render f))
    (columns : ColumnsFit ((b :: bs).intercalate (forms.map render) ++ final)) :
    RecoversAs ((b :: bs).intercalate (forms.map render) ++ final) forms := by
  obtain ⟨tss, htss, tokens⟩ := exists_tokens_intercalate hb hbs hfinal hspells .start
  obtain ⟨gs, hgs, places⟩ := exists_forall₂_places
    (Q := fun ts => ∀ t ∈ ts.tail, t.span.isInFirstColumn = false) htss h hspells
    fun f hf q hq => (hindented f hf).not_isInFirstColumn (hq columns.counts)
  refine ⟨gs, hgs, ?_⟩
  rw [← lex] at tokens
  simp [allRecovering, Reader.allRecovering, Reader.ofText, recover, tokens, Recovery.start,
    Recovery.foldl_feed_flatten places, Recovery.finish]

end Rendered

theorem exists_toList_document (style : LayoutStyle) (forms : List Form) :
    ∃ final : List Char, (∀ c ∈ final, isBlank c = true) ∧ (document style forms).toList =
      ['\n', '\n'].intercalate (forms.map (layout style 0)) ++ final := by
  have text : ("\n\n".intercalate (forms.map (laidOut style))).toList =
      ['\n', '\n'].intercalate (forms.map (layout style 0)) := by
    rw [String.toList_intercalate, List.map_map]
    congr 1
    refine List.map_congr_left fun f _ => ?_
    rw [Function.comp_apply, laidOut, String.toList_ofList]
  unfold document
  dsimp only
  split
  · exact ⟨[], by simp, by rw [text, List.append_nil]⟩
  · exact ⟨['\n'], List.forall_mem_singleton.2 (by decide), by rw [String.toList_append, text]; rfl⟩

end Form

end ApiCatalog
