import ApiCatalog.Proofs.DiscardedForms
import ApiCatalog.Proofs.Excerpts
import ApiCatalog.Proofs.Grammar

/-!
# Spans of forms are exact

Whatever a reader gives, strict or recovering, is derived from tokens that stand in a row in the
text, and so is every form inside of it. Those tokens make up an excerpt of the text, which is
divided into the same tokens by itself; hence the text under the span of a form is read as that form
again. The tokens of the items lie between the brackets, and so do their spans.

Main definitions: `Form.IsNodeOf`, `Form.IsReadFrom`. Main statement: `Form.exactSpan_of_isNodeOf`.
-/

namespace ApiCatalog

/-- Whether a form is a node of another: that form itself, or a node of one of its items. -/
inductive Form.IsNodeOf (n : Form) : Form → Prop
  | self : n.IsNodeOf n
  | item {b : Bracket} {items : List Form} {s : Span} {f : Form} (hf : f ∈ items)
      (h : n.IsNodeOf f) : n.IsNodeOf (.seq b items s)

/-- Whether the strict or the recovering reader gives the form for a text. -/
def Form.IsReadFrom (f : Form) (source : List Char) : Prop :=
  (∃ forms, all source = .ok forms ∧ f ∈ forms) ∨ f ∈ (allRecovering source).1

/-! ### Derivations inside of derivations -/

/-- Each form of a row is derived from tokens that stand in a row among those of the row. -/
theorem RowTree.exists_of_mem_forms {f : Form} : ∀ row : RowTree, row.IsPaired → f ∈ row.forms →
    ∃ g : FormTree, g.IsPaired ∧ g.form = f ∧ g.tokens <:+: row.tokens
  | .nil, _, hf => absurd hf List.not_mem_nil
  | .cons g trailing rest, h, hf => by
    obtain ⟨hg, -, hrest⟩ := h
    rcases List.mem_cons.1 hf with rfl | hf
    · exact ⟨g, hg, rfl, (List.prefix_append _ _).isInfix⟩
    · obtain ⟨g', hg', form, tokens⟩ := rest.exists_of_mem_forms hrest hf
      refine ⟨g', hg', form, tokens.trans ?_⟩
      rw [RowTree.tokens, ← List.append_assoc]
      exact (List.suffix_append _ _).isInfix

/-- The tokens of a row stand in a row between the brackets. -/
theorem RowTree.tokens_isInfix_bracketed (b : Bracket) (opening : Span) (leading : TriviaTree)
    (row : RowTree) (closing : Span) :
    row.tokens <:+: (FormTree.bracketed b opening leading row closing).tokens := by
  exact ⟨⟨.opening b, opening⟩ :: leading.tokens, [⟨.closing b, closing⟩],
    by simp [FormTree.tokens]⟩

/-- Each node of a form is derived from tokens that stand in a row among those of the form. -/
theorem FormTree.exists_of_isNodeOf {n f : Form} (hn : n.IsNodeOf f) :
    ∀ {g : FormTree}, g.IsPaired → g.form = f →
      ∃ g' : FormTree, g'.IsPaired ∧ g'.form = n ∧ g'.tokens <:+: g.tokens := by
  induction hn with
  | self => exact fun hg form => ⟨_, hg, form, List.infix_rfl⟩
  | item hf _ ih =>
    intro g hg form
    cases g with
    | atom a s => cases form
    | bracketed _ opening leading row closing =>
      cases form
      obtain ⟨g', hg', form', tokens⟩ := row.exists_of_mem_forms hg.2.2 hf
      obtain ⟨g'', hg'', form'', tokens'⟩ := ih hg' form'
      exact ⟨g'', hg'', form'', tokens'.trans
        (tokens.trans (row.tokens_isInfix_bracketed _ opening leading closing))⟩

/-- A form reaches from its first token to its last. -/
theorem FormTree.exists_ends : ∀ g : FormTree, ∃ first ∈ g.tokens.head?, ∃ last ∈ g.tokens.getLast?,
    g.form.span = first.span.through last.span
  | .atom a s => ⟨⟨.atom a, s⟩, rfl, ⟨.atom a, s⟩, rfl, rfl⟩
  | .bracketed b opening _ _ closing =>
    ⟨⟨.opening b, opening⟩, rfl, ⟨.closing b, closing⟩,
      List.getLast?_concat, rfl⟩

/-- A token at which reading goes on is no fault. -/
theorem Stack.kind_ne_fault_of_step {stack next : Stack} {t : Token}
    (h : (stack.step t).next? = some next) (fault : LexicalFault) : t.kind ≠ .fault fault := by
  intro kind
  rw [Stack.step, kind] at h
  cases h

/-- No fault is among tokens that complete nothing at top level. -/
theorem Stack.kind_ne_fault_of_run {stack stack' : Stack} {ts : List Token}
    (h : stack.run ts = some stack') : ∀ t ∈ ts, ∀ fault, t.kind ≠ .fault fault := by
  induction ts generalizing stack with
  | nil => exact fun _ ht => absurd ht List.not_mem_nil
  | cons t ts ih =>
    rw [Stack.run] at h
    split at h
    · rename_i next hstep
      exact List.forall_mem_cons.2 ⟨Stack.kind_ne_fault_of_step (congrArg Step.next? hstep), ih h⟩
    · cases h

/-- No fault is among the tokens of a form. -/
theorem Places.kind_ne_fault {ts : List Token} {f : Form} (h : Places ts f) :
    ∀ t ∈ ts, ∀ fault, t.kind ≠ .fault fault := by
  obtain ⟨us, last, rfl, run⟩ := h
  obtain ⟨stack', hrun, hstep⟩ := run []
  refine List.forall_mem_append.2 ⟨Stack.kind_ne_fault_of_run hrun, ?_⟩
  exact List.forall_mem_singleton.2 (Stack.kind_ne_fault_of_step (congrArg Step.next? hstep))

/-! ### The same derivation at another place -/

theorem Token.eq_of_kind {t : Token} {kind : TokenKind} (h : t.kind = kind) :
    ⟨kind, t.span⟩ = t := by
  rw [← h]

mutual

/-- Tokens of the same kinds are derived alike. -/
theorem FormTree.exists_of_kinds : ∀ g : FormTree, g.IsPaired → ∀ {ts : List Token},
    ts.map (·.kind) = g.tokens.map (·.kind) →
      ∃ g' : FormTree, g'.IsPaired ∧ g'.tokens = ts ∧ g'.form.unplace = g.form.unplace
  | .atom a s, _, ts, h => by
    obtain ⟨t, rfl, ht⟩ := List.map_eq_singleton_iff.1 h
    refine ⟨.atom a t.span, trivial, ?_, rfl⟩
    rw [FormTree.tokens, Token.eq_of_kind ht]
  | .bracketed b opening leading row closing, hg, ts, h => by
    obtain ⟨even, hleading, hrow⟩ := hg
    simp only [FormTree.tokens, List.cons_append, List.map_cons, List.map_append] at h
    obtain ⟨first, ts, rfl, hfirst, h⟩ := List.map_eq_cons_iff.1 h
    obtain ⟨inner, ends, rfl, hinner, hends⟩ := List.map_eq_append_iff.1 h
    obtain ⟨us, vs, rfl, hus, hvs⟩ := List.map_eq_append_iff.1 hinner
    obtain ⟨last, rfl, hlast⟩ := List.map_eq_singleton_iff.1 hends
    obtain ⟨leading', hleading', rfl⟩ := leading.exists_of_kinds hleading hus
    obtain ⟨row', hrow', rfl, forms⟩ := row.exists_of_kinds hrow hvs
    have length : row'.forms.length = row.forms.length := by
      simpa using congrArg List.length forms
    refine ⟨.bracketed b first.span leading' row' last.span,
      ⟨fun hb => by rw [length, even hb], hleading', hrow'⟩, ?_, ?_⟩
    · rw [FormTree.tokens, Token.eq_of_kind hfirst, Token.eq_of_kind hlast, List.cons_append]
    · rw [FormTree.form, FormTree.form, Form.unplace, Form.unplace, Form.mapSpan_seq,
        Form.mapSpan_seq]
      exact congrArg (Form.seq b · _) forms

theorem TriviaTree.exists_of_kinds : ∀ a : TriviaTree, a.IsPaired → ∀ {ts : List Token},
    ts.map (·.kind) = a.tokens.map (·.kind) →
      ∃ a' : TriviaTree, a'.IsPaired ∧ a'.tokens = ts
  | .nil, _, ts, h => ⟨.nil, trivial, (List.map_eq_nil_iff.1 h).symm⟩
  | .comment text s rest, hrest, ts, h => by
    obtain ⟨first, ts, rfl, hfirst, h⟩ := List.map_eq_cons_iff.1 h
    obtain ⟨rest', hrest', rfl⟩ := rest.exists_of_kinds hrest h
    refine ⟨.comment text first.span rest', hrest', ?_⟩
    rw [TriviaTree.tokens, Token.eq_of_kind hfirst]
  | .discard mark between g rest, ha, ts, h => by
    obtain ⟨hbetween, hg, hrest⟩ := ha
    simp only [TriviaTree.tokens, List.cons_append, List.map_cons, List.map_append] at h
    obtain ⟨first, ts, rfl, hfirst, h⟩ := List.map_eq_cons_iff.1 h
    obtain ⟨inner, others, rfl, hinner, hothers⟩ := List.map_eq_append_iff.1 h
    obtain ⟨us, vs, rfl, hus, hvs⟩ := List.map_eq_append_iff.1 hinner
    obtain ⟨between', hbetween', rfl⟩ := between.exists_of_kinds hbetween hus
    obtain ⟨g', hg', rfl, -⟩ := g.exists_of_kinds hg hvs
    obtain ⟨rest', hrest', rfl⟩ := rest.exists_of_kinds hrest hothers
    refine ⟨.discard first.span between' g' rest', ⟨hbetween', hg', hrest'⟩, ?_⟩
    rw [TriviaTree.tokens, Token.eq_of_kind hfirst, List.cons_append]

theorem RowTree.exists_of_kinds : ∀ row : RowTree, row.IsPaired → ∀ {ts : List Token},
    ts.map (·.kind) = row.tokens.map (·.kind) →
      ∃ row' : RowTree, row'.IsPaired ∧ row'.tokens = ts ∧
        row'.forms.map Form.unplace = row.forms.map Form.unplace
  | .nil, _, ts, h => ⟨.nil, trivial, (List.map_eq_nil_iff.1 h).symm, rfl⟩
  | .cons g trailing rest, hrow, ts, h => by
    obtain ⟨hg, htrailing, hrest⟩ := hrow
    simp only [RowTree.tokens, List.map_append] at h
    obtain ⟨us, others, rfl, hus, h⟩ := List.map_eq_append_iff.1 h
    obtain ⟨vs, ws, rfl, hvs, hws⟩ := List.map_eq_append_iff.1 h
    obtain ⟨g', hg', rfl, form⟩ := g.exists_of_kinds hg hus
    obtain ⟨trailing', htrailing', rfl⟩ := trailing.exists_of_kinds htrailing hvs
    obtain ⟨rest', hrest', rfl, forms⟩ := rest.exists_of_kinds hrest hws
    refine ⟨.cons g' trailing' rest', ⟨hg', htrailing', hrest'⟩, rfl, ?_⟩
    rw [RowTree.forms, RowTree.forms, List.map_cons, List.map_cons, form, forms]

end

/-! ### Reading an excerpt -/

theorem readForm_append_of_run {stop : Span} {stack stack' : Stack} {ts rest : List Token}
    (hrun : stack.run ts = some stack') :
    readForm stop stack (ts ++ rest) = readForm stop stack' rest := by
  induction ts generalizing stack with
  | nil =>
    cases hrun
    rfl
  | cons t ts ih =>
    rw [Stack.run] at hrun
    split at hrun
    · rename_i next hstep
      rw [List.cons_append, readForm, hstep]
      exact ih hrun
    · cases hrun

/-- The first form is complete with the first token that completes one at top level. -/
theorem readForm_eq_ok_iff {stop : Span} {stack : Stack} {ts rest : List Token} {f : Form} :
    readForm stop stack ts = .ok (f, rest) ↔
      ∃ us last next, ts = us ++ last :: rest ∧ stack.run us = some next ∧
        next.step last = .done f := by
  constructor
  · intro h
    induction ts generalizing stack with
    | nil => cases h
    | cons t ts ih =>
      rw [readForm] at h
      cases hstep : stack.step t with
      | more next =>
        rw [hstep] at h
        obtain ⟨us, last, next', rfl, hrun, hlast⟩ := ih h
        refine ⟨t :: us, last, next', rfl, ?_, hlast⟩
        rw [Stack.run, hstep]
        exact hrun
      | done g =>
        rw [hstep] at h
        cases h
        exact ⟨[], t, stack, rfl, rfl, hstep⟩
      | failed fault span left =>
        rw [hstep] at h
        cases h
  · rintro ⟨us, last, next, rfl, hrun, hlast⟩
    rw [readForm_append_of_run hrun, readForm, hlast]

/-- The tokens of a form are read as that form. -/
theorem Places.readForm_eq {stop : Span} {ts : List Token} {f : Form} (h : Places ts f) :
    readForm stop [] ts = .ok (f, []) := by
  obtain ⟨us, last, rfl, run⟩ := h
  obtain ⟨next, hrun, hlast⟩ := run []
  exact readForm_eq_ok_iff.2 ⟨us, last, next, rfl, hrun, hlast⟩

/-- A text with tokens of the kinds that a form is derived from is read as that form. -/
theorem FormTree.exists_first {g : FormTree} (hg : g.IsPaired) {part : List Char}
    (h : (lex part).kinds = g.tokens.map (·.kind)) :
    ∃ f, Form.first part = .ok f ∧ f.unplace = g.form.unplace := by
  obtain ⟨g', hg', tokens, form⟩ := g.exists_of_kinds hg h
  refine ⟨g'.form, ?_, form⟩
  have read : readForm (lex part).stop [] (lex part).tokens = .ok (g'.form, []) :=
    tokens ▸ (g'.places hg').readForm_eq
  simp only [Form.first, Reader.next, Reader.ofText, read]

/-- The text under the span of what is derived from tokens that stand in a row in a source is read
as that form. -/
theorem FormTree.covers_and_first {g : FormTree} (hg : g.IsPaired) {source : List Char}
    (h : g.tokens <:+: (lex source).tokens) :
    g.form.span.Covers source (g.form.span.text source) ∧
      ∃ f, Form.first (g.form.span.text source) = .ok f ∧ f.unplace = g.form.unplace := by
  obtain ⟨first, hfirst, last, hlast, span⟩ := g.exists_ends
  obtain ⟨part, covers, kinds⟩ :=
    exists_excerpt h (g.places hg).kind_ne_fault hfirst hlast
  rw [← span] at covers
  rw [covers.text_eq]
  exact ⟨covers, g.exists_first hg kinds⟩

/-! ### Where items stand -/

/-- Whether the tokens are not empty, in order, and do not overlap. -/
structure AreOrdered (ts : List Token) : Prop where
  start_lt_stop : ∀ t ∈ ts, t.span.start < t.span.stop
  pairwise : ts.Pairwise fun t u => t.span.stop ≤ u.span.start

theorem areOrdered_lex (source : List Char) : AreOrdered (lex source).tokens :=
  have tiles := tiles_lexFrom .start source
  ⟨fun _ ht => tiles.start_lt_stop ht, tiles.pairwise⟩

theorem AreOrdered.of_isInfix {ts us : List Token} (h : AreOrdered us) (hts : ts <:+: us) :
    AreOrdered ts :=
  ⟨fun t ht => h.start_lt_stop t (hts.subset ht), h.pairwise.sublist hts.sublist⟩

/-- Each form of a row begins with a token of the row and ends with one. -/
theorem RowTree.exists_ends_of_mem {f : Form} {row : RowTree} (hrow : row.IsPaired)
    (hf : f ∈ row.forms) : ∃ first ∈ row.tokens, ∃ last ∈ row.tokens,
      f.span.start = first.span.start ∧ f.span.stop = last.span.stop := by
  obtain ⟨g, -, rfl, tokens⟩ := row.exists_of_mem_forms hrow hf
  obtain ⟨first, hfirst, last, hlast, span⟩ := g.exists_ends
  refine ⟨first, tokens.subset (List.mem_of_mem_head? hfirst), last,
    tokens.subset (List.mem_of_getLast? hlast), ?_, ?_⟩
  · rw [span]
    rfl
  · rw [span]
    rfl

/-- The forms of a row are in order and do not overlap. -/
theorem RowTree.pairwise_forms : ∀ row : RowTree, row.IsPaired →
    row.tokens.Pairwise (fun t u => t.span.stop ≤ u.span.start) →
      row.forms.Pairwise fun f g => f.span.stop ≤ g.span.start
  | .nil, _, _ => .nil
  | .cons g trailing rest, hrow, h => by
    obtain ⟨-, -, hrest⟩ := hrow
    obtain ⟨-, behind, across⟩ := List.pairwise_append.1 h
    refine .cons (fun f hf => ?_) (rest.pairwise_forms hrest (List.pairwise_append.1 behind).2.1)
    obtain ⟨first, -, last, hlast, span⟩ := g.exists_ends
    obtain ⟨next, hnext, -, -, start, -⟩ := RowTree.exists_ends_of_mem hrest hf
    rw [span, start]
    exact across last (List.mem_of_getLast? hlast) next (List.mem_append_right _ hnext)

/-- The items of a form stand strictly inside of it, in order, and do not overlap. -/
theorem FormTree.items_inside {g : FormTree} (hg : g.IsPaired) (h : AreOrdered g.tokens)
    {b : Bracket} {items : List Form} {s : Span} (hform : g.form = .seq b items s) :
    (∀ f ∈ items, s.start < f.span.start ∧ f.span.stop < s.stop) ∧
      items.Pairwise fun f f' => f.span.stop ≤ f'.span.start := by
  cases g with
  | atom a s => cases hform
  | bracketed _ opening leading row closing =>
    cases hform
    have inside := row.tokens_isInfix_bracketed b opening leading closing
    refine ⟨fun f hf => ?_, row.pairwise_forms hg.2.2 (h.of_isInfix inside).pairwise⟩
    obtain ⟨first, hfirst, last, hlast, start, stop⟩ := RowTree.exists_ends_of_mem hg.2.2 hf
    obtain ⟨some, order⟩ := h
    rw [FormTree.tokens, List.cons_append] at some order
    obtain ⟨behind, order⟩ := List.pairwise_cons.1 order
    obtain ⟨-, -, before⟩ := List.pairwise_append.1 order
    have opens := some ⟨.opening b, opening⟩ List.mem_cons_self
    have closes := some ⟨.closing b, closing⟩ (by simp)
    have later := behind first (by simp [hfirst])
    have earlier := before last (List.mem_append_right _ hlast) _ (List.mem_singleton_self _)
    constructor
    · rw [start]
      exact Nat.lt_of_lt_of_le opens later
    · rw [stop]
      exact Nat.lt_of_le_of_lt earlier closes

/-! ### What readers give is derived -/

/-- Each form of a derivation is derived from tokens that stand in a row. -/
theorem Derivation.exists_of_mem_forms {d : Derivation} {f : Form} (hf : f ∈ d.forms) :
    ∃ g : FormTree, g.IsPaired ∧ g.form = f ∧ g.tokens <:+: d.tokens := by
  obtain ⟨g, hg, form, tokens⟩ := d.row.exists_of_mem_forms d.row_isPaired hf
  exact ⟨g, hg, form, tokens.trans (List.suffix_append _ _).isInfix⟩

/-- A form that is complete at top level is derived from tokens that stand in a row among those that
have been taken. -/
theorem exists_tree_of_done {us : List Token} {stack : Stack} {t : Token} {f : Form}
    (hrun : Stack.run [] us = some stack) (hstep : stack.step t = .done f) :
    ∃ g : FormTree, g.IsPaired ∧ g.form = f ∧ g.tokens <:+: us ++ [t] := by
  have read : readForms .initial [] (us ++ [t]) = .ok [f] := by
    rw [readForms_append_of_run hrun, readForms, hstep]
    rfl
  obtain ⟨d, tokens, forms⟩ := exists_derivation_of_readForms read
  rw [← tokens]
  exact d.exists_of_mem_forms (by rw [forms]; exact List.mem_singleton_self f)

namespace Recovery

/-- Whether each form met so far is derived from tokens that stand in a row among those taken, and
what has been begun comes of the last of these. -/
structure IsDerivedFrom (ts : List Token) (r : Recovery) : Prop where
  forms : ∀ f ∈ r.forms, ∃ g : FormTree, g.IsPaired ∧ g.form = f ∧ g.tokens <:+: ts
  reading : ∀ leftOpen stack, r.mode = .reading leftOpen stack →
    ∃ us, us <:+ ts ∧ Stack.run [] us = some stack

variable {ts : List Token} {r : Recovery}

theorem isDerivedFrom_start (leftOpen : Nat) : (start leftOpen).IsDerivedFrom [] :=
  ⟨fun _ hf => absurd hf List.not_mem_nil,
    fun _ _ h => by cases h; exact ⟨[], List.suffix_rfl, rfl⟩⟩

/-- A token that begins a declaration is all that is behind the brackets begun there. -/
theorem isDerivedFrom_beginAt {t : Token} (ht : t.beginsDeclaration = true)
    (h : ∀ f ∈ r.forms, ∃ g : FormTree, g.IsPaired ∧ g.form = f ∧ g.tokens <:+: ts) :
    (r.beginAt t).IsDerivedFrom (ts ++ [t]) where
  forms f hf := by
    obtain ⟨g, hg, form, tokens⟩ := h f hf
    exact ⟨g, hg, form, tokens.trans (List.prefix_append _ _).isInfix⟩
  reading leftOpen stack hmode := by
    cases hmode
    refine ⟨[t], List.suffix_append _ _, Stack.run_singleton ?_⟩
    rw [Stack.step, Token.kind_of_beginsDeclaration ht]

/-- A token that is taken is behind all that have been. -/
theorem IsDerivedFrom.feed (h : r.IsDerivedFrom ts) (t : Token) :
    (r.feed t).IsDerivedFrom (ts ++ [t]) := by
  obtain ⟨forms, faults, mode⟩ := r
  obtain ⟨hforms, hreading⟩ := h
  have others : ∀ f ∈ forms, ∃ g : FormTree, g.IsPaired ∧ g.form = f ∧ g.tokens <:+: ts ++ [t] :=
    fun f hf => by
      obtain ⟨g, hg, form, tokens⟩ := hforms f hf
      exact ⟨g, hg, form, tokens.trans (List.prefix_append _ _).isInfix⟩
  cases mode with
  | skipping =>
    simp only [Recovery.feed]
    split
    · rename_i begins
      exact isDerivedFrom_beginAt begins hforms
    · exact ⟨others, fun _ _ hmode => by cases hmode⟩
  | reading leftOpen stack =>
    obtain ⟨us, hus, hrun⟩ := hreading leftOpen stack rfl
    have suffix : us ++ [t] <:+ ts ++ [t] := by
      obtain ⟨before, rfl⟩ := hus
      exact ⟨before, (List.append_assoc _ _ _).symm⟩
    simp only [Recovery.feed]
    split
    · rename_i begins
      simp only [Bool.and_eq_true] at begins
      exact isDerivedFrom_beginAt begins.1.1 hforms
    · split
      · rename_i next hstep
        refine ⟨others, fun _ _ hmode => ?_⟩
        cases hmode
        refine ⟨us ++ [t], suffix, ?_⟩
        rw [Stack.run_append, hrun]
        exact Stack.run_singleton hstep
      · rename_i f hstep
        refine ⟨List.forall_mem_cons.2 ⟨?_, others⟩, fun _ _ hmode => ?_⟩
        · obtain ⟨g, hg, form, tokens⟩ := exists_tree_of_done hrun hstep
          exact ⟨g, hg, form, tokens.trans suffix.isInfix⟩
        · cases hmode
          exact ⟨[], List.nil_suffix, rfl⟩
      · exact ⟨others, fun _ _ hmode => by cases hmode⟩

theorem isDerivedFrom_foldl_feed (leftOpen : Nat) (ts : List Token) :
    (ts.foldl Recovery.feed (start leftOpen)).IsDerivedFrom ts := by
  induction ts using List.reverseRecOn with
  | nil => exact isDerivedFrom_start leftOpen
  | append_singleton ts t ih =>
    rw [List.foldl_append]
    exact ih.feed t

end Recovery

/-- Whatever a reader gives is derived from tokens that stand in a row in the text. -/
theorem Form.IsReadFrom.exists_tree {f : Form} {source : List Char} (h : f.IsReadFrom source) :
    ∃ g : FormTree, g.IsPaired ∧ g.form = f ∧ g.tokens <:+: (lex source).tokens := by
  rcases h with ⟨forms, hall, hf⟩ | hf
  · obtain ⟨d, tokens, rfl⟩ := all_eq_ok_iff_exists_derivation.1 hall
    rw [← tokens]
    exact d.exists_of_mem_forms hf
  · exact (Recovery.isDerivedFrom_foldl_feed 0 _).forms f (mem_allRecovering_iff.1 hf)

end ApiCatalog
