import ApiCatalog.Proofs.Concatenation
import ApiCatalog.Proofs.Grammar

/-!
# Reading without a fault

A recovering reader takes the same steps as a strict one, but for one thing: inside an open bracket
it does not read the bracket of a declaration. So it finds no fault exactly in the texts that are
read strictly and have no such bracket inside a form, be the form returned or discarded; and then
both give the same forms.

Main statement: `Form.allRecovering_eq_iff`.
-/

namespace ApiCatalog

/-! ### The tokens inside forms -/

/-- The tokens between the brackets of a form. -/
def FormTree.inner : FormTree → List Token
  | .atom _ _ => []
  | .bracketed _ _ leading row _ => leading.tokens ++ row.tokens

/-- The tokens between the brackets of the forms that are discarded. -/
def TriviaTree.inner : TriviaTree → List Token
  | .nil => []
  | .comment _ _ rest => rest.inner
  | .discard _ between form rest => between.inner ++ form.inner ++ rest.inner

/-- The tokens between the brackets of the forms in a row, and of those discarded behind them. -/
def RowTree.inner : RowTree → List Token
  | .nil => []
  | .cons form trailing rest => form.inner ++ trailing.inner ++ rest.inner

/-- The tokens strictly inside a form, returned or discarded. -/
def Derivation.inner (d : Derivation) : List Token := d.leading.inner ++ d.row.inner

/-- How many brackets are open behind a token, if so many are open before it. -/
def Token.depthBehind (t : Token) (n : Nat) : Nat :=
  match t.kind with
  | .opening _ => n + 1
  | .closing _ => n - 1
  | _ => n

/-- The tokens that stand inside a bracket, if so many are open before the first one. -/
def innerTokens (n : Nat) : List Token → List Token
  | [] => []
  | t :: ts =>
    if 0 < min n (t.depthBehind n) then t :: innerTokens (t.depthBehind n) ts
    else innerTokens (t.depthBehind n) ts

mutual

theorem FormTree.innerTokens_append (n : Nat) : ∀ (f : FormTree) (ts : List Token),
    innerTokens (n + 1) (f.tokens ++ ts) = f.tokens ++ innerTokens (n + 1) ts
  | .atom _ _, ts => by simp [FormTree.tokens, innerTokens, Token.depthBehind]
  | .bracketed b opening leading row closing, ts => by
    simp [FormTree.tokens, innerTokens, Token.depthBehind, leading.innerTokens_append,
      row.innerTokens_append]

theorem TriviaTree.innerTokens_append (n : Nat) : ∀ (a : TriviaTree) (ts : List Token),
    innerTokens (n + 1) (a.tokens ++ ts) = a.tokens ++ innerTokens (n + 1) ts
  | .nil, _ => rfl
  | .comment _ _ rest, ts => by
    simp [TriviaTree.tokens, innerTokens, Token.depthBehind, rest.innerTokens_append]
  | .discard _ between f rest, ts => by
    simp [TriviaTree.tokens, innerTokens, Token.depthBehind, between.innerTokens_append,
      f.innerTokens_append, rest.innerTokens_append]

theorem RowTree.innerTokens_append (n : Nat) : ∀ (row : RowTree) (ts : List Token),
    innerTokens (n + 1) (row.tokens ++ ts) = row.tokens ++ innerTokens (n + 1) ts
  | .nil, _ => rfl
  | .cons f trailing rest, ts => by
    simp [RowTree.tokens, f.innerTokens_append, trailing.innerTokens_append,
      rest.innerTokens_append]

end

/-- At top level the tokens inside a form are those between its brackets. -/
theorem FormTree.innerTokens_zero_append (f : FormTree) (ts : List Token) :
    innerTokens 0 (f.tokens ++ ts) = f.inner ++ innerTokens 0 ts := by
  cases f with
  | atom a s => rfl
  | bracketed b opening leading row closing =>
    simp [FormTree.tokens, FormTree.inner, innerTokens, Token.depthBehind,
      leading.innerTokens_append, row.innerTokens_append]

theorem TriviaTree.innerTokens_zero_append : ∀ (a : TriviaTree) (ts : List Token),
    innerTokens 0 (a.tokens ++ ts) = a.inner ++ innerTokens 0 ts
  | .nil, _ => rfl
  | .comment _ _ rest, ts => rest.innerTokens_zero_append ts
  | .discard _ between f rest, ts => by
    simp [TriviaTree.tokens, TriviaTree.inner, innerTokens, Token.depthBehind,
      between.innerTokens_zero_append, f.innerTokens_zero_append, rest.innerTokens_zero_append]

theorem RowTree.innerTokens_zero : ∀ row : RowTree, innerTokens 0 row.tokens = row.inner
  | .nil => rfl
  | .cons f trailing rest => by
    simp [RowTree.tokens, RowTree.inner, f.innerTokens_zero_append,
      trailing.innerTokens_zero_append, rest.innerTokens_zero]

theorem Derivation.innerTokens_zero (d : Derivation) : innerTokens 0 d.tokens = d.inner := by
  rw [Derivation.tokens, d.leading.innerTokens_zero_append, d.row.innerTokens_zero,
    Derivation.inner]

/-! ### The brackets open on a stack -/

namespace Stack

theorem depth_put (f : Form) (stack : Stack) : (stack.put f).depth = stack.depth := by
  rcases stack with _ | ⟨⟨b, start, read⟩ | mark, outer⟩ <;> simp [Stack.put, Stack.depth]

/-- A step opens and closes the brackets that its token says. -/
theorem depth_of_next?_step {stack next : Stack} {t : Token}
    (h : (stack.step t).next? = some next) : next.depth = t.depthBehind stack.depth := by
  obtain ⟨kind, span⟩ := t
  cases kind with
  | comment text =>
    cases h
    rfl
  | discard =>
    cases h
    simp [Stack.depth, Token.depthBehind]
  | opening b =>
    cases h
    simp [Stack.depth, Token.depthBehind]
  | atom a =>
    rw [Stack.step, next?_accept, Option.some.injEq] at h
    rw [← h, depth_put]
    rfl
  | closing b =>
    rcases stack with _ | ⟨⟨opened, start, read⟩ | mark, outer⟩
    · cases h
    · simp only [Stack.step, Stack.close] at h
      split at h
      · cases h
      · split at h
        · cases h
        · rw [next?_accept, Option.some.injEq] at h
          rw [← h, depth_put]
          simp [Stack.depth, Token.depthBehind]
    · cases h
  | fault f => cases h

end Stack

/-! ### No fault -/

namespace Recovery

/-- A fault that has been noted stays noted. -/
theorem faults_finish_foldl_feed_ne_nil {r : Recovery} (h : r.faults ≠ []) (stop : Span)
    (ts : List Token) : ((ts.foldl Recovery.feed r).finish stop).faults ≠ [] := by
  have whole : r = Recovery.behind ⟨[], [], r.mode⟩ r := rfl
  rw [whole, foldl_feed_behind, finish_behind]
  exact List.append_ne_nil_of_right_ne_nil _ h

/-- A recovering reader finds no fault exactly if strict reading finds none and no declaration
begins inside a bracket. Then both have read the same. -/
theorem finish_foldl_feed_eq_iff (stop : Span) (ts : List Token) (stack : Stack)
    (earlier gs : List Form) :
    ((ts.foldl Recovery.feed ⟨earlier, [], .reading 0 stack⟩).finish stop).forms = gs ∧
        ((ts.foldl Recovery.feed ⟨earlier, [], .reading 0 stack⟩).finish stop).faults = [] ↔
      (∃ forms, readForms stop stack ts = .ok forms ∧ gs = forms.reverse ++ earlier) ∧
        ∀ t ∈ innerTokens stack.depth ts, t.beginsDeclaration = false := by
  induction ts generalizing stack earlier with
  | nil =>
    cases stack with
    | nil =>
      have none : readForms stop [] [] = .ok [] := rfl
      simpa [finish, none, innerTokens] using eq_comm
    | cons frame outer => simp [finish, note, readForms, innerTokens]
  | cons t ts ih =>
    rw [List.foldl_cons]
    by_cases inside : t.beginsDeclaration = true ∧ 0 < stack.depth
    · -- the reader notes a fault, and the token stands inside a bracket
      obtain ⟨begins, opened⟩ := inside
      have kind := Token.kind_of_beginsDeclaration begins
      have noted : Recovery.feed ⟨earlier, [], .reading 0 stack⟩ t =
          beginAt ⟨earlier, [(.nextDeclaration, t.span)], .skipping⟩ t := by
        cases stack with
        | nil => cases opened
        | cons frame outer => simp [Recovery.feed, begins, opened, note]
      have inner : t ∈ innerTokens stack.depth (t :: ts) := by
        simp [innerTokens, Token.depthBehind, kind, opened]
      rw [noted]
      refine iff_of_false (fun h => ?_) fun h => ?_
      · exact faults_finish_foldl_feed_ne_nil (List.cons_ne_nil _ _) stop ts h.2
      · rw [h.2 t inner] at begins
        cases begins
    · have outside : (t.beginsDeclaration && !stack.isEmpty && 0 < 0 + stack.depth) = false := by
        by_contra boundary
        simp only [Bool.not_eq_false, Bool.and_eq_true, decide_eq_true_eq, Nat.zero_add]
          at boundary
        exact inside ⟨boundary.1.1, boundary.2⟩
      have quiet : (∀ u ∈ innerTokens stack.depth (t :: ts), u.beginsDeclaration = false) ↔
          ∀ u ∈ innerTokens (t.depthBehind stack.depth) ts, u.beginsDeclaration = false := by
        rw [innerTokens]
        split
        · rename_i opened
          rw [List.forall_mem_cons]
          have : t.beginsDeclaration = false :=
            Bool.eq_false_iff.2 fun begins => inside ⟨begins, (Nat.lt_min.1 opened).1⟩
          simp only [this, true_and]
        · rfl
      rw [feed_of_not_inside outside, quiet, readForms]
      cases hstep : stack.step t with
      | more next =>
        rw [← Stack.depth_of_next?_step (congrArg Step.next? hstep)]
        exact ih _ _
      | done f =>
        rw [← Stack.depth_of_next?_step (congrArg Step.next? hstep)]
        simp only [ih]
        cases readForms stop [] ts <;> simp [Except.map]
      | failed fault span stack =>
        refine iff_of_false (fun h => ?_) fun h => ?_
        · exact faults_finish_foldl_feed_ne_nil (List.cons_ne_nil _ _) stop ts h.2
        · obtain ⟨⟨forms, hread, -⟩, -⟩ := h
          cases hread

end Recovery

theorem recover_eq_iff {stop : Span} {ts : List Token} {forms : List Form} :
    recover stop 0 ts = (forms, []) ↔
      readForms stop [] ts = .ok forms ∧
        ∀ t ∈ innerTokens 0 ts, t.beginsDeclaration = false := by
  have run := Recovery.finish_foldl_feed_eq_iff stop ts [] [] forms.reverse
  simp only [List.append_nil, List.reverse_inj, exists_eq_right'] at run
  rw [recover, Prod.mk.injEq, List.reverse_eq_nil_iff, List.reverse_eq_iff]
  exact run

namespace Form

/-- Whether no bracket in the first column, which would begin a declaration, stands inside another
bracket of the text. -/
def NoneBeginsInside (source : List Char) : Prop :=
  ∀ t ∈ innerTokens 0 (lex source).tokens, t.beginsDeclaration = false

instance (source : List Char) : Decidable (NoneBeginsInside source) :=
  inferInstanceAs (Decidable (∀ t ∈ _, _))

theorem allRecovering_eq_iff_all {source : List Char} {forms : List Form} :
    allRecovering source = (forms, []) ↔ all source = .ok forms ∧ NoneBeginsInside source := by
  have found : allRecovering source = (forms, []) ↔
      recover (lex source).stop 0 (lex source).tokens = (forms, []) := by
    simp [allRecovering, Reader.allRecovering, Reader.ofText, Prod.ext_iff]
  rw [found, recover_eq_iff, ← all_eq_ok_iff, NoneBeginsInside]

/-- What strict reading takes a text for, recovering reading does too exactly if no declaration
begins inside a bracket. -/
theorem recoversAs_iff {source : List Char} {forms : List Form} (h : ReadsAs source forms) :
    RecoversAs source forms ↔ NoneBeginsInside source := by
  constructor
  · rintro ⟨gs, -, read⟩
    exact (allRecovering_eq_iff_all.1 read).2
  · intro none
    obtain ⟨gs, same, read⟩ := h
    exact ⟨gs, same, allRecovering_eq_iff_all.2 ⟨read, none⟩⟩

end Form

/-- Recovering reading gives forms and no fault exactly if strict reading gives the same forms and
no bracket of a declaration stands strictly inside a form, returned or discarded. -/
theorem Form.allRecovering_eq_iff (source : List Char) (forms : List Form) :
    allRecovering source = (forms, []) ↔
      all source = .ok forms ∧ ∃ d : Derivation, d.tokens = (lex source).tokens ∧
        ∀ t ∈ d.inner, t.beginsDeclaration = false := by
  rw [allRecovering_eq_iff_all, and_congr_right_iff]
  intro read
  obtain ⟨d, htokens, -⟩ := all_eq_ok_iff_exists_derivation.1 read
  rw [NoneBeginsInside, ← htokens, d.innerTokens_zero]
  constructor
  · exact fun quiet => ⟨d, rfl, quiet⟩
  · rintro ⟨e, he, quiet⟩
    exact Derivation.tokens_injective he ▸ quiet

/-- Brackets in the first column inside a form that is discarded, but none that begins a
declaration. -/
theorem Form.allRecovering_eq_iff_discarded :
    allRecovering "#_ (a\n[b\n]) c".toList = ([.atom (.symbol "c") ⟨12, 13, 3, 4⟩], []) := by
  let vector : FormTree := .bracketed .square ⟨6, 7, 2, 1⟩ .nil
    (.cons (.atom (.symbol "b") ⟨7, 8, 2, 2⟩) .nil .nil) ⟨9, 10, 3, 1⟩
  let list : FormTree := .bracketed .round ⟨3, 4, 1, 4⟩ .nil
    (.cons (.atom (.symbol "a") ⟨4, 5, 1, 5⟩) .nil (.cons vector .nil .nil)) ⟨10, 11, 3, 2⟩
  let d : Derivation := ⟨.discard ⟨0, 2, 1, 1⟩ .nil list .nil,
    .cons (.atom (.symbol "c") ⟨12, 13, 3, 4⟩) .nil .nil,
    by simp [list, vector, TriviaTree.IsPaired, FormTree.IsPaired, RowTree.IsPaired],
    by simp [RowTree.IsPaired, FormTree.IsPaired, TriviaTree.IsPaired]⟩
  have tokens : d.tokens = (lex "#_ (a\n[b\n]) c".toList).tokens := by decide +kernel
  exact (allRecovering_eq_iff _ _).2
    ⟨all_eq_ok_iff_exists_derivation.2 ⟨d, tokens, rfl⟩, d, tokens, by decide +kernel⟩

end ApiCatalog
