import Mathlib.Data.List.Induction
import ApiCatalog.Loading
import ApiCatalog.Proofs.Concatenation

/-!
# Forms behind a mark that discards

The mark `#_` discards the next form. A reader that has read the mark holds it on its stack, and
the next form, when it is complete, takes the mark away. Recovering reading keeps to that as long
as it keeps its stack. It gives the stack up where it meets a fault, and then skips every token
but the bracket of a declaration, marks as well; and inside a bracket that is still open it gives
the stack up at the bracket of a declaration, whatever mark stands before that.

So a declaration behind a mark is read, just as if the text began with it, if the mark was
skipped or stands inside an open bracket. No other form behind a mark is.

Main statement: `allRecovering_behind_marks`.
-/

namespace ApiCatalog

/-- Whether the last of the tokens that is not a comment is a mark that discards. -/
def EndsInMark (ts : List Token) : Prop :=
  (ts.filter fun t => !t.isPassedOver).getLast?.map (·.kind) = some .discard

instance (ts : List Token) : Decidable (EndsInMark ts) :=
  inferInstanceAs (Decidable (_ = _))

theorem endsInMark_concat {ts : List Token} {t : Token} :
    EndsInMark (ts ++ [t]) ↔ if t.isPassedOver then EndsInMark ts else t.kind = .discard := by
  cases h : t.isPassedOver <;> simp [EndsInMark, List.filter_append, h]

/-! ### What a mark on the stack keeps back -/

/-- Whether a mark is waiting for the form that it discards. -/
def Stack.AwaitsDiscarded : Stack → Prop
  | .discard _ :: _ => True
  | _ => False

/-- Whether a form that begins at an offset is discarded when it is complete: a mark is waiting
behind each bracket that was opened there. -/
def Stack.Discards (n : Nat) : Stack → Prop
  | [] => True
  | .items _ start _ :: outer =>
    (start.start = n → AwaitsDiscarded outer) ∧ Discards n outer
  | .discard _ :: outer => Discards n outer

/-- Whether a step completes no form that begins at an offset, and the stack that is left will
not either. -/
def Step.Discards (n : Nat) : Step → Prop
  | .more stack => stack.Discards n
  | .done form => form.span.start ≠ n
  | .failed _ _ _ => True

namespace Stack

variable {n : Nat} {stack : Stack}

theorem Discards.accept {f : Form} (h : stack.Discards n)
    (hf : f.span.start = n → stack.AwaitsDiscarded) : (stack.accept f).Discards n := by
  rcases stack with _ | ⟨⟨bracket, start, read⟩ | mark, outer⟩
  · exact hf
  · exact h
  · exact h

theorem Discards.close (h : stack.Discards n) (bracket : Bracket) (span : Span) :
    (stack.close bracket span).Discards n := by
  rcases stack with _ | ⟨⟨opened, start, read⟩ | mark, outer⟩
  · trivial
  · rw [Stack.close]
    split
    · trivial
    · split
      · trivial
      · exact Discards.accept h.2 h.1
  · trivial

/-- A token at the offset is discarded, or the form that it opens, if a mark is waiting. -/
theorem Discards.step (h : stack.Discards n) {t : Token}
    (ht : t.span.start = n → stack.AwaitsDiscarded) : (stack.step t).Discards n := by
  obtain ⟨kind, span⟩ := t
  cases kind with
  | comment text => exact h
  | discard => exact h
  | opening bracket => exact ⟨ht, h⟩
  | atom a => exact Discards.accept h ht
  | closing bracket => exact h.close bracket span
  | fault f => trivial

end Stack

/-! ### Recovering reading behind a mark -/

namespace Recovery

/-- Whether the bracket of a declaration makes the reader begin anew, if a mark comes before it:
the reader is looking for a declaration, or inside an open bracket. -/
def BeginsAnew (r : Recovery) : Prop :=
  match r.mode with
  | .skipping => True
  | .reading leftOpen stack => 0 < leftOpen + stack.depth

instance (r : Recovery) : Decidable r.BeginsAnew := by
  unfold BeginsAnew
  split <;> infer_instance

/-- Whether a mark was the last to be taken: it is waiting, unless it was skipped. -/
def IsBehindMark (r : Recovery) : Prop :=
  match r.mode with
  | .skipping => True
  | .reading _ stack => stack.AwaitsDiscarded

/-- Whether no form has been read that begins at an offset, and none will be with the stack that
is left. -/
structure Discards (n : Nat) (r : Recovery) : Prop where
  forms : ∀ f ∈ r.forms, f.span.start ≠ n
  stack : ∀ leftOpen stack, r.mode = .reading leftOpen stack → stack.Discards n

variable {n : Nat} {r : Recovery}

theorem discards_start : (start 0).Discards n :=
  ⟨fun _ hf => absurd hf List.not_mem_nil, fun _ _ h => by cases h; trivial⟩

theorem discards_beginAt {forms : List Form} {faults : List (ReadFault × Span)}
    {mode : RecoveryMode} {t : Token} (hforms : ∀ f ∈ forms, f.span.start ≠ n)
    (ht : t.span.start ≠ n) : (beginAt ⟨forms, faults, mode⟩ t).Discards n :=
  ⟨hforms, fun _ _ h => by cases h; exact ⟨fun hn => absurd hn ht, trivial⟩⟩

/-- A token is discarded, or the form that it opens, if it comes behind a mark and does not make
the reader begin anew. -/
theorem Discards.feed (h : r.Discards n) {t : Token}
    (ht : t.span.start = n →
      r.IsBehindMark ∧ ¬ (t.beginsDeclaration = true ∧ r.BeginsAnew)) :
    (r.feed t).Discards n := by
  obtain ⟨forms, faults, mode⟩ := r
  obtain ⟨hforms, hstack⟩ := h
  cases mode with
  | skipping =>
    simp only [Recovery.feed]
    split
    · rename_i begins
      exact discards_beginAt hforms fun hn => (ht hn).2 ⟨begins, trivial⟩
    · exact ⟨hforms, hstack⟩
  | reading leftOpen stack =>
    have hstack := hstack leftOpen stack rfl
    simp only [Recovery.feed]
    split
    · rename_i begins
      simp only [Bool.and_eq_true, decide_eq_true_eq] at begins
      exact discards_beginAt hforms fun hn => (ht hn).2 ⟨begins.1.1, begins.2⟩
    · have step := hstack.step fun hn => (ht hn).1
      split
      · rename_i more
        rw [more] at step
        exact ⟨hforms, fun _ _ h => by cases h; exact step⟩
      · rename_i done
        rw [done] at step
        exact ⟨List.forall_mem_cons.2 ⟨step, hforms⟩, fun _ _ h => by cases h; trivial⟩
      · exact ⟨hforms, fun _ _ h => by cases h⟩

theorem Discards.foldl_feed (h : r.Discards n) {ts : List Token}
    (hts : ∀ t ∈ ts, t.span.start ≠ n) : (ts.foldl Recovery.feed r).Discards n := by
  induction ts generalizing r with
  | nil => exact h
  | cons t ts ih =>
    rw [List.forall_mem_cons] at hts
    exact ih (h.feed fun hn => absurd hn hts.1) hts.2

theorem feed_of_isPassedOver {t : Token} (ht : t.isPassedOver = true) : r.feed t = r := by
  obtain ⟨forms, faults, mode⟩ := r
  obtain ⟨kind, span⟩ := t
  cases kind with
  | comment text => cases mode <;> simp [Recovery.feed, Token.beginsDeclaration, Stack.step]
  | opening | closing | atom | discard | fault => cases ht

theorem isBehindMark_feed {t : Token} (ht : t.kind = .discard) : (r.feed t).IsBehindMark := by
  obtain ⟨forms, faults, mode⟩ := r
  cases mode <;> simp [Recovery.feed, Token.beginsDeclaration, Stack.step, ht, IsBehindMark,
    Stack.AwaitsDiscarded]

/-- Behind tokens that end in a mark, the mark is waiting or was skipped. -/
theorem isBehindMark_foldl_feed {ts : List Token} (h : EndsInMark ts) :
    (ts.foldl Recovery.feed r).IsBehindMark := by
  induction ts using List.reverseRecOn with
  | nil => cases h
  | append_singleton ts t ih =>
    rw [endsInMark_concat] at h
    rw [List.foldl_append, List.foldl_cons, List.foldl_nil]
    split at h
    · rename_i passed
      rw [feed_of_isPassedOver passed]
      exact ih h
    · exact isBehindMark_feed h

/-- Where declarations are looked for, a fault has been noted. -/
theorem faults_ne_nil_of_skipping {ts : List Token}
    (h : (ts.foldl Recovery.feed (.start 0)).mode = .skipping) :
    (ts.foldl Recovery.feed (.start 0)).faults ≠ [] := by
  induction ts using List.reverseRecOn with
  | nil => cases h
  | append_singleton ts t ih =>
    rw [List.foldl_append, List.foldl_cons, List.foldl_nil] at h ⊢
    generalize ts.foldl Recovery.feed (.start 0) = r at h ih ⊢
    obtain ⟨forms, faults, mode⟩ := r
    cases mode with
    | skipping =>
      simp only [Recovery.feed] at h ⊢
      split <;> exact ih rfl
    | reading leftOpen stack =>
      simp only [Recovery.feed] at h ⊢
      split at h
      · cases h
      · rename_i begins
        rw [if_neg begins]
        split at h
        · cases h
        · cases h
        · exact List.cons_ne_nil _ _

/-- Where the reader begins anew, it goes on like a fresh one, with a fault noted before. -/
theorem feed_of_beginsAnew {t : Token} (ht : t.beginsDeclaration = true) (mark : r.IsBehindMark)
    (anew : r.BeginsAnew) (noted : r.mode = .skipping → r.faults ≠ []) :
    ∃ earlier, r.feed t = ((start 0).feed t).behind earlier ∧ earlier.forms = r.forms ∧
      earlier.faults ≠ [] := by
  obtain ⟨forms, faults, mode⟩ := r
  cases mode with
  | skipping =>
    refine ⟨⟨forms, faults, .skipping⟩, ?_, rfl, noted rfl⟩
    rw [← beginAt_eq_behind ht]
    exact if_pos ht
  | reading leftOpen stack =>
    refine ⟨⟨forms, (.nextDeclaration, t.span) :: faults, .skipping⟩, ?_, rfl,
      List.cons_ne_nil _ _⟩
    have inside : 0 < leftOpen + stack.depth := anew
    rw [← beginAt_eq_behind ht]
    cases stack with
    | nil => exact mark.elim
    | cons frame outer => simp [Recovery.feed, ht, inside, note]

theorem forms_finish (r : Recovery) (stop : Span) : (r.finish stop).forms = r.forms := by
  obtain ⟨forms, faults, mode⟩ := r
  cases mode with
  | skipping => rfl
  | reading leftOpen stack =>
    simp only [finish]
    split <;> rfl

end Recovery

/-! ### Texts -/

theorem mem_allRecovering_iff {cs : List Char} {f : Form} :
    f ∈ (Form.allRecovering cs).1 ↔
      f ∈ ((lex cs).tokens.foldl Recovery.feed (.start 0)).forms := by
  rw [forms_allRecovering, recover, List.mem_reverse, Recovery.forms_finish]

/-- Every form begins at a token. -/
theorem exists_token_of_mem_allRecovering {cs : List Char} {f : Form}
    (hf : f ∈ (Form.allRecovering cs).1) : ∃ t ∈ (lex cs).tokens, f.span.start = t.span.start := by
  by_contra none
  -- what begins at no token would be discarded
  have discards : ((lex cs).tokens.foldl Recovery.feed (.start 0)).Discards f.span.start :=
    Recovery.discards_start.foldl_feed fun t ht hn => none ⟨t, ht, hn.symm⟩
  exact discards.forms f (mem_allRecovering_iff.1 hf) rfl

section Marked

variable {cs : List Char} {before after : List Token} {t : Token}
  (htokens : (lex cs).tokens = before ++ t :: after)
include htokens

/-- No other token begins where the token does. -/
theorem start_ne_of_lex : (∀ u ∈ before, u.span.start ≠ t.span.start) ∧
    ∀ u ∈ after, u.span.start ≠ t.span.start := by
  have order := (start_lexFrom .start cs).2
  rw [← lex, htokens, List.pairwise_append, List.pairwise_cons] at order
  obtain ⟨-, ⟨behind, -⟩, across⟩ := order
  exact ⟨fun u hu => Nat.ne_of_lt (across u hu t List.mem_cons_self),
    fun u hu => Nat.ne_of_gt (behind u hu)⟩

variable (hmark : EndsInMark before)
include hmark

theorem not_mem_allRecovering_of_mark
    (anew : ¬ (t.beginsDeclaration = true ∧ (before.foldl Recovery.feed (.start 0)).BeginsAnew))
    {f : Form} (hf : f.span.start = t.span.start) : f ∉ (Form.allRecovering cs).1 := by
  obtain ⟨hbefore, hafter⟩ := start_ne_of_lex htokens
  have first := (Recovery.discards_start.foldl_feed hbefore).feed (t := t) fun _ =>
    ⟨Recovery.isBehindMark_foldl_feed hmark, anew⟩
  have whole := first.foldl_feed hafter
  rw [mem_allRecovering_iff, htokens, List.foldl_append, List.foldl_cons]
  exact fun hmem => whole.forms f hmem hf

theorem mem_allRecovering_of_beginsAnew (ht : t.beginsDeclaration = true)
    (anew : (before.foldl Recovery.feed (.start 0)).BeginsAnew) {f : Form}
    (hf : f.span.start = t.span.start) :
    (f ∈ (Form.allRecovering cs).1 ↔ f ∈ (recover (lex cs).stop 0 (t :: after)).1) ∧
      (Form.allRecovering cs).2 ≠ [] := by
  obtain ⟨earlier, hfeed, hforms, hfaults⟩ := Recovery.feed_of_beginsAnew ht
    (Recovery.isBehindMark_foldl_feed hmark) anew Recovery.faults_ne_nil_of_skipping
  have whole : (lex cs).tokens.foldl Recovery.feed (.start 0) =
      ((t :: after).foldl Recovery.feed (.start 0)).behind earlier := by
    rw [htokens, List.foldl_append, List.foldl_cons, hfeed, Recovery.foldl_feed_behind,
      List.foldl_cons]
  constructor
  · -- the forms met before begin at other tokens
    have others : f ∉ earlier.forms := fun hmem =>
      (Recovery.discards_start.foldl_feed (start_ne_of_lex htokens).1).forms f (hforms ▸ hmem) hf
    rw [mem_allRecovering_iff, whole, recover, List.mem_reverse, Recovery.forms_finish]
    simp [Recovery.behind, others]
  · rw [← List.length_pos_iff, length_problems_allRecovering, recover, whole,
      Recovery.finish_behind]
    have some := List.length_pos_iff.2 hfaults
    simp only [Recovery.behind, List.length_reverse, List.length_append]
    omega

end Marked

/-- Every form that recovering reading gives begins at a token of the text. One that begins behind
a mark is read only if the token is the bracket of a declaration and the reader begins anew
there, looking for a declaration or inside an open bracket; then it is read exactly if it would
be in a text that begins there, and faults have been noted. -/
theorem allRecovering_behind_marks (cs : List Char) :
    (∀ f ∈ (Form.allRecovering cs).1, ∃ t ∈ (lex cs).tokens, f.span.start = t.span.start) ∧
      ∀ before t after, (lex cs).tokens = before ++ t :: after → EndsInMark before →
        ∀ f : Form, f.span.start = t.span.start →
          (f ∈ (Form.allRecovering cs).1 ↔
            t.beginsDeclaration = true ∧ (before.foldl Recovery.feed (.start 0)).BeginsAnew ∧
              f ∈ (recover (lex cs).stop 0 (t :: after)).1) ∧
          (f ∈ (Form.allRecovering cs).1 → (Form.allRecovering cs).2 ≠ []) := by
  refine ⟨fun f hf => exists_token_of_mem_allRecovering hf,
    fun before t after htokens hmark f hf => ?_⟩
  by_cases anew : t.beginsDeclaration = true ∧
      (before.foldl Recovery.feed (.start 0)).BeginsAnew
  · obtain ⟨same, faults⟩ := mem_allRecovering_of_beginsAnew htokens hmark anew.1 anew.2 hf
    exact ⟨by simp [same, anew.1, anew.2], fun _ => faults⟩
  · have unread := not_mem_allRecovering_of_mark htokens hmark anew hf
    exact ⟨⟨fun hmem => absurd hmem unread, fun h => absurd ⟨h.1, h.2.1⟩ anew⟩,
      fun hmem => absurd hmem unread⟩

/-- A declaration behind a mark inside a bracket that is never closed. -/
theorem allRecovering_behind_marks_open :
    ∃ f ∈ (Form.allRecovering "(class: A\n#_\n(class: B)".toList).1, f.span.start = 13 := by
  have tokens : (lex "(class: A\n#_\n(class: B)".toList).tokens =
      (lex "(class: A\n#_\n(class: B)".toList).tokens.take 4 ++
        ⟨.opening .round, ⟨13, 14, 3, 1⟩⟩ ::
          (lex "(class: A\n#_\n(class: B)".toList).tokens.drop 5 := by decide +kernel
  obtain ⟨f, hf, hstart⟩ : ∃ f ∈ (recover (lex "(class: A\n#_\n(class: B)".toList).stop 0
      (⟨.opening .round, ⟨13, 14, 3, 1⟩⟩ ::
        (lex "(class: A\n#_\n(class: B)".toList).tokens.drop 5)).1, f.span.start = 13 := by
    decide +kernel
  refine ⟨f, (((allRecovering_behind_marks _).2 _ _ _ tokens (by decide +kernel) f hstart).1.2
    ⟨by decide +kernel, by decide +kernel, hf⟩), hstart⟩

/-- Behind a bracket that closes nothing the mark is skipped, and the declaration that it should
discard is read and loaded. -/
theorem exists_mem_allRecovering_behind_mark :
    (∃ f ∈ (Form.allRecovering ")\n#_\n(class: A)".toList).1, ∃ before t after,
      (lex ")\n#_\n(class: A)".toList).tokens = before ++ t :: after ∧ EndsInMark before ∧
        f.span.start = t.span.start) ∧
      (load {} [⟨"api", ")\n#_\n(class: A)"⟩]).catalog.contains "A" = true := by
  obtain ⟨f, hf, hstart⟩ : ∃ f ∈ (Form.allRecovering ")\n#_\n(class: A)".toList).1,
      f.span.start = 5 := by decide +kernel
  refine ⟨⟨f, hf, (lex ")\n#_\n(class: A)".toList).tokens.take 2,
    ⟨.opening .round, ⟨5, 6, 3, 1⟩⟩, (lex ")\n#_\n(class: A)".toList).tokens.drop 3,
    by decide +kernel, by decide +kernel, hstart⟩, by decide +kernel⟩

end ApiCatalog
