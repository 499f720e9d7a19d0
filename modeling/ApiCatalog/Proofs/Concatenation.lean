import ApiCatalog.Proofs.PlacedReading
import ApiCatalog.Proofs.Collecting

/-!
# One text behind another

A text that begins with a declaration can be put behind another one: whatever is malformed in the
first text, recovering reading reaches the second as if it began there. It may be at top level,
inside brackets that were never closed, or looking for the next declaration; each time the
opening bracket in the first column leaves it where a fresh reader is behind that bracket.

What could be carried over is left out: a string that is not closed, which goes on into the
second text, and a mark that discards the next form.

Main statements: `allRecovering_append`, `load_append`.
-/

namespace ApiCatalog

theorem Token.kind_of_beginsDeclaration {t : Token} (h : t.beginsDeclaration = true) :
    t.kind = .opening .round := by
  rw [Token.beginsDeclaration, Bool.and_eq_true, beq_iff_eq] at h
  exact h.1

namespace Recovery

/-- What has been met, behind what another reader met before. -/
def behind (r earlier : Recovery) : Recovery :=
  ⟨r.forms ++ earlier.forms, r.faults ++ earlier.faults, r.mode⟩

theorem feed_behind (r earlier : Recovery) (t : Token) :
    (r.behind earlier).feed t = (r.feed t).behind earlier := by
  obtain ⟨forms, faults, mode⟩ := r
  cases mode with
  | skipping =>
    simp only [feed, behind]
    split <;> rfl
  | reading leftOpen stack =>
    simp only [feed, behind]
    split
    · rfl
    · cases Stack.step stack t <;> rfl

theorem foldl_feed_behind (r earlier : Recovery) (ts : List Token) :
    ts.foldl feed (r.behind earlier) = (ts.foldl feed r).behind earlier := by
  induction ts generalizing r with
  | nil => rfl
  | cons t ts ih => rw [List.foldl_cons, List.foldl_cons, feed_behind, ih]

theorem finish_behind (r earlier : Recovery) (stop : Span) :
    (r.behind earlier).finish stop = (r.finish stop).behind earlier := by
  obtain ⟨forms, faults, mode⟩ := r
  cases mode with
  | skipping => rfl
  | reading leftOpen stack =>
    simp only [finish, behind]
    split <;> rfl

/-- A declaration is begun as by a fresh reader, behind what was met before. -/
theorem beginAt_eq_behind {t : Token} (ht : t.beginsDeclaration = true) (r : Recovery) :
    r.beginAt t = ((start 0).feed t).behind r := by
  simp [Recovery.feed, start, Stack.step, Token.kind_of_beginsDeclaration ht, beginAt, behind]

/-! ### Without marks that discard -/

/-- Whether the reader counts no brackets left open before, and has begun nothing but
brackets. -/
def IsPlain (r : Recovery) : Prop :=
  match r.mode with
  | .skipping => True
  | .reading leftOpen stack => leftOpen = 0 ∧ ∀ mark, Frame.discard mark ∉ stack

theorem isPlain_start : (start 0).IsPlain := ⟨rfl, fun _ h => by cases h⟩

/-- A step that is not at a mark puts none on the stack. -/
theorem not_mem_of_step {stack stack' : Stack} {t : Token} (ht : t.kind ≠ .discard)
    (hs : ∀ mark, Frame.discard mark ∉ stack) (h : stack.step t = .more stack') (mark : Span) :
    Frame.discard mark ∉ stack' := by
  have accepted (f : Form) {stack : Stack} (hs : ∀ mark, Frame.discard mark ∉ stack)
      (h : stack.accept f = .more stack') : Frame.discard mark ∉ stack' := by
    rcases stack with _ | ⟨⟨opened, start, read⟩ | ⟨mark'⟩, outer⟩
    · cases h
    · cases h
      simpa using hs mark
    · exact absurd (List.mem_cons_self) (hs mark')
  obtain ⟨kind, span⟩ := t
  cases kind with
  | comment text => cases h; exact hs mark
  | discard => exact absurd rfl ht
  | opening bracket =>
    cases h
    simpa using hs mark
  | atom a => exact accepted _ hs h
  | fault f => cases h
  | closing bracket =>
    rcases stack with _ | ⟨⟨opened, start, read⟩ | ⟨mark'⟩, outer⟩
    · cases h
    · simp only [Stack.step, Stack.close] at h
      split at h
      · cases h
      · split at h
        · cases h
        · exact accepted _ (fun m hm => hs m (List.mem_cons_of_mem _ hm)) h
    · exact absurd (List.mem_cons_self) (hs mark')

theorem IsPlain.feed {r : Recovery} (h : r.IsPlain) {t : Token} (ht : t.kind ≠ .discard) :
    (r.feed t).IsPlain := by
  obtain ⟨forms, faults, mode⟩ := r
  cases mode with
  | skipping =>
    simp only [Recovery.feed]
    split
    · exact ⟨rfl, by simp⟩
    · trivial
  | reading leftOpen stack =>
    obtain ⟨hopen, hs⟩ := h
    simp only [Recovery.feed]
    split
    · exact ⟨rfl, by simp⟩
    · split
      · rename_i hstep
        exact ⟨hopen, not_mem_of_step ht hs hstep⟩
      · exact ⟨rfl, fun _ h => by cases h⟩
      · trivial

theorem IsPlain.foldl_feed {r : Recovery} (h : r.IsPlain) {ts : List Token}
    (hts : ∀ t ∈ ts, t.kind ≠ .discard) : (ts.foldl Recovery.feed r).IsPlain := by
  induction ts generalizing r with
  | nil => exact h
  | cons t ts ih =>
    rw [List.forall_mem_cons] at hts
    exact ih (h.feed hts.1) hts.2

/-- At the bracket of a declaration a plain reader goes on like a fresh one. It notes a fault
exactly if it would note one at the end of the text. -/
theorem IsPlain.feed_beginsDeclaration {r : Recovery} (h : r.IsPlain) {t : Token}
    (ht : t.beginsDeclaration = true) (stop : Span) :
    ∃ earlier, r.feed t = ((start 0).feed t).behind earlier ∧
      earlier.forms = (r.finish stop).forms ∧
      earlier.faults.length = (r.finish stop).faults.length := by
  obtain ⟨forms, faults, mode⟩ := r
  -- of what came before only the forms and faults are kept, whatever the reader was doing
  cases mode with
  | skipping =>
    refine ⟨⟨forms, faults, .skipping⟩, ?_, rfl, rfl⟩
    rw [← beginAt_eq_behind ht]
    exact if_pos ht
  | reading leftOpen stack =>
    obtain ⟨rfl, hs⟩ := h
    cases stack with
    | nil =>
      refine ⟨⟨forms, faults, .reading 0 []⟩, ?_, rfl, rfl⟩
      rw [← feed_behind]
      rfl
    | cons frame outer =>
      -- an open bracket: the fault is noted here instead of at the end
      refine ⟨⟨forms, (.nextDeclaration, t.span) :: faults, .skipping⟩, ?_, rfl, rfl⟩
      rw [← beginAt_eq_behind ht]
      cases frame with
      | discard mark => exact absurd List.mem_cons_self (hs mark)
      | items bracket start read => simp [Recovery.feed, ht, Stack.depth, note]

end Recovery

/-- Tokens that begin with a declaration are read behind others as they are alone. -/
theorem recover_append {ts us : List Token} {t : Token} (hts : ∀ t ∈ ts, t.kind ≠ .discard)
    (ht : t.beginsDeclaration = true) (middle stop : Span) :
    (recover stop 0 (ts ++ t :: us)).1 =
        (recover middle 0 ts).1 ++ (recover stop 0 (t :: us)).1 ∧
      (recover stop 0 (ts ++ t :: us)).2.length =
        (recover middle 0 ts).2.length + (recover stop 0 (t :: us)).2.length := by
  have plain := Recovery.isPlain_start.foldl_feed hts
  obtain ⟨earlier, hfeed, hforms, hfaults⟩ := plain.feed_beginsDeclaration ht middle
  have whole : (ts ++ t :: us).foldl Recovery.feed (.start 0) =
      ((t :: us).foldl Recovery.feed (.start 0)).behind earlier := by
    rw [List.foldl_append, List.foldl_cons, hfeed, Recovery.foldl_feed_behind, List.foldl_cons]
  simp only [recover, whole, Recovery.finish_behind]
  simp only [Recovery.behind, List.reverse_append, List.length_reverse, List.length_append, hforms,
    hfaults, true_and]

/-! ### Texts -/

/-- Tokens are read alike wherever they stand. -/
theorem recover_mapSpan {g : Span → Span} (hg : Span.IsMove g) (stop : Span) (ts : List Token) :
    recover (g stop) 0 (ts.map (Token.mapSpan g)) =
      Prod.map (List.map (Form.mapSpan g)) (List.map (Prod.map id g)) (recover stop 0 ts) := by
  have start : Recovery.start 0 = (Recovery.start 0).mapSpan g := rfl
  rw [recover, start, Recovery.foldl_feed_mapSpan hg, Recovery.finish_mapSpan]
  simp only [recover, Recovery.mapSpan, Prod.map, List.map_reverse]

theorem forms_allRecovering (cs : List Char) :
    (Form.allRecovering cs).1 = (recover (lex cs).stop 0 (lex cs).tokens).1 := rfl

theorem length_problems_allRecovering (cs : List Char) :
    (Form.allRecovering cs).2.length = (recover (lex cs).stop 0 (lex cs).tokens).2.length :=
  List.length_map _

/-- A text that begins with an opening bracket begins with a declaration. -/
theorem lex_opening (cs : List Char) :
    ∃ t ts, (lex ('(' :: cs)).tokens = t :: ts ∧ t.beginsDeclaration = true := by
  rw [lex, lexFrom_cons .start (by decide)]
  exact ⟨_, _, rfl, rfl⟩

section Texts

variable {cs ds : List Char} (hcs : EndsLine cs) (hds : ∀ c ∈ ds.head?, c = '(')
  (hdiscard : ∀ t ∈ (lex cs).tokens, t.kind ≠ .discard)
  (hstring : ∀ t ∈ (lex cs).tokens, t.kind ≠ .fault .unterminatedString)
include hcs hds hdiscard hstring

/-- The forms and the number of faults of one text behind another. -/
theorem allRecovering_append :
    (Form.allRecovering (cs ++ ds)).1 =
        (Form.allRecovering cs).1 ++ (Form.allRecovering ds).1.map
          (Form.mapSpan (.shift (byteCount cs) (.ofNat (cs.count '\n')))) ∧
      (Form.allRecovering (cs ++ ds)).2.length =
        (Form.allRecovering cs).2.length + (Form.allRecovering ds).2.length := by
  cases ds with
  | nil =>
    have empty : Form.allRecovering [] = ([], []) := by
      simp [Form.allRecovering, Reader.ofText, Reader.allRecovering, lex, lexFrom_nil, recover,
        Recovery.start, Recovery.finish]
    rw [List.append_nil, empty]
    exact ⟨by simp, rfl⟩
  | cons c ds =>
    obtain rfl : c = '(' := hds c rfl
    obtain ⟨t, ts, htokens, ht⟩ := lex_opening ds
    have hg := Span.isMove_shift (byteCount cs) (.ofNat (cs.count '\n'))
    have moved := lexFrom_shift (byteCount cs) (.ofNat (cs.count '\n')) .start ('(' :: ds)
    rw [← Position.after_of_endsLine hcs] at moved
    revert hg moved
    generalize Span.shift (byteCount cs) (.ofNat (cs.count '\n')) = g
    intro hg moved
    -- the tokens of both texts, those of the second one moved
    have whole : lex (cs ++ '(' :: ds) =
        ⟨(lex cs).tokens ++ (t :: ts).map (Token.mapSpan g), g (lex ('(' :: ds)).stop⟩ := by
      rw [lex, lexFrom_append _ hcs .start hstring, moved, ← lex, ← lex, htokens]
    have begins : (t.mapSpan g).beginsDeclaration = true := by
      rw [Recovery.beginsDeclaration_mapSpan hg, ht]
    obtain ⟨forms, faults⟩ := @recover_append _ (ts.map (Token.mapSpan g)) _ hdiscard begins
      (lex cs).stop (g (lex ('(' :: ds)).stop)
    rw [← List.map_cons, recover_mapSpan hg, ← htokens] at forms faults
    constructor
    · rw [forms_allRecovering, whole, ← htokens]
      exact forms
    · rw [length_problems_allRecovering, whole, ← htokens]
      rw [length_problems_allRecovering, length_problems_allRecovering]
      simpa using faults

end Texts

/-! ### Catalogs -/

namespace Collected

/-- Whether the same declarations have been collected, wherever they were read. -/
structure Agrees (s t : Collected) : Prop where
  types : s.types = t.types
  enums : s.enums = t.enums
  augmentations : s.augmentations.map (·.1) = t.augmentations.map (·.1)

variable {s t : Collected}

theorem Agrees.refl (s : Collected) : s.Agrees s := ⟨rfl, rfl, rfl⟩

theorem Agrees.report (h : s.Agrees t) (p q : Problem) : (s.report p).Agrees (t.report q) :=
  ⟨h.types, h.enums, h.augmentations⟩

theorem Agrees.foldl_report_left {α : Type} (h : s.Agrees t) (problem : α → Problem)
    (xs : List α) : (xs.foldl (fun s x => s.report (problem x)) s).Agrees t := by
  induction xs generalizing s with
  | nil => exact h
  | cons x xs ih => exact ih ⟨h.types, h.enums, h.augmentations⟩

theorem Agrees.symm (h : s.Agrees t) : t.Agrees s :=
  ⟨h.types.symm, h.enums.symm, h.augmentations.symm⟩

theorem Agrees.foldl_report_right {α : Type} (h : s.Agrees t) (problem : α → Problem)
    (xs : List α) : s.Agrees (xs.foldl (fun t x => t.report (problem x)) t) :=
  (h.symm.foldl_report_left problem xs).symm

theorem Agrees.put (h : s.Agrees t) (d : Declaration) (o o' : Origin) :
    (s.put d o).Agrees (t.put d o') := by
  obtain ⟨types, enums, augmentations⟩ := h
  cases d with
  | type d => exact ⟨congrArg (·.insert d.name d) types, enums, augmentations⟩
  | enum d => exact ⟨types, congrArg (·.insert d.name d) enums, augmentations⟩
  | augment a => exact ⟨types, enums, by simp [Collected.put, augmentations]⟩

theorem Agrees.remove (h : s.Agrees t) (name : String) : (s.remove name).Agrees (t.remove name) :=
  ⟨congrArg (·.erase name) h.types, congrArg (·.erase name) h.enums, h.augmentations⟩

theorem Agrees.add (h : s.Agrees t) (precedence : Precedence) (d : Declaration) (o o' : Origin) :
    (s.add precedence d o).Agrees (t.add precedence d o') := by
  have known (name : String) : s.contains name = t.contains name := by
    rw [Collected.contains, Collected.contains, h.types, h.enums]
  cases d with
  | augment a => exact h.put (.augment a) o o'
  | type | enum =>
    simp only [Collected.add, known]
    split
    · cases precedence with
      | keepFirst => exact h.report _ _
      | keepLast => exact ((h.report _ _).remove _).put _ o o'
    · exact h.put _ o o'

/-- A form adds the same wherever it stands. -/
theorem Agrees.addForm (h : s.Agrees t) (precedence : Precedence) (source source' : Source)
    (f : Form) (g : Span → Span) :
    (s.addForm precedence source (f.mapSpan g)).Agrees (t.addForm precedence source' f) := by
  unfold Collected.addForm
  rw [Declared.ofForm_mapSpan]
  cases Declared.ofForm f with
  | ok d => exact h.add precedence _ _ _
  | error fault => exact h.report _ _

theorem Agrees.foldl_addForm (h : s.Agrees t) (precedence : Precedence) (source source' : Source)
    (fs : List Form) (g : Span → Span) :
    ((fs.map (Form.mapSpan g)).foldl (Collected.addForm precedence source) s).Agrees
      (fs.foldl (Collected.addForm precedence source') t) := by
  induction fs generalizing s t with
  | nil => exact h
  | cons f fs ih => exact ih (h.addForm precedence source source' f g)

theorem addedMembers_eq (augmentations : List (Augmentation × Origin)) (name : String) :
    addedMembers augmentations name =
      ((augmentations.map (·.1)).filter (·.target = name)).flatMap (·.members) := by
  simp [addedMembers, List.filter_map, List.flatMap_map, Function.comp_def]

theorem Agrees.augmentAll (h : s.Agrees t) : s.augmentAll.types = t.augmentAll.types := by
  refine OrderedMap.ext_get? ?_ fun name => ?_
  · rw [order_augmentAll, order_augmentAll, h.types]
  · rw [get?_augmentAll, get?_augmentAll, h.types, addedMembers_eq, addedMembers_eq,
      h.augmentations]

/-- Reading a source into agreeing collections makes agreeing collections. -/
theorem Agrees.collect (h : s.Agrees t) (precedence : Precedence) (source : Source) :
    (s.collect precedence source).Agrees (t.collect precedence source) := by
  have reported := (h.foldl_report_left (source.locate · none)
    (Form.allRecovering source.text.toList).2).foldl_report_right (source.locate · none)
    (Form.allRecovering source.text.toList).2
  simpa [Collected.collect] using reported.foldl_addForm precedence source source
    (Form.allRecovering source.text.toList).1 id

theorem Agrees.foldl_collect (h : s.Agrees t) (precedence : Precedence) (sources : List Source) :
    (sources.foldl (Collected.collect precedence) s).Agrees
      (sources.foldl (Collected.collect precedence) t) := by
  induction sources generalizing s t with
  | nil => exact h
  | cons source sources ih => exact ih (h.collect precedence source)

end Collected

section Load

variable {P Q : String} (hP : EndsLine P.toList) (hQ : ∀ c ∈ Q.toList.head?, c = '(')
  (hdiscard : ∀ t ∈ (lex P.toList).tokens, t.kind ≠ .discard)
  (hstring : ∀ t ∈ (lex P.toList).tokens, t.kind ≠ .fault .unterminatedString)
include hP hQ hdiscard hstring

/-- One source with two texts and two sources with one each make agreeing collections. -/
theorem Collected.collect_append (s : Collected) (precedence : Precedence)
    (whole first second : String) :
    (s.collect precedence ⟨whole, P ++ Q⟩).Agrees
      ((s.collect precedence ⟨first, P⟩).collect precedence ⟨second, Q⟩) := by
  have forms := (allRecovering_append hP hQ hdiscard hstring).1
  unfold Collected.collect
  simp only [String.toList_append, forms, List.foldl_append]
  refine Collected.Agrees.foldl_addForm ?_ precedence _ _ _ _
  refine Collected.Agrees.foldl_report_right ?_ _ _
  have reported := ((Collected.Agrees.refl s).foldl_report_left
    ((⟨whole, P ++ Q⟩ : Source).locate · none)
    (Form.allRecovering (P.toList ++ Q.toList)).2).foldl_report_right
    ((⟨first, P⟩ : Source).locate · none) (Form.allRecovering P.toList).2
  -- the problems are reported apart from what is collected, and may differ
  simpa using reported.foldl_addForm precedence ⟨whole, P ++ Q⟩ ⟨first, P⟩
    (Form.allRecovering P.toList).1 id

/-- A text that ends with a line, leaves no string open and discards nothing can stand in front of
a text that begins with a declaration. The forms of both are the forms of the one and, moved to
their places, those of the other, with as many faults as both have; and wherever the two stand
among the sources of a load, as one source or as two, the catalog is the same. -/
theorem load_append :
    (Form.allRecovering (P ++ Q).toList).1 =
        (Form.allRecovering P.toList).1 ++ (Form.allRecovering Q.toList).1.map
          (Form.mapSpan (.shift (byteCount P.toList) (.ofNat (P.toList.count '\n')))) ∧
      (Form.allRecovering (P ++ Q).toList).2.length =
        (Form.allRecovering P.toList).2.length + (Form.allRecovering Q.toList).2.length ∧
      ∀ settings before after whole first second,
        (load settings (before ++ ⟨whole, P ++ Q⟩ :: after)).catalog =
          (load settings (before ++ ⟨first, P⟩ :: ⟨second, Q⟩ :: after)).catalog := by
  obtain ⟨forms, faults⟩ := allRecovering_append hP hQ hdiscard hstring
  rw [String.toList_append]
  refine ⟨forms, faults, fun settings before after whole first second => ?_⟩
  have agrees :
      (Collected.ofSources settings.duplicates (before ++ ⟨whole, P ++ Q⟩ :: after)).Agrees
        (Collected.ofSources settings.duplicates
          (before ++ ⟨first, P⟩ :: ⟨second, Q⟩ :: after)) := by
    rw [Collected.ofSources, Collected.ofSources, List.foldl_append, List.foldl_append]
    exact (Collected.collect_append hP hQ hdiscard hstring _ _ whole first second).foldl_collect _
      after
  have enums : (Collected.ofSources settings.duplicates
        (before ++ ⟨whole, P ++ Q⟩ :: after)).augmentAll.enums =
      (Collected.ofSources settings.duplicates
        (before ++ ⟨first, P⟩ :: ⟨second, Q⟩ :: after)).augmentAll.enums := by
    rw [Collected.enums_augmentAll, Collected.enums_augmentAll, agrees.enums]
  exact congrArg₂ Catalog.ofMaps agrees.augmentAll enums

end Load

/-- A declaration behind a bracket that is never closed. -/
theorem load_append_unclosed :
    (load {} [⟨"whole", "(class: A [\n" ++ "(class: B)"⟩]).catalog =
      (load {} [⟨"first", "(class: A [\n"⟩, ⟨"second", "(class: B)"⟩]).catalog :=
  (load_append (P := "(class: A [\n") (Q := "(class: B)") (by decide +kernel) (by simp)
    (by decide +kernel) (by decide +kernel)).2.2 {} [] [] "whole" "first" "second"

end ApiCatalog
