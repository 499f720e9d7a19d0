import ApiCatalog.Proofs.Concatenation

/-!
# Recovering reading goes on

Recovering reading goes round by round. A round passes over comments and forms that are discarded;
then it reads one form at top level, or it meets one fault and goes on to the bracket of the next
declaration. There are rounds until the text ends where nothing is begun.

A fault leaves the token where it shows, since the next declaration may begin there. A round that
has met nothing before that token would leave all tokens, and the next round would come to the same
fault; so then the token is taken. Hence each round takes a token at least, and there are no more
rounds than tokens.

Main definitions: `Recovery.nextRound`, `Recovery.rounds`. Main statement:
`Form.allRecovering_rounds`.
-/

namespace ApiCatalog

/-- What comes of a round of recovering reading. -/
inductive Round
  | form (form : Form)
  /-- A fault, and the span where it shows. -/
  | fault (fault : ReadFault) (span : Span)

namespace Round

/-- The form that was read. -/
def form? : Round → Option Form
  | form f => some f
  | fault _ _ => none

/-- The fault that was met. -/
def fault? : Round → Option (ReadFault × Span)
  | form _ => none
  | fault x span => some (x, span)

/-- Each of some rounds gives a form or a fault. -/
theorem length_filterMap_add (rounds : List Round) :
    (rounds.filterMap form?).length + (rounds.filterMap fault?).length = rounds.length := by
  induction rounds with
  | nil => rfl
  | cons round rounds ih =>
    rw [List.length_cons, ← ih]
    cases round with
    | form f =>
      simp only [List.filterMap_cons, form?, fault?, List.length_cons]
      omega
    | fault x span =>
      simp only [List.filterMap_cons, form?, fault?, List.length_cons]
      omega

end Round

/-- The tokens from the bracket of the next declaration on. -/
def fromNextDeclaration (ts : List Token) : List Token := ts.dropWhile fun t => !t.beginsDeclaration

namespace Recovery

/-! ### Rounds -/

/-- The next round, and the tokens behind it. There is none at the end of the text, if nothing is
begun. A token at which a round fails has been taken if the fault is behind it, or if nothing was
begun before it. -/
def nextRound (stop : Span) (leftOpen : Nat) (stack : Stack) :
    List Token → Option (Round × List Token)
  | [] =>
    if stack.isEmpty then none
    else some (.fault (stack.endFault stop).1 (stack.endFault stop).2, [])
  | t :: ts =>
    if t.beginsDeclaration && !stack.isEmpty && 0 < leftOpen + stack.depth then
      some (.fault .nextDeclaration t.span, fromNextDeclaration (t :: ts))
    else
      match stack.step t with
      | .more next => nextRound stop leftOpen next ts
      | .done form => some (.form form, ts)
      | .failed fault span _ =>
        some (.fault fault span,
          fromNextDeclaration (if fault.isBehind || stack.isEmpty then ts else t :: ts))

/-- A round leaves some of the last tokens, and not all if nothing was begun before it. -/
theorem suffix_of_nextRound {stop : Span} {leftOpen : Nat} {stack : Stack} {ts rest : List Token}
    {round : Round} (h : nextRound stop leftOpen stack ts = some (round, rest)) :
    rest <:+ ts ∧ (stack = [] → rest.length < ts.length) := by
  have behind (us : List Token) : fromNextDeclaration us <:+ us := List.dropWhile_suffix _
  have shorter {t : Token} {us vs : List Token} (hus : us <:+ vs) :
      us <:+ t :: vs ∧ us.length < (t :: vs).length :=
    ⟨hus.trans (List.suffix_cons t vs), Nat.lt_succ_of_le hus.length_le⟩
  induction ts generalizing stack with
  | nil =>
    rw [nextRound] at h
    split at h
    · cases h
    · rename_i some
      cases h
      exact ⟨List.suffix_rfl, fun none => absurd (none ▸ rfl) some⟩
  | cons t ts ih =>
    rw [nextRound] at h
    split at h
    · -- the bracket of the next declaration is left, since something was begun
      rename_i boundary
      cases h
      refine ⟨behind _, fun none => ?_⟩
      rw [none] at boundary
      simp at boundary
    · split at h
      · exact ⟨(shorter (ih h).1).1, fun _ => (shorter (ih h).1).2⟩
      · cases h
        exact ⟨List.suffix_cons t rest, fun _ => Nat.lt_succ_self _⟩
      · cases h
        split
        · exact ⟨(shorter (behind ts)).1, fun _ => (shorter (behind ts)).2⟩
        · -- the token is left only if something was begun
          rename_i taken
          refine ⟨behind _, fun none => ?_⟩
          rw [none] at taken
          simp at taken

/-- What comes of the rounds until there is none. Brackets that were left open before count in the
first of them only. -/
def rounds (stop : Span) (leftOpen : Nat) (ts : List Token) : List Round :=
  match h : nextRound stop leftOpen [] ts with
  | none => []
  | some (round, rest) =>
    have : rest.length < ts.length := (suffix_of_nextRound h).2 rfl
    round :: rounds stop 0 rest
termination_by ts.length

theorem length_rounds_le (stop : Span) (leftOpen : Nat) (ts : List Token) :
    (rounds stop leftOpen ts).length ≤ ts.length := by
  fun_induction rounds stop leftOpen ts with
  | case1 => exact Nat.zero_le _
  | case2 leftOpen ts round rest h less ih =>
    rw [List.length_cons]
    omega

/-! ### The rounds of a reader -/

/-- What a reader has met at the end of the text, the latest first. -/
def metBy (stop : Span) (r : Recovery) (ts : List Token) : List Form × List (ReadFault × Span) :=
  (((ts.foldl feed r).finish stop).forms, ((ts.foldl feed r).finish stop).faults)

/-- A reader that looks for the next declaration goes on like one that begins there. -/
theorem metBy_skipping (stop : Span) (forms : List Form) (faults : List (ReadFault × Span))
    (ts : List Token) :
    metBy stop ⟨forms, faults, .skipping⟩ ts =
      metBy stop ⟨forms, faults, .reading 0 []⟩ (fromNextDeclaration ts) := by
  induction ts with
  | nil => rfl
  | cons t ts ih =>
    cases begins : t.beginsDeclaration with
    | false =>
      have skipped : fromNextDeclaration (t :: ts) = fromNextDeclaration ts := by
        simp [fromNextDeclaration, begins]
      have quiet : feed ⟨forms, faults, .skipping⟩ t = ⟨forms, faults, .skipping⟩ := by
        simp [feed, begins]
      rw [skipped, ← ih, metBy, List.foldl_cons, quiet, metBy]
    | true =>
      have found : fromNextDeclaration (t :: ts) = t :: ts := by
        simp [fromNextDeclaration, begins]
      have same : feed ⟨forms, faults, .skipping⟩ t = feed ⟨forms, faults, .reading 0 []⟩ t := by
        simp [feed, begins, beginAt, Stack.step, Token.kind_of_beginsDeclaration begins]
      rw [found, metBy, List.foldl_cons, same, metBy, List.foldl_cons]

/-- A reader goes on behind a round with what came of it. -/
theorem metBy_reading (stop : Span) (forms : List Form) (faults : List (ReadFault × Span))
    (leftOpen : Nat) (stack : Stack) (ts : List Token) :
    metBy stop ⟨forms, faults, .reading leftOpen stack⟩ ts =
      match nextRound stop leftOpen stack ts with
      | none => (forms, faults)
      | some (round, rest) =>
        metBy stop ⟨round.form?.toList ++ forms, round.fault?.toList ++ faults, .reading 0 []⟩
          rest := by
  induction ts generalizing stack with
  | nil =>
    cases stack with
    | nil => rfl
    | cons frame outer => rfl
  | cons t ts ih =>
    rw [nextRound, metBy, List.foldl_cons]
    by_cases boundary :
        (t.beginsDeclaration && !stack.isEmpty && 0 < leftOpen + stack.depth) = true
    · have begins : t.beginsDeclaration = true := by
        simp only [Bool.and_eq_true] at boundary
        exact boundary.1.1
      have noted : feed ⟨forms, faults, .reading leftOpen stack⟩ t =
          feed ⟨forms, (.nextDeclaration, t.span) :: faults, .skipping⟩ t := by
        simp only [feed, if_pos boundary, if_pos begins, note]
      rw [if_pos boundary, noted, ← List.foldl_cons, ← metBy, metBy_skipping]
      rfl
    · have stepped : feed ⟨forms, faults, .reading leftOpen stack⟩ t =
          match stack.step t with
          | .more stack => ⟨forms, faults, .reading leftOpen stack⟩
          | .done form => ⟨form :: forms, faults, .reading 0 []⟩
          | .failed fault span _ => ⟨forms, (fault, span) :: faults, .skipping⟩ := by
        simp only [feed, if_neg boundary]
        rfl
      rw [if_neg boundary, stepped]
      cases hstep : stack.step t with
      | more next => exact ih next
      | done form => rfl
      | failed fault span left =>
        -- the token at which a round fails begins no declaration, so it does not matter whether it
        -- has been taken
        have closes : t.beginsDeclaration = false := by
          by_contra begins
          rw [Bool.not_eq_false] at begins
          rw [Stack.step, Token.kind_of_beginsDeclaration begins] at hstep
          cases hstep
        have passed : fromNextDeclaration (if fault.isBehind || stack.isEmpty then ts else t :: ts) =
            fromNextDeclaration ts := by
          split
          · rfl
          · simp [fromNextDeclaration, closes]
        simp only [passed]
        exact metBy_skipping stop forms _ ts

/-- A reader meets what comes of its rounds. -/
theorem metBy_rounds (stop : Span) (forms : List Form) (faults : List (ReadFault × Span))
    (leftOpen : Nat) (ts : List Token) :
    metBy stop ⟨forms, faults, .reading leftOpen []⟩ ts =
      (((rounds stop leftOpen ts).filterMap Round.form?).reverse ++ forms,
        ((rounds stop leftOpen ts).filterMap Round.fault?).reverse ++ faults) := by
  fun_induction rounds stop leftOpen ts generalizing forms faults with
  | case1 leftOpen ts none =>
    rw [metBy_reading, none]
    rfl
  | case2 leftOpen ts round rest h less ih =>
    rw [metBy_reading, h]
    simp only [ih]
    cases round <;> simp [List.filterMap_cons, Round.form?, Round.fault?]

theorem recover_eq_rounds (stop : Span) (leftOpen : Nat) (ts : List Token) :
    recover stop leftOpen ts =
      ((rounds stop leftOpen ts).filterMap Round.form?,
        (rounds stop leftOpen ts).filterMap Round.fault?) := by
  have met := metBy_rounds stop [] [] leftOpen ts
  simp only [List.append_nil] at met
  rw [recover, start, ← List.reverse_reverse (List.filterMap Round.form? _),
    ← List.reverse_reverse (List.filterMap Round.fault? _)]
  exact Prod.ext (congrArg (fun m => m.1.reverse) met) (congrArg (fun m => m.2.reverse) met)

end Recovery

/-- Every round of recovering reading takes a token at least, whatever tokens are left and however
many brackets were left open before. The forms and problems of a text are what comes of its rounds,
in order, one of each; there are no more of them than tokens. -/
theorem Form.allRecovering_rounds (source : List Char) :
    (∀ leftOpen ts round rest,
        Recovery.nextRound (lex source).stop leftOpen [] ts = some (round, rest) →
          rest <:+ ts ∧ rest.length < ts.length) ∧
      (allRecovering source).1 =
        (Recovery.rounds (lex source).stop 0 (lex source).tokens).filterMap Round.form? ∧
      (allRecovering source).2 =
        ((Recovery.rounds (lex source).stop 0 (lex source).tokens).filterMap Round.fault?).map
          (fun (fault, span) => (Reader.ofText source).problem fault span) ∧
      (allRecovering source).1.length + (allRecovering source).2.length =
        (Recovery.rounds (lex source).stop 0 (lex source).tokens).length ∧
      (Recovery.rounds (lex source).stop 0 (lex source).tokens).length ≤
        (lex source).tokens.length := by
  have found := Recovery.recover_eq_rounds (lex source).stop 0 (lex source).tokens
  have forms : (allRecovering source).1 =
      (Recovery.rounds (lex source).stop 0 (lex source).tokens).filterMap Round.form? := by
    rw [forms_allRecovering, found]
  have problems : (allRecovering source).2 =
      ((Recovery.rounds (lex source).stop 0 (lex source).tokens).filterMap Round.fault?).map
        (fun (fault, span) => (Reader.ofText source).problem fault span) := by
    simp only [allRecovering, Reader.allRecovering, Reader.ofText, found]
  refine ⟨?_, forms, problems, ?_, Recovery.length_rounds_le _ _ _⟩
  · intro leftOpen ts round rest h
    obtain ⟨suffix, shorter⟩ := Recovery.suffix_of_nextRound h
    exact ⟨suffix, shorter rfl⟩
  · rw [forms, problems, List.length_map, Round.length_filterMap_add]

/-- A bracket that is left open ends the first round, which takes the bracket and its item and leaves
the declaration behind them. -/
theorem Form.allRecovering_rounds_open :
    ∃ round, Recovery.nextRound (lex "(a\n(b)".toList).stop 0 [] (lex "(a\n(b)".toList).tokens =
        some (round, (lex "(a\n(b)".toList).tokens.drop 2) ∧
      (lex "(a\n(b)".toList).tokens.drop 2 <:+ (lex "(a\n(b)".toList).tokens ∧
      ((lex "(a\n(b)".toList).tokens.drop 2).length < (lex "(a\n(b)".toList).tokens.length := by
  have left : (Recovery.nextRound (lex "(a\n(b)".toList).stop 0 []
      (lex "(a\n(b)".toList).tokens).map (·.2) = some ((lex "(a\n(b)".toList).tokens.drop 2) := by
    decide +kernel
  obtain ⟨⟨round, rest⟩, h, hrest⟩ := Option.map_eq_some_iff.1 left
  subst hrest
  exact ⟨round, h, (allRecovering_rounds _).1 0 _ round _ h⟩

end ApiCatalog
