import ApiCatalog.Loading
import ApiCatalog.Proofs.PrintedAtoms

/-!
# A string with an unknown escape

An escape that stands for nothing ends its token before the character that is at fault, and the
rest of the string is divided as if it stood outside of a string. What becomes of the text behind
the string is decided by the quotation mark that should have closed it. Unless that mark is taken
up by a token that begins inside the string, it opens another string, which goes on into the text
behind.

Main definition: `restBehindQuote`. Main statement: `kinds_unknownEscape`.
-/

namespace ApiCatalog

/-! ### Kinds of tokens -/

/-- The kinds of the tokens that begin behind an offset. -/
def Lexed.kindsBehind (n : Nat) (l : Lexed) : List TokenKind :=
  (l.tokens.filter (n < ·.span.start)).map (·.kind)

theorem kinds_lex_cons {c : Char} (h : isBlank c = false) (cs : List Char) :
    (lex (c :: cs)).kinds = (scan c cs).kind :: (lex (scan c cs).rest).kinds := by
  rw [lex, kinds_lexFrom_cons .start h, kinds_lexFrom _ .start, ← lex]

theorem kinds_lex_cons_blank {c : Char} (h : isBlank c = true) (cs : List Char) :
    (lex (c :: cs)).kinds = (lex cs).kinds := by
  rw [lex, lexFrom_cons_blank .start h, kinds_lexFrom _ .start, ← lex]

/-- A text without tokens is blank. -/
theorem isBlank_of_kinds_eq_nil {p : Position} {cs : List Char} (h : (lexFrom p cs).kinds = []) :
    ∀ c ∈ cs, isBlank c = true := by
  induction cs using lex_induction generalizing p with
  | nil => exact fun _ hc => absurd hc List.not_mem_nil
  | blank c cs hc ih =>
    rw [lexFrom_cons_blank p hc] at h
    exact List.forall_mem_cons.2 ⟨hc, ih h⟩
  | token c cs hc ih =>
    rw [kinds_lexFrom_cons p hc] at h
    cases h

/-! ### Between quotation marks -/

/-- Whether a text between quotation marks stands for another: it has quotation marks and
backslashes in escapes only, and those stand for their characters. -/
inductive Unescapes : List Char → List Char → Prop
  | nil : Unescapes [] []
  | plain {c : Char} {cs ds : List Char} (quote : c ≠ '"') (backslash : c ≠ '\\')
    (rest : Unescapes cs ds) : Unescapes (c :: cs) (c :: ds)
  | escape {c d : Char} {cs ds : List Char} (known : unescape c = some d)
    (rest : Unescapes cs ds) : Unescapes ('\\' :: c :: cs) (d :: ds)

theorem Unescapes.scanQuoted_append {cs ds : List Char} (h : Unescapes cs ds)
    (read rest : List Char) :
    scanQuoted read (cs ++ rest) = (scanQuoted (ds.reverse ++ read) rest).behind cs := by
  induction h generalizing read with
  | nil => rfl
  | plain quote backslash _ ih =>
    rw [List.cons_append, scanQuoted_plain quote backslash, ih]
    simp [Scanned.behind, Scanned.cons]
  | escape known _ ih =>
    rw [List.cons_append, List.cons_append, scanQuoted, known]
    simp only [ih]
    simp [Scanned.behind, Scanned.cons]

theorem Unescapes.append {cs ds cs' ds' : List Char} (h : Unescapes cs ds)
    (h' : Unescapes cs' ds') : Unescapes (cs ++ cs') (ds ++ ds') := by
  induction h with
  | nil => exact h'
  | plain quote backslash _ ih => exact .plain quote backslash ih
  | escape known _ ih => exact .escape known ih

/-- A string ends with the first quotation mark that is not part of an escape. -/
theorem scan_quoted {cs ds : List Char} (h : Unescapes cs ds) (back : List Char) :
    scan '"' (cs ++ '"' :: back) =
      ⟨.atom (.string (String.ofList ds)), '"' :: cs ++ ['"'], back⟩ := by
  show (scanQuoted [] (cs ++ '"' :: back)).cons '"' = _
  rw [h.scanQuoted_append, scanQuoted, List.append_nil, List.reverse_reverse]
  rfl

/-- An unknown escape ends the token before the character that is at fault. -/
theorem scan_unknownEscape {cs ds : List Char} (h : Unescapes cs ds) {x : Char}
    (hx : unescape x = none) (back : List Char) :
    scan '"' (cs ++ '\\' :: x :: back) =
      ⟨.fault (.unknownEscape x), '"' :: cs ++ ['\\'], x :: back⟩ := by
  show (scanQuoted [] (cs ++ '\\' :: x :: back)).cons '"' = _
  rw [h.scanQuoted_append, scanQuoted, hx]
  rfl

/-! ### Before a quotation mark -/

/-- Whether a token in a text before a quotation mark ends before the mark, whatever follows. -/
def EndsBeforeQuote (cs : List Char) (scanned : List Char → Scanned) : Prop :=
  ∃ kind text rest, text ++ rest = cs ∧
    ∀ back, scanned back = ⟨kind, text, rest ++ '"' :: back⟩

theorem EndsBeforeQuote.cons {cs : List Char} {scanned : List Char → Scanned}
    (h : EndsBeforeQuote cs scanned) (c : Char) :
    EndsBeforeQuote (c :: cs) fun back => (scanned back).cons c := by
  obtain ⟨kind, text, rest, whole, eq⟩ := h
  exact ⟨kind, c :: text, rest, by rw [List.cons_append, whole],
    fun back => congrArg (Scanned.cons c) (eq back)⟩

section Stop

variable {p : Char → Bool} {stop : Char} (hstop : p stop = false) (cs more : List Char)
include hstop

theorem takeWhile_append_cons : (cs ++ stop :: more).takeWhile p = cs.takeWhile p := by
  induction cs with
  | nil => simp [hstop]
  | cons c cs ih => rw [List.cons_append, List.takeWhile_cons, List.takeWhile_cons, ih]

theorem dropWhile_append_cons :
    (cs ++ stop :: more).dropWhile p = cs.dropWhile p ++ stop :: more := by
  induction cs with
  | nil => simp [hstop]
  | cons c cs ih =>
    rw [List.cons_append, List.dropWhile_cons, List.dropWhile_cons, ih]
    split <;> rfl

end Stop

theorem endsBeforeQuote_scanWhile {p : Char → Bool} (hp : p '"' = false)
    (kind : List Char → TokenKind) (cs : List Char) :
    EndsBeforeQuote cs fun back => scanWhile p kind (cs ++ '"' :: back) :=
  ⟨kind (cs.takeWhile p), cs.takeWhile p, cs.dropWhile p, List.takeWhile_append_dropWhile,
    fun back => by simp only [scanWhile, takeWhile_append_cons hp, dropWhile_append_cons hp]⟩

theorem endsBeforeQuote_scanNumeral (negative : Bool) (cs : List Char) :
    EndsBeforeQuote cs fun back => scanNumeral negative (cs ++ '"' :: back) := by
  have hquote : Char.isDigit '"' = false := by decide
  have whole := List.takeWhile_append_dropWhile (p := Char.isDigit) (l := cs)
  simp only [scanNumeral, takeWhile_append_cons hquote, dropWhile_append_cons hquote]
  revert whole
  generalize cs.takeWhile Char.isDigit = digits
  rcases cs.dropWhile Char.isDigit with _ | ⟨d, more⟩ <;> intro whole
  · exact ⟨_, digits, [], whole, fun back => rfl⟩
  · by_cases hd : d = '.'
    · subst hd
      have fraction := List.takeWhile_append_dropWhile (p := Char.isDigit) (l := more)
      simp only [List.cons_append, takeWhile_append_cons hquote, dropWhile_append_cons hquote]
      revert fraction
      generalize more.takeWhile Char.isDigit = ds
      intro fraction
      cases ds with
      | nil => exact ⟨_, digits, '.' :: more, whole, fun back => rfl⟩
      | cons d ds =>
        exact ⟨_, digits ++ '.' :: d :: ds, more.dropWhile Char.isDigit,
          by rw [List.append_assoc, List.cons_append, fraction, whole], fun back => rfl⟩
    · exact ⟨_, digits, d :: more, whole, fun back => by simp [hd]; rfl⟩

/-- Whether a number begins is seen before the quotation mark. -/
theorem startsNumber_append_quote (c : Char) (cs back : List Char) :
    startsNumber c (cs ++ '"' :: back) = startsNumber c cs := by
  cases cs with
  | nil =>
    have hquote : Char.isDigit '"' = false := by decide
    simp [startsNumber, hquote]
  | cons d cs => rfl

/-- A comment that goes on up to the end of a line ends there. -/
theorem endsBeforeQuote_comment (kind : List Char → TokenKind) {cs : List Char} (h : '\n' ∈ cs) :
    EndsBeforeQuote cs fun back => scanWhile (· ≠ '\n') kind (cs ++ '"' :: back) :=
  ⟨_, _, _, List.takeWhile_append_dropWhile,
    fun back => scanWhile_append ('"' :: back) kind h (by decide)⟩

theorem endsBeforeQuote_scanMark {cs : List Char} (h : cs ≠ []) :
    EndsBeforeQuote cs fun back => scanMark (cs ++ '"' :: back) := by
  cases cs with
  | nil => exact absurd rfl h
  | cons d cs =>
    by_cases hd : d = '_'
    · exact ⟨.discard, ['_'], cs, by rw [hd]; rfl, fun back => by rw [hd]; rfl⟩
    · exact ⟨.fault (.unknownMark d), [d], cs, rfl, fun back => by simp [scanMark]⟩

/-- A token that begins before a quotation mark ends before it, whatever follows, unless it is a
string, a comment, or a mark right before the quotation mark. -/
theorem endsBeforeQuote_scan {c : Char} {cs : List Char} (quote : c ≠ '"')
    (comment : c = ';' → '\n' ∈ cs) (mark : c = '#' → cs ≠ []) :
    EndsBeforeQuote (c :: cs) fun back => scan c (cs ++ '"' :: back) := by
  have hsymbol : canContinueSymbol '"' = false := by decide +kernel
  unfold scan
  split
  · exact ⟨_, [_], cs, rfl, fun back => rfl⟩
  · exact ⟨_, [_], cs, rfl, fun back => rfl⟩
  · exact ⟨_, [_], cs, rfl, fun back => rfl⟩
  · exact ⟨_, [_], cs, rfl, fun back => rfl⟩
  · exact ⟨_, [_], cs, rfl, fun back => rfl⟩
  · exact ⟨_, [_], cs, rfl, fun back => rfl⟩
  · exact (endsBeforeQuote_comment _ (comment rfl)).cons ';'
  · exact (endsBeforeQuote_scanMark (mark rfl)).cons '#'
  · exact (endsBeforeQuote_scanWhile hsymbol keywordKind cs).cons ':'
  · exact absurd rfl quote
  · simp only [startsNumber_append_quote]
    split
    · split
      · exact endsBeforeQuote_scanNumeral false (c :: cs)
      · exact (endsBeforeQuote_scanNumeral (c == '-') cs).cons c
    · split
      · exact endsBeforeQuote_scanWhile hsymbol symbolKind (c :: cs)
      · exact ⟨_, [c], cs, rfl, fun back => rfl⟩

/-- A string that begins before a quotation mark ends before it, whatever follows, or takes it up. -/
theorem endsBeforeQuote_scanQuoted (read cs : List Char) :
    (EndsBeforeQuote cs fun back => scanQuoted read (cs ++ '"' :: back)) ∨
      ∀ back, cs ++ ['"'] <+: (scanQuoted read (cs ++ '"' :: back)).text := by
  fun_induction scanQuoted read cs with
  | case1 read => exact .inr fun back => List.prefix_refl _
  | case2 read rest => exact .inl ⟨_, ['"'], rest, rfl, fun back => rfl⟩
  | case3 read =>
    -- the backslash makes the quotation mark part of an escape
    exact .inr fun back => List.prefix_append ['\\', '"'] _
  | case4 read c rest d hd ih =>
    have step (back : List Char) : scanQuoted read ('\\' :: c :: rest ++ '"' :: back) =
        ((scanQuoted (d :: read) (rest ++ '"' :: back)).cons c).cons '\\' := by
      rw [List.cons_append, List.cons_append, scanQuoted, hd]
    simp only [step]
    refine ih.imp (fun h => (h.cons c).cons '\\') fun h back => ?_
    exact List.cons_prefix_cons.2 ⟨rfl, List.cons_prefix_cons.2 ⟨rfl, h back⟩⟩
  | case5 read c rest hd =>
    refine .inl ⟨.fault (.unknownEscape c), ['\\'], c :: rest, rfl, fun back => ?_⟩
    show scanQuoted read ('\\' :: c :: (rest ++ '"' :: back)) = _
    rw [scanQuoted, hd]
    rfl
  | case6 read c rest quote single escape ih =>
    have backslash : c ≠ '\\' := fun hc => by
      cases rest with
      | nil => exact single hc rfl
      | cons d ds => exact escape d ds hc rfl
    simp only [List.cons_append, scanQuoted_plain quote backslash]
    exact ih.imp (fun h => h.cons c) fun h back => List.cons_prefix_cons.2 ⟨rfl, h back⟩

/-- Whether the token that begins with a character takes up the quotation mark behind a text: a
comment, a mark, or a string does. -/
def TakesQuote (c : Char) (cs : List Char) : Prop :=
  c = ';' ∧ '\n' ∉ cs ∨ c = '#' ∧ cs = [] ∨
    c = '"' ∧ ∀ back, cs ++ ['"'] <+: (scanQuoted [] (cs ++ '"' :: back)).text

theorem endsBeforeQuote_or_takesQuote (c : Char) (cs : List Char) :
    (EndsBeforeQuote (c :: cs) fun back => scan c (cs ++ '"' :: back)) ∨ TakesQuote c cs := by
  by_cases quote : c = '"'
  · subst quote
    exact (endsBeforeQuote_scanQuoted [] cs).imp (fun h => h.cons '"') fun h =>
      .inr (.inr ⟨rfl, h⟩)
  · by_cases comment : c = ';' → '\n' ∈ cs
    · by_cases mark : c = '#' → cs ≠ []
      · exact .inl (endsBeforeQuote_scan quote comment mark)
      · exact .inr (.inr (.inl (by simpa using mark)))
    · exact .inr (.inl (by simpa using comment))

theorem scan_comment {cs : List Char} (h : '\n' ∉ cs) (back : List Char) :
    scan ';' (cs ++ '"' :: back) =
      ⟨.comment (String.ofList (';' :: (cs ++ '"' :: back.takeWhile (· ≠ '\n')))),
        ';' :: (cs ++ '"' :: back.takeWhile (· ≠ '\n')), back.dropWhile (· ≠ '\n')⟩ := by
  have inside : ∀ c ∈ cs, decide (c ≠ '\n') = true := fun c hc =>
    decide_eq_true fun hline => h (hline ▸ hc)
  show (scanWhile (· ≠ '\n') _ (cs ++ '"' :: back)).cons ';' = _
  rw [scanWhile, List.takeWhile_append_of_pos inside, List.dropWhile_append_of_pos inside]
  rfl

theorem TakesQuote.prefix_text {c : Char} {cs : List Char} (h : TakesQuote c cs)
    (back : List Char) : c :: cs ++ ['"'] <+: (scan c (cs ++ '"' :: back)).text := by
  rcases h with ⟨rfl, line⟩ | ⟨rfl, rfl⟩ | ⟨rfl, h⟩
  · rw [scan_comment line]
    simp
  · exact List.prefix_refl _
  · exact List.cons_prefix_cons.2 ⟨rfl, h back⟩

theorem TakesQuote.byteCount_lt {c : Char} {cs : List Char} (h : TakesQuote c cs)
    (back : List Char) : byteCount (c :: cs) < byteCount (scan c (cs ++ '"' :: back)).text := by
  obtain ⟨behind, whole⟩ := h.prefix_text back
  have mark : 0 < byteCount ['"'] := byteCount_pos (List.cons_ne_nil _ _)
  rw [← whole, byteCount_append, byteCount_append]
  omega

/-- Induction along the tokens of a text before a quotation mark, up to the token that takes up the
mark. -/
theorem quote_induction {P : List Char → Prop} (nil : P [])
    (blank : ∀ c cs, isBlank c = true → P cs → P (c :: cs))
    (ends : ∀ c cs kind text rest, isBlank c = false → text ++ rest = c :: cs →
      (∀ back, scan c (cs ++ '"' :: back) = ⟨kind, text, rest ++ '"' :: back⟩) → P rest →
      P (c :: cs))
    (takes : ∀ c cs, isBlank c = false → TakesQuote c cs → P (c :: cs)) (cs : List Char) :
    P cs := by
  induction h : cs.length using Nat.strongRecOn generalizing cs with
  | _ n ih =>
    subst h
    cases cs with
    | nil => exact nil
    | cons c cs =>
      cases hc : isBlank c with
      | true => exact blank c cs hc (ih _ (by simp) cs rfl)
      | false =>
        rcases endsBeforeQuote_or_takesQuote c cs with ⟨kind, text, rest, whole, eq⟩ | h
        · have some : text ≠ [] := by
            simpa only [eq] using scan_text_ne_nil c (cs ++ ['"'])
          have less : rest.length < (c :: cs).length := by
            rw [← whole, List.length_append]
            exact Nat.lt_add_of_pos_left (List.length_pos_iff.2 some)
          exact ends c cs kind text rest hc whole eq (ih _ less rest rfl)
        · exact takes c cs hc h

/-- Where a token begins at a quotation mark, the text before the mark is divided the same whatever
follows the mark. -/
theorem lexFrom_before_quote (p : Position) {cs back : List Char}
    (h : ∃ t ∈ (lexFrom p (cs ++ '"' :: back)).tokens, t.span.start = p.offset + byteCount cs) :
    ∃ earlier : List Token, (∀ t ∈ earlier, t.span.start < p.offset + byteCount cs) ∧
      ∀ back', (lexFrom p (cs ++ '"' :: back')).tokens =
        earlier ++ (lexFrom (p.after cs) ('"' :: back')).tokens := by
  induction cs using quote_induction generalizing p with
  | nil => exact ⟨[], by simp, fun _ => rfl⟩
  | blank c cs hc ih =>
    simp only [List.cons_append, lexFrom_cons_blank p hc, Position.offset_add_cons] at h ⊢
    exact ih (p.advance c) h
  | ends c cs kind text rest hc whole eq ih =>
    have offset := p.offset_add_append text rest
    rw [whole] at offset
    have place : p.after (c :: cs) = (p.after text).after rest := by
      rw [← whole, Position.after_append]
    have some : 0 < byteCount (c :: cs) := byteCount_pos (List.cons_ne_nil c cs)
    simp only [List.cons_append, lexFrom_cons p hc, eq] at h ⊢
    obtain ⟨t, ht, hstart⟩ := h
    rcases List.mem_cons.1 ht with rfl | ht
    · exact absurd hstart (Nat.ne_of_lt (Nat.lt_add_of_pos_right some))
    · obtain ⟨earlier, before, divided⟩ := ih (p.after text) ⟨t, ht, by rw [hstart, offset]⟩
      refine ⟨⟨kind, .between p (p.after text)⟩ :: earlier,
        List.forall_mem_cons.2 ⟨Nat.lt_add_of_pos_right some, ?_⟩, fun back' => ?_⟩
      · rw [offset]
        exact before
      · rw [divided, place]
        rfl
  | takes c cs hc htakes =>
    -- no token begins at the quotation mark: one begins before it and ends behind it
    have behind := htakes.byteCount_lt back
    obtain ⟨t, ht, hstart⟩ := h
    rw [List.cons_append, lexFrom_cons p hc] at ht
    have some : 0 < byteCount (c :: cs) := byteCount_pos (List.cons_ne_nil c cs)
    rcases List.mem_cons.1 ht with rfl | ht
    · exact absurd hstart (Nat.ne_of_lt (Nat.lt_add_of_pos_right some))
    · have bound := (start_lexFrom _ _).1 t ht
      rw [Position.offset_after, hstart] at bound
      omega

/-! ### Behind a quotation mark -/

/-- What is divided apart from the quotation mark between two texts. If the mark becomes part of a
comment, it is what follows the line, and if a string begins at the mark, what follows the string.
Else the mark is the end of a token. -/
def restBehindQuote (cs back : List Char) : List Char :=
  match (lex (cs ++ ['"'])).kinds.getLast? with
  | some (.comment _) => back.dropWhile (· ≠ '\n')
  | some (.fault .unterminatedString) => (scanQuoted [] back).rest
  | _ => back

theorem restBehindQuote_nil (back : List Char) :
    restBehindQuote [] back = (scanQuoted [] back).rest := by
  have kinds : (lex ['"']).kinds = [.fault .unterminatedString] := by decide +kernel
  rw [restBehindQuote, List.nil_append, kinds]
  rfl

theorem restBehindQuote_cons_blank {c : Char} (h : isBlank c = true) (cs back : List Char) :
    restBehindQuote (c :: cs) back = restBehindQuote cs back := by
  rw [restBehindQuote, restBehindQuote, List.cons_append, kinds_lex_cons_blank h]

/-- A token that ends before the quotation mark has no part in what becomes of it. -/
theorem restBehindQuote_cons {c : Char} (hc : isBlank c = false) {cs rest : List Char}
    (h : (scan c (cs ++ ['"'])).rest = rest ++ ['"']) (back : List Char) :
    restBehindQuote (c :: cs) back = restBehindQuote rest back := by
  have some : (lex (rest ++ ['"'])).kinds ≠ [] := fun none =>
    absurd (isBlank_of_kinds_eq_nil none '"' (by simp)) (by decide)
  rw [restBehindQuote, restBehindQuote, List.cons_append, kinds_lex_cons hc, h,
    List.getLast?_cons_of_ne_nil some]

/-- Whether a text is a part of what stands between quotation marks, up to the end; it may begin
inside an escape. -/
def IsQuotedTail (cs : List Char) : Prop :=
  (∃ ds, Unescapes cs ds) ∨ ∃ c cs' ds, cs = c :: cs' ∧ Unescapes cs' ds

namespace IsQuotedTail

theorem of_cons {c : Char} {cs : List Char} (h : IsQuotedTail (c :: cs)) : IsQuotedTail cs := by
  rcases h with ⟨ds, h⟩ | ⟨_, _, ds, eq, h⟩
  · cases h with
    | plain _ _ rest => exact .inl ⟨_, rest⟩
    | escape _ rest => exact .inr ⟨_, _, _, rfl, rest⟩
  · cases eq
    exact .inl ⟨ds, h⟩

theorem of_append {cs ds : List Char} (h : IsQuotedTail (cs ++ ds)) : IsQuotedTail ds := by
  induction cs with
  | nil => exact h
  | cons c cs ih => exact ih h.of_cons

/-- What follows a quotation mark does not begin inside an escape, for the mark was in one. -/
theorem exists_unescapes {cs : List Char} (h : IsQuotedTail ('"' :: cs)) :
    ∃ ds, Unescapes cs ds := by
  rcases h with ⟨ds, h⟩ | ⟨_, _, ds, eq, h⟩
  · cases h with
    | plain quote => exact absurd rfl quote
  · cases eq
    exact ⟨ds, h⟩

end IsQuotedTail

theorem restBehindQuote_of_takesQuote {c : Char} {cs : List Char} (hc : isBlank c = false)
    (h : TakesQuote c cs) (tail : IsQuotedTail (c :: cs)) (back : List Char) :
    restBehindQuote (c :: cs) back = (scan c (cs ++ '"' :: back)).rest := by
  have empty : (lex []).kinds = [] := kinds_lexFrom_nil .start
  rw [restBehindQuote, List.cons_append, kinds_lex_cons hc]
  rcases h with ⟨rfl, line⟩ | ⟨rfl, rfl⟩ | ⟨rfl, -⟩
  · rw [scan_comment line, scan_comment line, List.dropWhile_nil, empty]
    rfl
  · have mark (more : List Char) : scan '#' ([] ++ '"' :: more) =
        ⟨.fault (.unknownMark '"'), ['#', '"'], more⟩ := rfl
    rw [mark, mark, empty]
    rfl
  · obtain ⟨ds, h⟩ := tail.exists_unescapes
    rw [scan_quoted h, scan_quoted h, empty]
    rfl

/-- Behind the quotation mark at the end of a string, as it is divided from somewhere inside, the
rest is divided apart. -/
theorem exists_lexFrom_quotedTail (p : Position) {cs : List Char} (tail : IsQuotedTail cs)
    (back : List Char) :
    ∃ within q, (lexFrom p (cs ++ '"' :: back)).tokens =
        within ++ (lexFrom q (restBehindQuote cs back)).tokens ∧
      (∀ t ∈ within, t.span.start ≤ p.offset + byteCount cs) ∧
      p.offset + byteCount cs < q.offset := by
  induction cs using quote_induction generalizing p with
  | nil =>
    refine ⟨[⟨(scan '"' back).kind, .between p (p.after (scan '"' back).text)⟩],
      p.after (scan '"' back).text, ?_, by simp [Span.between], ?_⟩
    · rw [List.nil_append, lexFrom_cons p (by decide), restBehindQuote_nil]
      rfl
    · rw [Position.offset_after]
      exact Nat.add_lt_add_left (byteCount_pos (scan_text_ne_nil '"' back)) _
  | blank c cs hc ih =>
    obtain ⟨within, q, divided, before, behind⟩ := ih (p.advance c) tail.of_cons
    rw [List.cons_append, lexFrom_cons_blank p hc, restBehindQuote_cons_blank hc]
    rw [← Position.offset_add_cons] at before behind
    exact ⟨within, q, divided, before, behind⟩
  | ends c cs kind text rest hc whole eq ih =>
    rw [← whole] at tail
    obtain ⟨within, q, divided, before, behind⟩ := ih (p.after text) tail.of_append
    have offset := p.offset_add_append text rest
    rw [whole] at offset
    rw [← offset] at before behind
    refine ⟨⟨kind, .between p (p.after text)⟩ :: within, q, ?_,
      List.forall_mem_cons.2 ⟨Nat.le_add_right _ _, before⟩, behind⟩
    rw [List.cons_append, lexFrom_cons p hc, eq, restBehindQuote_cons hc (by rw [eq]), divided]
    rfl
  | takes c cs hc htakes =>
    have rest := restBehindQuote_of_takesQuote hc htakes tail back
    refine ⟨[⟨(scan c (cs ++ '"' :: back)).kind,
        .between p (p.after (scan c (cs ++ '"' :: back)).text)⟩],
      p.after (scan c (cs ++ '"' :: back)).text, ?_, by simp [Span.between], ?_⟩
    · rw [List.cons_append, lexFrom_cons p hc, rest]
      rfl
    · rw [Position.offset_after]
      exact Nat.add_lt_add_left (htakes.byteCount_lt back) _

/-- The tokens that begin behind an offset are those that are divided from behind it on. -/
theorem kindsBehind_eq {n : Nat} {l : Lexed} {t : Token} {earlier : List Token}
    (within : List Token) {q : Position} {rest : List Char}
    (tokens : l.tokens = earlier ++ t :: (within ++ (lexFrom q rest).tokens))
    (before : ∀ u ∈ earlier, u.span.start ≤ n) (here : t.span.start ≤ n)
    (inside : ∀ u ∈ within, u.span.start ≤ n) (behind : n < q.offset) :
    l.kindsBehind n = (lex rest).kinds := by
  have none {ts : List Token} (h : ∀ u ∈ ts, u.span.start ≤ n) :
      ts.filter (n < ·.span.start) = [] :=
    List.filter_eq_nil_iff.2 fun u hu => by simpa using h u hu
  have all : (lexFrom q rest).tokens.filter (n < ·.span.start) = (lexFrom q rest).tokens :=
    List.filter_eq_self.2 fun u hu =>
      decide_eq_true (Nat.lt_of_lt_of_le behind ((start_lexFrom q rest).1 u hu))
  rw [Lexed.kindsBehind, tokens, List.filter_append, none before,
    List.filter_cons_of_neg (by simpa using here), List.filter_append, none inside, all]
  exact kinds_lexFrom q .start rest

/-! ### Texts with a string in them -/

/-- A text with a string in it: what stands before, between and behind the quotation marks. -/
def quoting (front body back : List Char) : List Char := front ++ '"' :: (body ++ '"' :: back)

/-- The kinds of the tokens behind a string in a text. -/
def kindsBehindString (front body back : List Char) : List TokenKind :=
  (lex (quoting front body back)).kindsBehind (byteCount (front ++ '"' :: body))

section Division

variable {front : List Char} (back : List Char) {earlier : List Token} {p : Position}
  (before : ∀ t ∈ earlier, t.span.start < byteCount front) (offset : p.offset = byteCount front)
  (divided : ∀ more, (lex (front ++ '"' :: more)).tokens =
    earlier ++ (lexFrom p ('"' :: more)).tokens)
include before offset divided

/-- Behind a string the text is divided apart. -/
theorem kinds_quoting {body value : List Char} (h : Unescapes body value) :
    (lex (quoting front body back)).kinds =
        earlier.map (·.kind) ++ .atom (.string (String.ofList value)) :: (lex back).kinds ∧
      kindsBehindString front body back = (lex back).kinds := by
  have tokens : (lex (quoting front body back)).tokens = earlier ++
      ⟨.atom (.string (String.ofList value)), .between p (p.after ('"' :: body ++ ['"']))⟩ ::
        (lexFrom (p.after ('"' :: body ++ ['"'])) back).tokens := by
    rw [quoting, divided, lexFrom_cons p (by decide), scan_quoted h]
  have closing := byteCount_append front ('"' :: body)
  constructor
  · rw [Lexed.kinds, tokens, List.map_append, List.map_cons]
    exact congrArg (_ ++ _ :: ·) (kinds_lexFrom _ .start back)
  · refine kindsBehind_eq [] tokens (fun t ht => ?_) ?_ (by simp) ?_
    · have := before t ht
      omega
    · simp only [Span.between, offset]
      omega
    · have mark : 0 < byteCount ['"'] := byteCount_pos (List.cons_ne_nil _ _)
      rw [Position.offset_after, offset, closing, byteCount_append ('"' :: body)]
      omega

/-- From the character at fault in an escape on, the text is divided as if it began there. -/
theorem kinds_quoting_unknownEscape {body₁ body₂ value₁ value₂ : List Char} {x : Char}
    (h₁ : Unescapes body₁ value₁) (h₂ : Unescapes body₂ value₂) (hx : unescape x = none) :
    (lex (quoting front (body₁ ++ '\\' :: x :: body₂) back)).kinds =
        earlier.map (·.kind) ++
          .fault (.unknownEscape x) :: (lex (x :: body₂ ++ '"' :: back)).kinds ∧
      kindsBehindString front (body₁ ++ '\\' :: x :: body₂) back =
        (lex (restBehindQuote (x :: body₂) back)).kinds := by
  have tokens : (lex (quoting front (body₁ ++ '\\' :: x :: body₂) back)).tokens = earlier ++
      ⟨.fault (.unknownEscape x), .between p (p.after ('"' :: body₁ ++ ['\\']))⟩ ::
        (lexFrom (p.after ('"' :: body₁ ++ ['\\'])) (x :: body₂ ++ '"' :: back)).tokens := by
    rw [quoting, divided, List.append_assoc, lexFrom_cons p (by decide)]
    simp only [List.cons_append, scan_unknownEscape h₁ hx]
  have closing : byteCount (front ++ '"' :: (body₁ ++ '\\' :: x :: body₂)) =
      byteCount front + byteCount ('"' :: body₁ ++ ['\\']) + byteCount (x :: body₂) := by
    rw [Nat.add_assoc, ← byteCount_append, ← byteCount_append]
    simp
  constructor
  · rw [Lexed.kinds, tokens, List.map_append, List.map_cons]
    exact congrArg (_ ++ _ :: ·) (kinds_lexFrom _ .start _)
  · have tail : IsQuotedTail (x :: body₂) := .inr ⟨x, body₂, value₂, rfl, h₂⟩
    obtain ⟨within, q, inner, inside, behind⟩ :=
      exists_lexFrom_quotedTail (p.after ('"' :: body₁ ++ ['\\'])) tail back
    rw [Position.offset_after, offset, ← closing] at inside behind
    rw [inner] at tokens
    refine kindsBehind_eq within tokens (fun t ht => ?_) ?_ inside behind
    · have := before t ht
      omega
    · simp only [Span.between, offset]
      omega

end Division

/-- A string with one unknown escape, beside the string in which that escape is a known one.
The tokens before it are the same. A fault stands for the string, and then the text is divided from
the character at fault on as if it began there. So where behind the string all of the text is
divided apart, behind the quotation mark that should close the string with the fault it is what
`restBehindQuote` leaves of the text. -/
theorem kinds_unknownEscape {front body₁ body₂ value₁ value₂ back : List Char} {x : Char}
    (h₁ : Unescapes body₁ value₁) (h₂ : Unescapes body₂ value₂) (hx : unescape x = none)
    (begins : ∃ t ∈ (lex (quoting front (body₁ ++ '\\' :: x :: body₂) back)).tokens,
      t.span.start = byteCount front) :
    (∃ earlier,
      (lex (quoting front (body₁ ++ '\\' :: 'n' :: body₂) back)).kinds =
          earlier ++ .atom (.string (String.ofList (value₁ ++ '\n' :: value₂))) ::
            (lex back).kinds ∧
        (lex (quoting front (body₁ ++ '\\' :: x :: body₂) back)).kinds =
          earlier ++ .fault (.unknownEscape x) :: (lex (x :: body₂ ++ '"' :: back)).kinds) ∧
      kindsBehindString front (body₁ ++ '\\' :: 'n' :: body₂) back = (lex back).kinds ∧
      kindsBehindString front (body₁ ++ '\\' :: x :: body₂) back =
        (lex (restBehindQuote (x :: body₂) back)).kinds := by
  have start : Position.start.offset + byteCount front = byteCount front := Nat.zero_add _
  have offset : (Position.start.after front).offset = byteCount front := by
    rw [Position.offset_after, start]
  obtain ⟨earlier, before, divided⟩ := @lexFrom_before_quote .start front
    (body₁ ++ '\\' :: x :: body₂ ++ '"' :: back) (by rw [start]; exact begins)
  rw [start] at before
  have known : Unescapes ('\\' :: 'n' :: body₂) ('\n' :: value₂) := .escape rfl h₂
  obtain ⟨mended, behind⟩ := kinds_quoting back before offset divided (h₁.append known)
  obtain ⟨broken, behind'⟩ := kinds_quoting_unknownEscape back before offset divided h₁ h₂ hx
  exact ⟨⟨earlier.map (·.kind), mended, broken⟩, behind, behind'⟩

/-- An address with an unknown escape: the quotation mark behind it opens a string that never
ends, and nothing behind it is left. -/
theorem kinds_unknownEscape_in_address :
    kindsBehindString "(class: A :see [".toList ['\\', 'q'] "])\n(class: B)".toList = [] :=
  (@kinds_unknownEscape "(class: A :see [".toList [] [] [] [] "])\n(class: B)".toList 'q' .nil .nil
    (by decide) (by decide +kernel)).2.2.trans (by decide +kernel)

/-- An unknown escape in one declaration takes the next one with it. -/
theorem kindsBehindString_ne_of_unknownEscape :
    (∃ t ∈ (lex (quoting "(class: A :see [".toList ['\\', 'q'] "])\n(class: B)".toList)).tokens,
      t.span.start = byteCount "(class: A :see [".toList) ∧
    unescape 'q' = none ∧
    kindsBehindString "(class: A :see [".toList ['\\', 'q'] "])\n(class: B)".toList ≠
      kindsBehindString "(class: A :see [".toList ['\\', 'n'] "])\n(class: B)".toList ∧
    (load {} [⟨"api", "(class: A :see [\"\\q\"])\n(class: B)"⟩]).catalog.contains "B" = false ∧
    (load {} [⟨"api", "(class: A :see [\"\\n\"])\n(class: B)"⟩]).catalog.contains "B" = true := by
  refine ⟨?_, ?_, ?_, ?_, ?_⟩ <;> decide +kernel

end ApiCatalog
