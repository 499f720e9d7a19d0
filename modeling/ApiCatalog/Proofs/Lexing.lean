import ApiCatalog.Form.Lexer

/-!
# How a text is divided

Blanks before a token move the position and nothing else, and what follows a token is divided
as if a text began there. Where a line ends, all tokens but strings end too: the text up to
there is divided the same whatever follows, and what follows is divided the same whatever was
before, apart from its place.

Main statements: `lexFrom_append`, `lexFrom_shift`.
-/

namespace ApiCatalog

/-! ### One token after the other -/

theorem lexFrom_nil (p : Position) : lexFrom p [] = ⟨[], .between p p⟩ := by
  rw [lexFrom]
  rfl

theorem lexFrom_blanks (p : Position) (bs : List Char) (h : ∀ c ∈ bs, isBlank c = true)
    (cs : List Char) : lexFrom p (bs ++ cs) = lexFrom (p.after bs) cs := by
  have taken : (bs ++ cs).takeWhile isBlank = bs ++ cs.takeWhile isBlank :=
    List.takeWhile_append_of_pos h
  have dropped : (bs ++ cs).dropWhile isBlank = cs.dropWhile isBlank :=
    List.dropWhile_append_of_pos h
  rw [lexFrom, lexFrom, taken, Position.after_append]
  split
  · rename_i empty
    rw [dropped] at empty
    split
    · rfl
    · rename_i found
      rw [empty] at found
      cases found
  · rename_i c rest found
    rw [dropped] at found
    split
    · rename_i empty
      rw [found] at empty
      cases empty
    · rename_i found'
      rw [found] at found'
      cases found'
      rfl

theorem lexFrom_cons_blank (p : Position) {c : Char} (h : isBlank c = true) (cs : List Char) :
    lexFrom p (c :: cs) = lexFrom (p.advance c) cs :=
  lexFrom_blanks p [c] (by simpa using h) cs

/-- A character that is not blank begins a token, and the rest is divided from its end on. -/
theorem lexFrom_cons (p : Position) {c : Char} (h : isBlank c = false) (cs : List Char) :
    lexFrom p (c :: cs) =
      ⟨⟨(scan c cs).kind, .between p (p.after (scan c cs).text)⟩ ::
          (lexFrom (p.after (scan c cs).text) (scan c cs).rest).tokens,
        (lexFrom (p.after (scan c cs).text) (scan c cs).rest).stop⟩ := by
  rw [lexFrom]
  split
  · rename_i empty
    rw [List.dropWhile_cons, h] at empty
    cases empty
  · rename_i d rest found
    rw [List.dropWhile_cons, h] at found
    cases found
    rw [List.takeWhile_cons, h]
    rfl

/-- Induction along the tokens of a text. -/
theorem lex_induction {P : List Char → Prop} (nil : P [])
    (blank : ∀ c cs, isBlank c = true → P cs → P (c :: cs))
    (token : ∀ c cs, isBlank c = false → P (scan c cs).rest → P (c :: cs)) (cs : List Char) :
    P cs := by
  induction h : cs.length using Nat.strongRecOn generalizing cs with
  | _ n ih =>
    subst h
    cases cs with
    | nil => exact nil
    | cons c cs =>
      cases hc : isBlank c with
      | true => exact blank c cs hc (ih _ (by simp) cs rfl)
      | false =>
        have less := scan_rest_length_le c cs
        exact token c cs hc (ih _ (by simp; omega) _ rfl)

theorem scanQuoted_plain {c : Char} (quote : c ≠ '"') (backslash : c ≠ '\\')
    (read rest : List Char) :
    scanQuoted read (c :: rest) = (scanQuoted (c :: read) rest).cons c := by
  rw [scanQuoted]
  · exact quote
  · exact fun h => (backslash h).elim
  · exact fun _ _ h => (backslash h).elim

/-! ### The text up to the end of a line -/

/-- Whether the text is empty or ends with the end of a line. -/
def EndsLine (cs : List Char) : Prop := ∀ c ∈ cs.getLast?, c = '\n'

instance (cs : List Char) : Decidable (EndsLine cs) :=
  decidable_of_iff (cs.getLast?.all (· == '\n') = true) (by simp [EndsLine, Option.all_eq_true])

theorem EndsLine.of_append {cs ds : List Char} (h : EndsLine (cs ++ ds)) : EndsLine ds := by
  intro c hc
  refine h c ?_
  rw [List.getLast?_append, hc]
  rfl

theorem EndsLine.of_cons {c : Char} {cs : List Char} (h : EndsLine (c :: cs)) : EndsLine cs :=
  @EndsLine.of_append [c] cs h

theorem EndsLine.mem {cs : List Char} (h : EndsLine cs) (hne : cs ≠ []) : '\n' ∈ cs := by
  have last := List.getLast?_eq_some_getLast hne
  have := h _ last
  exact this ▸ List.getLast_mem hne

/-- A line does not end with any other character, so the line goes on behind it. -/
theorem EndsLine.mem_of_cons {c : Char} {cs : List Char} (h : EndsLine (c :: cs))
    (hc : c ≠ '\n') : '\n' ∈ cs := by
  cases cs with
  | nil => exact absurd (h c rfl) hc
  | cons d cs => exact h.of_cons.mem (by simp)

/-- The scanned token with more text behind it. -/
def Scanned.before (s : Scanned) (more : List Char) : Scanned := { s with rest := s.rest ++ more }

section Append

variable (more : List Char)

theorem takeWhile_append_of_mem {p : Char → Bool} {cs : List Char} {c : Char} (hc : c ∈ cs)
    (hp : p c = false) : (cs ++ more).takeWhile p = cs.takeWhile p := by
  induction cs with
  | nil => cases hc
  | cons d cs ih =>
    rw [List.cons_append, List.takeWhile_cons, List.takeWhile_cons]
    cases hd : p d with
    | false => rfl
    | true =>
      rcases List.mem_cons.1 hc with rfl | hc
      · rw [hp] at hd
        cases hd
      · rw [ih hc]

theorem dropWhile_append_of_mem {p : Char → Bool} {cs : List Char} {c : Char} (hc : c ∈ cs)
    (hp : p c = false) : (cs ++ more).dropWhile p = cs.dropWhile p ++ more := by
  induction cs with
  | nil => cases hc
  | cons d cs ih =>
    rw [List.cons_append, List.dropWhile_cons, List.dropWhile_cons]
    cases hd : p d with
    | false => rfl
    | true =>
      rcases List.mem_cons.1 hc with rfl | hc
      · rw [hp] at hd
        cases hd
      · exact ih hc

theorem scanWhile_append {p : Char → Bool} (kind : List Char → TokenKind) {cs : List Char}
    {c : Char} (hc : c ∈ cs) (hp : p c = false) :
    scanWhile p kind (cs ++ more) = (scanWhile p kind cs).before more := by
  rw [scanWhile, takeWhile_append_of_mem more hc hp, dropWhile_append_of_mem more hc hp]
  rfl

theorem scanQuoted_append {read cs : List Char} (h : EndsLine cs)
    (hk : (scanQuoted read cs).kind ≠ .fault .unterminatedString) :
    scanQuoted read (cs ++ more) = (scanQuoted read cs).before more := by
  fun_induction scanQuoted read cs with
  | case1 => exact absurd rfl hk
  | case2 => rfl
  | case3 =>
    -- a backslash at the end, but the end is that of a line
    exact absurd (h '\\' rfl) (by decide)
  | case4 read c rest d hd ih =>
    rw [List.cons_append, List.cons_append, scanQuoted, hd]
    exact congrArg (fun s => (s.cons c).cons '\\') (ih h.of_cons.of_cons hk)
  | case5 read c rest hd =>
    rw [List.cons_append, List.cons_append, scanQuoted, hd]
    rfl
  | case6 read c rest quote single escape ih =>
    have backslash : c ≠ '\\' := fun hc => by
      cases rest with
      | nil => exact single hc rfl
      | cons d ds => exact escape d ds hc rfl
    rw [List.cons_append, scanQuoted_plain quote backslash, ih h.of_cons hk]
    rfl

theorem mem_dropWhile_of_mem {p : Char → Bool} {cs : List Char} {c : Char} (hc : c ∈ cs)
    (hp : p c = false) : c ∈ cs.dropWhile p := by
  rw [← List.takeWhile_append_dropWhile (p := p) (l := cs), List.mem_append] at hc
  rcases hc with hc | hc
  · have := List.all_takeWhile (p := p) (l := cs)
    rw [List.all_eq_true.1 this c hc] at hp
    cases hp
  · exact hc

theorem scanNumeral_append (negative : Bool) {cs : List Char} (h : '\n' ∈ cs) :
    scanNumeral negative (cs ++ more) = (scanNumeral negative cs).before more := by
  have hdigit : Char.isDigit '\n' = false := by decide
  have line := mem_dropWhile_of_mem h hdigit
  rw [scanNumeral, scanNumeral, takeWhile_append_of_mem more h hdigit,
    dropWhile_append_of_mem more h hdigit]
  generalize cs.takeWhile Char.isDigit = whole
  rcases hrest : cs.dropWhile Char.isDigit with _ | ⟨d, ds⟩ <;> rw [hrest] at line
  · cases line
  · by_cases hd : d = '.'
    · subst hd
      have line : '\n' ∈ ds := by simpa using line
      simp only [List.cons_append, takeWhile_append_of_mem more line hdigit,
        dropWhile_append_of_mem more line hdigit]
      split <;> rfl
    · simp [hd, Scanned.before]

theorem sign_of_startsNumber {c : Char} {cs : List Char} (h : startsNumber c cs = true)
    (digit : c.isDigit = false) : c = '-' ∨ c = '+' := by
  rw [startsNumber, digit, Bool.false_or, Bool.and_eq_true, Bool.or_eq_true, beq_iff_eq,
    beq_iff_eq] at h
  exact h.1

theorem startsNumber_append (c : Char) {cs : List Char} (h : cs ≠ []) :
    startsNumber c (cs ++ more) = startsNumber c cs := by
  cases cs with
  | nil => contradiction
  | cons d ds => rfl

theorem scanMark_append {cs : List Char} (h : cs ≠ []) :
    scanMark (cs ++ more) = (scanMark cs).before more := by
  cases cs with
  | nil => contradiction
  | cons d ds =>
    by_cases hd : d = '_'
    · rw [hd]
      rfl
    · simp [scanMark, Scanned.before]

/-- A token on a line that ends is the same whatever follows the line, unless it is a string
that goes on. -/
theorem scan_append {c : Char} {cs : List Char} (hc : c ≠ '\n') (h : EndsLine (c :: cs))
    (hk : (scan c cs).kind ≠ .fault .unterminatedString) :
    scan c (cs ++ more) = (scan c cs).before more := by
  have line := h.mem_of_cons hc
  have hsymbol : canContinueSymbol '\n' = false := by decide +kernel
  revert hk
  unfold scan
  split
  · exact fun _ => rfl
  · exact fun _ => rfl
  · exact fun _ => rfl
  · exact fun _ => rfl
  · exact fun _ => rfl
  · exact fun _ => rfl
  · rw [scanWhile_append more _ line (by decide)]
    exact fun _ => rfl
  · rw [scanMark_append more (List.ne_nil_of_mem line)]
    exact fun _ => rfl
  · rw [scanWhile_append more _ line hsymbol]
    exact fun _ => rfl
  · intro hk
    rw [scanQuoted_append more h.of_cons hk]
    rfl
  · have whole : '\n' ∈ c :: cs := List.mem_cons_of_mem c line
    intro _
    rw [startsNumber_append more c (List.ne_nil_of_mem line), ← List.cons_append,
      scanNumeral_append more false whole, scanNumeral_append more _ line,
      scanWhile_append more _ whole hsymbol]
    split
    · split <;> rfl
    · split <;> rfl

/-- The part of a text up to the end of a line is divided the same whatever follows, and what
follows is divided from there on. -/
theorem lexFrom_append {cs : List Char} (h : EndsLine cs) (p : Position)
    (hk : ∀ t ∈ (lexFrom p cs).tokens, t.kind ≠ .fault .unterminatedString) :
    lexFrom p (cs ++ more) =
      ⟨(lexFrom p cs).tokens ++ (lexFrom (p.after cs) more).tokens,
        (lexFrom (p.after cs) more).stop⟩ := by
  induction cs using lex_induction generalizing p with
  | nil => rw [lexFrom_nil]; rfl
  | blank c cs hc ih =>
    rw [lexFrom_cons_blank p hc] at hk ⊢
    rw [List.cons_append, lexFrom_cons_blank p hc]
    exact ih h.of_cons (p.advance c) hk
  | token c cs hc ih =>
    rw [lexFrom_cons p hc] at hk ⊢
    simp only [List.forall_mem_cons] at hk
    -- the end of a line is blank, so the token is followed by one at least
    have hline : c ≠ '\n' := fun hline => by
      rw [hline] at hc
      exact absurd hc (by decide)
    have whole := scan_text_append_rest c cs
    have after : p.after (c :: cs) = (p.after (scan c cs).text).after (scan c cs).rest := by
      rw [← whole, Position.after_append]
    have rest := ih (EndsLine.of_append (whole ▸ h)) _ hk.2
    rw [List.cons_append, lexFrom_cons p hc, scan_append more hline h hk.1, after]
    simp only [Scanned.before, rest, List.cons_append]

end Append

/-! ### Another place -/

/-- The position with bytes and whole lines put in front of the text. -/
def Position.shift (bytes : Nat) (lines : UInt32) (p : Position) : Position :=
  ⟨p.offset + bytes, p.line + lines, p.column⟩

/-- The span with bytes and whole lines put in front of the text. -/
def Span.shift (bytes : Nat) (lines : UInt32) (s : Span) : Span :=
  ⟨s.start + bytes, s.stop + bytes, s.line + lines, s.column⟩

/-- The token with its span changed. -/
def Token.mapSpan (g : Span → Span) (t : Token) : Token := ⟨t.kind, g t.span⟩

section Shift

variable (bytes : Nat) (lines : UInt32)

theorem Position.advance_shift (p : Position) (c : Char) :
    (p.shift bytes lines).advance c = (p.advance c).shift bytes lines := by
  have line : p.line + lines + 1 = p.line + 1 + lines := by ac_rfl
  unfold advance
  split <;> simp [shift, Nat.add_right_comm, line]

theorem Position.after_shift (p : Position) (cs : List Char) :
    (p.shift bytes lines).after cs = (p.after cs).shift bytes lines := by
  induction cs generalizing p with
  | nil => rfl
  | cons c cs ih => rw [after_cons, advance_shift, ih, after_cons]

/-- A text is divided alike wherever it stands, as long as it begins in the same column. -/
theorem lexFrom_shift (p : Position) (cs : List Char) :
    lexFrom (p.shift bytes lines) cs =
      ⟨(lexFrom p cs).tokens.map (Token.mapSpan (Span.shift bytes lines)),
        (lexFrom p cs).stop.shift bytes lines⟩ := by
  induction cs using lex_induction generalizing p with
  | nil => rw [lexFrom_nil, lexFrom_nil]; rfl
  | blank c cs hc ih =>
    rw [lexFrom_cons_blank _ hc, lexFrom_cons_blank _ hc, Position.advance_shift, ih]
  | token c cs hc ih =>
    rw [lexFrom_cons _ hc, lexFrom_cons _ hc, Position.after_shift, ih]
    rfl

end Shift

/-- The kinds of the tokens. -/
def Lexed.kinds (l : Lexed) : List TokenKind := l.tokens.map (·.kind)

theorem kinds_lexFrom_nil (p : Position) : (lexFrom p []).kinds = [] := by
  rw [lexFrom_nil]
  rfl

theorem kinds_lexFrom_cons (p : Position) {c : Char} (h : isBlank c = false) (cs : List Char) :
    (lexFrom p (c :: cs)).kinds =
      (scan c cs).kind :: (lexFrom (p.after (scan c cs).text) (scan c cs).rest).kinds := by
  rw [lexFrom_cons p h]
  rfl

/-- The kinds of the tokens do not depend on where the text stands. -/
theorem kinds_lexFrom (p q : Position) (cs : List Char) :
    (lexFrom p cs).kinds = (lexFrom q cs).kinds := by
  induction cs using lex_induction generalizing p q with
  | nil => rw [kinds_lexFrom_nil, kinds_lexFrom_nil]
  | blank c cs hc ih => rw [lexFrom_cons_blank p hc, lexFrom_cons_blank q hc, ih]
  | token c cs hc ih =>
    rw [kinds_lexFrom_cons p hc, kinds_lexFrom_cons q hc]
    exact congrArg _ (ih _ _)

/-- The number of bytes of a text. -/
def byteCount : List Char → Nat
  | [] => 0
  | c :: cs => c.utf8Size + byteCount cs

theorem Position.offset_advance (p : Position) (c : Char) :
    (p.advance c).offset = p.offset + c.utf8Size := by
  unfold advance
  split <;> rfl

theorem Position.offset_after (p : Position) (cs : List Char) :
    (p.after cs).offset = p.offset + byteCount cs := by
  induction cs generalizing p with
  | nil => rfl
  | cons c cs ih => rw [after_cons, ih, offset_advance, byteCount, Nat.add_assoc]

theorem byteCount_append (cs ds : List Char) :
    byteCount (cs ++ ds) = byteCount cs + byteCount ds := by
  induction cs with
  | nil => simp [byteCount]
  | cons c cs ih => rw [List.cons_append, byteCount, byteCount, ih, Nat.add_assoc]

theorem Position.offset_add_cons (p : Position) (c : Char) (cs : List Char) :
    p.offset + byteCount (c :: cs) = (p.advance c).offset + byteCount cs := by
  rw [offset_advance, byteCount, Nat.add_assoc]

theorem Position.offset_add_append (p : Position) (cs ds : List Char) :
    p.offset + byteCount (cs ++ ds) = (p.after cs).offset + byteCount ds := by
  rw [byteCount_append, offset_after, Nat.add_assoc]

/-- A stretch of text that is not empty has a byte at least. -/
theorem byteCount_pos {cs : List Char} (h : cs ≠ []) : 0 < byteCount cs := by
  cases cs with
  | nil => exact absurd rfl h
  | cons c cs => exact Nat.add_pos_left c.utf8Size_pos _

/-- Tokens begin one behind the other, none of them before the place that division begins at. -/
theorem start_lexFrom (p : Position) (cs : List Char) :
    (∀ t ∈ (lexFrom p cs).tokens, p.offset ≤ t.span.start) ∧
      (lexFrom p cs).tokens.Pairwise (·.span.start < ·.span.start) := by
  induction cs using lex_induction generalizing p with
  | nil => simp [lexFrom_nil]
  | blank c cs hc ih =>
    obtain ⟨bound, order⟩ := ih (p.advance c)
    rw [lexFrom_cons_blank p hc]
    rw [Position.offset_advance] at bound
    exact ⟨fun t ht => Nat.le_trans (Nat.le_add_right _ _) (bound t ht), order⟩
  | token c cs hc ih =>
    obtain ⟨bound, order⟩ := ih (p.after (scan c cs).text)
    rw [Position.offset_after] at bound
    have some := byteCount_pos (scan_text_ne_nil c cs)
    rw [lexFrom_cons p hc]
    refine ⟨List.forall_mem_cons.2 ⟨Nat.le_refl _, fun t ht => ?_⟩,
      List.pairwise_cons.2 ⟨fun t ht => ?_, order⟩⟩
    · exact Nat.le_trans (Nat.le_add_right _ _) (bound t ht)
    · exact Nat.lt_of_lt_of_le (Nat.lt_add_of_pos_right some) (bound t ht)

/-- A text has moved the line by as many as it has line ends. -/
theorem Position.line_after (p : Position) (cs : List Char) :
    (p.after cs).line = p.line + .ofNat (cs.count '\n') := by
  induction cs generalizing p with
  | nil => simp
  | cons c cs ih =>
    rw [after_cons, ih, advance, List.count_cons]
    split
    · rename_i hc
      have one : UInt32.ofNat 1 = 1 := rfl
      simp only [hc, beq_self_eq_true, if_true, UInt32.ofNat_add, one]
      ac_rfl
    · rename_i hc
      simp [hc]

/-- Behind the end of a line comes the first column. -/
theorem Position.after_of_endsLine {cs : List Char} (h : EndsLine cs) :
    start.after cs = start.shift (byteCount cs) (.ofNat (cs.count '\n')) := by
  have offset := offset_after start cs
  have line := line_after start cs
  have column : (start.after cs).column = 1 := by
    rcases List.eq_nil_or_concat cs with rfl | ⟨ds, c, rfl⟩
    · rfl
    · have hc : c = '\n' := h c (by simp)
      rw [List.concat_eq_append, after_append, hc]
      rfl
  calc start.after cs
      = ⟨(start.after cs).offset, (start.after cs).line, (start.after cs).column⟩ := rfl
    _ = start.shift (byteCount cs) (.ofNat (cs.count '\n')) := by rw [offset, line, column]; rfl

end ApiCatalog
