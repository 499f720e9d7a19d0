import ApiCatalog.Proofs.Counters

/-!
# Tokens tile their text

A text is a row of blanks and the texts of its tokens, in order. So the span of each token covers
its text and nothing else, and begins at the line and column that are counted in the text before it;
whatever no span covers is blank.

Main definitions: `Span.Covers`, `Tiles`.
Main statement: `lex_tiles`.
-/

namespace ApiCatalog

/-! ### Cutting a text -/

/-- The bytes of a text are those of its first character and those of the rest. -/
theorem exists_byteCount_cons (c : Char) (cs : List Char) : ∃ n, byteCount (c :: cs) = n + 1 ∧
    c.utf8Size ≤ n + 1 ∧ n + 1 - c.utf8Size = byteCount cs := by
  obtain ⟨n, hn⟩ := Nat.exists_eq_add_of_lt c.utf8Size_pos
  refine ⟨n + byteCount cs, ?_, ?_, ?_⟩
  · rw [byteCount]
    omega
  · omega
  · omega

theorem dropBytes_append (pre rest : List Char) :
    dropBytes (byteCount pre) (pre ++ rest) = some rest := by
  induction pre with
  | nil => cases rest <;> rfl
  | cons c pre ih =>
    obtain ⟨n, bytes, fits, left⟩ := exists_byteCount_cons c pre
    rw [bytes, List.cons_append, dropBytes, if_pos fits, left, ih]

theorem takeBytes_append (text rest : List Char) :
    takeBytes (byteCount text) (text ++ rest) = some text := by
  induction text with
  | nil => cases rest <;> rfl
  | cons c text ih =>
    obtain ⟨n, bytes, fits, left⟩ := exists_byteCount_cons c text
    rw [bytes, List.cons_append, takeBytes, if_pos fits, left, ih]
    rfl

/-- Whether a span covers a part of a source: it begins and ends where the part does, with what 32
bits keep of the line and column that are counted in the text before. -/
def Span.Covers (s : Span) (source part : List Char) : Prop :=
  ∃ pre post, source = pre ++ part ++ post ∧ s = .between (.endOf pre) (.endOf (pre ++ part))

/-- The length of a span is the number of bytes that it covers. -/
theorem Span.Covers.length?_eq {s : Span} {source part : List Char} (h : s.Covers source part) :
    s.length? = some (byteCount part) := by
  obtain ⟨pre, post, rfl, rfl⟩ := h
  have bytes : byteCount (pre ++ part) - byteCount pre = byteCount part := by
    rw [byteCount_append, Nat.add_sub_cancel_left]
  have order : byteCount pre ≤ byteCount (pre ++ part) := by
    rw [byteCount_append]
    exact Nat.le_add_right _ _
  simp only [length?, between, Position.endOf, if_pos order, bytes]

/-- The text that a span covers is the one under it. -/
theorem Span.Covers.text_eq {s : Span} {source part : List Char} (h : s.Covers source part) :
    s.text source = part := by
  have length := h.length?_eq
  obtain ⟨pre, post, rfl, rfl⟩ := h
  rw [text, length]
  simp only [between, Position.endOf, List.append_assoc, dropBytes_append, Option.bind_some,
    takeBytes_append, Option.getD_some]

/-- The line and column of a span are those that are counted, if lines and columns fit. -/
theorem Span.Covers.isCounted {s : Span} {source part : List Char} (h : s.Covers source part)
    (fits : CountsFit source) : s.IsCounted source := by
  obtain ⟨pre, post, rfl, rfl⟩ := h
  exact fits.isCounted_between ⟨part ++ post, (List.append_assoc _ _ _).symm⟩ _

/-! ### Tiling -/

/-- Whether tokens tile a text that begins at a position: blanks and the texts of the tokens in turn
make up the text. -/
inductive Tiles : Position → List Char → List Token → Prop
  | nil (p : Position) : Tiles p [] []
  | blank {p : Position} {c : Char} {cs : List Char} {ts : List Token} (h : isBlank c = true)
      (rest : Tiles (p.advance c) cs ts) : Tiles p (c :: cs) ts
  | token {p : Position} {text cs : List Char} {ts : List Token} (kind : TokenKind)
      (some : text ≠ []) (rest : Tiles (p.after text) cs ts) :
      Tiles p (text ++ cs) (⟨kind, .between p (p.after text)⟩ :: ts)

/-- The tokens that a text is divided into tile it. -/
theorem tiles_lexFrom (p : Position) (cs : List Char) : Tiles p cs (lexFrom p cs).tokens := by
  induction cs using lex_induction generalizing p with
  | nil =>
    rw [lexFrom_nil]
    exact .nil p
  | blank c cs hc ih =>
    rw [lexFrom_cons_blank p hc]
    exact .blank hc (ih _)
  | token c cs hc ih =>
    rw [lexFrom_cons p hc]
    have tile := Tiles.token (scan c cs).kind (scan_text_ne_nil c cs)
      (ih (p.after (scan c cs).text))
    rwa [scan_text_append_rest] at tile

/-- What is divided ends where the text ends. -/
theorem stop_lexFrom (p : Position) (cs : List Char) :
    (lexFrom p cs).stop = .between (p.after cs) (p.after cs) := by
  induction cs using lex_induction generalizing p with
  | nil =>
    rw [lexFrom_nil]
    rfl
  | blank c cs hc ih =>
    rw [lexFrom_cons_blank p hc, ih]
    rfl
  | token c cs hc ih =>
    rw [lexFrom_cons p hc, ih, ← Position.after_append, scan_text_append_rest]

namespace Tiles

variable {p : Position} {cs : List Char} {ts : List Token}

/-- Each token covers a part of the text that is not empty. -/
theorem exists_part (h : Tiles p cs ts) {t : Token} (ht : t ∈ ts) :
    ∃ pre part post, cs = pre ++ part ++ post ∧ part ≠ [] ∧
      t.span = .between (p.after pre) (p.after (pre ++ part)) := by
  induction h with
  | nil => cases ht
  | @blank p c cs ts _ _ ih =>
    obtain ⟨pre, part, post, rfl, some, span⟩ := ih ht
    exact ⟨c :: pre, part, post, rfl, some, span⟩
  | @token p text cs ts kind some _ ih =>
    rcases List.mem_cons.1 ht with rfl | ht
    · exact ⟨[], text, cs, rfl, some, rfl⟩
    · obtain ⟨pre, part, post, rfl, some, span⟩ := ih ht
      refine ⟨text ++ pre, part, post, by simp, some, ?_⟩
      rw [span, ← Position.after_append, ← Position.after_append, List.append_assoc]

theorem start_lt_stop (h : Tiles p cs ts) {t : Token} (ht : t ∈ ts) :
    t.span.start < t.span.stop := by
  obtain ⟨pre, part, post, -, some, span⟩ := h.exists_part ht
  have bytes := byteCount_pos some
  rw [span]
  show (p.after pre).offset < (p.after (pre ++ part)).offset
  rw [Position.offset_after, Position.offset_after, byteCount_append]
  omega

/-- No token begins before the position that tiling begins at. -/
theorem offset_le (h : Tiles p cs ts) : ∀ t ∈ ts, p.offset ≤ t.span.start := by
  intro t ht
  obtain ⟨pre, part, post, -, -, span⟩ := h.exists_part ht
  rw [span, Span.between, Position.offset_after]
  exact Nat.le_add_right _ _

/-- Each token ends before the next one begins. -/
theorem pairwise (h : Tiles p cs ts) : ts.Pairwise fun t u => t.span.stop ≤ u.span.start := by
  induction h with
  | nil => exact .nil
  | blank _ _ ih => exact ih
  | token kind some rest ih => exact .cons rest.offset_le ih

/-- A character that no token covers is blank. -/
theorem isBlank_of_forall_not_covered (h : Tiles p cs ts) {pre post : List Char} {c : Char}
    (hcs : cs = pre ++ c :: post)
    (hc : ∀ t ∈ ts, ¬(t.span.start ≤ p.offset + byteCount pre ∧
      p.offset + byteCount pre < t.span.stop)) : isBlank c = true := by
  induction h generalizing pre with
  | nil => simp at hcs
  | @blank p d cs ts hd _ ih =>
    rcases List.cons_eq_append_iff.1 hcs with ⟨rfl, h⟩ | ⟨pre, rfl, h⟩
    · cases h
      exact hd
    · rw [Position.offset_add_cons] at hc
      exact ih h hc
  | @token p text cs ts kind some _ ih =>
    rw [List.forall_mem_cons] at hc
    rcases List.append_eq_append_iff.1 hcs with ⟨more, rfl, h⟩ | ⟨more, rfl, h⟩
    · rw [Position.offset_add_append] at hc
      exact ih h hc.2
    · cases more with
      | nil =>
        rw [List.append_nil] at hc ih
        refine @ih [] (by simpa using h.symm) ?_
        simpa only [Position.offset_after, byteCount, Nat.add_zero] using hc.2
      | cons d more =>
        -- the character is in the text of the token
        refine absurd ⟨Nat.le_add_right _ _, ?_⟩ hc.1
        have part := byteCount_pos (List.cons_ne_nil d more)
        show p.offset + byteCount pre < (p.after (pre ++ d :: more)).offset
        rw [Position.offset_after, byteCount_append]
        omega

theorem length_le (h : Tiles p cs ts) : ts.length ≤ cs.length := by
  induction h with
  | nil => exact Nat.le_refl 0
  | blank _ _ ih => exact Nat.le_succ_of_le ih
  | token kind some _ ih =>
    rw [List.length_append, List.length_cons]
    have := List.length_pos_iff.2 some
    omega

end Tiles

/-- The tokens of any text are in order and do not overlap. Each covers a part of the text that is
not empty, and the end is the empty span at the end of the text. Their lines and columns are those
that are counted in the text before them, modulo `2 ^ 32`, and exactly those in a text in which they
fit. A character that no token covers is white space or a comma, and there are no more tokens than
characters. -/
theorem lex_tiles (source : List Char) :
    ((lex source).tokens.Pairwise fun t u => t.span.stop ≤ u.span.start) ∧
      (∀ t ∈ (lex source).tokens, ∃ part, part ≠ [] ∧ t.span.Covers source part ∧
        t.span.text source = part ∧ t.span.start < t.span.stop) ∧
      (lex source).stop = .between (.endOf source) (.endOf source) ∧
      (CountsFit source → (∀ t ∈ (lex source).tokens, t.span.IsCounted source) ∧
        (lex source).stop.IsCounted source) ∧
      (∀ pre c post, source = pre ++ c :: post →
        (∀ t ∈ (lex source).tokens,
          ¬(t.span.start ≤ byteCount pre ∧ byteCount pre < t.span.stop)) →
        c ∈ whiteSpace ∨ c = ',') ∧
      (lex source).tokens.length ≤ source.length := by
  have tiles : Tiles .start source (lex source).tokens := tiles_lexFrom .start source
  have covers : ∀ t ∈ (lex source).tokens, ∃ part, part ≠ [] ∧ t.span.Covers source part := by
    intro t ht
    obtain ⟨pre, part, post, hsource, some, span⟩ := tiles.exists_part ht
    rw [Position.start_after, Position.start_after] at span
    exact ⟨part, some, pre, post, hsource, span⟩
  have stop : (lex source).stop = .between (.endOf source) (.endOf source) := by
    rw [← Position.start_after]
    exact stop_lexFrom .start source
  refine ⟨tiles.pairwise, fun t ht => ?_, stop, fun fits => ⟨fun t ht => ?_, ?_⟩,
    fun pre c post hsource hc => ?_, tiles.length_le⟩
  · obtain ⟨part, some, covers⟩ := covers t ht
    exact ⟨part, some, covers, covers.text_eq, tiles.start_lt_stop ht⟩
  · obtain ⟨part, -, covers⟩ := covers t ht
    exact covers.isCounted fits
  · rw [stop]
    exact fits.isCounted_between (List.prefix_refl source) _
  · have blank := tiles.isBlank_of_forall_not_covered hsource
      (by simpa only [Position.start, Nat.zero_add] using hc)
    simpa [isBlank, or_comm] using blank

/-- A string that goes on over the end of a line, with a character of two bytes. -/
example : (lex "\"é\n\" x".toList).tokens.map (·.span) = [⟨0, 5, 1, 1⟩, ⟨6, 7, 2, 3⟩] := by
  decide +kernel

end ApiCatalog
