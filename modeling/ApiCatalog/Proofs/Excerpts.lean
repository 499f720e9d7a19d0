import ApiCatalog.Proofs.TokenTiling

/-!
# Excerpts of a text

A token is found by looking ahead a little, but what is seen ahead only ever ends it. So a text that
is cut off somewhere behind a token has the token too, and an excerpt from the beginning of a token
to the end of one has the tokens that the text has there.

Main statement: `exists_excerpt`.
-/

namespace ApiCatalog

/-! ### A token where the text is cut off -/

/-- Whether a scanner finds a token, unless it is a fault, also where the text is cut off somewhere
behind the token. -/
def FindsInExcerpt (scanner : List Char → Scanned) : Prop :=
  ∀ cs rest more, (∀ f, (scanner cs).kind ≠ .fault f) → (scanner cs).rest = rest ++ more →
    scanner ((scanner cs).text ++ rest) = ⟨(scanner cs).kind, (scanner cs).text, rest⟩

section Stretch

variable {p : Char → Bool} {cs rest more : List Char} (h : cs.dropWhile p = rest ++ more)
include h

theorem takeWhile_excerpt : (cs.takeWhile p ++ rest).takeWhile p = cs.takeWhile p := by
  have all : ∀ c ∈ cs.takeWhile p, p c = true := List.all_eq_true.1 List.all_takeWhile
  rw [List.takeWhile_append_of_pos all]
  cases rest with
  | nil => simp
  | cons d rest =>
    have stops := List.head?_dropWhile_not p cs
    rw [h] at stops
    have stops : p d = false := by simpa using stops
    rw [List.takeWhile_cons, stops]
    simp

theorem dropWhile_excerpt : (cs.takeWhile p ++ rest).dropWhile p = rest := by
  have whole := List.takeWhile_append_dropWhile (p := p) (l := cs.takeWhile p ++ rest)
  rw [takeWhile_excerpt h] at whole
  exact List.append_cancel_left whole

end Stretch

theorem findsInExcerpt_scanWhile (p : Char → Bool) (kind : List Char → TokenKind) :
    FindsInExcerpt (scanWhile p kind) := by
  intro cs rest more _ h
  simp only [scanWhile] at h ⊢
  rw [takeWhile_excerpt h, dropWhile_excerpt h]

theorem findsInExcerpt_scanMark : FindsInExcerpt scanMark := by
  intro cs rest more sound h
  revert sound h
  unfold scanMark
  split
  · exact fun sound => absurd rfl (sound _)
  · exact fun _ _ => rfl
  · exact fun sound => absurd rfl (sound _)

theorem findsInExcerpt_scanQuoted (read : List Char) : FindsInExcerpt (scanQuoted read) := by
  intro cs rest more sound h
  fun_induction scanQuoted read cs with
  | case1 => exact absurd rfl (sound _)
  | case2 => rfl
  | case3 => exact absurd rfl (sound _)
  | case4 read c cs d hd ih =>
    simp only [Scanned.cons, List.cons_append]
    rw [scanQuoted, hd]
    simp only [ih sound h, Scanned.cons]
  | case5 => exact absurd rfl (sound _)
  | case6 read c cs quote single escape ih =>
    have backslash : c ≠ '\\' := fun hc => by
      cases cs with
      | nil => exact single hc rfl
      | cons d ds => exact escape d ds hc rfl
    simp only [Scanned.cons, List.cons_append]
    rw [scanQuoted_plain quote backslash, ih sound h]
    rfl

theorem scanNumeral_of_fraction {negative : Bool} {cs ds : List Char}
    (h : cs.dropWhile Char.isDigit = '.' :: ds) (some : ds.takeWhile Char.isDigit ≠ []) :
    scanNumeral negative cs =
      ⟨.atom (.float (.read negative (cs.takeWhile Char.isDigit) (ds.takeWhile Char.isDigit))),
        cs.takeWhile Char.isDigit ++ '.' :: ds.takeWhile Char.isDigit,
        ds.dropWhile Char.isDigit⟩ := by
  simp only [scanNumeral, h]

theorem scanNumeral_of_integer {negative : Bool} {cs : List Char}
    (h : ∀ ds, cs.dropWhile Char.isDigit = '.' :: ds → ds.takeWhile Char.isDigit = []) :
    scanNumeral negative cs =
      ⟨match Integer.read negative (cs.takeWhile Char.isDigit) with
        | .ok n => .atom (.int n)
        | .error overflow => .fault (.integerOverflow overflow),
        cs.takeWhile Char.isDigit, cs.dropWhile Char.isDigit⟩ := by
  simp only [scanNumeral]
  split
  · rename_i ds hds
    split
    · rfl
    · rename_i some
      exact absurd (h ds hds) some
  · rfl

theorem findsInExcerpt_scanNumeral (negative : Bool) : FindsInExcerpt (scanNumeral negative) := by
  intro cs rest more _ h
  by_cases fraction : ∃ ds, cs.dropWhile Char.isDigit = '.' :: ds ∧ ds.takeWhile Char.isDigit ≠ []
  · obtain ⟨ds, hds, some⟩ := fraction
    rw [scanNumeral_of_fraction hds some] at h ⊢
    have digits : cs.dropWhile Char.isDigit =
        '.' :: (ds.takeWhile Char.isDigit ++ rest) ++ more := by
      rw [hds, List.cons_append, List.append_assoc, ← h, List.takeWhile_append_dropWhile]
    simp only [List.append_assoc, List.cons_append]
    rw [scanNumeral_of_fraction (dropWhile_excerpt digits), takeWhile_excerpt digits,
      takeWhile_excerpt h, dropWhile_excerpt h]
    rwa [takeWhile_excerpt h]
  · have integer : ∀ ds, cs.dropWhile Char.isDigit = '.' :: ds → ds.takeWhile Char.isDigit = [] :=
      fun ds hds => by_contra fun some => fraction ⟨ds, hds, some⟩
    rw [scanNumeral_of_integer integer] at h ⊢
    rw [scanNumeral_of_integer, takeWhile_excerpt h, dropWhile_excerpt h]
    intro ds hds
    rw [dropWhile_excerpt h] at hds
    have none := integer (ds ++ more) (h.trans (by rw [hds, List.cons_append]))
    cases ds with
    | nil => rfl
    | cons d ds => simpa [List.takeWhile_cons] using none

/-- A sign before a digit begins a number also where the text is cut off behind the number. -/
theorem startsNumber_excerpt {c : Char} {cs cs' rest : List Char} (h : cs' <+: cs)
    (whole : startsNumber c cs = true → c.isDigit = false →
      cs' = (scanNumeral (c == '-') cs).text ++ rest) :
    startsNumber c cs' = startsNumber c cs := by
  cases cs' with
  | cons d cs' =>
    obtain ⟨more, rfl⟩ := h
    rfl
  | nil =>
    cases digit : c.isDigit with
    | true => simp [startsNumber, digit]
    | false =>
      cases number : startsNumber c cs with
      | false => simp [startsNumber, digit]
      | true =>
        have none := (List.append_eq_nil_iff.1 (whole number digit).symm).1
        rcases cs with _ | ⟨d, ds⟩
        · simp [startsNumber, digit] at number
        · have hd : d.isDigit = true := by simp_all [startsNumber]
          have some : (scanNumeral (c == '-') (d :: ds)).text ≠ [] := by
            simp only [scanNumeral]
            split
            · split <;> simp [hd]
            · simp [hd]
          exact absurd none some

/-- A token, unless it is a fault, is found where the text is cut off somewhere behind it. -/
theorem scan_excerpt {c : Char} {cs cs' rest more : List Char}
    (sound : ∀ f, (scan c cs).kind ≠ .fault f) (hrest : (scan c cs).rest = rest ++ more)
    (hcs : c :: cs' = (scan c cs).text ++ rest) :
    scan c cs' = ⟨(scan c cs).kind, (scan c cs).text, rest⟩ := by
  have behind {f : List Char → Scanned} (hf : FindsInExcerpt f)
      (sound : ∀ fault, ((f cs).cons c).kind ≠ .fault fault)
      (hrest : ((f cs).cons c).rest = rest ++ more)
      (hcs : c :: cs' = ((f cs).cons c).text ++ rest) :
      (f cs').cons c = ⟨((f cs).cons c).kind, ((f cs).cons c).text, rest⟩ := by
    obtain rfl : cs' = (f cs).text ++ rest := List.tail_eq_of_cons_eq hcs
    rw [hf cs rest more sound hrest]
    rfl
  have whole {f : List Char → Scanned} (hf : FindsInExcerpt f)
      (sound : ∀ fault, (f (c :: cs)).kind ≠ .fault fault)
      (hrest : (f (c :: cs)).rest = rest ++ more) (hcs : c :: cs' = (f (c :: cs)).text ++ rest) :
      f (c :: cs') = ⟨(f (c :: cs)).kind, (f (c :: cs)).text, rest⟩ := by
    rw [hcs]
    exact hf (c :: cs) rest more sound hrest
  have cut : cs' <+: cs := by
    have := scan_text_append_rest c cs
    rw [hrest, ← List.append_assoc, ← hcs] at this
    exact ⟨more, List.tail_eq_of_cons_eq this⟩
  have number (hscan : startsNumber c cs = true → c.isDigit = false →
      scan c cs = (scanNumeral (c == '-') cs).cons c) : startsNumber c cs' = startsNumber c cs :=
    startsNumber_excerpt cut fun hnumber hdigit => by
      rw [hscan hnumber hdigit] at hcs
      exact List.tail_eq_of_cons_eq hcs
  revert sound hrest hcs number
  unfold scan
  split
  · exact fun _ _ hcs _ => by rw [show cs' = rest from List.tail_eq_of_cons_eq hcs]
  · exact fun _ _ hcs _ => by rw [show cs' = rest from List.tail_eq_of_cons_eq hcs]
  · exact fun _ _ hcs _ => by rw [show cs' = rest from List.tail_eq_of_cons_eq hcs]
  · exact fun _ _ hcs _ => by rw [show cs' = rest from List.tail_eq_of_cons_eq hcs]
  · exact fun _ _ hcs _ => by rw [show cs' = rest from List.tail_eq_of_cons_eq hcs]
  · exact fun _ _ hcs _ => by rw [show cs' = rest from List.tail_eq_of_cons_eq hcs]
  · exact fun sound hrest hcs _ => behind (findsInExcerpt_scanWhile _ _) sound hrest hcs
  · exact fun sound hrest hcs _ => behind findsInExcerpt_scanMark sound hrest hcs
  · exact fun sound hrest hcs _ => behind (findsInExcerpt_scanWhile _ _) sound hrest hcs
  · exact fun sound hrest hcs _ => behind (findsInExcerpt_scanQuoted _) sound hrest hcs
  · intro sound hrest hcs number
    rw [number fun hnumber hdigit => by simp [hnumber, hdigit]]
    revert sound hrest hcs
    split
    · split
      · exact whole (findsInExcerpt_scanNumeral false)
      · exact behind (findsInExcerpt_scanNumeral _)
    · split
      · exact whole (findsInExcerpt_scanWhile _ _)
      · exact fun sound => absurd rfl (sound _)

/-! ### The tokens of an excerpt -/

/-- Where some of the tokens of a text begin, a text begins that is divided into them and those
behind. -/
theorem exists_lexFrom_behind {p : Position} {cs : List Char} {before behind : List Token}
    {t : Token} (h : (lexFrom p cs).tokens = before ++ t :: behind) :
    ∃ pre c rest, cs = pre ++ c :: rest ∧ isBlank c = false ∧
      (lexFrom (p.after pre) (c :: rest)).tokens = t :: behind := by
  induction cs using lex_induction generalizing p before with
  | nil => simp [lexFrom_nil] at h
  | blank c cs hc ih =>
    rw [lexFrom_cons_blank p hc] at h
    obtain ⟨pre, d, rest, rfl, hd, tokens⟩ := ih h
    exact ⟨c :: pre, d, rest, rfl, hd, tokens⟩
  | token c cs hc ih =>
    rcases before with - | ⟨u, before⟩
    · exact ⟨[], c, cs, rfl, hc, h⟩
    · rw [lexFrom_cons p hc, List.cons_append] at h
      obtain ⟨pre, d, rest, hrest, hd, tokens⟩ := ih (List.cons.inj h).2
      refine ⟨(scan c cs).text ++ pre, d, rest, ?_, hd, ?_⟩
      · rw [List.append_assoc, ← hrest, scan_text_append_rest]
      · rw [Position.after_append]
        exact tokens

/-- A text that is cut off behind its first token has that token, and those of what is left. -/
theorem tokens_lexFrom_cut (p : Position) {c : Char} {cs part post : List Char}
    (hc : isBlank c = false) (sound : ∀ f, (scan c cs).kind ≠ .fault f)
    (hrest : (scan c cs).rest = part ++ post) :
    (lexFrom p ((scan c cs).text ++ part)).tokens =
      ⟨(scan c cs).kind, .between p (p.after (scan c cs).text)⟩ ::
        (lexFrom (p.after (scan c cs).text) part).tokens := by
  have whole := scan_text_append_rest c cs
  obtain ⟨d, text, htext⟩ := List.exists_cons_of_ne_nil (scan_text_ne_nil c cs)
  obtain rfl : d = c := by
    rw [htext] at whole
    exact (List.cons.inj whole).1
  have cut : d :: (text ++ part) = (scan d cs).text ++ part := by rw [htext, List.cons_append]
  rw [← cut, lexFrom_cons p hc, scan_excerpt sound hrest cut]

/-- Where the last of some tokens ends, if none of them is a fault, a text can be cut off. -/
theorem exists_lexFrom_upto {p : Position} {cs : List Char} {ts behind : List Token}
    (h : (lexFrom p cs).tokens = ts ++ behind) (some : ts ≠ [])
    (sound : ∀ t ∈ ts, ∀ f, t.kind ≠ .fault f) :
    ∃ part post, cs = part ++ post ∧ (lexFrom p part).tokens = ts ∧
      ∀ last ∈ ts.getLast?, last.span.stop = (p.after part).offset := by
  induction cs using lex_induction generalizing p ts with
  | nil =>
    rw [lexFrom_nil] at h
    exact absurd (List.append_eq_nil_iff.1 h.symm).1 some
  | blank c cs hc ih =>
    rw [lexFrom_cons_blank p hc] at h
    obtain ⟨part, post, rfl, tokens, stop⟩ := ih h some sound
    exact ⟨c :: part, post, rfl, by rw [lexFrom_cons_blank p hc, tokens], stop⟩
  | token c cs hc ih =>
    rcases ts with - | ⟨t, ts⟩
    · exact absurd rfl some
    · rw [lexFrom_cons p hc, List.cons_append] at h
      have later := (List.cons.inj h).2
      obtain rfl := (List.cons.inj h).1
      rw [List.forall_mem_cons] at sound
      rcases ts with - | ⟨u, ts⟩
      · refine ⟨(scan c cs).text, (scan c cs).rest, (scan_text_append_rest c cs).symm, ?_, ?_⟩
        · have cut := tokens_lexFrom_cut p hc sound.1 (List.nil_append _).symm
          rwa [List.append_nil, lexFrom_nil] at cut
        · rintro _ ⟨⟩
          rfl
      · obtain ⟨part, post, hrest, tokens, stop⟩ := ih later (List.cons_ne_nil u ts) sound.2
        refine ⟨(scan c cs).text ++ part, post, ?_, ?_, ?_⟩
        · rw [List.append_assoc, ← hrest, scan_text_append_rest]
        · rw [tokens_lexFrom_cut p hc sound.1 hrest, tokens]
        · rw [Position.after_append, List.getLast?_cons_cons]
          exact stop

/-- The part of a source from the beginning of a token to the end of one, with no faults between, is
divided into the tokens that the source has there. -/
theorem exists_excerpt {source : List Char} {ts : List Token}
    (h : ts <:+: (lex source).tokens) (sound : ∀ t ∈ ts, ∀ f, t.kind ≠ .fault f)
    {first last : Token} (hfirst : first ∈ ts.head?) (hlast : last ∈ ts.getLast?) :
    ∃ part, (first.span.through last.span).Covers source part ∧
      (lex part).kinds = ts.map (·.kind) := by
  obtain ⟨ts, rfl⟩ : ∃ others, ts = first :: others := by
    cases ts with
    | nil => cases hfirst
    | cons t ts =>
      cases hfirst
      exact ⟨ts, rfl⟩
  obtain ⟨before, behind, h⟩ := h
  rw [lex, List.append_assoc, List.cons_append] at h
  obtain ⟨pre, c, rest, rfl, hc, tokens⟩ := exists_lexFrom_behind h.symm
  rw [Position.start_after] at tokens
  obtain ⟨part, post, hpart, excerpt, stop⟩ :=
    exists_lexFrom_upto tokens (List.cons_ne_nil first ts) sound
  refine ⟨part, ⟨pre, post, by rw [hpart, List.append_assoc], ?_⟩, ?_⟩
  · rw [lexFrom_cons _ hc] at tokens
    rw [← (List.cons.inj tokens).1, ← Position.endOf_append, Span.through, stop last hlast]
    rfl
  · rw [← excerpt]
    exact kinds_lexFrom _ _ _

end ApiCatalog
