import ApiCatalog.Proofs.DecimalText
import ApiCatalog.Proofs.Lexing
import ApiCatalog.Proofs.Spelling

/-!
# Printed atoms divide into themselves

The text of an atom that can be printed is one token, as long as no symbol character follows: a
symbol, a keyword or a number would go on with it.

Main definition: `Spells`. Main statement: `Atom.spells_print`.
-/

namespace ApiCatalog

/-- Whether the text does not go on with a symbol character. -/
def IsDelimited (cs : List Char) : Prop := ∀ c ∈ cs.head?, canContinueSymbol c = false

theorem isDelimited_nil : IsDelimited [] := by simp [IsDelimited]

theorem isDelimited_cons {c : Char} {cs : List Char} :
    IsDelimited (c :: cs) ↔ canContinueSymbol c = false := by
  simp [IsDelimited]

theorem IsDelimited.append {cs ds : List Char} (hcs : IsDelimited cs) (hds : IsDelimited ds) :
    IsDelimited (cs ++ ds) := by
  cases cs with
  | nil => exact hds
  | cons c cs => exact hcs

/-- Whether the text is divided into tokens of the kinds, wherever it stands and whatever follows
it that is no symbol character. -/
def Spells (cs : List Char) (kinds : List TokenKind) : Prop :=
  ∀ p, ∃ ts : List Token, ts.map (·.kind) = kinds ∧ ∀ rest, IsDelimited rest →
    lexFrom p (cs ++ rest) =
      ⟨ts ++ (lexFrom (p.after cs) rest).tokens, (lexFrom (p.after cs) rest).stop⟩

namespace Spells

theorem nil : Spells [] [] := fun _ => ⟨[], rfl, fun _ _ => rfl⟩

theorem blanks_append {bs cs : List Char} {ks : List TokenKind} (hbs : ∀ c ∈ bs, isBlank c = true)
    (h : Spells cs ks) : Spells (bs ++ cs) ks := by
  intro p
  obtain ⟨ts, hts, first⟩ := h (p.after bs)
  refine ⟨ts, hts, fun rest hrest => ?_⟩
  rw [List.append_assoc, lexFrom_blanks p bs hbs, first rest hrest, Position.after_append]

theorem append {cs ds : List Char} {ks ls : List TokenKind} (hcs : Spells cs ks)
    (hds : Spells ds ls) (delimited : IsDelimited ds) : Spells (cs ++ ds) (ks ++ ls) := by
  intro p
  obtain ⟨ts, hts, first⟩ := hcs p
  obtain ⟨us, hus, second⟩ := hds (p.after cs)
  refine ⟨ts ++ us, by rw [List.map_append, hts, hus], fun rest hrest => ?_⟩
  rw [List.append_assoc, first _ (delimited.append hrest), second rest hrest, Position.after_append]
  simp

/-- A text that spells tokens has the same ones by itself. -/
theorem lexFrom_append {cs rest : List Char} {ks : List TokenKind} (h : Spells cs ks)
    (hrest : IsDelimited rest) (p : Position) :
    (lexFrom p (cs ++ rest)).tokens =
      (lexFrom p cs).tokens ++ (lexFrom (p.after cs) rest).tokens := by
  obtain ⟨ts, -, append⟩ := h p
  have alone := append [] isDelimited_nil
  rw [List.append_nil, lexFrom_nil, List.append_nil] at alone
  rw [append rest hrest, alone]

theorem kinds_lexFrom {cs : List Char} {ks : List TokenKind} (h : Spells cs ks) (p : Position) :
    (lexFrom p cs).tokens.map (·.kind) = ks := by
  obtain ⟨ts, hts, append⟩ := h p
  have alone := append [] isDelimited_nil
  rw [List.append_nil, lexFrom_nil, List.append_nil] at alone
  rw [alone, hts]

theorem of_scan {c : Char} {cs : List Char} {kind : TokenKind} (hc : isBlank c = false)
    (h : ∀ rest, IsDelimited rest → scan c (cs ++ rest) = ⟨kind, c :: cs, rest⟩) :
    Spells (c :: cs) [kind] := by
  intro p
  refine ⟨[⟨kind, .between p (p.after (c :: cs))⟩], rfl, fun rest hrest => ?_⟩
  rw [List.cons_append, lexFrom_cons p hc, h rest hrest]
  rfl

/-- A bracket ends where it begins, whatever follows. -/
theorem cons_opening (b : Bracket) {cs : List Char} {ks : List TokenKind} (h : Spells cs ks) :
    Spells (b.opening :: cs) (.opening b :: ks) := by
  intro p
  obtain ⟨ts, hts, rest⟩ := h (p.after [b.opening])
  have hb : isBlank b.opening = false := by cases b <;> decide
  refine ⟨⟨.opening b, .between p (p.after [b.opening])⟩ :: ts, by simp [hts], fun more hmore => ?_⟩
  have hscan : scan b.opening (cs ++ more) = ⟨.opening b, [b.opening], cs ++ more⟩ := by
    cases b <;> rfl
  rw [List.cons_append, lexFrom_cons p hb, hscan, rest more hmore]
  rfl

theorem closing (b : Bracket) : Spells [b.closing] [.closing b] := by
  refine of_scan (by cases b <;> decide) fun rest _ => ?_
  cases b <;> rfl

theorem isDelimited_closing (b : Bracket) : IsDelimited [b.closing] := by
  rw [isDelimited_cons]
  cases b <;> decide +kernel

theorem bracketed (b : Bracket) {cs : List Char} {ks : List TokenKind} (h : Spells cs ks) :
    Spells (b.opening :: cs ++ [b.closing]) (.opening b :: ks ++ [.closing b]) :=
  cons_opening b (h.append (closing b) (isDelimited_closing b))

end Spells

/-! ### Words -/

theorem takeWhile_append_of_delimited {p : Char → Bool} {cs rest : List Char}
    (h : ∀ c ∈ cs, p c = true) (hrest : ∀ c ∈ rest.head?, p c = false) :
    (cs ++ rest).takeWhile p = cs ∧ (cs ++ rest).dropWhile p = rest := by
  rw [List.takeWhile_append_of_pos h, List.dropWhile_append_of_pos h]
  cases rest with
  | nil => simp
  | cons c rest => simp [hrest c rfl]

theorem scanWhile_append_of_delimited {p : Char → Bool} (kind : List Char → TokenKind)
    {cs rest : List Char} (h : ∀ c ∈ cs, p c = true) (hrest : ∀ c ∈ rest.head?, p c = false) :
    scanWhile p kind (cs ++ rest) = ⟨kind cs, cs, rest⟩ := by
  obtain ⟨taken, dropped⟩ := takeWhile_append_of_delimited h hrest
  rw [scanWhile, taken, dropped]

/-- No character is both a symbol character and blank. -/
theorem isBlank_eq_false {c : Char} (h : canContinueSymbol c = true) : isBlank c = false := by
  -- the blanks are few enough to be looked up one by one in the table of letters
  have disjoint : (',' :: whiteSpace).all (!canContinueSymbol ·) = true := by decide +kernel
  refine Bool.eq_false_iff.2 fun hblank => ?_
  have hmem : c ∈ ',' :: whiteSpace := by
    simpa [isBlank, Bool.or_eq_true, List.contains_iff_mem] using hblank
  simpa [h] using List.all_eq_true.1 disjoint c hmem

theorem isDelimited_of_isBlank {c : Char} (h : isBlank c = true) (cs : List Char) :
    IsDelimited (c :: cs) :=
  isDelimited_cons.2 <| Bool.eq_false_iff.2 fun continues => by
    rw [isBlank_eq_false continues] at h
    cases h

theorem isDigit_eq_false_of_delimited {rest : List Char} (h : IsDelimited rest) :
    ∀ c ∈ rest.head?, c.isDigit = false := by
  intro c hc
  have := h c hc
  simp only [canContinueSymbol, Bool.or_eq_false_iff] at this
  exact this.1.1.2

theorem startsNumber_append_of_delimited {c : Char} {cs rest : List Char}
    (h : startsNumber c cs = false) (hrest : IsDelimited rest) :
    startsNumber c (cs ++ rest) = false := by
  cases cs with
  | cons d cs => exact h
  | nil =>
    have digit := isDigit_eq_false_of_delimited hrest
    simp only [startsNumber, Bool.or_eq_false_iff] at h ⊢
    refine ⟨h.1, ?_⟩
    cases rest with
    | nil => simp
    | cons d rest => simp [digit d rfl]

theorem scan_of_canBeginSymbol {c : Char} (h : canBeginSymbol c = true) {cs : List Char}
    (hcs : startsNumber c cs = false) :
    scan c cs = scanWhile canContinueSymbol symbolKind (c :: cs) := by
  unfold scan
  split
  case h_11 => rw [hcs, if_neg Bool.false_ne_true, if_pos h]
  -- the characters that begin another token begin no symbol
  all_goals exact absurd h (by decide +kernel)

theorem spells_symbolKind {c : Char} {cs : List Char} (begins : canBeginSymbol c = true)
    (notNumber : startsNumber c cs = false) (h : ∀ d ∈ cs, canContinueSymbol d = true) :
    Spells (c :: cs) [symbolKind (c :: cs)] := by
  have all : ∀ d ∈ c :: cs, canContinueSymbol d = true :=
    List.forall_mem_cons.2 ⟨canContinueSymbol_of_canBeginSymbol begins, h⟩
  refine .of_scan (isBlank_eq_false (all c (by simp))) fun rest hrest => ?_
  rw [scan_of_canBeginSymbol begins (startsNumber_append_of_delimited notNumber hrest),
    ← List.cons_append, scanWhile_append_of_delimited symbolKind all hrest]

theorem spells_symbol {cs : List Char} (h : isSymbolText cs = true) :
    Spells cs [.atom (.symbol (String.ofList cs))] := by
  cases cs with
  | nil => cases h
  | cons c cs =>
    obtain ⟨begins, notNumber, continues, htrue, hfalse⟩ := isSymbolText_cons.1 h
    have := spells_symbolKind begins notNumber continues
    rwa [symbolKind, if_neg htrue, if_neg hfalse] at this

theorem spells_keyword {cs : List Char} (h : isKeywordText cs = true) :
    Spells (':' :: cs) [.atom (.keyword (String.ofList cs))] := by
  simp only [isKeywordText, Bool.and_eq_true, Bool.not_eq_true', List.isEmpty_eq_false_iff,
    List.all_eq_true] at h
  refine .of_scan (by decide) fun rest hrest => ?_
  show (scanWhile canContinueSymbol keywordKind (cs ++ rest)).cons ':' = _
  rw [scanWhile_append_of_delimited keywordKind h.2 hrest, keywordKind, if_neg h.1]
  rfl

/-! ### Strings -/

/-- The scanned token with more characters in front. -/
def Scanned.behind (cs : List Char) (s : Scanned) : Scanned := { s with text := cs ++ s.text }

theorem scanQuoted_escape (read : List Char) (c : Char) (rest : List Char) :
    scanQuoted read (escape c ++ rest) = (scanQuoted (c :: read) rest).behind (escape c) := by
  unfold escape
  split
  case h_6 quote backslash _ _ _ => exact scanQuoted_plain quote backslash read rest
  all_goals
    simp only [List.cons_append, List.nil_append, scanQuoted]
    rfl

theorem scanQuoted_flatMap_escape (read cs rest : List Char) :
    scanQuoted read (cs.flatMap escape ++ '"' :: rest) =
      ⟨.atom (.string (String.ofList (read.reverse ++ cs))), cs.flatMap escape ++ ['"'], rest⟩ := by
  induction cs generalizing read with
  | nil => rw [List.flatMap_nil, List.nil_append, scanQuoted, List.append_nil]; rfl
  | cons c cs ih =>
    rw [List.flatMap_cons, List.append_assoc, scanQuoted_escape, ih, List.reverse_cons,
      List.append_assoc, List.append_assoc]
    rfl

theorem spells_string (s : String) :
    Spells ('"' :: s.toList.flatMap escape ++ ['"']) [.atom (.string s)] := by
  refine .of_scan (by decide) fun rest _ => ?_
  show (scanQuoted [] (s.toList.flatMap escape ++ ['"'] ++ rest)).cons '"' = _
  rw [List.append_assoc, List.singleton_append, scanQuoted_flatMap_escape, List.reverse_nil,
    List.nil_append, String.ofList_toList]
  rfl

/-! ### Numbers -/

theorem scanNumeral_integer {negative : Bool} {whole rest : List Char} {n : Int64}
    (digits : ∀ c ∈ whole, c.isDigit = true) (value : Integer.read negative whole = .ok n)
    (hrest : IsDelimited rest) :
    scanNumeral negative (whole ++ rest) = ⟨.atom (.int n), whole, rest⟩ := by
  obtain ⟨taken, dropped⟩ :=
    takeWhile_append_of_delimited digits (isDigit_eq_false_of_delimited hrest)
  simp only [scanNumeral, taken, dropped, value]
  split
  · -- a point would make it a number of floating point, but it is a symbol character
    rw [isDelimited_cons] at hrest
    cases hrest
  · rfl

theorem scanNumeral_float {negative : Bool} {whole fraction rest : List Char}
    (nonempty : fraction ≠ []) (digits : ∀ c ∈ whole ++ fraction, c.isDigit = true)
    (hrest : IsDelimited rest) :
    scanNumeral negative (whole ++ '.' :: fraction ++ rest) =
      ⟨.atom (.float (.read negative whole fraction)), whole ++ '.' :: fraction, rest⟩ := by
  rw [List.forall_mem_append] at digits
  obtain ⟨taken, dropped⟩ :=
    @takeWhile_append_of_delimited _ _ ('.' :: (fraction ++ rest)) digits.1 (by rintro _ ⟨⟩; rfl)
  obtain ⟨takenFraction, droppedFraction⟩ :=
    takeWhile_append_of_delimited digits.2 (isDigit_eq_false_of_delimited hrest)
  rw [List.append_assoc, List.cons_append]
  simp only [scanNumeral, taken, dropped, takenFraction, droppedFraction]

/-- A number is told from its first digit, or from the sign in front of it. -/
theorem spells_signed {negative : Bool} {c : Char} {cs : List Char} {kind : TokenKind}
    (hc : c.isDigit = true) (h : ∀ rest, IsDelimited rest →
      scanNumeral negative (c :: cs ++ rest) = ⟨kind, c :: cs, rest⟩) :
    Spells (Binary64.signed negative (c :: cs)) [kind] := by
  have continues : canContinueSymbol c = true := by simp [canContinueSymbol, hc]
  cases negative with
  | false =>
    refine .of_scan (isBlank_eq_false continues) fun rest hrest => ?_
    rw [← h rest hrest]
    unfold scan
    split
    case h_11 => simp [startsNumber, hc]
    all_goals cases hc
  | true =>
    refine .of_scan (by decide) fun rest hrest => ?_
    have starts : startsNumber '-' (c :: cs ++ rest) = true := by simp [startsNumber, hc]
    show (if startsNumber '-' (c :: cs ++ rest) then
      (scanNumeral true (c :: cs ++ rest)).cons '-' else _) = _
    rw [if_pos starts, h rest hrest]
    rfl

theorem spells_int (n : Int64) : Spells (Integer.text n) [.atom (.int n)] := by
  have signed : Integer.text n =
      Binary64.signed (n.toInt < 0) (Integer.digits n.toInt.natAbs) := by
    simp [Integer.text, Binary64.signed]
  have digits : ∀ c ∈ Integer.digits n.toInt.natAbs, c.isDigit = true :=
    fun c hc => Nat.isDigit_of_mem_toDigits (by decide) (by decide) hc
  have value := Integer.read_digits n
  rw [signed]
  cases hdigits : Integer.digits n.toInt.natAbs with
  | nil => exact absurd hdigits Nat.toDigits_ne_nil
  | cons c cs =>
    rw [hdigits] at digits value
    exact spells_signed (digits c (by simp)) fun rest hrest =>
      scanNumeral_integer digits value hrest

theorem spells_float {x : Binary64} (h : x.isFinite = true) :
    Spells x.literal [.atom (.float x)] := by
  obtain ⟨whole, fraction, hwhole, hfraction, digits, written, value⟩ := Binary64.exists_literal h
  rw [written]
  cases whole with
  | nil => exact absurd rfl hwhole
  | cons c cs =>
    refine spells_signed (digits c (by simp)) fun rest hrest => ?_
    show scanNumeral x.isNegative (c :: cs ++ '.' :: fraction ++ rest) = _
    rw [scanNumeral_float hfraction digits hrest, value]
    rfl

/-! ### Atoms -/

/-- An atom that can be printed is the one token of its text. -/
theorem Atom.spells_print {a : Atom} (h : a.IsPrintable) : Spells a.print [.atom a] := by
  cases a with
  | bool b =>
    cases b
    · exact spells_symbolKind (c := 'f') (by decide) (by decide) (List.all_eq_true.1 (by decide))
    · exact spells_symbolKind (c := 't') (by decide) (by decide) (List.all_eq_true.1 (by decide))
  | int n => exact spells_int n
  | float x => exact spells_float h
  | string s => exact spells_string s
  | symbol name =>
    have := spells_symbol h
    rwa [String.ofList_toList] at this
  | keyword name =>
    have := spells_keyword h
    rwa [String.ofList_toList] at this

end ApiCatalog
