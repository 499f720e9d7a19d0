import ApiCatalog.Proofs.Excerpts
import ApiCatalog.Proofs.Layouts
import ApiCatalog.Proofs.SpelledReading

/-!
# Numbers too large to be written

What is read from a text is written with the tokens that it was read from, but for one thing: the
digits of a number may be too many, and it is rounded to infinity. An infinite number is written
with letters, and they are read as a symbol.

Main statements: `Binary64.isFinite_read_iff`, which digits make a finite number;
`exists_digits_of_scan`, which digits a token is read from; `Form.readsAs_reread`, what the text of
forms that were read is read as.
-/

namespace ApiCatalog

open scoped CorePowers

namespace Binary64

/-- The exponent of half the distance between the greatest finite numbers. -/
def halfStep : Nat := 970

/-- The least number that is too large: it lies half a step above the greatest finite one, and is
rounded away from it. -/
def overflow : Nat := (2 ^ (54 : Nat) - 1) * 2 ^ halfStep

theorem div_le_roundDiv (num den : Nat) : num / den ≤ roundDiv num den := by
  simp only [roundDiv]
  split_ifs <;> omega

theorem roundDiv_le_succ (num den : Nat) : roundDiv num den ≤ num / den + 1 := by
  simp only [roundDiv]
  split_ifs <;> omega

/-- What rounds to an odd number or less is nearer to it than to the next. -/
theorem roundDiv_le_iff (num : Nat) {den n : Nat} (hden : 0 < den) (hn : n % 2 = 1) :
    roundDiv num den ≤ n ↔ 2 * num < (2 * n + 1) * den := by
  have hsplit := Nat.div_add_mod num den
  have hmod := Nat.mod_lt num hden
  have hlow := div_le_roundDiv num den
  have hhigh := roundDiv_le_succ num den
  have hscaled : (2 * n + 1) * den = 2 * (den * n) + den := by
    rw [Nat.succ_mul, Nat.mul_assoc, Nat.mul_comm n]
  rw [hscaled]
  rcases Nat.lt_trichotomy (num / den) n with hlt | heq | hgt
  · have hle : den * (num / den + 1) ≤ den * n := Nat.mul_le_mul_left den hlt
    rw [Nat.mul_succ] at hle
    omega
  · rw [heq] at hsplit
    have hround : roundDiv num den = if 2 * (num % den) < den then n else n + 1 := by
      simp only [roundDiv, heq, hn, Nat.one_ne_zero, if_false, ite_self]
    rw [hround]
    split_ifs <;> omega
  · have hle : den * (n + 1) ≤ den * (num / den) := Nat.mul_le_mul_left den hgt
    rw [Nat.mul_succ] at hle
    omega

theorem roundRatio_lt_infinity {num den : Nat} :
    roundRatio num den < infinity ↔
      (Nat.log2 (num * 2 ^ places / den) - 52) * 2 ^ (52 : Nat) +
        roundDiv (num * 2 ^ places) (den * 2 ^ (Nat.log2 (num * 2 ^ places / den) - 52)) <
          infinity := by
  rw [roundRatio_eq]
  omega

theorem log2_units_lt_iff (num : Nat) {den n : Nat} (hden : 0 < den) (hn : 0 < n) :
    Nat.log2 (num * 2 ^ places / den) < places + n ↔ num < 2 ^ n * den := by
  have hunit : 0 < 2 ^ places := Nat.two_pow_pos places
  have hpower : num * 2 ^ places / den < 2 ^ (places + n) ↔ num < 2 ^ n * den := by
    rw [Nat.div_lt_iff_lt_mul hden, Nat.pow_add, Nat.mul_assoc, Nat.mul_comm num]
    exact Nat.mul_lt_mul_left hunit
  rw [← hpower]
  by_cases hzero : num * 2 ^ places / den = 0
  · rw [hzero]
    exact iff_of_true (by rw [Nat.log2_zero]; omega) (Nat.two_pow_pos _)
  · exact Nat.log2_lt hzero

/-- What is left of a number that is shifted to 53 bits. -/
theorem div_two_pow_lt (q : Nat) : q / 2 ^ (Nat.log2 q - 52) < 2 ^ (53 : Nat) := by
  rw [Nat.div_lt_iff_lt_mul (Nat.two_pow_pos _), ← Nat.pow_add]
  calc q < 2 ^ (Nat.log2 q + 1) := Nat.lt_log2_self
    _ ≤ 2 ^ (53 + (Nat.log2 q - 52)) := Nat.pow_le_pow_right (by decide) (by omega)

theorem le_div_two_pow {q : Nat} (h : 52 ≤ Nat.log2 q) :
    2 ^ (52 : Nat) ≤ q / 2 ^ (Nat.log2 q - 52) := by
  have hzero : q ≠ 0 := by
    rintro rfl
    rw [Nat.log2_zero] at h
    omega
  rw [Nat.le_div_iff_mul_le (Nat.two_pow_pos _), ← Nat.pow_add, Nat.add_sub_cancel' h]
  exact Nat.log2_self_le hzero

theorem two_mul_lt_iff {num den k p h : Nat} :
    2 * (num * 2 ^ p) < k * (den * 2 ^ (p + (h + 1))) ↔ num < k * (2 ^ h * den) := by
  have hleft : 2 * (num * 2 ^ p) = 2 ^ p * 2 * num := by ac_rfl
  have hright : k * (den * 2 ^ (p + (h + 1))) = 2 ^ p * 2 * (k * (2 ^ h * den)) := by
    rw [Nat.pow_add, Nat.pow_succ]
    ac_rfl
  rw [hleft, hright]
  exact Nat.mul_lt_mul_left (Nat.mul_pos (Nat.two_pow_pos p) (by decide))

/-- A quotient is rounded to a finite magnitude exactly if it is not too large. -/
theorem roundRatio_lt_infinity_iff {num den : Nat} (hden : 0 < den) :
    roundRatio num den < infinity ↔ num < overflow * den := by
  have hinfinity : infinity = 2047 * 2 ^ (52 : Nat) := rfl
  have hplaces : places = 1074 := rfl
  have hhalf : halfStep = 970 := rfl
  have hlow := log2_units_lt_iff num (n := 53 + halfStep) hden (by omega)
  have hhigh := log2_units_lt_iff num (n := 54 + halfStep) hden (by omega)
  have hstep : 0 < 2 ^ halfStep * den := Nat.mul_pos (Nat.two_pow_pos _) hden
  have htop : overflow * den = (2 ^ (54 : Nat) - 1) * (2 ^ halfStep * den) := Nat.mul_assoc _ _ _
  rw [Nat.pow_add, Nat.mul_assoc] at hlow hhigh
  have hfewer := div_two_pow_lt (num * 2 ^ places / den)
  have hmore := @le_div_two_pow (num * 2 ^ places / den)
  rw [Nat.div_div_eq_div_mul] at hfewer hmore
  have hdown := div_le_roundDiv (num * 2 ^ places)
    (den * 2 ^ (Nat.log2 (num * 2 ^ places / den) - 52))
  have hup := roundDiv_le_succ (num * 2 ^ places)
    (den * 2 ^ (Nat.log2 (num * 2 ^ places / den) - 52))
  rw [roundRatio_lt_infinity, hinfinity, htop]
  rcases Nat.lt_trichotomy (Nat.log2 (num * 2 ^ places / den)) (places + (53 + halfStep)) with
    hlt | heq | hgt
  · -- a carry out of the fraction still leads to a finite magnitude
    exact iff_of_true (by omega) (by omega)
  · -- with the greatest exponent the carry decides
    have hexponent : Nat.log2 (num * 2 ^ places / den) - 52 = places + (halfStep + 1) := by omega
    have hround := roundDiv_le_iff (num * 2 ^ places) (n := 2 ^ (53 : Nat) - 1)
      (Nat.mul_pos hden (Nat.two_pow_pos (places + (halfStep + 1)))) (by decide)
    have hodd : 2 * (2 ^ (53 : Nat) - 1) + 1 = 2 ^ (54 : Nat) - 1 := rfl
    rw [hodd, two_mul_lt_iff] at hround
    rw [hexponent, ← hround]
    omega
  · have := hmore (by omega)
    exact iff_of_false (by omega) (by omega)

theorem magnitude_ofMagnitude (negative : Bool) {m : Nat} (h : m < 2 ^ (63 : Nat)) :
    (ofMagnitude negative m).magnitude = m := by
  rw [magnitude, ofMagnitude, UInt64.toNat_ofNat']
  cases negative <;> simp only [Bool.false_eq_true, if_true, if_false] <;> omega

/-- Digits with a point between them make a finite number exactly if the number that they write is
not too large. -/
theorem isFinite_read_iff (negative : Bool) (whole fraction : List Char) :
    (read negative whole fraction).isFinite = true ↔
      Integer.ofDigits (whole ++ fraction) < overflow * 10 ^ fraction.length := by
  have hinfinity : infinity < 2 ^ (63 : Nat) := by decide
  have hcut (m n : Nat) : roundRatio m n ≤ infinity := Nat.min_le_right _ _
  rw [isFinite, read, magnitude_ofMagnitude negative (Nat.lt_of_le_of_lt (hcut _ _) hinfinity),
    decide_eq_true_eq, roundRatio_lt_infinity_iff (Nat.pow_pos (by decide))]

/-- The text of a number that is not finite has letters, and is a symbol. -/
theorem isSymbolText_literal {x : Binary64} (h : x.isFinite = false) :
    isSymbolText x.literal = true := by
  have texts : x.text = "NaN".toList ∨ x.text = "inf".toList ∨ x.text = "-inf".toList := by
    rw [text, h, if_neg Bool.false_ne_true]
    by_cases hNaN : infinity < x.magnitude
    · exact .inl (if_pos hNaN)
    · rw [if_neg hNaN]
      cases x.isNegative
      · exact .inr (.inl rfl)
      · exact .inr (.inr rfl)
  rw [literal]
  rcases texts with h | h | h <;> rw [h] <;> decide +kernel

end Binary64

/-! ### Numbers in a text -/

/-- The number that a token is, if it has a point. -/
def TokenKind.float? : TokenKind → Option Binary64
  | .atom (.float x) => some x
  | _ => none

theorem float?_scanMark (cs : List Char) : (scanMark cs).kind.float? = none := by
  unfold scanMark
  split <;> rfl

theorem float?_keywordKind (name : List Char) : (keywordKind name).float? = none := by
  unfold keywordKind
  split <;> rfl

theorem float?_symbolKind (name : List Char) : (symbolKind name).float? = none := by
  unfold symbolKind
  split
  · rfl
  · split <;> rfl

theorem float?_scanQuoted (read cs : List Char) : (scanQuoted read cs).kind.float? = none := by
  fun_induction scanQuoted read cs with
  | case1 | case2 | case3 | case5 => rfl
  | case4 _ _ _ _ _ ih | case6 _ _ _ _ _ _ ih => exact ih

/-- What begins as a number is the only token that can be one. -/
theorem float?_scan {c : Char} {cs : List Char} (h : startsNumber c cs = false) :
    (scan c cs).kind.float? = none := by
  unfold scan
  split <;> try rfl
  · exact float?_scanMark cs
  · exact float?_keywordKind _
  · exact float?_scanQuoted [] cs
  · rw [h, if_neg Bool.false_ne_true]
    split
    · exact float?_symbolKind _
    · rfl

/-- A number with a point is read from the digits before and behind the point. -/
theorem exists_digits_of_scanNumeral {negative : Bool} {cs : List Char} {x : Binary64}
    (h : (scanNumeral negative cs).kind.float? = some x) :
    ∃ whole fraction, (scanNumeral negative cs).text = whole ++ '.' :: fraction ∧
      (∀ c ∈ whole ++ fraction, c.isDigit = true) ∧ x = .read negative whole fraction := by
  by_cases pointed : ∃ ds, cs.dropWhile Char.isDigit = '.' :: ds ∧ ds.takeWhile Char.isDigit ≠ []
  · obtain ⟨ds, hds, some⟩ := pointed
    rw [scanNumeral_of_fraction hds some] at h ⊢
    cases h
    refine ⟨_, _, rfl, fun c hc => ?_, rfl⟩
    rcases List.mem_append.1 hc with hc | hc <;> exact List.all_eq_true.1 List.all_takeWhile c hc
  · rw [scanNumeral_of_integer fun ds hds =>
      Classical.byContradiction fun some => pointed ⟨ds, hds, some⟩] at h
    cases number : Integer.read negative (cs.takeWhile Char.isDigit) <;> rw [number] at h <;>
      cases h

theorem scan_of_startsNumber {c : Char} {cs : List Char} (h : startsNumber c cs = true) :
    scan c cs =
      if c.isDigit then scanNumeral false (c :: cs) else (scanNumeral (c == '-') cs).cons c := by
  unfold scan
  split
  case h_11 => rw [h, if_pos rfl]
  -- the characters that begin another token begin no number
  all_goals exact absurd h Bool.false_ne_true

/-- A token that is a number with a point has a sign, if any, and digits for its text. -/
theorem exists_digits_of_scan {c : Char} {cs : List Char} {x : Binary64}
    (h : (scan c cs).kind.float? = some x) :
    ∃ sign whole fraction, sign ∈ [[], ['-'], ['+']] ∧
      (scan c cs).text = sign ++ (whole ++ '.' :: fraction) ∧
      (∀ c ∈ whole ++ fraction, c.isDigit = true) ∧
      x = .read (sign == ['-']) whole fraction := by
  cases start : startsNumber c cs with
  | false =>
    rw [float?_scan start] at h
    cases h
  | true =>
    rw [scan_of_startsNumber start] at h ⊢
    cases digit : c.isDigit with
    | true =>
      rw [digit, if_pos rfl] at h
      obtain ⟨whole, fraction, text, digits, value⟩ := exists_digits_of_scanNumeral h
      exact ⟨[], whole, fraction, by simp, text, digits, value⟩
    | false =>
      rw [digit, if_neg Bool.false_ne_true] at h
      obtain ⟨whole, fraction, text, digits, value⟩ :=
        @exists_digits_of_scanNumeral (c == '-') cs x h
      refine ⟨[c], whole, fraction, ?_, congrArg (c :: ·) text, digits, ?_⟩
      · rcases sign_of_startsNumber start digit with rfl | rfl <;> simp
      · rcases sign_of_startsNumber start digit with rfl | rfl <;> exact value

/-- A token is scanned where the text under its span begins. -/
theorem exists_scan_of_mem_lexFrom (p : Position) (cs : List Char) {t : Token}
    (ht : t ∈ (lexFrom p cs).tokens) :
    ∃ before c rest, cs = before ++ c :: rest ∧ t.kind = (scan c rest).kind ∧
      t.span = .between (p.after before) (p.after (before ++ (scan c rest).text)) := by
  induction cs using lex_induction generalizing p with
  | nil =>
    rw [lexFrom_nil] at ht
    cases ht
  | blank c cs hc ih =>
    rw [lexFrom_cons_blank p hc] at ht
    obtain ⟨before, d, rest, rfl, kind, span⟩ := ih _ ht
    exact ⟨c :: before, d, rest, rfl, kind, span⟩
  | token c cs hc ih =>
    rw [lexFrom_cons p hc] at ht
    rcases List.mem_cons.1 ht with rfl | ht
    · exact ⟨[], c, cs, rfl, rfl, rfl⟩
    · obtain ⟨before, d, rest, hrest, kind, span⟩ := ih _ ht
      refine ⟨(scan c cs).text ++ before, d, rest, ?_, kind, ?_⟩
      · rw [List.append_assoc, ← hrest, scan_text_append_rest]
      · rw [span, ← Position.after_append, ← Position.after_append, List.append_assoc]

/-- The text of a token is what is scanned there. -/
theorem exists_scan_of_mem_lex {source : List Char} {t : Token} (ht : t ∈ (lex source).tokens) :
    ∃ c rest, t.kind = (scan c rest).kind ∧ t.span.text source = (scan c rest).text := by
  obtain ⟨before, c, rest, hsource, kind, span⟩ := exists_scan_of_mem_lexFrom .start source ht
  refine ⟨c, rest, kind, Span.Covers.text_eq ⟨before, (scan c rest).rest, ?_, ?_⟩⟩
  · rw [List.append_assoc, scan_text_append_rest, hsource]
  · rw [span, Position.start_after, Position.start_after]

/-! ### Atoms -/

namespace Atom

/-- Whether the atom is not a number beyond the finite ones. -/
def IsFinite : Atom → Prop
  | .float x => x.isFinite
  | _ => True

/-- The atom that the text of an atom is divided into. -/
def reread : Atom → Atom
  | .float x => if x.isFinite then .float x else .symbol (String.ofList x.literal)
  | a => a

theorem isPrintable_reread {a : Atom} (h : a.IsSpelled) : a.reread.IsPrintable := by
  cases a with
  | float x =>
    by_cases hx : x.isFinite = true
    · rw [reread, if_pos hx]
      exact hx
    · rw [reread, if_neg hx]
      show isSymbolText (String.ofList x.literal).toList = true
      rw [String.toList_ofList]
      exact Binary64.isSymbolText_literal (Bool.eq_false_iff.2 hx)
  | _ => exact h

theorem print_reread (a : Atom) : a.reread.print = a.print := by
  cases a with
  | float x =>
    rw [reread]
    split
    · rfl
    · exact String.toList_ofList
  | _ => rfl

theorem reread_eq_self_iff {a : Atom} : a.reread = a ↔ a.IsFinite := by
  cases a with
  | float x =>
    rw [reread, IsFinite]
    split
    · rename_i hx
      exact iff_of_true rfl hx
    · rename_i hx
      exact iff_of_false Atom.noConfusion hx
  | _ => exact iff_of_true rfl trivial

/-- An atom of a text is one token when it is written. -/
theorem spells_print_reread {a : Atom} (h : a.IsSpelled) : Spells a.print [.atom a.reread] := by
  have := spells_print (isPrintable_reread h)
  rwa [print_reread] at this

end Atom

/-! ### Forms -/

namespace Form

mutual

/-- The form with every atom in it changed. -/
def mapAtoms (g : Atom → Atom) : Form → Form
  | .atom a s => .atom (g a) s
  | .seq b items s => .seq b (mapAllAtoms g items) s

/-- The forms with every atom in them changed. -/
def mapAllAtoms (g : Atom → Atom) : List Form → List Form
  | [] => []
  | f :: fs => f.mapAtoms g :: mapAllAtoms g fs

end

variable {g : Atom → Atom}

@[simp] theorem mapAllAtoms_eq_map (fs : List Form) :
    mapAllAtoms g fs = fs.map (mapAtoms g) := by
  induction fs with
  | nil => rfl
  | cons f fs ih => rw [mapAllAtoms, ih, List.map_cons]

theorem mapAtoms_seq (b : Bracket) (items : List Form) (s : Span) :
    (Form.seq b items s).mapAtoms g = .seq b (items.map (mapAtoms g)) s := by
  rw [mapAtoms, mapAllAtoms_eq_map]

mutual

theorem print_mapAtoms (hg : ∀ a, (g a).print = a.print) :
    ∀ f : Form, (f.mapAtoms g).print = f.print
  | .atom a _ => hg a
  | .seq b items _ => by rw [mapAtoms_seq, print, print, printItems_mapAtoms hg items]

theorem printItems_mapAtoms (hg : ∀ a, (g a).print = a.print) :
    ∀ items : List Form, printItems (items.map (mapAtoms g)) = printItems items
  | [] => rfl
  | [item] => print_mapAtoms hg item
  | item :: next :: rest => by
    have others := printItems_mapAtoms hg (next :: rest)
    rw [List.map_cons] at others
    rw [List.map_cons, List.map_cons, printItems, print_mapAtoms hg item, others, printItems]

end

section

variable {P Q : Atom → Prop}

theorem madeOf_mapAtoms (hg : ∀ a, P a → Q (g a)) :
    ∀ f : Form, f.MadeOf P → (f.mapAtoms g).MadeOf Q
  | .atom a _, h => hg a h
  | .seq b items s, h => by
    rw [mapAtoms_seq]
    refine madeOf_seq.2 ⟨fun hb => ?_, ?_⟩
    · rw [List.length_map]
      exact (madeOf_seq.1 h).1 hb
    · exact List.forall_mem_map.2 fun f hf => madeOf_mapAtoms hg f (h.items f hf)

/-- A form stays the same, wherever it stands, if every atom in it does. -/
theorem unplace_mapAtoms_eq_iff :
    ∀ f : Form, f.MadeOf P → ((f.mapAtoms g).unplace = f.unplace ↔ f.MadeOf fun a => g a = a)
  | .atom a s, _ => by simp [mapAtoms, unplace, MadeOf]
  | .seq b items s, h => by
    have parts : (items.map (mapAtoms g)).map unplace = items.map unplace ↔
        ∀ f ∈ items, f.MadeOf fun a => g a = a := by
      rw [List.map_map, List.map_inj_left]
      exact forall₂_congr fun f hf => unplace_mapAtoms_eq_iff f (h.items f hf)
    rw [mapAtoms_seq, madeOf_seq, and_iff_right (madeOf_seq.1 h).1, ← parts, unplace, unplace,
      mapSpan_seq, mapSpan_seq, Form.seq.injEq]
    exact ⟨fun same => same.2.1, fun same => ⟨rfl, same, rfl⟩⟩

end

/-- The form that its text is read as. -/
def reread (f : Form) : Form := f.mapAtoms Atom.reread

theorem textLines_reread (forms : List Form) : textLines (forms.map reread) = textLines forms := by
  rw [textLines, textLines, List.map_map]
  congr 1
  refine List.map_congr_left fun f _ => ?_
  rw [Function.comp_apply, text, text, reread, print_mapAtoms Atom.print_reread]

theorem unplace_reread_eq_iff {forms : List Form} (h : ∀ f ∈ forms, f.MadeOf Atom.IsSpelled) :
    (forms.map reread).map unplace = forms.map unplace ↔ ∀ f ∈ forms, f.MadeOf Atom.IsFinite := by
  have same : (fun a : Atom => a.reread = a) = Atom.IsFinite :=
    funext fun _ => propext Atom.reread_eq_self_iff
  rw [List.map_map, List.map_inj_left, ← same]
  exact forall₂_congr fun f hf => unplace_mapAtoms_eq_iff f (h f hf)

/-- A text is read in one way. -/
theorem ReadsAs.unique {source : List Char} {fs gs : List Form} (hf : ReadsAs source fs)
    (hg : ReadsAs source gs) : fs.map unplace = gs.map unplace := by
  obtain ⟨fs', sameF, readF⟩ := hf
  obtain ⟨gs', sameG, readG⟩ := hg
  rw [readF, Except.ok.injEq] at readG
  rw [← sameF, readG, sameG]

theorem ReadsAs.congr {source : List Char} {fs gs : List Form} (h : ReadsAs source fs)
    (same : fs.map unplace = gs.map unplace) : ReadsAs source gs := by
  obtain ⟨fs', samePlace, read⟩ := h
  exact ⟨fs', samePlace.trans same, read⟩

/-- The text of forms that were read is read as these forms with a symbol in place of every number
that is not finite. So the forms come back exactly if all numbers in them are finite; and each atom
of the source comes back from its own text, but for such a number. Which numbers these are, the
digits in the source decide. -/
theorem readsAs_reread {source : List Char} {forms : List Form} (h : all source = .ok forms) :
    ReadsAs (textLines forms).toList (forms.map reread) ∧
      (ReadsAs (textLines forms).toList forms ↔ ∀ f ∈ forms, f.MadeOf Atom.IsFinite) ∧
      (∀ t ∈ (lex source).tokens, ∀ a, t.kind = .atom a →
        (lex a.print).tokens.map (·.kind) = [.atom a.reread] ∧ (a.reread = a ↔ a.IsFinite)) ∧
      ∀ t ∈ (lex source).tokens, ∀ x, t.kind = .atom (.float x) →
        ∃ sign whole fraction, sign ∈ [[], ['-'], ['+']] ∧
          t.span.text source = sign ++ (whole ++ '.' :: fraction) ∧
          (∀ c ∈ whole ++ fraction, c.isDigit = true) ∧
          (x.isFinite = true ↔
            Integer.ofDigits (whole ++ fraction) < Binary64.overflow * 10 ^ fraction.length) := by
  have spelled := madeOf_of_all h
  have read : ReadsAs (textLines forms).toList (forms.map reread) := by
    rw [← textLines_reread]
    refine readsAs_textLines (List.forall_mem_map.2 fun f hf => ?_)
    exact madeOf_mapAtoms (fun _ => Atom.isPrintable_reread) f (spelled f hf)
  refine ⟨read, ⟨fun h => ?_, fun h => ?_⟩, fun t ht a ha => ?_,
    fun t ht x hx => ?_⟩
  · exact (unplace_reread_eq_iff spelled).1 (read.unique h)
  · exact read.congr ((unplace_reread_eq_iff spelled).2 h)
  · have ha : a.IsSpelled := by
      have := holds_lexFrom .start source t ht
      rwa [ha] at this
    exact ⟨(Atom.spells_print_reread ha).kinds_lexFrom .start, Atom.reread_eq_self_iff⟩
  · obtain ⟨c, rest, kind, text⟩ := exists_scan_of_mem_lex ht
    have scanned : (scan c rest).kind.float? = some x := by
      rw [← kind, hx]
      rfl
    obtain ⟨sign, whole, fraction, hsign, spelling, digits, rfl⟩ := exists_digits_of_scan scanned
    exact ⟨sign, whole, fraction, hsign, text.trans spelling, digits,
      Binary64.isFinite_read_iff _ whole fraction⟩

theorem readsAs_reread_of_class :
    let source := "(class: A-1 [-0.50 \"\\n\"] ; comment\n #_ 1 :a \x7b x 07 \x7d)".toList
    ∃ forms, all source = .ok forms ∧ ReadsAs (textLines forms).toList (forms.map reread) := by
  intro source
  have hsource : (all source).isOk = true := by decide +kernel
  cases h : all source with
  | error problem =>
    rw [h] at hsource
    cases hsource
  | ok forms => exact ⟨forms, rfl, (readsAs_reread h).1⟩

/-- A text with one token reads as that atom. -/
theorem exists_all_of_kinds {source : List Char} {a : Atom}
    (h : (lex source).tokens.map (·.kind) = [.atom a]) : ∃ s, all source = .ok [.atom a s] := by
  obtain ⟨⟨kind, span⟩, tokens, rfl⟩ := List.map_eq_singleton_iff.1 h
  refine ⟨span, ?_⟩
  rw [all, Reader.all, Reader.ofText, tokens]
  rfl

/-- The least power of ten that is too large is read as infinity, and its text as a symbol. -/
theorem not_readsAs_large :
    let source := '1' :: List.replicate 309 '0' ++ ['.', '0']
    ∃ forms, all source = .ok forms ∧ textLines forms = "inf.0" ∧
      ¬ReadsAs (textLines forms).toList forms := by
  intro source
  have infinite : (lex source).tokens.map (·.kind) = [.atom (.float ⟨0x7ff0000000000000⟩)] := by
    decide +kernel
  have name : (lex "inf.0".toList).tokens.map (·.kind) = [.atom (.symbol "inf.0")] := by
    decide +kernel
  obtain ⟨s, hsource⟩ := exists_all_of_kinds infinite
  obtain ⟨t, hname⟩ := exists_all_of_kinds name
  have written : textLines [.atom (.float ⟨0x7ff0000000000000⟩) s] = "inf.0" := by
    show "\n".intercalate [String.ofList (Binary64.literal ⟨0x7ff0000000000000⟩)] = "inf.0"
    decide +kernel
  refine ⟨_, hsource, written, ?_⟩
  rw [written]
  rintro ⟨gs, same, read⟩
  rw [hname, Except.ok.injEq] at read
  subst read
  simp [unplace] at same

end Form

end ApiCatalog
