import ApiCatalog.Proofs.Excerpts

/-!
# Dividing a text by byte offsets

A cursor goes through a text: it holds what is left of it, and counts the bytes, lines and columns
behind it. It moves by cutting the bytes of one character off what is left; the texts of numbers,
symbols and keywords are cut out of the whole text between two offsets. A cut has no result if it
reaches outside the text or into a character, and neither has a line or column that cannot be
counted. In a text whose lines and columns can be counted every cut has a result, and the cursor
divides the text as `lex` does.

Main definitions: `sliceBytes?`, `Position.advance?`, `Cursor.lex?`.
Main statement: `Cursor.lex?_eq`.
-/

namespace ApiCatalog

/-! ### Cuts and counts -/

/-- The text between two byte offsets, provided that each of them is the end of a text or the
start of a character and that they are in order. -/
def sliceBytes? (start stop : Nat) (source : List Char) : Option (List Char) :=
  if start ≤ stop then (dropBytes start source).bind (takeBytes (stop - start)) else none

theorem sliceBytes?_append (before text rest : List Char) :
    sliceBytes? (byteCount before) (byteCount (before ++ text)) (before ++ text ++ rest) =
      some text := by
  have order : byteCount before ≤ byteCount (before ++ text) := by
    rw [byteCount_append]
    exact Nat.le_add_right _ _
  rw [sliceBytes?, if_pos order, List.append_assoc, dropBytes_append, byteCount_append,
    Nat.add_sub_cancel_left, Option.bind_some, takeBytes_append]

theorem dropBytes_utf8Size (c : Char) (cs : List Char) :
    dropBytes c.utf8Size (c :: cs) = some cs := by
  have cut := dropBytes_append [c] cs
  rwa [byteCount, byteCount, Nat.add_zero] at cut

/-- The position behind one more character, if its line and column can be counted. -/
def Position.advance? (p : Position) (c : Char) : Option Position :=
  let count := if c = '\n' then p.line else p.column
  if count.toNat + 1 < UInt32.size then some (p.advance c) else none

/-- In a text whose lines and columns fit, each character leads on to a place. -/
theorem Position.advance?_endOf {source before : List Char} {c : Char} (fits : CountsFit source)
    (h : before ++ [c] <+: source) :
    (endOf before).advance? c = some (endOf (before ++ [c])) := by
  have part := (List.prefix_append before [c]).trans h
  have line := Nat.lt_of_le_of_lt (lineOf_le_lineOf h) fits.lines
  have column := fits.columns _ h
  rw [lineOf_concat] at line
  rw [columnOf_concat] at column
  rw [advance?, advance_endOf]
  split
  · rw [if_pos ‹_›] at line
    rw [if_pos]
    rwa [fits.toNat_line part]
  · rw [if_neg ‹_›] at column
    rw [if_pos]
    rwa [fits.toNat_column part]

theorem attach_bind {α β : Type} {a? : Option α} {a : α} (h : a? = some a)
    (f : { b // a? = some b } → Option β) : a?.attach.bind f = f ⟨a, h⟩ := by
  subst h
  rfl

/-! ### The cursor -/

/-- A text, what is left of it, and the place where that begins. -/
structure Cursor where
  source : List Char
  rest : List Char
  position : Position

namespace Cursor

/-- The cursor before a text. -/
def ofText (source : List Char) : Cursor := ⟨source, source, .start⟩

/-- The cursor behind one more character; at the end of the text it stays. -/
def advance? (k : Cursor) : Option Cursor :=
  match k.rest with
  | [] => some k
  | c :: _ => do
    some ⟨k.source, ← dropBytes c.utf8Size k.rest, ← k.position.advance? c⟩

theorem length_rest_advance?_lt {k next : Cursor} {c : Char} {cs : List Char}
    (h : k.rest = c :: cs) (moved : k.advance? = some next) :
    next.rest.length < k.rest.length := by
  rw [advance?, h] at moved
  simp only [dropBytes_utf8Size, Option.bind_eq_bind, Option.bind_some] at moved
  obtain ⟨place, -, behind⟩ := Option.bind_eq_some_iff.1 moved
  cases behind
  rw [h]
  exact Nat.lt_succ_self _

theorem length_rest_advance?_le {k next : Cursor} (moved : k.advance? = some next) :
    next.rest.length ≤ k.rest.length := by
  cases h : k.rest with
  | nil =>
    rw [advance?, h] at moved
    cases moved
    exact Nat.le_of_eq (congrArg List.length h)
  | cons c cs => exact h ▸ Nat.le_of_lt (length_rest_advance?_lt h moved)

/-- Reads characters of a class as long as there are any. -/
def readWhile? (p : Char → Bool) (k : Cursor) : Option (List Char × Cursor) :=
  match _ : k.rest with
  | [] => some ([], k)
  | c :: _ =>
    if p c then do
      let ⟨next, _⟩ ← k.advance?.attach
      let (text, last) ← readWhile? p next
      some (c :: text, last)
    else some ([], k)
termination_by k.rest.length
decreasing_by exact length_rest_advance?_lt ‹k.rest = _› ‹k.advance? = some next›

section Steps

variable {p : Char → Bool} {k next : Cursor} {c : Char} {cs : List Char}

theorem readWhile?_nil (h : k.rest = []) : k.readWhile? p = some ([], k) := by
  obtain ⟨source, rest, position⟩ := k
  cases h
  rw [readWhile?]

theorem readWhile?_cons_neg (h : k.rest = c :: cs) (other : p c = false) :
    k.readWhile? p = some ([], k) := by
  obtain ⟨source, rest, position⟩ := k
  cases h
  rw [readWhile?]
  simp only [other, Bool.false_eq_true, if_false]

theorem readWhile?_cons_pos (h : k.rest = c :: cs) (same : p c = true)
    (moved : k.advance? = some next) :
    k.readWhile? p = (next.readWhile? p).bind fun (text, last) => some (c :: text, last) := by
  obtain ⟨source, rest, position⟩ := k
  cases h
  rw [readWhile?]
  simp only [same, if_true, Option.bind_eq_bind, attach_bind moved]

end Steps

/-- The text between two places of a cursor. -/
def textTo? (k last : Cursor) : Option (List Char) :=
  sliceBytes? k.position.offset last.position.offset k.source

/-! ### One token -/

/-- Passes over a character and gives a token of its own. -/
def readSingle? (kind : TokenKind) (k : Cursor) : Option (TokenKind × Cursor) := do
  some (kind, ← k.advance?)

/-- A comment from its semicolon on. -/
def readComment? (k : Cursor) : Option (TokenKind × Cursor) := do
  let (text, last) ← k.readWhile? (· ≠ '\n')
  some (.comment (String.ofList text), last)

/-- What follows the mark `#`. -/
def readMark? (k : Cursor) : Option (TokenKind × Cursor) :=
  match k.rest with
  | [] => some (.fault .unfinishedMark, k)
  | '_' :: _ => k.readSingle? .discard
  | c :: _ => k.readSingle? (.fault (.unknownMark c))

/-- The text of a symbol or keyword, cut out behind its last character. -/
def readName? (k : Cursor) : Option (List Char × Cursor) := do
  let (_, last) ← k.readWhile? canContinueSymbol
  some (← k.textTo? last, last)

/-- The string behind its opening quotation mark; `read` holds the characters read so far, the
latest first. -/
def readString? (read : List Char) (k : Cursor) : Option (TokenKind × Cursor) :=
  match _ : k.rest with
  | [] => some (.fault .unterminatedString, k)
  | c :: _ => do
    let ⟨next, _⟩ ← k.advance?.attach
    if c = '"' then some (.atom (.string (String.ofList read.reverse)), next)
    else if c = '\\' then
      match next.rest with
      | [] => some (.fault .unfinishedEscape, next)
      | escape :: _ =>
        match unescape escape with
        | none => some (.fault (.unknownEscape escape), next)
        | some d =>
          let ⟨behind, _⟩ ← next.advance?.attach
          readString? (d :: read) behind
    else readString? (c :: read) next
termination_by k.rest.length
decreasing_by
  · exact Nat.lt_of_le_of_lt (length_rest_advance?_le ‹next.advance? = some behind›)
      (length_rest_advance?_lt ‹k.rest = _› ‹k.advance? = some next›)
  · exact length_rest_advance?_lt ‹k.rest = _› ‹k.advance? = some next›

section StringSteps

variable {read : List Char} {k next : Cursor} {c : Char} {cs : List Char}

theorem readString?_nil (h : k.rest = []) :
    k.readString? read = some (.fault .unterminatedString, k) := by
  obtain ⟨source, rest, position⟩ := k
  cases h
  rw [readString?]

theorem readString?_cons (h : k.rest = c :: cs) (moved : k.advance? = some next) :
    k.readString? read =
      if c = '"' then some (.atom (.string (String.ofList read.reverse)), next)
      else if c = '\\' then
        match next.rest with
        | [] => some (.fault .unfinishedEscape, next)
        | escape :: _ =>
          match unescape escape with
          | none => some (.fault (.unknownEscape escape), next)
          | some d => next.advance?.bind (readString? (d :: read))
      else next.readString? (c :: read) := by
  obtain ⟨source, rest, position⟩ := k
  cases h
  rw [readString?]
  simp only [Option.bind_eq_bind, attach_bind moved]
  cases next.advance? with
  | none => rfl
  | some behind => rfl

end StringSteps

/-- Passes over digits, and once over a point before a digit; tells whether there was a point. -/
def readDigits? (pointed : Bool) (k : Cursor) : Option (Bool × Cursor) :=
  match _ : k.rest with
  | [] => some (pointed, k)
  | c :: more =>
    if c.isDigit || (c == '.' && !pointed && more.head?.any Char.isDigit) then do
      let ⟨next, _⟩ ← k.advance?.attach
      readDigits? (pointed || c == '.') next
    else some (pointed, k)
termination_by k.rest.length
decreasing_by exact length_rest_advance?_lt ‹k.rest = _› ‹k.advance? = some next›

section DigitSteps

variable {pointed : Bool} {k next : Cursor} {c : Char} {cs : List Char}

theorem readDigits?_nil (h : k.rest = []) : k.readDigits? pointed = some (pointed, k) := by
  obtain ⟨source, rest, position⟩ := k
  cases h
  rw [readDigits?]

theorem readDigits?_cons (h : k.rest = c :: cs) (moved : k.advance? = some next) :
    k.readDigits? pointed =
      if c.isDigit || (c == '.' && !pointed && cs.head?.any Char.isDigit) then
        next.readDigits? (pointed || c == '.')
      else some (pointed, k) := by
  obtain ⟨source, rest, position⟩ := k
  cases h
  rw [readDigits?]
  simp only [Option.bind_eq_bind, attach_bind moved]

end DigitSteps

/-- Whether a number has a minus sign. -/
def isNegative (text : List Char) : Bool := text.head? == some '-'

/-- A number without its sign. -/
def unsigned : List Char → List Char
  | '-' :: text => text
  | '+' :: text => text
  | text => text

/-- The number with the given text; `pointed` says whether there is a point in it. -/
def numeralKind (pointed : Bool) (text : List Char) : TokenKind :=
  let whole := (unsigned text).takeWhile Char.isDigit
  if pointed then
    .atom (.float (.read (isNegative text) whole
      (((unsigned text).dropWhile Char.isDigit).drop 1)))
  else
    match Integer.read (isNegative text) whole with
    | .ok n => .atom (.int n)
    | .error overflow => .fault (.integerOverflow overflow)

/-- The number whose digits are still to come; its text is cut out behind the last of them. -/
def readBehindSign? (k behind : Cursor) : Option (TokenKind × Cursor) := do
  let (pointed, last) ← behind.readDigits? false
  some (numeralKind pointed (← k.textTo? last), last)

/-- A number from its sign or first digit on. -/
def readNumeral? (k : Cursor) : Option (TokenKind × Cursor) := do
  match k.rest with
  | '-' :: _ => k.readBehindSign? (← k.advance?)
  | '+' :: _ => k.readBehindSign? (← k.advance?)
  | _ => k.readBehindSign? k

/-- The token that begins with the character `c` before the text `cs`. -/
def readToken? (k : Cursor) (c : Char) (cs : List Char) : Option (TokenKind × Cursor) :=
  match c with
  | '(' => k.readSingle? (.opening .round)
  | ')' => k.readSingle? (.closing .round)
  | '[' => k.readSingle? (.opening .square)
  | ']' => k.readSingle? (.closing .square)
  | '\x7b' => k.readSingle? (.opening .curly)
  | '\x7d' => k.readSingle? (.closing .curly)
  | ';' => k.readComment?
  | '#' => do (← k.advance?).readMark?
  | ':' => do
    let (name, last) ← (← k.advance?).readName?
    some (keywordKind name, last)
  | '"' => do (← k.advance?).readString? []
  | _ =>
    if startsNumber c cs then k.readNumeral?
    else if canBeginSymbol c then do
      let (name, last) ← k.readName?
      some (symbolKind name, last)
    else k.readSingle? (.fault (.unexpectedCharacter c))

/-! ### All tokens -/

/-- The tokens from a cursor on. A token that takes nothing would come again for ever. -/
def lexFrom? (k : Cursor) : Option Lexed := do
  let (_, start) ← k.readWhile? isBlank
  match start.rest with
  | [] => some ⟨[], .between start.position start.position⟩
  | c :: cs => do
    let (kind, last) ← start.readToken? c cs
    if last.rest.length < k.rest.length then
      let more ← lexFrom? last
      some ⟨⟨kind, .between start.position last.position⟩ :: more.tokens, more.stop⟩
    else none
termination_by k.rest.length

theorem lexFrom?_nil {k start : Cursor} {blanks : List Char}
    (skip : k.readWhile? isBlank = some (blanks, start)) (h : start.rest = []) :
    k.lexFrom? = some ⟨[], .between start.position start.position⟩ := by
  rw [lexFrom?, skip]
  simp only [Option.bind_eq_bind, Option.bind_some, h]

theorem lexFrom?_cons {k start last : Cursor} {blanks : List Char} {c : Char} {cs : List Char}
    {kind : TokenKind} (skip : k.readWhile? isBlank = some (blanks, start))
    (h : start.rest = c :: cs) (read : start.readToken? c cs = some (kind, last))
    (less : last.rest.length < k.rest.length) {more : Lexed} (hmore : last.lexFrom? = some more) :
    k.lexFrom? =
      some ⟨⟨kind, .between start.position last.position⟩ :: more.tokens, more.stop⟩ := by
  rw [lexFrom?, skip]
  simp only [Option.bind_eq_bind, Option.bind_some, h, read, if_pos less, hmore]

/-- The tokens of a text. -/
def lex? (source : List Char) : Option Lexed := (ofText source).lexFrom?

/-! ### Every cut has a result -/

/-- The cursor between two parts of a text. -/
def between (source before rest : List Char) : Cursor :=
  ⟨source, rest, Position.start.after before⟩

theorem append_singleton_append (before : List Char) (c : Char) (rest : List Char) :
    before ++ [c] ++ rest = before ++ c :: rest := by
  rw [List.append_assoc, List.singleton_append]

theorem textTo?_between {source before text after : List Char}
    (whole : before ++ (text ++ after) = source) (rest rest' : List Char) :
    (between source before rest).textTo? (between source (before ++ text) rest') = some text := by
  have cut := sliceBytes?_append before text after
  have offset (cs : List Char) : byteCount cs = (Position.start.after cs).offset := by
    rw [Position.start_after]
    rfl
  rwa [List.append_assoc, whole, offset, offset] at cut

section Between

variable {source : List Char} (fits : CountsFit source)
include fits

theorem advance?_between {before rest : List Char} {c : Char}
    (whole : before ++ c :: rest = source) :
    (between source before (c :: rest)).advance? = some (between source (before ++ [c]) rest) := by
  have part : before ++ [c] <+: source := ⟨rest, (append_singleton_append _ _ _).trans whole⟩
  have place := Position.advance?_endOf fits part
  rw [← Position.start_after, ← Position.start_after] at place
  simp only [advance?, between, dropBytes_utf8Size, Option.bind_eq_bind, Option.bind_some, place]

theorem readWhile?_between (p : Char → Bool) {before rest : List Char}
    (whole : before ++ rest = source) :
    (between source before rest).readWhile? p =
      some (rest.takeWhile p, between source (before ++ rest.takeWhile p) (rest.dropWhile p)) := by
  induction rest generalizing before with
  | nil => rw [readWhile?_nil rfl, List.takeWhile_nil, List.append_nil, List.dropWhile_nil]
  | cons c rest ih =>
    cases same : p c with
    | false =>
      rw [readWhile?_cons_neg rfl same, List.takeWhile_cons, List.dropWhile_cons, same,
        if_neg Bool.false_ne_true, if_neg Bool.false_ne_true, List.append_nil]
    | true =>
      rw [readWhile?_cons_pos rfl same (advance?_between fits whole),
        ih ((append_singleton_append _ _ _).trans whole), List.takeWhile_cons,
        List.dropWhile_cons, same, if_pos rfl, if_pos rfl,
        ← append_singleton_append before c (rest.takeWhile p)]
      rfl

/-- What reading a token comes to when the token is found behind `before`. -/
def past (source before : List Char) (s : Scanned) : TokenKind × Cursor :=
  (s.kind, between source (before ++ s.text) s.rest)

omit fits in
theorem past_cons (before : List Char) (c : Char) (s : Scanned) :
    past source (before ++ [c]) s = past source before (s.cons c) := by
  rw [past, append_singleton_append]
  rfl

theorem readSingle?_between (kind : TokenKind) {before rest : List Char} {c : Char}
    (whole : before ++ c :: rest = source) :
    (between source before (c :: rest)).readSingle? kind =
      some (past source before ⟨kind, [c], rest⟩) := by
  rw [readSingle?, advance?_between fits whole]
  rfl

theorem readMark?_between {before rest : List Char} (whole : before ++ rest = source) :
    (between source before rest).readMark? = some (past source before (scanMark rest)) := by
  cases rest with
  | nil => simp [readMark?, scanMark, between, past]
  | cons c rest =>
    by_cases mark : c = '_'
    · subst mark
      exact readSingle?_between fits .discard whole
    · have mark? : (between source before (c :: rest)).readMark? =
          (between source before (c :: rest)).readSingle? (.fault (.unknownMark c)) := by
        simp [readMark?, between]
      rw [mark?, readSingle?_between fits _ whole]
      simp [scanMark]

theorem readComment?_between {before rest : List Char} (whole : before ++ ';' :: rest = source) :
    (between source before (';' :: rest)).readComment? =
      some (past source before ((scanWhile (· ≠ '\n')
        (fun text => .comment (String.ofList (';' :: text))) rest).cons ';')) := by
  rw [readComment?, readWhile?_between fits _ whole]
  simp [past, scanWhile, Scanned.cons]

theorem readName?_between {before rest : List Char} (whole : before ++ rest = source) :
    (between source before rest).readName? =
      some (rest.takeWhile canContinueSymbol,
        between source (before ++ rest.takeWhile canContinueSymbol)
          (rest.dropWhile canContinueSymbol)) := by
  have cut : before ++ (rest.takeWhile canContinueSymbol ++ rest.dropWhile canContinueSymbol) =
      source := by
    rw [List.takeWhile_append_dropWhile, whole]
  rw [readName?, readWhile?_between fits _ whole]
  simp only [Option.bind_eq_bind, Option.bind_some, textTo?_between cut]

theorem readString?_between (read : List Char) {before rest : List Char}
    (whole : before ++ rest = source) :
    (between source before rest).readString? read =
      some (past source before (scanQuoted read rest)) := by
  fun_induction scanQuoted read rest generalizing before with
  | case1 read =>
    rw [readString?_nil rfl]
    simp [past]
  | case2 read rest =>
    rw [readString?_cons rfl (advance?_between fits whole), if_pos rfl]
    rfl
  | case3 read =>
    rw [readString?_cons rfl (advance?_between fits whole), if_neg (by decide), if_pos rfl]
    rfl
  | case4 read c rest d hd ih =>
    have whole' : before ++ ['\\'] ++ c :: rest = source :=
      (append_singleton_append _ _ _).trans whole
    rw [readString?_cons rfl (advance?_between fits whole), if_neg (by decide), if_pos rfl]
    simp only [between, hd]
    rw [← between, advance?_between fits whole', Option.bind_some,
      ih ((append_singleton_append _ _ _).trans whole'), past_cons, past_cons]
  | case5 read c rest hd =>
    rw [readString?_cons rfl (advance?_between fits whole), if_neg (by decide), if_pos rfl]
    simp only [between, hd]
    rfl
  | case6 read c rest quote single escape ih =>
    have backslash : c ≠ '\\' := fun hc => by
      cases rest with
      | nil => exact single hc rfl
      | cons d ds => exact escape d ds hc rfl
    rw [readString?_cons rfl (advance?_between fits whole), if_neg quote, if_neg backslash,
      ih ((append_singleton_append _ _ _).trans whole), past_cons]

/-- Digits are passed over one after the other. -/
theorem readDigits?_skip (pointed : Bool) {before digits rest : List Char}
    (all : ∀ c ∈ digits, c.isDigit = true) (whole : before ++ (digits ++ rest) = source) :
    (between source before (digits ++ rest)).readDigits? pointed =
      (between source (before ++ digits) rest).readDigits? pointed := by
  induction digits generalizing before with
  | nil => rw [List.nil_append, List.append_nil]
  | cons c digits ih =>
    obtain ⟨digit, all⟩ := List.forall_mem_cons.1 all
    have point : (pointed || c == '.') = pointed := by
      have other : c ≠ '.' := fun same => by
        rw [same] at digit
        exact absurd digit (by decide)
      rw [beq_false_of_ne other, Bool.or_false]
    rw [List.cons_append] at whole ⊢
    rw [readDigits?_cons rfl (advance?_between fits whole), digit, Bool.true_or, if_pos rfl, point,
      ih all ((append_singleton_append _ _ _).trans whole), append_singleton_append]

theorem readDigits?_stop (pointed : Bool) {before rest : List Char}
    (whole : before ++ rest = source)
    (stop : ∀ c cs, rest = c :: cs →
      (c.isDigit || (c == '.' && !pointed && cs.head?.any Char.isDigit)) = false) :
    (between source before rest).readDigits? pointed =
      some (pointed, between source before rest) := by
  cases rest with
  | nil => rw [readDigits?_nil rfl]
  | cons c cs =>
    rw [readDigits?_cons rfl (advance?_between fits whole), stop c cs rfl,
      if_neg Bool.false_ne_true]

omit fits in
theorem isDigit_of_dropWhile {cs rest : List Char} {c : Char}
    (h : cs.dropWhile Char.isDigit = c :: rest) : c.isDigit = false := by
  have first := List.head?_dropWhile_not Char.isDigit cs
  rw [h] at first
  simpa using first

omit fits in
theorem isDigit_of_mem_takeWhile {cs : List Char} {c : Char} (h : c ∈ cs.takeWhile Char.isDigit) :
    c.isDigit = true :=
  List.all_eq_true.1 List.all_takeWhile c h

/-- All digits are passed over, and nothing else if no point and digit follow them. -/
theorem readDigits?_takeWhile (pointed : Bool) {before rest : List Char}
    (whole : before ++ rest = source)
    (stop : pointed = true ∨ ∀ cs, rest.dropWhile Char.isDigit = '.' :: cs →
      cs.takeWhile Char.isDigit = []) :
    (between source before rest).readDigits? pointed =
      some (pointed, between source (before ++ rest.takeWhile Char.isDigit)
        (rest.dropWhile Char.isDigit)) := by
  have cut := List.takeWhile_append_dropWhile (p := Char.isDigit) (l := rest)
  have skip := readDigits?_skip fits pointed (fun _ => isDigit_of_mem_takeWhile)
    (cut.symm ▸ whole)
  rw [cut] at skip
  rw [skip]
  refine readDigits?_stop fits pointed (by rw [List.append_assoc, cut, whole]) fun c cs hcs => ?_
  rw [isDigit_of_dropWhile hcs, Bool.false_or]
  rcases stop with rfl | stop
  · simp
  · by_cases point : c = '.'
    · subst point
      have none := stop cs hcs
      cases cs with
      | nil => simp
      | cons d cs =>
        rw [List.takeWhile_cons] at none
        cases digit : d.isDigit with
        | false => simp [digit]
        | true => simp [digit] at none
    · simp [point]

omit fits in
theorem takeWhile_dropWhile_digits {digits : List Char} (h : ∀ c ∈ digits, c.isDigit = true)
    (rest : List Char) (stop : ∀ c ∈ rest.head?, c.isDigit = false) :
    (digits ++ rest).takeWhile Char.isDigit = digits ∧
      (digits ++ rest).dropWhile Char.isDigit = rest := by
  rw [List.takeWhile_append_of_pos h, List.dropWhile_append_of_pos h]
  cases rest with
  | nil => simp
  | cons c rest =>
    have other : c.isDigit = false := stop c rfl
    simp [other]

/-- The digits before a point, the point and the digits behind it are passed over. -/
theorem readDigits?_of_fraction (negative : Bool) {before rest ds : List Char}
    (whole : before ++ rest = source) (hds : rest.dropWhile Char.isDigit = '.' :: ds)
    (some : ds.takeWhile Char.isDigit ≠ []) :
    (between source before rest).readDigits? false =
      .some (true, (past source before (scanNumeral negative rest)).2) := by
  have cut := List.takeWhile_append_dropWhile (p := Char.isDigit) (l := rest)
  have skip := readDigits?_skip fits false (fun _ => isDigit_of_mem_takeWhile) (cut.symm ▸ whole)
  rw [cut, hds] at skip
  rw [hds] at cut
  have whole' : before ++ rest.takeWhile Char.isDigit ++ '.' :: ds = source := by
    rw [List.append_assoc, cut, whole]
  have point : ds.head?.any Char.isDigit = true := by
    cases ds with
    | nil => exact absurd rfl some
    | cons d ds =>
      rw [List.takeWhile_cons] at some
      cases digit : d.isDigit with
      | false => simp [digit] at some
      | true => exact digit
  rw [skip, readDigits?_cons rfl (advance?_between fits whole'), point, if_pos (by decide),
    Bool.false_or, beq_self_eq_true,
    readDigits?_takeWhile fits _ ((append_singleton_append _ _ _).trans whole') (.inl rfl),
    scanNumeral_of_fraction hds some, append_singleton_append, List.append_assoc]
  rfl

omit fits in
theorem numeralKind_of_fraction {negative : Bool} {rest ds text : List Char}
    (hds : rest.dropWhile Char.isDigit = '.' :: ds) (some : ds.takeWhile Char.isDigit ≠ [])
    (sign : isNegative text = negative) (body : unsigned text = (scanNumeral negative rest).text) :
    numeralKind true text = (scanNumeral negative rest).kind := by
  rw [scanNumeral_of_fraction hds some] at body ⊢
  have whole : ∀ c ∈ rest.takeWhile Char.isDigit, c.isDigit = true :=
    fun _ => isDigit_of_mem_takeWhile
  obtain ⟨taken, dropped⟩ := takeWhile_dropWhile_digits whole ('.' :: ds.takeWhile Char.isDigit)
    (by rintro _ ⟨⟩; rfl)
  rw [numeralKind, if_pos rfl, body, taken, dropped, sign]
  rfl

omit fits in
theorem numeralKind_of_integer {negative : Bool} {rest text : List Char}
    (integer : ∀ ds, rest.dropWhile Char.isDigit = '.' :: ds → ds.takeWhile Char.isDigit = [])
    (sign : isNegative text = negative) (body : unsigned text = (scanNumeral negative rest).text) :
    numeralKind false text = (scanNumeral negative rest).kind := by
  rw [scanNumeral_of_integer integer] at body ⊢
  have whole : ∀ c ∈ rest.takeWhile Char.isDigit, c.isDigit = true :=
    fun _ => isDigit_of_mem_takeWhile
  obtain ⟨taken, -⟩ := takeWhile_dropWhile_digits whole [] (by rintro _ ⟨⟩)
  rw [List.append_nil] at taken
  cases number : Integer.read negative (rest.takeWhile Char.isDigit) <;>
    simp only [numeralKind, if_neg Bool.false_ne_true, body, taken, sign, number]

/-- The digits of a number are read as they are scanned, and its text says which number it is. -/
theorem readDigits?_between (negative : Bool) {before rest : List Char}
    (whole : before ++ rest = source) :
    ∃ pointed, (between source before rest).readDigits? false =
        some (pointed, (past source before (scanNumeral negative rest)).2) ∧
      ∀ text, isNegative text = negative → unsigned text = (scanNumeral negative rest).text →
        numeralKind pointed text = (scanNumeral negative rest).kind := by
  by_cases fraction : ∃ ds, rest.dropWhile Char.isDigit = '.' :: ds ∧
      ds.takeWhile Char.isDigit ≠ []
  · obtain ⟨ds, hds, some⟩ := fraction
    exact ⟨true, readDigits?_of_fraction fits negative whole hds some,
      fun _ => numeralKind_of_fraction hds some⟩
  · have integer : ∀ ds, rest.dropWhile Char.isDigit = '.' :: ds →
        ds.takeWhile Char.isDigit = [] :=
      fun ds hds => Classical.byContradiction fun some => fraction ⟨ds, hds, some⟩
    refine ⟨false, ?_, fun _ => numeralKind_of_integer integer⟩
    rw [readDigits?_takeWhile fits false whole (.inr integer), scanNumeral_of_integer integer]
    rfl

theorem readBehindSign?_between (negative : Bool) (sign : List Char) {before rest : List Char}
    (whole : before ++ (sign ++ rest) = source)
    (hsign : isNegative (sign ++ (scanNumeral negative rest).text) = negative)
    (body : unsigned (sign ++ (scanNumeral negative rest).text) =
      (scanNumeral negative rest).text) :
    (between source before (sign ++ rest)).readBehindSign? (between source (before ++ sign) rest) =
      some (past source (before ++ sign) (scanNumeral negative rest)) := by
  obtain ⟨pointed, read, kind⟩ :=
    readDigits?_between fits negative ((List.append_assoc _ _ _).trans whole)
  have cut : before ++ (sign ++ (scanNumeral negative rest).text ++
      (scanNumeral negative rest).rest) = source := by
    rw [List.append_assoc, scanNumeral_text_append_rest, whole]
  rw [readBehindSign?, read]
  simp only [Option.bind_eq_bind, Option.bind_some, past]
  rw [List.append_assoc before, textTo?_between cut, Option.bind_some, kind _ hsign body]

theorem readNumeral?_of_sign {before rest : List Char} {c : Char}
    (whole : before ++ c :: rest = source) (sign : c = '-' ∨ c = '+') :
    (between source before (c :: rest)).readNumeral? =
      some (past source before ((scanNumeral (c == '-') rest).cons c)) := by
  have read := readBehindSign?_between fits (c == '-') [c] whole
    (by rcases sign with rfl | rfl <;> rfl) (by rcases sign with rfl | rfl <;> rfl)
  have begun : (between source before (c :: rest)).readNumeral? =
      (between source before (c :: rest)).readBehindSign?
        (between source (before ++ [c]) rest) := by
    rcases sign with rfl | rfl <;>
      simp only [readNumeral?, between] <;> rw [← between, advance?_between fits whole] <;> rfl
  rw [begun]
  exact read.trans (congrArg some (past_cons _ _ _))

theorem readNumeral?_of_digit {before rest : List Char} {c : Char}
    (whole : before ++ c :: rest = source) (digit : c.isDigit = true) :
    (between source before (c :: rest)).readNumeral? =
      some (past source before (scanNumeral false (c :: rest))) := by
  have minus : c ≠ '-' := fun same => absurd (same ▸ digit) (by decide)
  have plus : c ≠ '+' := fun same => absurd (same ▸ digit) (by decide)
  have nonempty : (scanNumeral false (c :: rest)).text ≠ [] := by
    simp only [scanNumeral, List.takeWhile_cons, digit]
    split
    · split <;> simp
    · simp
  obtain ⟨text, htext⟩ : ∃ text, (scanNumeral false (c :: rest)).text = c :: text := by
    have cut := scanNumeral_text_append_rest false (c :: rest)
    obtain ⟨d, text, htext⟩ := List.exists_cons_of_ne_nil nonempty
    rw [htext] at cut
    exact ⟨text, (List.cons.inj cut).1 ▸ htext⟩
  have read := readBehindSign?_between fits false [] whole
    (by rw [htext]; simp [isNegative, minus]) (by rw [htext]; simp [unsigned, minus, plus])
  have begun : (between source before (c :: rest)).readNumeral? =
      (between source before (c :: rest)).readBehindSign? (between source before (c :: rest)) := by
    simp only [readNumeral?, between]
    split
    · rename_i same
      exact absurd (List.cons.inj same).1 minus
    · rename_i same
      exact absurd (List.cons.inj same).1 plus
    · rfl
  rw [List.append_nil] at read
  exact begun.trans read

/-- Each token is read as it is scanned. -/
theorem readToken?_between {before rest : List Char} {c : Char}
    (whole : before ++ c :: rest = source) :
    (between source before (c :: rest)).readToken? c rest =
      some (past source before (scan c rest)) := by
  have single := fun kind => readSingle?_between fits kind whole
  have whole' := (append_singleton_append _ _ _).trans whole
  unfold readToken?
  split
  · exact single _
  · exact single _
  · exact single _
  · exact single _
  · exact single _
  · exact single _
  · exact readComment?_between fits whole
  · rw [advance?_between fits whole]
    exact (readMark?_between fits whole').trans (congrArg some (past_cons _ _ _))
  · rw [advance?_between fits whole]
    simp only [Option.bind_eq_bind, Option.bind_some, readName?_between fits whole']
    exact congrArg some (past_cons before ':' (scanWhile canContinueSymbol keywordKind rest))
  · rw [advance?_between fits whole]
    exact (readString?_between fits [] whole').trans (congrArg some (past_cons _ _ _))
  · have other : scan c rest =
        if startsNumber c rest then
          if c.isDigit then scanNumeral false (c :: rest)
          else (scanNumeral (c == '-') rest).cons c
        else if canBeginSymbol c then scanWhile canContinueSymbol symbolKind (c :: rest)
        else ⟨.fault (.unexpectedCharacter c), [c], rest⟩ := by
      unfold scan
      split <;> first | rfl | contradiction
    rw [other]
    split
    · rename_i start
      split
      · rename_i digit
        exact readNumeral?_of_digit fits whole digit
      · rename_i digit
        exact readNumeral?_of_sign fits whole
          (sign_of_startsNumber start (Bool.eq_false_iff.2 digit))
    · split
      · simp only [readName?_between fits whole, Option.bind_eq_bind, Option.bind_some]
        rfl
      · exact single _

theorem lexFrom?_between {before rest : List Char} (whole : before ++ rest = source) :
    (between source before rest).lexFrom? = some (lexFrom (Position.start.after before) rest) := by
  induction h : rest.length using Nat.strongRecOn generalizing before rest with
  | _ n ih =>
    subst h
    have cut := List.takeWhile_append_dropWhile (p := isBlank) (l := rest)
    have blanks := lexFrom_blanks (Position.start.after before) (rest.takeWhile isBlank)
      (fun c hc => List.all_eq_true.1 List.all_takeWhile c hc) (rest.dropWhile isBlank)
    have short := (rest.dropWhile_suffix isBlank).length_le
    rw [cut, ← Position.after_append] at blanks
    rw [blanks]
    have skip := readWhile?_between fits isBlank whole
    -- What is behind the blanks is the end of the text, or the first character of a token.
    rcases hrest : rest.dropWhile isBlank with _ | ⟨c, cs⟩
    · rw [lexFrom_nil]
      exact lexFrom?_nil skip hrest
    · have other : isBlank c = false := by
        have first := List.head?_dropWhile_not isBlank rest
        rw [hrest] at first
        simpa using first
      rw [hrest] at cut short skip
      have whole' : before ++ rest.takeWhile isBlank ++ c :: cs = source := by
        rw [List.append_assoc, cut, whole]
      have whole'' : before ++ rest.takeWhile isBlank ++ (scan c cs).text ++ (scan c cs).rest =
          source := by
        rw [List.append_assoc, scan_text_append_rest, whole']
      have less : (scan c cs).rest.length < rest.length :=
        Nat.lt_of_lt_of_le (Nat.lt_succ_of_le (scan_rest_length_le c cs)) short
      rw [lexFrom_cons _ other, ← Position.after_append]
      exact lexFrom?_cons skip rfl (readToken?_between fits whole') less (ih _ less whole'' rfl)

end Between

/-- If lines and columns can be counted, every cut in dividing the text has a result. -/
theorem lex?_eq {source : List Char} (fits : CountsFit source) : lex? source = some (lex source) :=
  lexFrom?_between fits (List.nil_append source)

end Cursor

end ApiCatalog
