import ApiCatalog.Form.Token
import ApiCatalog.Text.Alphabetic
import ApiCatalog.Text.Blank

/-!
# Dividing a text into tokens

Blanks separate tokens and are dropped. The first character of a token decides what it is,
and the token reaches as far as its kind allows; a fault in it ends it early and is itself
a token, so every text can be divided.

Main statements: `scan_text_append_rest`, a token and what follows it make up the text;
`scan_text_ne_nil`, no token is empty.
-/

namespace ApiCatalog

/-! ### Symbol characters -/

/-- The characters other than letters that a symbol can begin with. -/
def symbolMarks : List Char :=
  ['_', '+', '-', '*', '/', '!', '?', '<', '>', '=', '&', '%', '$', '^']

/-- Whether a symbol can begin with the character. -/
def canBeginSymbol (c : Char) : Bool := isAlphabetic c || symbolMarks.contains c

/-- Whether a symbol can go on with the character. -/
def canContinueSymbol (c : Char) : Bool := canBeginSymbol c || c.isDigit || c == '.' || c == ':'

/-! ### One token -/

/-- A token found at the head of a text: its kind, its text, and what follows it. -/
structure Scanned where
  kind : TokenKind
  text : List Char
  rest : List Char

/-- The longest start of a text whose characters are all in a class, and what follows it. -/
def scanWhile (p : Char → Bool) (kind : List Char → TokenKind) (cs : List Char) : Scanned :=
  ⟨kind (cs.takeWhile p), cs.takeWhile p, cs.dropWhile p⟩

/-- The scanned token with another character in front. -/
def Scanned.cons (c : Char) (s : Scanned) : Scanned := { s with text := c :: s.text }

/-- The character that an escape stands for. -/
def unescape : Char → Option Char
  | 'n' => some '\n'
  | 'r' => some '\r'
  | 't' => some '\t'
  | '\\' => some '\\'
  | '"' => some '"'
  | _ => none

/-- The string whose opening quotation mark comes before the text; `read` holds the characters
read so far, the latest first. A fault in an escape ends the token before the character that
is at fault. -/
def scanQuoted (read : List Char) : List Char → Scanned
  | [] => ⟨.fault .unterminatedString, [], []⟩
  | '"' :: rest => ⟨.atom (.string (String.ofList read.reverse)), ['"'], rest⟩
  | ['\\'] => ⟨.fault .unfinishedEscape, ['\\'], []⟩
  | '\\' :: c :: rest =>
    match unescape c with
    | some d => ((scanQuoted (d :: read) rest).cons c).cons '\\'
    | none => ⟨.fault (.unknownEscape c), ['\\'], c :: rest⟩
  | c :: rest => (scanQuoted (c :: read) rest).cons c

/-- The number with the given sign whose digits the text begins with. A point belongs to the
number only if a digit follows it. -/
def scanNumeral (negative : Bool) (cs : List Char) : Scanned :=
  let whole := cs.takeWhile Char.isDigit
  let rest := cs.dropWhile Char.isDigit
  let integer : Scanned :=
    ⟨match Integer.read negative whole with
      | .ok n => .atom (.int n)
      | .error overflow => .fault (.integerOverflow overflow), whole, rest⟩
  match rest with
  | '.' :: more =>
    match more.takeWhile Char.isDigit with
    | [] => integer
    | fraction =>
      ⟨.atom (.float (.read negative whole fraction)), whole ++ '.' :: fraction,
        more.dropWhile Char.isDigit⟩
  | _ => integer

/-- The symbol or truth value with the given text. -/
def symbolKind (name : List Char) : TokenKind :=
  if name = "true".toList then .atom (.bool true)
  else if name = "false".toList then .atom (.bool false)
  else .atom (.symbol (String.ofList name))

/-- The keyword with the given text behind its colon. -/
def keywordKind (name : List Char) : TokenKind :=
  if name = [] then .fault .namelessKeyword else .atom (.keyword (String.ofList name))

/-- What follows the mark `#`. -/
def scanMark : List Char → Scanned
  | [] => ⟨.fault .unfinishedMark, [], []⟩
  | '_' :: rest => ⟨.discard, ['_'], rest⟩
  | c :: rest => ⟨.fault (.unknownMark c), [c], rest⟩

/-- Whether a number begins with the character, given what follows it. -/
def startsNumber (c : Char) (cs : List Char) : Bool :=
  c.isDigit || ((c == '-' || c == '+') && cs.head?.any Char.isDigit)

/-- The token that begins with the character `c` before the text `cs`. -/
def scan (c : Char) (cs : List Char) : Scanned :=
  match c with
  | '(' => ⟨.opening .round, [c], cs⟩
  | ')' => ⟨.closing .round, [c], cs⟩
  | '[' => ⟨.opening .square, [c], cs⟩
  | ']' => ⟨.closing .square, [c], cs⟩
  | '\x7b' => ⟨.opening .curly, [c], cs⟩
  | '\x7d' => ⟨.closing .curly, [c], cs⟩
  | ';' => (scanWhile (· ≠ '\n') (fun text => .comment (String.ofList (c :: text))) cs).cons c
  | '#' => (scanMark cs).cons c
  | ':' => (scanWhile canContinueSymbol keywordKind cs).cons c
  | '"' => (scanQuoted [] cs).cons c
  | _ =>
    if startsNumber c cs then
      if c.isDigit then scanNumeral false (c :: cs) else (scanNumeral (c == '-') cs).cons c
    else if canBeginSymbol c then scanWhile canContinueSymbol symbolKind (c :: cs)
    else ⟨.fault (.unexpectedCharacter c), [c], cs⟩

/-! ### A token and what follows it make up the text -/

theorem scanWhile_text_append_rest (p : Char → Bool) (kind : List Char → TokenKind)
    (cs : List Char) : (scanWhile p kind cs).text ++ (scanWhile p kind cs).rest = cs :=
  List.takeWhile_append_dropWhile

theorem scanQuoted_text_append_rest (read cs : List Char) :
    (scanQuoted read cs).text ++ (scanQuoted read cs).rest = cs := by
  fun_induction scanQuoted read cs <;> simp_all [Scanned.cons]

theorem scanNumeral_text_append_rest (negative : Bool) (cs : List Char) :
    (scanNumeral negative cs).text ++ (scanNumeral negative cs).rest = cs := by
  have whole := List.takeWhile_append_dropWhile (p := Char.isDigit) (l := cs)
  simp only [scanNumeral]
  split
  · rename_i more h
    have fraction := List.takeWhile_append_dropWhile (p := Char.isDigit) (l := more)
    split
    · exact whole
    · simp only [List.append_assoc, List.cons_append, fraction]
      rw [← h]
      exact whole
  · exact whole

theorem scanMark_text_append_rest (cs : List Char) :
    (scanMark cs).text ++ (scanMark cs).rest = cs := by
  unfold scanMark
  split <;> rfl

theorem scan_text_append_rest (c : Char) (cs : List Char) :
    (scan c cs).text ++ (scan c cs).rest = c :: cs := by
  have comment := scanWhile_text_append_rest (· ≠ '\n')
    (fun text => .comment (String.ofList (c :: text))) cs
  unfold scan
  split <;> try rfl
  · simpa [Scanned.cons] using comment
  · simpa [Scanned.cons] using scanMark_text_append_rest cs
  · simpa [Scanned.cons] using scanWhile_text_append_rest canContinueSymbol keywordKind cs
  · simpa [Scanned.cons] using scanQuoted_text_append_rest [] cs
  · split
    · split
      · exact scanNumeral_text_append_rest false (c :: cs)
      · simpa [Scanned.cons] using scanNumeral_text_append_rest (c == '-') cs
    · split
      · exact scanWhile_text_append_rest canContinueSymbol symbolKind (c :: cs)
      · rfl

theorem scan_text_ne_nil (c : Char) (cs : List Char) : (scan c cs).text ≠ [] := by
  unfold scan
  split <;> try simp [Scanned.cons]
  split
  · split
    · rename_i digit
      simp only [scanNumeral]
      split
      · split <;> simp [digit]
      · simp [digit]
    · simp
  · split
    · rename_i start
      simp [scanWhile, canContinueSymbol, start]
    · simp

theorem scan_rest_length_le (c : Char) (cs : List Char) :
    (scan c cs).rest.length ≤ cs.length := by
  have whole := congrArg List.length (scan_text_append_rest c cs)
  have some := List.length_pos_iff.2 (scan_text_ne_nil c cs)
  simp at whole
  omega

/-! ### All tokens -/

/-- The tokens of a text, and the empty span at its end. -/
structure Lexed where
  tokens : List Token
  stop : Span
  deriving DecidableEq

/-- The tokens of what follows a position. -/
def lexFrom (p : Position) (cs : List Char) : Lexed :=
  let q := p.after (cs.takeWhile isBlank)
  match h : cs.dropWhile isBlank with
  | [] => ⟨[], .between q q⟩
  | c :: rest =>
    have : (scan c rest).rest.length < cs.length := by
      have blanks := (List.dropWhile_suffix isBlank (l := cs)).length_le
      have less := scan_rest_length_le c rest
      rw [h, List.length_cons] at blanks
      omega
    let found := scan c rest
    let next := q.after found.text
    let more := lexFrom next found.rest
    ⟨⟨found.kind, .between q next⟩ :: more.tokens, more.stop⟩
termination_by cs.length

/-- The tokens of a text. -/
def lex (source : List Char) : Lexed := lexFrom .start source

end ApiCatalog
