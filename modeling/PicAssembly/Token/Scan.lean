import PicAssembly.Diagnostic
import PicAssembly.Text.Blank

/-!
# `PicAssembly.Token.Scan`: cutting a line into tokens

A `Scanner` is a place in a line. `Scanner.next` skips blanks and gives the next
token with the place after it; `Scanner.run` does so until the end of the line
or the first fault.

What a token is depends only on the characters from its start and on one fact
about those before it: whether they are all blank. If they are, a `#` opens a
pragma, which runs to the first semicolon; anywhere else it is an operator. So
`lexeme` reads one token off a list of characters, and the scanner adds the
columns.

Where several operators begin alike the longest one is taken.
-/

set_option autoImplicit false

namespace PicAssembly

namespace Token

/-- The blanks between tokens. -/
def isSeparator (c : Char) : Bool := c == ' ' || c == '\t' || c == '\r' || c == '\n'

/-- Whether a name can begin with the character. -/
def isIdentifierStart (c : Char) : Bool := c.isAlpha || c == '_'

/-- Whether a name can go on with the character. -/
def isIdentifierPart (c : Char) : Bool := c.isAlphanum || c == '_'

/-- The letters that open a quoted literal when a quote follows at once. -/
def isRadixLetter (c : Char) : Bool := "BDHOA".toList.contains c.toUpper

/-- The characters after the first of an unquoted number. Lower-case letters are
among them, so that a device name such as `16f1939` is one token. -/
def isRunPart (c : Char) : Bool :=
  c.isDigit || c.isLower || c == '.' || ('A' ≤ c && c ≤ 'F')

/-- Whether a character is a digit of the quoted literal that `letter` opens. -/
def isQuotedDigit (letter c : Char) : Bool :=
  if letter.toUpper = 'B' then c == '0' || c == '1'
  else if letter.toUpper = 'O' then '0' ≤ c && c ≤ '7'
  else if letter.toUpper = 'D' then c.isDigit
  else if letter.toUpper = 'H' then c.isDigit || ('A' ≤ c.toUpper && c.toUpper ≤ 'F')
  else false

/-- The kind of an operator written in one to three characters. -/
def operatorKind? : Text → Option Kind
  | ['<', '<', '='] => some (.assign .leftShift)
  | ['>', '>', '='] => some (.assign .rightShift)
  | ['=', '='] => some (.binary .equalTo)
  | ['!', '='] => some (.binary .notEqualTo)
  | ['<', '='] => some (.binary .lessThanEqual)
  | ['>', '='] => some (.binary .greaterThanEqual)
  | ['<', '<'] => some (.binary .leftShift)
  | ['>', '>'] => some (.binary .rightShift)
  | ['&', '&'] => some (.binary .logicalAnd)
  | ['|', '|'] => some (.binary .logicalOr)
  | ['+', '+'] => some (.step .increment)
  | ['-', '-'] => some (.step .decrement)
  | ['+', '='] => some (.assign .add)
  | ['-', '='] => some (.assign .subtract)
  | ['*', '='] => some (.assign .multiply)
  | ['/', '='] => some (.assign .divide)
  | ['%', '='] => some (.assign .modulus)
  | ['&', '='] => some (.assign .bitAnd)
  | ['|', '='] => some (.assign .bitOr)
  | ['^', '='] => some (.assign .bitXor)
  | ['+'] => some (.binary .add)
  | ['-'] => some (.binary .subtract)
  | ['*'] => some (.binary .multiply)
  | ['/'] => some (.binary .divide)
  | ['%'] => some (.binary .modulus)
  | ['<'] => some (.binary .lessThan)
  | ['>'] => some (.binary .greaterThan)
  | ['&'] => some (.binary .bitAnd)
  | ['|'] => some (.binary .bitOr)
  | ['^'] => some (.binary .bitXor)
  | ['~'] => some .complement
  | ['!'] => some .not
  | ['='] => some (.assign .assign)
  | _ => none

/-- A fault inside a token: how far from its start, and why. -/
structure Fault where
  offset : Nat
  cause : LexCause
  deriving DecidableEq, Repr

/-- The kind of a token and how many characters it covers. -/
abbrev Extent := Kind × Nat

/-- The end of a quoted literal of which `length` characters are read. -/
def closeQuote (what : Literal) (length : Nat) : Text → Except Fault Extent
  | '\'' :: _ => .ok (.number, length + 1)
  | c :: _ => .error ⟨length, .strayIn c what⟩
  | [] => .error ⟨0, .unterminated what none⟩

/-- A string, after its opening quote. -/
def stringExtent (rest : Text) : Except Fault Extent :=
  let body := rest.takeWhile (· != '"')
  if body.length = rest.length then .error ⟨0, .unterminated .string (some '"')⟩
  else .ok (.string, body.length + 2)

/-- A character between quotes, after the opening one. -/
def characterExtent : Text → Except Fault Extent
  | [] => .error ⟨0, .unterminated .character (some '\'')⟩
  | _ :: rest => closeQuote .character 2 rest

/-- A quoted number, after its letter and the opening quote. The letter A opens
the code of a single character, any other a run of digits. -/
def quotedExtent (letter : Char) (rest : Text) : Except Fault Extent :=
  if letter.toUpper = 'A' then
    match rest with
    | [] => .error ⟨0, .unterminated .character (some letter)⟩
    | _ :: rest => closeQuote .numeric 3 rest
  else
    let digits := rest.takeWhile (isQuotedDigit letter)
    closeQuote .numeric (digits.length + 2) (rest.drop digits.length)

/-- An unquoted number, after its first character. It is a device name if a
lower-case letter follows, unless it has fewer than five characters and does not
begin with `1`. -/
def runExtent (first : Char) (rest : Text) : Extent :=
  let run := rest.takeWhile isRunPart
  let isDevice := run.any Char.isLower && (4 ≤ run.length || first == '1')
  (if isDevice then .chipId else .number, run.length + 1)

/-- The longest operator that a text begins with. -/
def operatorExtent? (t : Text) : Option Extent :=
  ([t.take 3, t.take 2, t.take 1]).findSome? fun lexeme =>
    (operatorKind? lexeme).map (·, lexeme.length)

/-- The token that begins with the character `c` and goes on in `rest`. `fresh`
tells that only blanks precede it on its line. -/
def extent (fresh : Bool) (c : Char) (rest : Text) : Except Fault Extent :=
  if c = ';' then .ok (.comment, rest.length + 1)
  else if c = '#' then
    if fresh then .ok (.pragma, (rest.takeWhile (· != ';')).length + 1) else .ok (.pound, 1)
  else if c = '"' then stringExtent rest
  else if c = '\'' then characterExtent rest
  else if c = '$' then .ok (.programCounter, 1)
  else if c = ',' then .ok (.comma, 1)
  else if c = ':' then .ok (.colon, 1)
  else if c = '(' then .ok (.openParen, 1)
  else if c = ')' then .ok (.closeParen, 1)
  else if isRadixLetter c && rest.head? == some '\'' then quotedExtent c (rest.drop 1)
  else if isIdentifierStart c then
    .ok (.identifier, (rest.takeWhile isIdentifierPart).length + 1)
  else if c.isDigit || c == '.' then .ok (runExtent c rest)
  else match operatorExtent? (c :: rest) with
    | some found => .ok found
    | none => .error ⟨0, .stray c⟩

/-- The text of a token of a kind from the characters it covers: a pragma is
trimmed at its end. -/
def textOf (kind : Kind) (covered : Text) : Text :=
  if kind = .pragma then Text.trimEnd covered else covered

end Token

/-- A place in a line from which tokens are read. -/
structure Scanner where
  /-- The whole line. -/
  source : Text
  /-- The index of the line, counted from zero. -/
  line : Nat
  /-- How many characters of the line precede the place. -/
  column : Nat
  /-- Whether only blanks precede the place. -/
  fresh : Bool
  /-- The characters from the place to the end of what is read. -/
  rest : Text
  deriving DecidableEq, Repr

namespace Scanner

/-- The start of a line. -/
def ofLine (source : Text) (line : Nat) : Scanner := ⟨source, line, 0, true, source⟩

/-- The characters from `start` to before `stop` of a line, as far as the line
has them. Columns stay those of the whole line, and what precedes `start` counts
when it is asked whether only blanks precede a place. -/
def within (source : Text) (line start stop : Nat) : Scanner :=
  let stop := min stop source.length
  let start := min start stop
  ⟨source, line, start, (source.take start).all Token.isSeparator,
    (source.take stop).drop start⟩

/-- The place behind the blanks at this one. -/
def skipBlanks (s : Scanner) : Scanner :=
  let blanks := s.rest.takeWhile Token.isSeparator
  { s with column := s.column + blanks.length, rest := s.rest.drop blanks.length }

/-- A fault at some distance from this place. -/
def fault (s : Scanner) (f : Token.Fault) : LexError :=
  ⟨s.line + 1, s.column + f.offset, f.cause, s.source⟩

/-- The token at this place, which is not blank, and the place after it. At the
end of the line that is the token `eof`, with no text. -/
def take (s : Scanner) : Except LexError (Token × Scanner) :=
  match s.rest with
  | [] => .ok (⟨.eof, [], s.line, s.column⟩, s)
  | c :: cs =>
    match Token.extent s.fresh c cs with
    | .error f => .error (s.fault f)
    | .ok (kind, length) =>
      .ok (⟨kind, Token.textOf kind ((c :: cs).take length), s.line, s.column⟩,
        { s with column := s.column + length, fresh := false, rest := (c :: cs).drop length })

/-- The next token, and the place after it. -/
def next (s : Scanner) : Except LexError (Token × Scanner) := s.skipBlanks.take

/-- Reads tokens until the line ends, with the token `eof`, or a fault stops the
reading. The first argument bounds how many tokens are read before the end. -/
def runFor : Nat → Scanner → List Token × Except LexError Token
  | steps, s =>
    match s.next with
    | .error e => ([], .error e)
    | .ok (token, after) =>
      match token.kind, steps with
      | .eof, _ => ([], .ok token)
      | _, 0 => ([], .ok token)
      | _, steps + 1 =>
        let (tokens, outcome) := runFor steps after
        (token :: tokens, outcome)

/-- The tokens from this place on, and how the reading ended. Every token covers
at least one character, so there are no more tokens than characters. -/
def run (s : Scanner) : List Token × Except LexError Token := runFor s.rest.length s

end Scanner

end PicAssembly
