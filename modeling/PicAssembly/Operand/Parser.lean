import PicAssembly.Token.Cursor
import PicAssembly.Operand.Basic
import PicAssembly.Text.Numeral

/-!
# `PicAssembly.Operand.Parser`: reading operands by operator precedence

An expression is a first operand and then, for as long as the operator ahead
binds at least as tightly as the caller asks, that operator and its right side.
`primary` reads the first operand, `climb` the rest.

Both are given the reader of the expressions inside, so the three layers are
plain recursions, each on a number. That number is how many tokens are left: an
inner expression starts behind at least one token, and every turn of a loop
takes one. With no token left a reading that needs one fails at the end of the
line, which is also what the recursions answer when the number is zero.
-/

set_option autoImplicit false

namespace PicAssembly

namespace Operand

/-- What spells the value of a number: a character, by its code, or a run that begins
with digits of a radix. -/
inductive NumberForm where
  | code (value : Nat)
  | digits (radix : Radix) (run : Text)
  deriving DecidableEq, Repr

/-- What spells the value of a number. A quoted literal names its radix by a letter,
where A stands for the code of a character; a number after a point is decimal; any
other is hexadecimal, with or without `0x`. -/
def numberForm (literal : Text) : NumberForm :=
  match literal with
  | letter :: '\'' :: body :: more =>
    if Token.isRadixLetter letter then
      let digits := (body :: more).dropLast
      match letter.toUpper with
      | 'A' => .code ((digits.head?.map Char.toNat).getD 0)
      | 'B' => .digits .binary digits
      | 'O' => .digits .octal digits
      | 'D' => .digits .decimal digits
      | _ => .digits .hexadecimal digits
    else .digits .hexadecimal literal
  | '.' :: digits => .digits .decimal digits
  | '0' :: 'x' :: digits => .digits .hexadecimal digits
  | digits => .digits .hexadecimal digits

/-- The radix and the magnitude of a number as it is spelled, however large it is. Only
the leading digits count. -/
def decode (literal : Text) : Radix × Nat :=
  match numberForm literal with
  | .code value => (.decimal, value)
  | .digits radix run => (radix, Numeral.leadingValue radix.base run)

/-- The radix and the magnitude of a number as it is spelled, if it fits in 64 bits. -/
def decode? (literal : Text) : Option (Radix × Nat) :=
  match numberForm literal with
  | .code value => some (.decimal, value)
  | .digits radix run => (Numeral.leadingWord? radix.base run).map (radix, ·)

/-- The prefix operator that a token stands for at the start of an operand. A
step operator takes an expression there, a keyword is told by its spelling, and
a minus sign negates. -/
def prefixOp? (token : Token) : Option UnaryOp :=
  match token.kind with
  | .identifier => UnaryOp.keyword? token.text
  | .complement => some .complement
  | .not => some .not
  | .binary .subtract => some .negate
  | .step op => some (.step op)
  | _ => none

end Operand

namespace Cursor

/-- A reader of expressions of operators binding at a given power or more. It
gives the expression and the cursor behind it. -/
abbrev InnerReader := (least : Nat) → Cursor → Except ParseError (Operand × Cursor)

/-- A number token as an operand. A single character in quotes is text. -/
def number (c : Cursor) (token : Token) : Except ParseError Operand :=
  if token.text.head? = some '\'' then .ok (.string token.text)
  else
    match Operand.decode? token.text with
    | some (radix, value) => .ok (.number value radix token.text)
    | none => .error (c.errorAt token (.numberTooLarge token.text))

/-- The first operand of an expression. `inner` reads the expressions in it. -/
def primary (inner : InnerReader) (c : Cursor) : Except ParseError (Operand × Cursor) :=
  let token := c.peek 0
  let after := c.consume
  match Operand.prefixOp? token with
  | some op => do
    let (operand, after) ← inner op.operandPower after
    return (.unary op token.text operand, after)
  | none =>
    match token.kind with
    | .number => do
      let operand ← after.number token
      return (operand, after)
    | .string => .ok (.string token.text, after)
    | .chipId => .ok (.chipId token.text, after)
    | .programCounter => .ok (.programCounter, after)
    | .identifier => .ok (.identifier token.text, after)
    | .pound => do
      let (name, after) ← after.expect .identifier
      return (.unary .pound token.text (.identifier name.text), after)
    | .openParen => do
      let (operand, after) ← inner 0 after
      let (_, after) ← after.expect .closeParen
      return (operand, after)
    | found => .error (after.errorAt token (.unexpected found))

/-- The arguments of a call up to its closing parenthesis, at least one. -/
def argumentsFrom (inner : InnerReader) :
    (steps : Nat) → Cursor → Except ParseError (List Operand × Cursor)
  | 0, c => .error (c.error (.unexpected c.kind))
  | steps + 1, c => do
    let (arg, c) ← inner 0 c
    match c.kind with
    | .comma => do
      let (args, c) ← argumentsFrom inner steps c.consume
      return (arg :: args, c)
    | .closeParen => return ([arg], c.consume)
    | found => .error (c.error (.argumentEnd found))

/-- The arguments of a call, behind its opening parenthesis. -/
def arguments (inner : InnerReader) (c : Cursor) :
    Except ParseError (List Operand × Cursor) :=
  if c.kind = .closeParen then .ok ([], c.consume) else argumentsFrom inner c.rest.length c

/-- The rest of an expression that begins with the operand `left`: operators
binding at `least` or more, with their right sides. Any other token is left
alone. Only an identifier can stand before an opening parenthesis. -/
def climb (inner : InnerReader) :
    (steps : Nat) → (least : Nat) → (left : Operand) → Cursor →
      Except ParseError (Operand × Cursor)
  | 0, _, left, c => .ok (left, c)
  | steps + 1, least, left, c =>
    match c.kind with
    | .step op =>
      if Power.postfixed < least then .ok (left, c)
      else climb inner steps least (.stepped op left) c.consume
    | .openParen =>
      if left.name?.isNone then .error (c.error .notCallable)
      else do
        let (args, c) ← arguments inner c.consume
        climb inner steps least (.call left args) c
    | .assign op =>
      if Power.assignment < least then .ok (left, c)
      else do
        let (right, c) ← inner Power.assignment c.consume
        climb inner steps least (.assign op left right) c
    | .binary op =>
      if op.power < least then .ok (left, c)
      else do
        let (right, c) ← inner (op.power + 1) c.consume
        climb inner steps least (.binary op left right) c
    | _ => .ok (left, c)

/-- An expression of operators binding at `least` or more, with expressions in
it at most `depth` deep. -/
def expressionWithin : (depth : Nat) → (least : Nat) → Cursor →
    Except ParseError (Operand × Cursor)
  | 0, _, c => .error (c.error (.unexpected c.kind))
  | depth + 1, least, c => do
    let (left, c) ← primary (expressionWithin depth) c
    climb (expressionWithin depth) c.rest.length least left c

/-- An expression of operators binding at `least` or more. -/
def expression (least : Nat) (c : Cursor) : Except ParseError (Operand × Cursor) :=
  expressionWithin c.rest.length least c

/-- Refuses anything but the end of the line. -/
def endOfLine (c : Cursor) : Except ParseError Unit :=
  if c.atEnd then .ok () else .error (c.error (.trailing c.kind))

/-- At most `steps` operands, up to a comment or the end of the line. A comma
behind an operand is skipped. -/
def operandsWithin : (steps : Nat) → Cursor → Except ParseError (List Operand × Cursor)
  | 0, c => .ok ([], c)
  | steps + 1, c =>
    if c.kind = .comment ∨ c.kind = .eof then .ok ([], c)
    else do
      let (operand, c) ← c.expression 0
      let (operands, c) ← operandsWithin steps (if c.kind = .comma then c.consume else c)
      return (operand :: operands, c)

/-- The operands up to a comment or the end of the line. -/
def operands (c : Cursor) : Except ParseError (List Operand × Cursor) :=
  operandsWithin c.rest.length c

end Cursor

namespace Operand

/-- Reads one operand that takes up the whole text. -/
def parse (text : Text) : Except Error Operand := do
  let c ← (Cursor.ofScanner (Scanner.ofLine text 0)).mapError .lex
  let (operand, c) ← (c.expression 0).mapError .parse
  c.endOfLine.mapError .parse
  return operand

end Operand

end PicAssembly
