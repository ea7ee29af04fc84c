import PicAssembly.Operand.Parser
import PicAssembly.Line.Basic

/-!
# `PicAssembly.Line.Parser`: reading a line

A line is cut into tokens and told apart by the first of them. The value of a
definition was cut out as part of a directive, so its part of the line is
scanned once more, and its columns are those of the whole line.

There is no recovery: the first fault on a line is the answer.
-/

set_option autoImplicit false

namespace PicAssembly

namespace Cursor

/-- A comment, without its semicolons and the blanks around it, and then the end
of the line. A comment with nothing in it counts as none. -/
def comment (c : Cursor) : Except ParseError (Option Text) := do
  if c.kind = .comment then
    let text := Text.trim ((c.peek 0).text.dropWhile (· == ';'))
    c.consume.endOfLine
    return if text.isEmpty then none else some text
  else
    c.endOfLine
    return none

/-- A statement. An identifier in column zero is its label, which a colon may
follow; the next identifier is its mnemonic. -/
def statement (c : Cursor) : Except ParseError Statement := do
  let (label, c) :=
    if c.kind = .identifier ∧ (c.peek 0).column = 0 then
      let after := c.consume
      (some (c.peek 0).text, if after.kind = .colon then after.consume else after)
    else (none, c)
  let (mnemonic, c) :=
    if c.kind = .identifier then (some (c.peek 0).text, c.consume) else (none, c)
  let (operands, c) ← c.operands
  let comment ← c.comment
  return ⟨label, mnemonic, operands, comment⟩

/-- The name and the operands of a definition. -/
def definitionBody (c : Cursor) : Except ParseError (Text × List Operand) := do
  let (name, c) ← c.expect .identifier
  let (operands, c) ← c.operands
  c.endOfLine
  return (name.text, operands)

/-- The line that begins with the directive `token`, which `c` is behind. -/
def directive (c : Cursor) (token : Token) : Except Error Line := do
  let word := token.text.takeWhile fun ch => !Text.isBlank ch
  if Text.sameIgnoringCase word "#define".toList then
    let start := token.column + word.length
    let stop := token.column + token.text.length
    let body ← (ofScanner (Scanner.within c.source c.line start stop)).mapError .lex
    let (name, operands) ← body.definitionBody.mapError .parse
    let comment ← c.comment.mapError .parse
    return .definition ⟨name, operands, comment⟩
  else
    let comment ← c.comment.mapError .parse
    return .directive ⟨word, Text.trim (token.text.drop word.length), comment⟩

end Cursor

namespace Line

/-- Reads the line with this index, counted from zero. -/
def parse (text : Text) (index : Nat) : Except Error Line := do
  let c ← (Cursor.ofScanner (Scanner.ofLine text index)).mapError .lex
  if c.kind = .pragma then c.consume.directive (c.peek 0)
  else
    let s ← c.statement.mapError .parse
    return .statement s

end Line

end PicAssembly
