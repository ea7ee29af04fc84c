import PicAssembly.Token.Scan

/-!
# `PicAssembly.Token.Cursor`: the tokens of a line, read from the front

A cursor holds the tokens of a line that are still to be read, and what is
needed to complain about one of them. Reading past the last token gives the
token `eof` again and again.
-/

set_option autoImplicit false

namespace PicAssembly

/-- The tokens to come, the token at the end of the line, and the line. -/
structure Cursor where
  rest : List Token
  eof : Token
  source : Text
  line : Nat
  deriving DecidableEq, Repr

namespace Cursor

/-- All tokens of what a scanner still has to read. -/
def ofScanner (s : Scanner) : Except LexError Cursor :=
  let (tokens, outcome) := s.run
  match outcome with
  | .ok eof => .ok ⟨tokens, eof, s.source, s.line⟩
  | .error e => .error e

/-- The token `offset` places ahead. -/
def peek (c : Cursor) (offset : Nat) : Token := c.rest.getD offset c.eof

/-- The kind of the token to read next. -/
def kind (c : Cursor) : Token.Kind := (c.peek 0).kind

/-- The cursor behind the token to read next. -/
def consume (c : Cursor) : Cursor := { c with rest := c.rest.tail }

/-- The token to read next, and the cursor behind it. -/
def advance (c : Cursor) : Token × Cursor := (c.peek 0, c.consume)

/-- Whether only the end of the line is left. -/
def atEnd (c : Cursor) : Bool := c.kind == .eof

/-- A complaint about a token. -/
def errorAt (c : Cursor) (token : Token) (cause : ParseCause) : ParseError :=
  ⟨c.line + 1, token.column, cause, c.source⟩

/-- A complaint about the token to read next. -/
def error (c : Cursor) (cause : ParseCause) : ParseError := c.errorAt (c.peek 0) cause

/-- Reads a token of the wanted kind. -/
def expect (c : Cursor) (wanted : Token.Kind) : Except ParseError (Token × Cursor) :=
  if c.kind = wanted then .ok c.advance else .error (c.error (.expected wanted c.kind))

end Cursor

end PicAssembly
