import PicAssembly.Token.Basic
import PicAssembly.Text.Numeral

/-!
# `PicAssembly.Diagnostic`: what is wrong with a line, and where

A diagnostic carries a cause, the number of the line, the column of the
offending character or token, and the line itself, so that it can be shown with
a caret under the fault without access to the file. The scanner's causes and the
reader's are two types; `Error` is either.
-/

set_option autoImplicit false

namespace PicAssembly

/-- A fault in one line. Lines are counted from one, columns from zero. -/
structure Diagnostic (Cause : Type) where
  line : Nat
  column : Nat
  cause : Cause
  source : Text
  deriving DecidableEq, Repr

/-- The literals that have an end of their own. -/
inductive Literal where
  | string | character | numeric
  deriving DecidableEq, Repr

namespace Literal

/-- The name of the literal in the messages on faults. -/
def describe : Literal → Text
  | .string => "string literal".toList
  | .character => "character literal".toList
  | .numeric => "numeric literal".toList

end Literal

/-- Why a line cannot be cut into tokens. -/
inductive LexCause where
  /-- The line ends inside a literal. `opening` is the character that opened it,
  unless the literal only lacks its closing quote. -/
  | unterminated (what : Literal) (opening : Option Char)
  /-- A character that no token begins with. -/
  | stray (found : Char)
  /-- A character in a quoted literal where its closing quote should be. -/
  | strayIn (found : Char) (what : Literal)
  deriving DecidableEq, Repr

namespace LexCause

/-- The character that the cause is about. -/
def character? : LexCause → Option Char
  | .unterminated _ opening => opening
  | .stray found => some found
  | .strayIn found _ => some found

/-- The words of the fault, without its place. -/
def message : LexCause → Text
  | .unterminated what _ => "unterminated ".toList ++ what.describe
  | .stray found => "unexpected character '".toList ++ [found, '\'']
  | .strayIn found what =>
    "unexpected character '".toList ++ [found, '\''] ++ " in ".toList ++ what.describe

end LexCause

/-- Why the tokens of a line do not make up a line of assembly. -/
inductive ParseCause where
  /-- A token that no operand begins with. -/
  | unexpected (found : Token.Kind)
  /-- One kind of token was wanted and another found. -/
  | expected (wanted found : Token.Kind)
  /-- An operand before an opening parenthesis that is not an identifier. -/
  | notCallable
  /-- An argument that neither a comma nor a closing parenthesis follows. -/
  | argumentEnd (found : Token.Kind)
  /-- A number of `Numeral.limit` or more. -/
  | numberTooLarge (literal : Text)
  /-- Something after the last thing a line can hold. -/
  | trailing (found : Token.Kind)
  /-- A complaint in the caller's own words. -/
  | remark (text : Text)
  deriving DecidableEq, Repr

namespace ParseCause

/-- The words of the fault, without its place. -/
def message : ParseCause → Text
  | .unexpected found => "unexpected ".toList ++ found.describe
  | .expected wanted found =>
    "expected ".toList ++ wanted.describe ++ " but found ".toList ++ found.describe
  | .notCallable => "only an identifier can be called".toList
  | .argumentEnd found =>
    "expected ',' or ')' in argument list but found ".toList ++ found.describe
  | .numberTooLarge literal =>
    "numeric literal ".toList ++ literal ++ " does not fit in 64 bits".toList
  | .trailing found => "expected end of line but found ".toList ++ found.describe
  | .remark text => text

end ParseCause

/-- A fault of the scanner. -/
abbrev LexError := Diagnostic LexCause

/-- A fault of the parser, where the scanner had none. -/
abbrev ParseError := Diagnostic ParseCause

/-- Any fault in a line. -/
inductive Error where
  | lex (error : LexError)
  | parse (error : ParseError)
  deriving DecidableEq, Repr

namespace Diagnostic

/-- Blanks as wide as the first `column` characters of a line. A tab stays a
tab, so that a caret after the padding stands under the right character. -/
def padding (source : Text) (column : Nat) : Text :=
  (source.take column).map fun c => if c = '\t' then '\t' else ' '

/-- The line without its carriage returns and line feeds at the end. -/
def shownSource (source : Text) : Text :=
  (source.reverse.dropWhile fun c => c == '\r' || c == '\n').reverse

/-- The fault in full: what and where, the line, and a caret under the column. -/
def render {Cause : Type} (name : Text) (message : Cause → Text) (d : Diagnostic Cause) : Text :=
  name ++ " error on line ".toList ++ Numeral.decimal d.line ++ ", column ".toList ++
    Numeral.decimal (d.column + 1) ++ ": ".toList ++ message d.cause ++
    '\n' :: shownSource d.source ++ '\n' :: padding d.source d.column ++ ['^']

end Diagnostic

namespace Error

/-- The line of the fault, counted from one. -/
def line : Error → Nat
  | .lex e => e.line
  | .parse e => e.line

/-- The column of the fault, counted from zero. -/
def column : Error → Nat
  | .lex e => e.column
  | .parse e => e.column

/-- The line of source text that the fault is about. -/
def source : Error → Text
  | .lex e => e.source
  | .parse e => e.source

/-- What is wrong, without the place. -/
def message : Error → Text
  | .lex e => e.cause.message
  | .parse e => e.cause.message

/-- The fault in full. -/
def render : Error → Text
  | .lex e => e.render "lex".toList LexCause.message
  | .parse e => e.render "parse".toList ParseCause.message

end Error

end PicAssembly
