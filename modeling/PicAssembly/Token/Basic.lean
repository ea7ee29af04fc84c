import PicAssembly.Operator

/-!
# `PicAssembly.Token.Basic`: the tokens of one line

A token is a slice of a line with its kind and the column it starts at. The
operators are grouped by what a reader can do with them, so a kind already holds
the operator it stands for. A minus sign is the subtraction operator here, also
where it turns out to be a sign.
-/

set_option autoImplicit false

namespace PicAssembly

namespace Token

/-- What a token is. `eof` is the token at the end of a line. -/
inductive Kind where
  | comment | pragma | identifier | number | chipId | string | programCounter
  | comma | colon | openParen | closeParen
  | binary (op : BinaryOp)
  | assign (op : AssignOp)
  | step (op : StepOp)
  | not | complement | pound
  | eof
  deriving DecidableEq, Repr

namespace Kind

/-- A lexeme between quotes, the way messages mention it. -/
def quoted (lexeme : Text) : Text := '\'' :: lexeme ++ ['\'']

/-- The kind as messages mention it. -/
def describe : Kind → Text
  | .comment => "comment".toList
  | .pragma => "pragma".toList
  | .identifier => "identifier".toList
  | .number => "number".toList
  | .chipId => "chip-id".toList
  | .string => "string".toList
  | .programCounter => quoted ['$']
  | .comma => quoted [',']
  | .colon => quoted [':']
  | .openParen => quoted ['(']
  | .closeParen => quoted [')']
  | .binary op => quoted op.lexeme
  | .assign op => quoted op.lexeme
  | .step op => quoted op.lexeme
  | .not => quoted ['!']
  | .complement => quoted ['~']
  | .pound => quoted ['#']
  | .eof => "end of line".toList

end Kind

end Token

/-- A lexeme with its kind, the index of its line and the column it starts at,
both counted from zero. -/
structure Token where
  kind : Token.Kind
  text : Text
  line : Nat
  column : Nat
  deriving DecidableEq, Repr

end PicAssembly
