import PicAssembly.Operand.Basic

/-!
# `PicAssembly.Line.Basic`: the three shapes of a line

A directive begins with `#` and is kept as a word and a value. A definition is
the directive `#define`, whose value is read as a name and operands. Any other
line is a statement, and a statement may lack any of its parts; one that lacks
all of them is blank.
-/

set_option autoImplicit false

namespace PicAssembly

/-- A line such as `#include <p16f877.inc>`, with the word and its `#`. -/
structure Directive where
  word : Text
  value : Text
  comment : Option Text
  deriving DecidableEq, Repr

/-- A line such as `#define LED PORTB, 3`. -/
structure Definition where
  name : Text
  operands : List Operand
  comment : Option Text
  deriving DecidableEq, Repr

/-- A line such as `start: movlw H'0A' ; ten`. -/
structure Statement where
  label : Option Text
  mnemonic : Option Text
  operands : List Operand
  comment : Option Text
  deriving DecidableEq, Repr

namespace Statement

/-- The statement of an empty line. -/
def empty : Statement := ⟨none, none, [], none⟩

/-- Whether the statement has this mnemonic, in any letter case. -/
def hasMnemonic (s : Statement) (mnemonic : Text) : Bool :=
  s.mnemonic.any (Text.sameIgnoringCase · mnemonic)

/-- Whether the statement has one of these mnemonics, in any letter case. -/
def hasOneOf (s : Statement) (mnemonics : List Text) : Bool := mnemonics.any s.hasMnemonic

/-- Whether nothing is on the line. -/
def isBlank (s : Statement) : Bool :=
  s.label.isNone && s.mnemonic.isNone && s.operands.isEmpty && s.comment.isNone

/-- The right side of the first operand `name = value`, the name in any letter
case. -/
def setting? (s : Statement) (name : Text) : Option Operand :=
  s.operands.findSome? fun
    | .assign .assign (.identifier left) right =>
      if Text.sameIgnoringCase left name then some right else none
    | _ => none

end Statement

/-- A line of a program. -/
inductive Line where
  | directive (d : Directive)
  | definition (d : Definition)
  | statement (s : Statement)
  deriving DecidableEq, Repr

namespace Line

/-- The statement on the line, if the line holds one. -/
def statement? : Line → Option Statement
  | .statement s => some s
  | _ => none

/-- Whether the line is a statement with nothing on it. -/
def isBlank (line : Line) : Bool := line.statement?.any Statement.isBlank

/-- Changes the line if it is a statement. -/
def mapStatement (f : Statement → Statement) : Line → Line
  | .statement s => .statement (f s)
  | line => line

/-- The shape of the line in one word. -/
def describe : Line → Text
  | .directive _ => "pragma".toList
  | .definition _ => "define".toList
  | .statement _ => "statement".toList

end Line

end PicAssembly
