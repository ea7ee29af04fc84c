import PicAssembly.Text.Basic

/-!
# `PicAssembly.Operator`: operators, their spelling and how tightly they bind

Four families. A binary operator joins two operands. An assignment operator
joins a name and a value and associates to the right. A step operator, `++` or
`--`, stands before or behind its operand. A prefix operator stands before its
operand; `high`, `low` and `upper` are prefix operators that look like names and
are read in any letter case.

A binding power is a number: of two operators, the one with the higher power
takes the operand between them. `Power.leaf` is above every operator's power.
-/

set_option autoImplicit false

namespace PicAssembly

/-- The bases a number can be written in. -/
inductive Radix where
  | binary | octal | decimal | hexadecimal
  deriving DecidableEq, Repr

namespace Radix

/-- How many digits the base has. -/
def base : Radix → Nat
  | .binary => 2
  | .octal => 8
  | .decimal => 10
  | .hexadecimal => 16

end Radix

namespace Power

/-- The power of every assignment operator, on both sides. -/
def assignment : Nat := 10

/-- The power of prefix operators, the step operators excepted. -/
def unary : Nat := 80

/-- The power of a step operator behind its operand. -/
def postfixed : Nat := 90

/-- The power of an operand that no operator can take apart. -/
def leaf : Nat := 255

end Power

/-- The operators between two operands. -/
inductive BinaryOp where
  | multiply | divide | modulus | add | subtract | leftShift | rightShift
  | lessThan | lessThanEqual | greaterThan | greaterThanEqual | equalTo | notEqualTo
  | bitAnd | bitXor | bitOr | logicalAnd | logicalOr
  deriving DecidableEq, Repr

namespace BinaryOp

/-- The power on the left; the right side binds one tighter. -/
def power : BinaryOp → Nat
  | .multiply | .divide | .modulus => 70
  | .add | .subtract => 60
  | .leftShift | .rightShift => 50
  | .lessThan | .lessThanEqual | .greaterThan | .greaterThanEqual => 40
  | .equalTo | .notEqualTo => 35
  | .bitAnd => 32
  | .bitXor => 31
  | .bitOr => 30
  | .logicalAnd => 20
  | .logicalOr => 15

/-- The text of the operator. -/
def lexeme : BinaryOp → Text
  | .multiply => ['*']
  | .divide => ['/']
  | .modulus => ['%']
  | .add => ['+']
  | .subtract => ['-']
  | .leftShift => ['<', '<']
  | .rightShift => ['>', '>']
  | .lessThan => ['<']
  | .lessThanEqual => ['<', '=']
  | .greaterThan => ['>']
  | .greaterThanEqual => ['>', '=']
  | .equalTo => ['=', '=']
  | .notEqualTo => ['!', '=']
  | .bitAnd => ['&']
  | .bitXor => ['^']
  | .bitOr => ['|']
  | .logicalAnd => ['&', '&']
  | .logicalOr => ['|', '|']

end BinaryOp

/-- The operators that give a name a value. -/
inductive AssignOp where
  | assign | add | subtract | multiply | divide | modulus | leftShift | rightShift
  | bitAnd | bitOr | bitXor
  deriving DecidableEq, Repr

namespace AssignOp

/-- The text of the operator. -/
def lexeme : AssignOp → Text
  | .assign => ['=']
  | .add => ['+', '=']
  | .subtract => ['-', '=']
  | .multiply => ['*', '=']
  | .divide => ['/', '=']
  | .modulus => ['%', '=']
  | .leftShift => ['<', '<', '=']
  | .rightShift => ['>', '>', '=']
  | .bitAnd => ['&', '=']
  | .bitOr => ['|', '=']
  | .bitXor => ['^', '=']

end AssignOp

/-- The operators that count a place up or down. -/
inductive StepOp where
  | increment | decrement
  deriving DecidableEq, Repr

namespace StepOp

/-- The text of the operator. -/
def lexeme : StepOp → Text
  | .increment => ['+', '+']
  | .decrement => ['-', '-']

end StepOp

/-- The operators before an operand. -/
inductive UnaryOp where
  | high | low | upper | complement | not | negate | pound | step (op : StepOp)
  deriving DecidableEq, Repr

namespace UnaryOp

/-- The operator that a name spells, in any letter case. -/
def keyword? (name : Text) : Option UnaryOp :=
  let word := Text.asciiLower name
  if word = "high".toList then some .high
  else if word = "low".toList then some .low
  else if word = "upper".toList then some .upper
  else none

/-- The usual spelling; a keyword may also be written in other letter cases. -/
def lexeme : UnaryOp → Text
  | .high => "high".toList
  | .low => "low".toList
  | .upper => "upper".toList
  | .complement => ['~']
  | .not => ['!']
  | .negate => ['-']
  | .pound => ['#']
  | .step op => op.lexeme

/-- The least power of what the operator takes as its operand. A step operator
takes everything to its right. -/
def operandPower : UnaryOp → Nat
  | .step _ => 0
  | _ => Power.unary

end UnaryOp

end PicAssembly
