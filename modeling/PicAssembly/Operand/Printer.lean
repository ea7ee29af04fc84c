import PicAssembly.Operand.Basic

/-!
# `PicAssembly.Operand.Printer`: the canonical spelling of operands

Binary operators have a space on either side, all others touch their operand,
and a pair of parentheses is written only where the tree would be read
differently without it. Two spellings need a space that the rule does not give:
a keyword before its operand, and a minus sign before one that begins with
another, since two of them side by side are a step operator.
-/

set_option autoImplicit false

namespace PicAssembly.Operand

/-- The text, in parentheses if `wrap` holds. -/
def grouped (wrap : Bool) (text : Text) : Text :=
  if wrap then '(' :: text ++ [')'] else text

/-- A prefix operator before a printed operand. -/
def joinPrefixed (spelling operand : Text) : Text :=
  if spelling.length = 1 ∧ ¬ (spelling = ['-'] ∧ operand.head? = some '-') then
    spelling ++ operand
  else spelling ++ ' ' :: operand

mutual

/-- The canonical spelling of an operand. -/
def render : Operand → Text
  | .number _ _ literal => literal
  | .string text => text
  | .chipId text => text
  | .programCounter => ['$']
  | .identifier name => name
  | .unary op spelling operand =>
    joinPrefixed spelling
      (grouped (0 < op.operandPower && operand.power < Power.unary) operand.render)
  | .stepped op operand =>
    grouped (operand.power < Power.postfixed) operand.render ++ op.lexeme
  | .binary op left right =>
    grouped (left.power < op.power) left.render ++ ' ' :: op.lexeme ++
      ' ' :: grouped (right.power ≤ op.power) right.render
  | .assign op left right =>
    grouped (left.power ≤ Power.assignment) left.render ++ op.lexeme ++
      grouped (right.power < Power.assignment) right.render
  | .call callee args =>
    callee.render ++ '(' :: Text.join [',', ' '] (renderAll args) ++ [')']

/-- The canonical spellings of several operands. -/
def renderAll : List Operand → List Text
  | [] => []
  | operand :: operands => operand.render :: renderAll operands

end

/-- The printer of lists is the printer of operands on every member. It is a recursion of its own
only because operands and lists of operands are defined in one another. -/
theorem renderAll_eq_map (operands : List Operand) : renderAll operands = operands.map render := by
  induction operands with
  | nil => rfl
  | cons operand operands ih => simp [renderAll, ih]

/-- Operands in a row, with a comma and a space between neighbours. -/
def renderList (operands : List Operand) : Text := Text.join [',', ' '] (renderAll operands)

end PicAssembly.Operand
