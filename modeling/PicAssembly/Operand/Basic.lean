import PicAssembly.Operator

/-!
# `PicAssembly.Operand.Basic`: operands as trees

An operand is an expression. A tree keeps what its printed form needs: the
spelling of a number beside its value, and the letter case of a keyword. So an
edit can change the spelling and leave the value alone, or the other way round.

Names are identifiers, and text in quotes keeps its quotes. Which trees come out
of the reader and can be read back is a theorem elsewhere, not part of the type:
edits build trees too.
-/

set_option autoImplicit false

namespace PicAssembly

/-- An operand expression. -/
inductive Operand where
  /-- What is printed is `literal`; what it means is `value` and `radix`. -/
  | number (value : Nat) (radix : Radix) (literal : Text)
  /-- Text with its quotes, single or double. -/
  | string (text : Text)
  /-- A device name such as `16f877`, which looks like a number. -/
  | chipId (text : Text)
  | programCounter
  | identifier (name : Text)
  /-- The operator as it was written is `spelling`. -/
  | unary (op : UnaryOp) (spelling : Text) (operand : Operand)
  /-- A step operator behind its operand. -/
  | stepped (op : StepOp) (operand : Operand)
  | binary (op : BinaryOp) (left right : Operand)
  | assign (op : AssignOp) (left right : Operand)
  /-- A read operand has an identifier as `callee`. -/
  | call (callee : Operand) (args : List Operand)
  deriving Repr, Inhabited

namespace Operand

/-- The outermost form of an operand. -/
inductive Kind where
  | number | string | chipId | programCounter | identifier
  | unary | stepped | binary | assign | call
  deriving DecidableEq, Repr

/-- The constructor of the operand, without what it carries. -/
def kind : Operand → Kind
  | .number .. => .number
  | .string _ => .string
  | .chipId _ => .chipId
  | .programCounter => .programCounter
  | .identifier _ => .identifier
  | .unary .. => .unary
  | .stepped .. => .stepped
  | .binary .. => .binary
  | .assign .. => .assign
  | .call .. => .call

/-- The name, of an identifier. -/
def name? : Operand → Option Text
  | .identifier name => some name
  | _ => none

/-- How tightly an operand holds together next to an operator. -/
def power : Operand → Nat
  | .binary op _ _ => op.power
  | .assign .. => Power.assignment
  | .unary op _ _ => op.operandPower
  | .stepped .. => Power.postfixed
  | _ => Power.leaf

/-- A prefix operator in its usual spelling, before an operand. -/
def prefixed (op : UnaryOp) (operand : Operand) : Operand := .unary op op.lexeme operand

/-- An induction principle with one hypothesis for every argument of a call. -/
@[elab_as_elim]
theorem induct {motive : Operand → Prop}
    (number : ∀ value radix literal, motive (.number value radix literal))
    (string : ∀ text, motive (.string text))
    (chipId : ∀ text, motive (.chipId text))
    (programCounter : motive .programCounter)
    (identifier : ∀ name, motive (.identifier name))
    (unary : ∀ op spelling operand, motive operand → motive (.unary op spelling operand))
    (stepped : ∀ op operand, motive operand → motive (.stepped op operand))
    (binary : ∀ op left right, motive left → motive right → motive (.binary op left right))
    (assign : ∀ op left right, motive left → motive right → motive (.assign op left right))
    (call : ∀ callee args, motive callee → (∀ arg ∈ args, motive arg) →
      motive (.call callee args)) :
    ∀ operand, motive operand := by
  intro operand
  exact Operand.rec (motive_1 := motive) (motive_2 := fun args => ∀ arg ∈ args, motive arg)
    number string chipId programCounter identifier unary stepped binary assign call
    (by simp) (by simp +contextual) operand

mutual

/-- Whether two operands are the same tree. -/
def same : Operand → Operand → Bool
  | .number v r l, .number v' r' l' => v == v' && r == r' && l == l'
  | .string t, .string t' => t == t'
  | .chipId t, .chipId t' => t == t'
  | .programCounter, .programCounter => true
  | .identifier n, .identifier n' => n == n'
  | .unary op s x, .unary op' s' x' => op == op' && s == s' && same x x'
  | .stepped op x, .stepped op' x' => op == op' && same x x'
  | .binary op l r, .binary op' l' r' => op == op' && same l l' && same r r'
  | .assign op l r, .assign op' l' r' => op == op' && same l l' && same r r'
  | .call f xs, .call f' xs' => same f f' && sameAll xs xs'
  | _, _ => false

/-- Whether two lists hold the same operands in the same order. -/
def sameAll : List Operand → List Operand → Bool
  | [], [] => true
  | x :: xs, y :: ys => same x y && sameAll xs ys
  | _, _ => false

end

/-- Comparing two lists of operands decides their equality, if comparing their members does. The
condition is the induction hypothesis of `same_eq_true_iff`, which goes through both kinds of term
at once. -/
theorem sameAll_eq_true_iff {xs ys : List Operand}
    (ih : ∀ x ∈ xs, ∀ y, same x y = true ↔ x = y) : sameAll xs ys = true ↔ xs = ys := by
  induction xs generalizing ys with
  | nil => cases ys <;> simp [sameAll]
  | cons x xs ihs =>
    cases ys with
    | nil => simp [sameAll]
    | cons y ys =>
      simp [sameAll, ih x (by simp) y, ihs fun x hx => ih x (by simp [hx])]

/-- The comparison of operands that the program runs is equality, so it can be used as the decision
procedure for it. -/
theorem same_eq_true_iff (x y : Operand) : same x y = true ↔ x = y := by
  induction x using induct generalizing y with
  | call f xs ihf ihs =>
    cases y <;> simp [same, ihf, sameAll_eq_true_iff ihs]
  | _ => cases y <;> simp_all [same, and_assoc]

instance : DecidableEq Operand := fun x y => decidable_of_iff _ (same_eq_true_iff x y)

end Operand

end PicAssembly
