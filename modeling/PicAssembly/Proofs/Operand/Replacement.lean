import PicAssembly.Proofs.Program.Correspondence

/-!
# `PicAssembly.Proofs.Operand.Replacement`: what a replacement leaves alone

Replacing the outermost nodes of a kind goes through the operands one by one
(`Operand.replaceOutermost_eq_map`). Over a program a replacement changes the operands of
statements and nothing else (`Program.corresponds_replaceOutermost`).
-/

set_option autoImplicit false

namespace PicAssembly

namespace Operand

/-- An operand with its outermost nodes of a kind replaced. -/
def replaceIn (kind : Kind) (f : Place → Operand → Operand) (place : Place)
    (operand : Operand) : Operand :=
  Id.run (walkM kind (fun place node => pure (f place node)) place operand)

/-- Replacing in several operands replaces in each, in the same place. -/
theorem replaceOutermost_eq_map {kind : Kind} {f : Place → Operand → Operand} {place : Place}
    (operands : List Operand) :
    replaceOutermost kind f place operands = operands.map (replaceIn kind f place) := by
  induction operands with
  | nil => rfl
  | cons operand operands ih =>
      rw [List.map_cons, ← ih]
      rfl

/-! Nodes of another kind are gone through. -/

section

variable {kind : Kind} (f : Place → Operand → Operand) (place : Place)

/-- Where prefix operators are not replaced themselves, what is below them is. -/
theorem replaceIn_unary (h : kind ≠ .unary) (op : UnaryOp) (spelling : Text) (x : Operand) :
    replaceIn kind f place (.unary op spelling x)
      = .unary op spelling (replaceIn kind f (place.inside .unary) x) := by
  rw [replaceIn, walkM]
  exact if_neg (Ne.symm h)

/-- Where operands with a step operator are not replaced themselves, what is before it is. -/
theorem replaceIn_stepped (h : kind ≠ .stepped) (op : StepOp) (x : Operand) :
    replaceIn kind f place (.stepped op x)
      = .stepped op (replaceIn kind f (place.inside .stepped) x) := by
  rw [replaceIn, walkM]
  exact if_neg (Ne.symm h)

/-- Where binary operators are not replaced themselves, both of their sides are changed. -/
theorem replaceIn_binary (h : kind ≠ .binary) (op : BinaryOp) (x y : Operand) :
    replaceIn kind f place (.binary op x y)
      = .binary op (replaceIn kind f (place.inside .binary) x)
          (replaceIn kind f (place.inside .binary) y) := by
  rw [replaceIn, walkM]
  exact if_neg (Ne.symm h)

/-- Where assignments are not replaced themselves, both of their sides are changed. -/
theorem replaceIn_assign (h : kind ≠ .assign) (op : AssignOp) (x y : Operand) :
    replaceIn kind f place (.assign op x y)
      = .assign op (replaceIn kind f (place.inside .assign) x)
          (replaceIn kind f (place.inside .assign) y) := by
  rw [replaceIn, walkM]
  exact if_neg (Ne.symm h)

/-- Where calls are not replaced themselves, what is called and the arguments are changed. -/
theorem replaceIn_call (h : kind ≠ .call) (callee : Operand) (args : List Operand) :
    replaceIn kind f place (.call callee args)
      = .call (replaceIn kind f (place.inside .call) callee)
          (args.map (replaceIn kind f (place.inside .call))) := by
  rw [replaceIn, walkM, ← replaceOutermost_eq_map]
  exact if_neg (Ne.symm h)

end

end Operand

/-- A statement on the line with this index, with the outermost nodes of a kind replaced. -/
def Statement.replaceIn (kind : Operand.Kind) (f : Place → Operand → Operand) (index : Nat)
    (s : Statement) : Statement :=
  { s with operands := s.operands.map (Operand.replaceIn kind f (s.place index)) }

namespace Program

/-- The walk over lines changes the first one by its number and goes on with the next number. -/
theorem walkLinesM_cons (kind : Operand.Kind) (f : Place → Operand → Operand) (line : Line)
    (lines : List Line) (index : Nat) :
    Id.run (walkLinesM kind (fun place node => pure (f place node)) index (line :: lines))
      = line.mapStatement (.replaceIn kind f index)
        :: Id.run (walkLinesM kind (fun place node => pure (f place node)) (index + 1) lines) := by
  cases line with
  | directive d => rfl
  | definition d => rfl
  | statement s =>
      have hoperands : Operand.replaceOutermost kind f (s.place index) s.operands
          = (s.replaceIn kind f index).operands := Operand.replaceOutermost_eq_map s.operands
      exact congrArg (fun operands => Line.statement { s with operands } :: _) hoperands

/-- The walk over lines makes one line of each, with the operands of its statement changed. -/
theorem corresponds_walkLinesM (kind : Operand.Kind) (f : Place → Operand → Operand)
    (lines : List Line) (index : Nat) :
    Corresponds (OneLine fun line line' => ∃ i, line' = line.mapStatement (.replaceIn kind f i))
      lines (Id.run (walkLinesM kind (fun place node => pure (f place node)) index lines)) := by
  induction lines generalizing index with
  | nil => exact .nil
  | cons line lines ih =>
      rw [walkLinesM_cons]
      exact .cons_one ⟨_, rfl, index, rfl⟩ (ih (index + 1))

/-- Replacing nodes in a program changes its statements one by one. -/
theorem corresponds_replaceOutermost (kind : Operand.Kind) (f : Place → Operand → Operand)
    (p : Program) :
    Corresponds (OneLine fun line line' => ∃ i, line' = line.mapStatement (.replaceIn kind f i))
      p.lines (p.replaceOutermost kind f).lines :=
  corresponds_walkLinesM kind f p.lines 0

end Program

end PicAssembly
