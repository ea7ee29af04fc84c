import PicAssembly.Operand.Walk
import PicAssembly.Program.Basic

/-!
# `PicAssembly.Program.Walk`: visiting the operands of a program

A walk over a program goes through the operands of its statements. Directives
and definitions are left alone.
-/

set_option autoImplicit false

namespace PicAssembly

namespace Statement

/-- The place of the operands of a statement on the line with this index. -/
def place (s : Statement) (line : Nat) : Place := ⟨line, s.label, s.mnemonic, []⟩

end Statement

namespace Program

/-- Visits the outermost nodes of a kind in the statements among some lines, the
first of which has this index. -/
def walkLinesM {m : Type → Type} [Monad m] (kind : Operand.Kind)
    (visit : Place → Operand → m Operand) : (index : Nat) → List Line → m (List Line)
  | _, [] => return []
  | index, .statement s :: lines => do
    let operands ← Operand.walkAllM kind visit (s.place index) s.operands
    let lines ← walkLinesM kind visit (index + 1) lines
    return .statement { s with operands } :: lines
  | index, line :: lines => do
    let lines ← walkLinesM kind visit (index + 1) lines
    return line :: lines

/-- Visits the outermost nodes of a kind in all statements. -/
def walkM {m : Type → Type} [Monad m] (kind : Operand.Kind)
    (visit : Place → Operand → m Operand) (p : Program) : m Program := do
  let lines ← walkLinesM kind visit 0 p.lines
  return ⟨lines⟩

/-- Replaces the outermost nodes of a kind in all statements. -/
def replaceOutermost (kind : Operand.Kind) (f : Place → Operand → Operand) (p : Program) :
    Program :=
  Id.run (p.walkM kind fun place node => pure (f place node))

end Program

end PicAssembly
