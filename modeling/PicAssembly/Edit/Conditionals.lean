import PicAssembly.Edit.Basic

/-!
# `PicAssembly.Edit.Conditionals`: conditional assembly

`ifdef NAME` becomes the directive `#ifdef NAME`, and the first `endif` behind
it that no earlier one has taken becomes `#endif`. So while the lines are gone
through it is enough to count how many are still to be closed. Other openers do
not count, and an `endif` that none is waiting for stays.
-/

set_option autoImplicit false

namespace PicAssembly

namespace Conditional

/-- The symbol that a statement `ifdef NAME` asks for. -/
def symbol? (s : Statement) : Option Text :=
  if s.hasMnemonic "ifdef".toList then s.operands.head?.bind Operand.name? else none

/-- Lines with directives for their conditionals, where `waiting` of those before
the lines are still to be closed. -/
def convertFrom : (waiting : Nat) → List Line → List Line
  | _, [] => []
  | waiting, .statement s :: lines =>
    match symbol? s with
    | some name =>
      .directive ⟨"#ifdef".toList, name, s.comment⟩ :: convertFrom (waiting + 1) lines
    | none =>
      if s.hasMnemonic "endif".toList ∧ 0 < waiting then
        .directive ⟨"#endif".toList, [], s.comment⟩ :: convertFrom (waiting - 1) lines
      else .statement s :: convertFrom waiting lines
  | waiting, line :: lines => line :: convertFrom waiting lines

end Conditional

namespace Edit

/-- Turns conditionals into directives. -/
def conditionals : Edit :=
  ofProgram "fix-ifdefs".toList fun _ p => ⟨Conditional.convertFrom 0 p.lines⟩

end Edit

end PicAssembly
