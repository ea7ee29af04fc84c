import PicAssembly.Edit.Basic
import PicAssembly.Operand.Parser

/-!
# `PicAssembly.Edit.BitNames`: bits by their new names

`btfss STATUS, Z` becomes `btfss ZERO` if the context has the name `ZERO` for
the bit. The old name is kept as a comment, unless there is one already. A
definition of a register and a bit is changed in the same way, without comment.

A new name may consist of several parts with points between them, which become
operands. The parts are read as operands, so a name from outside can make the
edit fail.
-/

set_option autoImplicit false

namespace PicAssembly

namespace BitName

/-- The mnemonics of the instructions on single bits. -/
def instructions : List Text := ["bcf".toList, "bsf".toList, "btfsc".toList, "btfss".toList]

/-- A register and one of its bits, if the operands are just these. -/
def pair? : List Operand → Option (Text × Text)
  | [.identifier register, .identifier bit] => some (register, bit)
  | _ => none

/-- A register and one of its bits, and the new name that the context has. -/
def mapped? (context : Context) (operands : List Operand) : Option ((Text × Text) × Text) :=
  match pair? operands with
  | some (register, bit) => (context.register? register bit).map ((register, bit), ·)
  | none => none

/-- The operands for a new name. -/
def operandsOf (name : Text) : Except Error (List Operand) :=
  (Text.splitAt '.' name).mapM Operand.parse

/-- The operands of a line that may name a bit. -/
def operands? : Line → Option (List Operand)
  | .statement s => if s.hasOneOf instructions then some s.operands else none
  | .definition d => some d.operands
  | .directive _ => none

/-- A line with new operands for the bit that it names. -/
def withOperands (register bit : Text) (operands : List Operand) : Line → Line
  | .statement s => .statement { s with operands, comment := s.comment.or (register ++ '.' :: bit) }
  | .definition d => .definition { d with operands }
  | .directive d => .directive d

/-- A line with a new name for the bit that it names. The line stays as it is if the
new name cannot be read. -/
def convert (context : Context) (line : Line) : Outcome Line :=
  match (operands? line).bind (mapped? context) with
  | none => .done line
  | some ((register, bit), name) =>
    match operandsOf name with
    | .ok operands => .done (withOperands register bit operands line)
    | .error e => ⟨line, some e⟩

/-- What is reported for some lines. A line whose new name cannot be read is the
last one. -/
def reports (context : Context) : List Line → List Log.Record
  | [] => []
  | line :: lines =>
    match (operands? line).bind (mapped? context) with
    | none => reports context lines
    | some ((register, bit), name) =>
      ⟨.debug, "picport::passes::instructions".toList,
        "mapping ".toList ++ register ++ '.' :: bit ++ " to ".toList ++ name⟩ ::
      match operandsOf name with
      | .ok _ => reports context lines
      | .error _ => []

end BitName

namespace Edit

/-- Gives bits their new names. -/
def bitNames : Edit where
  name := "fix-bit-instructions".toList
  change context := SourceFile.changeProgram (Program.changeLines (BitName.convert context))
  reports context file := BitName.reports context ((file.program.map Program.lines).getD [])

end Edit

end PicAssembly
