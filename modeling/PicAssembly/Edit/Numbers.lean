import PicAssembly.Edit.Basic
import PicAssembly.Program.Walk
import PicAssembly.Text.Numeral

/-!
# `PicAssembly.Edit.Numbers`: the spelling of numbers

Every number is spelled anew from its value and radix: `0x1F`, `101B`, `17q` or
`12`. Numbers in definitions are spelled anew too.
-/

set_option autoImplicit false

namespace PicAssembly

namespace Radix

/-- The spelling of a magnitude after a conversion, which tells its radix. -/
def spell : Radix → Nat → Text
  | .hexadecimal, value => '0' :: 'x' :: Numeral.write 16 value
  | .binary, value => Numeral.write 2 value ++ ['B']
  | .decimal, value => Numeral.decimal value
  | .octal, value => Numeral.write 8 value ++ ['q']

end Radix

namespace Operand

/-- Spells a number anew. -/
def respell : Operand → Operand
  | .number value radix _ => .number value radix (radix.spell value)
  | operand => operand

/-- Spells all numbers in some operands anew. -/
def respellAll (place : Place) (operands : List Operand) : List Operand :=
  replaceOutermost .number (fun _ node => node.respell) place operands

end Operand

namespace Line

/-- Spells all numbers on a line anew. -/
def respellNumbers : Line → Line
  | .directive d => .directive d
  | .definition d =>
    .definition { d with operands := Operand.respellAll (.onLine 0) d.operands }
  | .statement s => .statement { s with operands := Operand.respellAll (s.place 0) s.operands }

end Line

namespace Edit

/-- Spells all numbers anew. -/
def numbers : Edit := ofProgram "fix-numbers".toList fun _ p => p.mapLines Line.respellNumbers

end Edit

end PicAssembly
