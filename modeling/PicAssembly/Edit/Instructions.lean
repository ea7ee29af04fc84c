import PicAssembly.Edit.Basic

/-!
# `PicAssembly.Edit.Instructions`: operands of three instructions

`addfsr` takes the number of a pointer register in the place of its name.
`addwfc` and `subwfb` with the same register twice take the letter `f` as their
destination.
-/

set_option autoImplicit false

namespace PicAssembly

namespace Instruction

/-- The digit behind the letters `FSR`, which may be in any case. -/
def fsrDigit? (name : Text) : Option Char :=
  if Text.sameIgnoringCase (name.take 3) "FSR".toList then
    (name.drop 3).head?.filter Char.isDigit
  else none

/-- The operands of `addfsr`, with the number of the register. -/
def numberFsr : List Operand → List Operand
  | [.identifier name, amount@(.number ..)] =>
    match fsrDigit? name with
    | some digit =>
      [.number (digit.toNat - '0'.toNat) .hexadecimal [digit], amount]
    | none => [.identifier name, amount]
  | operands => operands

/-- The operands of an addition to a file register, with the letter for the
destination in the place of the register itself. -/
def nameDestination : List Operand → List Operand
  | [.identifier source, .identifier destination] =>
    [.identifier source, .identifier (if source = destination then ['f'] else destination)]
  | operands => operands

end Instruction

namespace Edit

/-- Changes the operands of the statements with a mnemonic. -/
def mapOperands (mnemonic : Text) (f : List Operand → List Operand) (p : Program) : Program :=
  p.mapMnemonic mnemonic fun s => { s with operands := f s.operands }

/-- Gives `addfsr` the number of its register. -/
def fsrAdditions : Edit :=
  ofProgram "fix-addfsr".toList fun _ => mapOperands "addfsr".toList Instruction.numberFsr

/-- Gives `addwfc` and `subwfb` the letter for their destination. -/
def carryAdditions : Edit :=
  ofProgram "fix-addwfc".toList fun _ p =>
    mapOperands "subwfb".toList Instruction.nameDestination
      (mapOperands "addwfc".toList Instruction.nameDestination p)

end Edit

end PicAssembly
