import PicAssembly.Edit.Basic

/-!
# `PicAssembly.Edit.Mnemonics`: directives under another name

`EXTERN` becomes `GLOBAL` and `RES` becomes `DS`. The operands stay.
-/

set_option autoImplicit false

namespace PicAssembly

namespace Edit

/-- Gives the statements with the mnemonic `old` the mnemonic `new`. -/
def renameMnemonic (old new : Text) (p : Program) : Program :=
  p.mapMnemonic old fun s => { s with mnemonic := some new }

/-- External symbols are declared as global ones. -/
def externs : Edit :=
  ofProgram "fix-externs".toList fun _ => renameMnemonic "extern".toList "GLOBAL".toList

/-- Reserved space is declared by its size. -/
def reservations : Edit :=
  ofProgram "fix-res".toList fun _ => renameMnemonic "res".toList "DS".toList

end Edit

end PicAssembly
