import PicAssembly.Edit.Basic
import PicAssembly.Program.Walk

/-!
# `PicAssembly.Edit.Identifiers`: addresses and new names

An operand `#name` loses its pound sign. An identifier that the context has
another name for is renamed, except in `moviw` and `movwi`, whose operands name
a pointer register in a form of their own. Definitions are left alone.
-/

set_option autoImplicit false

namespace PicAssembly

namespace Operand

/-- The operand without a pound sign before it. -/
def withoutPound : Operand → Operand
  | .unary .pound _ operand => operand
  | operand => operand

/-- An identifier under its new name. -/
def renamed (context : Context) : Operand → Operand
  | .identifier name => .identifier ((context.replacement? name).getD name)
  | operand => operand

end Operand

namespace Edit

/-- The mnemonics whose operands are not renamed. -/
def keepingNames : List Text := ["moviw".toList, "movwi".toList]

/-- Takes the pound signs away. -/
def fixedAddresses : Edit :=
  ofProgram "fix-fixed-addresses".toList fun _ p =>
    p.replaceOutermost .unary fun _ node => node.withoutPound

/-- Renames identifiers. -/
def identifiers : Edit :=
  ofProgram "replace-identifiers".toList fun context p =>
    p.replaceOutermost .identifier fun place node =>
      if place.mnemonic.any fun m => keepingNames.any (Text.sameIgnoringCase m) then node
      else node.renamed context

end Edit

end PicAssembly
