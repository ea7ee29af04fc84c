import PicAssembly.Edit.Basic
import PicAssembly.Operand.Walk
import PicAssembly.Operand.Parser

/-!
# `PicAssembly.Edit.ConfigWords`: configuration words

`__CONFIG _CONFIG1, _FOSC_HS & _WDTE_OFF` becomes `config FOSC=HS, WDTE=OFF`. An
identifier in the operands is a setting if it has the form `_FLAG_VALUE`, where
the last underscore parts the two. Other identifiers, such as the one that
selects the word, are dropped.

The new operands are read from text, so a flag that is a keyword makes the
edit fail.
-/

set_option autoImplicit false

namespace PicAssembly

namespace ConfigWord

/-- The flag and the value that an identifier sets. -/
def setting? (name : Text) : Option (Text × Text) :=
  match (Text.dropFront? ['_'] name).bind (Text.splitAtLast? '_') with
  | some (flag, value) => if flag.isEmpty || value.isEmpty then none else some (flag, value)
  | none => none

/-- The settings in some operands, from left to right. -/
def settings (operands : List Operand) : List (Text × Text) :=
  (Operand.outermostAll .identifier (.onLine 0) operands).filterMap fun visit =>
    visit.2.name?.bind setting?

/-- The settings in some operands, as operands of their own. -/
def operandsOf (operands : List Operand) : Except Error (List Operand) :=
  (settings operands).mapM fun setting => Operand.parse (setting.1 ++ '=' :: setting.2)

/-- A line that sets configuration bits by name. It has its new mnemonic even if its
new operands cannot be read. -/
def convert : Line → Outcome Line
  | .statement s =>
    if s.hasMnemonic "__CONFIG".toList then
      let s' := { s with mnemonic := some "config".toList }
      match operandsOf s.operands with
      | .ok operands => .done (.statement { s' with operands })
      | .error e => ⟨.statement s', some e⟩
    else .done (.statement s)
  | line => .done line

end ConfigWord

namespace Edit

/-- Sets configuration bits by name. -/
def configWords : Edit where
  name := "fix-configs".toList
  change _ := SourceFile.changeProgram (Program.changeLines ConfigWord.convert)
  reports _ _ := []

end Edit

end PicAssembly
