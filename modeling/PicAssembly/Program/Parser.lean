import PicAssembly.Line.Parser
import PicAssembly.Program.Basic

/-!
# `PicAssembly.Program.Parser`: reading a file

A file is cut at every line feed and its lines are read one by one. The first
line with a fault stops the reading.
-/

set_option autoImplicit false

namespace PicAssembly

namespace Program

/-- Reads lines, the first of which has this index. -/
def parseLines : (index : Nat) → List Text → Except Error (List Line)
  | _, [] => .ok []
  | index, text :: texts => do
    let line ← Line.parse text index
    let lines ← parseLines (index + 1) texts
    return line :: lines

/-- Reads a whole file. -/
def parse (text : Text) : Except Error Program := do
  let lines ← parseLines 0 (Text.splitAt '\n' text)
  return ⟨lines⟩

end Program

end PicAssembly
