import PicAssembly.Edit.Basic

/-!
# `PicAssembly.Edit.FileNames`: the ending of source files

The names of sources end in `.asm` before a conversion and in `.s` after it.
The ending is told in this letter case only.
-/

set_option autoImplicit false

namespace PicAssembly

namespace SourceFile

/-- The name that the file has after a conversion. -/
def convertedName (name : Text) : Text :=
  match Text.dropBack? ".asm".toList name with
  | some stem => stem ++ ".s".toList
  | none => name

end SourceFile

namespace Edit

/-- Gives a source its new ending. -/
def fileNames : Edit where
  name := "rename-files".toList
  change _ file := .done { file with name := SourceFile.convertedName file.name }
  reports _ file :=
    let name := SourceFile.convertedName file.name
    if name = file.name then []
    else [⟨.debug, "picport::passes::files".toList,
      "renaming ".toList ++ file.name ++ " to ".toList ++ name⟩]

end Edit

end PicAssembly
