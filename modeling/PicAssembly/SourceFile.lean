import PicAssembly.FilePath
import PicAssembly.Outcome
import PicAssembly.Program.Parser
import PicAssembly.Program.Layout
import PicAssembly.Text.Utf8

/-!
# `PicAssembly.SourceFile`: one file of a project

A file has a name, a directory below the project's, its bytes, and once it was
read as assembly also a program. A file that is never read keeps its bytes.
-/

set_option autoImplicit false

namespace PicAssembly

/-- A file of the project: what was found on disk, and the program in it once it has been parsed. -/
structure SourceFile where
  name : Text
  /-- The directory as seen from the root of the project. -/
  dir : Text
  content : Bytes
  program : Option Program
  deriving DecidableEq, Repr

namespace SourceFile

/-- A file that has not been read as assembly. -/
def unread (name dir : Text) (content : Bytes) : SourceFile := ⟨name, dir, content, none⟩

/-- The name up to its first point. -/
def stem (f : SourceFile) : Text := f.name.takeWhile (· != '.')

/-- Whether the name ends in a point and this extension, in any letter case. -/
def hasExtension (f : SourceFile) (extension : Text) : Bool :=
  (Text.splitAtLast? '.' f.name).any fun parts => Text.sameIgnoringCase parts.2 extension

/-- The path as seen from the root of the project. -/
def path (f : SourceFile) : Text := FilePath.join f.dir f.name

/-- The content as text, with a replacement character for what is none. -/
def text (f : SourceFile) : Text := Utf8.decodeLossy f.content

/-- Reads the content as assembly. -/
def parse (f : SourceFile) : Except Error SourceFile := do
  let program ← Program.parse f.text
  return { f with program := some program }

/-- Writes the program, if there is one, over the content. -/
def unparse (layout : Layout) (f : SourceFile) : SourceFile :=
  match f.program with
  | some program => { f with content := Utf8.encode (layout.render program) }
  | none => f

/-- Changes the program, if there is one. -/
def mapProgram (f : Program → Program) (file : SourceFile) : SourceFile :=
  { file with program := file.program.map f }

/-- Changes the program, if there is one, as far as no fault stops the change. -/
def changeProgram (change : Program → Outcome Program) (file : SourceFile) : Outcome SourceFile :=
  match file.program with
  | some program =>
    let changed := change program
    ⟨{ file with program := some changed.result }, changed.fault⟩
  | none => .done file

end SourceFile

end PicAssembly
