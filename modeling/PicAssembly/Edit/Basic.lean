import PicAssembly.Context
import PicAssembly.SourceFile
import PicAssembly.Log

/-!
# `PicAssembly.Edit.Basic`: an edit of one file

An edit is one step of a conversion. It changes a file, with the context of
the conversion at hand, from the first line to the last, and a fault stops it where
it is. What it reports while it does so is computed from the same file and context,
beside the change and not within it, so that a statement about the change need not
mention reports.
-/

set_option autoImplicit false

namespace PicAssembly

/-- One step of a conversion. -/
structure Edit where
  name : Text
  /-- The change to a file. -/
  change : Context → SourceFile → Outcome SourceFile
  /-- What is reported when the change is made to a file. -/
  reports : Context → SourceFile → List Log.Record

namespace Edit

/-- The file after the edit, unless a fault stops it. -/
def apply (edit : Edit) (context : Context) (file : SourceFile) : Except Error SourceFile :=
  (edit.change context file).toExcept

/-- A change of the program alone that no fault can stop and that reports nothing. -/
def ofProgram (name : Text) (change : Context → Program → Program) : Edit where
  name
  change context file := .done (file.mapProgram (change context))
  reports _ _ := []

end Edit

namespace Program

/-- Changes the lines of a program in order, up to the first that a fault stops. -/
def changeLines (change : Line → Outcome Line) (p : Program) : Outcome Program :=
  let changed := Outcome.forEach change p.lines
  ⟨⟨changed.result⟩, changed.fault⟩

end Program

end PicAssembly
