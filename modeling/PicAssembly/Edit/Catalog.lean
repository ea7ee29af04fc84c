import PicAssembly.Edit.BitNames
import PicAssembly.Edit.Conditionals
import PicAssembly.Edit.ConfigWords
import PicAssembly.Edit.FileNames
import PicAssembly.Edit.Identifiers
import PicAssembly.Edit.Includes
import PicAssembly.Edit.Instructions
import PicAssembly.Edit.Mnemonics
import PicAssembly.Edit.Numbers
import PicAssembly.Edit.Sections

/-!
# `PicAssembly.Edit.Catalog`: all edits in their order

Together the edits bring a program for the assembler MPASM into the form that
pic-as reads. The order matters: an edit sees what those before it have done. Includes come
before numbers, since the device may be spelled like a number, and sections
before identifiers, since a section's name becomes an operand.
-/

set_option autoImplicit false

namespace PicAssembly

namespace Catalog

/-- Every edit, in the order in which they are applied. -/
def edits : List Edit :=
  [.fileNames, .includes, .numbers, .externs, .configWords, .sections, .reservations, .bitNames,
   .fixedAddresses, .identifiers, .fsrAdditions, .conditionals, .carryAdditions]

/-- The edit with this name. -/
def find? (name : Text) : Option Edit := edits.find? (·.name = name)

/-- Makes some edits one after the other, up to the first that a fault stops. -/
def runAll (context : Context) : List Edit → SourceFile → Outcome SourceFile
  | [], file => .done file
  | edit :: edits, file => (edit.change context file).andThen (runAll context edits)

/-- Makes every edit. -/
def run (context : Context) (file : SourceFile) : Outcome SourceFile :=
  runAll context edits file

/-- The file after every edit, unless a fault stops one of them. -/
def apply (context : Context) (file : SourceFile) : Except Error SourceFile :=
  (run context file).toExcept

/-- What some edits report, up to the first that fails. -/
def reportsOf (context : Context) : List Edit → SourceFile → List Log.Record
  | [], _ => []
  | edit :: edits, file =>
    edit.reports context file ++
      match edit.apply context file with
      | .ok file => reportsOf context edits file
      | .error _ => []

/-- What all edits report for a file. -/
def reports (context : Context) (file : SourceFile) : List Log.Record :=
  reportsOf context edits file

end Catalog

end PicAssembly
