import PicAssembly.Edit.Catalog

/-!
# `PicAssembly.Project`: the files of a conversion

The files of a project are read, edited and written independently of each other.
A file that cannot be read stays as it is, and a file that a fault stops the edits of
stays as far as it was edited. Both are reported, and the others go on.

Symbols that the context defines go to a header of their own, which every file
that was read includes right behind its first header in angle brackets.
-/

set_option autoImplicit false

namespace PicAssembly

/-- A fault in a file of the project, under the path that the file had. -/
structure FileError where
  path : Text
  error : Error
  deriving DecidableEq, Repr

namespace FileError

/-- The fault as the user sees it, with the path of the file in front. -/
def render (e : FileError) : Text := e.path ++ ": ".toList ++ e.error.render

end FileError

/-- The files, in the order in which they were found. -/
structure Project where
  files : List SourceFile
  deriving DecidableEq, Repr

namespace Project

/-- The names of the files, in the order of the files. -/
def fileNames (p : Project) : List Text := p.files.map SourceFile.name

/-- What a change leaves of a file, and the fault that stopped it. -/
def attempt (change : SourceFile → Outcome SourceFile) (file : SourceFile) :
    SourceFile × Option FileError :=
  let changed := change file
  (changed.result, changed.fault.map (⟨file.path, ·⟩))

/-- Changes the files that `choose` picks. Gives the faults in the order of the
files. -/
def attemptAll (choose : SourceFile → Bool) (change : SourceFile → Outcome SourceFile)
    (p : Project) : Project × List FileError :=
  let results := p.files.map fun file => if choose file then attempt change file else (file, none)
  (⟨results.map Prod.fst⟩, results.filterMap Prod.snd)

/-- Whether a file has one of the extensions. -/
def isListed (extensions : List Text) (file : SourceFile) : Bool :=
  extensions.any file.hasExtension

/-- Reads the files with one of the extensions as assembly. -/
def parse (extensions : List Text) (p : Project) : Project × List FileError :=
  p.attemptAll (isListed extensions) fun file => .ofExcept file file.parse

/-- Edits the files that were read. -/
def edit (context : Context) (p : Project) : Project × List FileError :=
  p.attemptAll (fun file => file.program.isSome) (Catalog.run context)

/-- Whether a line includes a header in angle brackets. -/
def isBracketedInclude : Line → Bool
  | .directive d => d.isInclude && d.value.head? == some '<' && d.value.getLast? == some '>'
  | _ => false

/-- Lines with another one right behind the first that includes a header in
angle brackets, if there is one. -/
def insertInclude (line : Line) : List Line → List Line
  | [] => []
  | first :: rest =>
    if isBracketedInclude first then first :: line :: rest else first :: insertInclude line rest

/-- The line that includes the header of defined symbols. -/
def definesInclude (context : Context) : Line :=
  .directive ⟨"#include".toList, Include.quoted context.definesFile, none⟩

/-- The text of the header of defined symbols. -/
def definesText (context : Context) : Text :=
  Text.join ['\n'] (context.defines.entries.map fun entry =>
    "#define ".toList ++ entry.1 ++ ' ' :: entry.2)

/-- The header of defined symbols, at the root of the project. -/
def definesHeader (context : Context) : SourceFile :=
  .unread context.definesFile [] (Utf8.encode (definesText context))

/-- Includes the header of defined symbols wherever it is wanted, and adds it to
the files. If the header cannot be read it is not added, and the fault is
reported. -/
def injectDefines (context : Context) (p : Project) : Project × Option FileError :=
  if context.defines.isEmpty then (p, none)
  else
    let files := p.files.map (·.mapProgram fun program =>
      ⟨insertInclude (definesInclude context) program.lines⟩)
    let header := definesHeader context
    match header.parse with
    | .ok header => (⟨files ++ [header]⟩, none)
    | .error e => (⟨files⟩, some ⟨header.path, e⟩)

/-- Writes every program over the content of its file. -/
def unparse (layout : Layout) (p : Project) : Project := ⟨p.files.map (·.unparse layout)⟩

end Project

end PicAssembly
