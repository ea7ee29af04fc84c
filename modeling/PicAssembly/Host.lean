import PicAssembly.SourceFile

/-!
# `PicAssembly.Host`: the system that a program runs on

A program needs little of its system: to look at a directory, to make one, to
read and write files, and to print. `Host m` is that, with effects in a monad
`m`. A program written against it runs on the real system and on a `Sandbox`,
where its effects can be reasoned about.

`Host.makeFolders` makes a directory together with those that it is in.
-/

set_option autoImplicit false

namespace PicAssembly

/-- Why the system refuses an operation on a file. -/
inductive FileFault where
  | notFound | denied | alreadyExists | notDirectory | isDirectory | nameTooLong | notUtf8
  /-- Any other refusal, in the system's words. -/
  | other (message : Text)
  deriving DecidableEq, Repr

namespace FileFault

/-- The words in which the operating system reports the fault. -/
def message : FileFault → Text
  | .notFound => "No such file or directory (os error 2)".toList
  | .denied => "Permission denied (os error 13)".toList
  | .alreadyExists => "File exists (os error 17)".toList
  | .notDirectory => "Not a directory (os error 20)".toList
  | .isDirectory => "Is a directory (os error 21)".toList
  | .nameTooLong => "File name too long (os error 36)".toList
  | .notUtf8 => "stream did not contain valid UTF-8".toList
  | .other message => message

end FileFault

/-- A fault with the path of the file. -/
structure PathFault where
  path : Text
  fault : FileFault
  deriving DecidableEq, Repr

namespace PathFault

/-- The fault with the path it is about in front, as it is printed. -/
def render (e : PathFault) : Text := e.path ++ ": ".toList ++ e.fault.message

end PathFault

/-- What is found under a path. -/
inductive Entry where
  | file (content : Bytes)
  | folder (members : List (Text × Entry))
  /-- Something that the system does not let a program read. -/
  | unreadable (fault : FileFault)

/-- The operations that a program needs of its system. -/
structure Host (m : Type → Type) where
  /-- What is under the path of a directory, or `none` if it is no directory. -/
  folder? : Text → m (Option Entry)
  /-- Whether there is a directory under a path. -/
  isFolder : Text → m Bool
  readFile : Text → m (Except FileFault Bytes)
  /-- Makes a directory in one that is there. -/
  makeFolder : Text → m (Except FileFault Unit)
  writeFile : Text → Bytes → m (Except FileFault Unit)
  /-- Writes to the standard output. -/
  print : Text → m Unit
  /-- Writes to the standard error. -/
  printError : Text → m Unit

namespace Host

variable {m : Type → Type} [Monad m]

/-- Reads a file that has to be text. -/
def readText (host : Host m) (path : Text) : m (Except FileFault Text) := do
  match ← host.readFile path with
  | .ok bytes => return match Utf8.decode? bytes with
    | some text => .ok text
    | none => .error .notUtf8
  | .error fault => return .error fault

/-- Makes a directory, unless it is there. -/
def ensureFolder (host : Host m) (path : Text) : m (Except FileFault Unit) := do
  match ← host.makeFolder path with
  | .ok () => return .ok ()
  | .error fault => return if ← host.isFolder path then .ok () else .error fault

/-- Makes the directory under the first path. If one that it is in is missing,
makes those under the other paths before it. -/
def makeAlong (host : Host m) : List Text → m (Except FileFault Unit)
  | [] => return .ok ()
  | path :: shorter => do
    match ← host.ensureFolder path with
    | .error .notFound =>
      match ← makeAlong host shorter with
      | .ok () => host.ensureFolder path
      | .error fault => return .error fault
    | result => return result

/-- Makes a directory and those that it is in, as far as they are missing. -/
def makeFolders (host : Host m) (path : Text) : m (Except FileFault Unit) :=
  host.makeAlong (FilePath.ancestors path)

end Host

end PicAssembly
