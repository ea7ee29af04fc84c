import PicAssembly.CommandLine.NameBuilder
import PicAssembly.CommandLine.Converter

/-!
# `PicAssembly.Main`: the program

The program is two commands in one: under a name that ends in `-map` it builds
files of new names, under any other it converts a directory. This module only
connects the commands to the system.
-/

set_option autoImplicit false

namespace PicAssembly

namespace SystemHost

/-- The fault behind an error of the system. Some operations give the system's
number for it, others the negated number. -/
def faultOf : IO.Error → FileFault
  | .noFileOrDirectory .. => .notFound
  | .noSuchThing .. => .notFound
  | .permissionDenied .. => .denied
  | .alreadyExists .. => .alreadyExists
  | .inappropriateType _ code _ =>
    if code = 20 ∨ 0 - code = 20 then .notDirectory else .isDirectory
  | e@(.invalidArgument _ code _) =>
    if code = 36 ∨ 0 - code = 36 then .nameTooLong else .other e.toString.toList
  | e => .other e.toString.toList

/-- An action with its errors as values. -/
def guarded {α : Type} (action : IO α) : IO (Except FileFault α) := do
  try
    return .ok (← action)
  catch e =>
    return .error (faultOf e)

/-- What is under a path, down to the last directory. -/
partial def entryAt (path : String) : IO Entry := do
  let real ← IO.FS.realPath path
  if ← real.isDir then
    match ← guarded real.readDir with
    | .error fault => return .unreadable fault
    | .ok members =>
      let members ← members.toList.mapM fun member => do
        return (member.fileName.toList, ← entryAt member.path.toString)
      return .folder members
  else
    match ← guarded (IO.FS.readBinFile real) with
    | .ok content => return .file content.toList
    | .error fault => return .unreadable fault

/-- Whether there is a directory under a path. Resolving a path can succeed where
the path itself is too long for the system, so its length is looked at first. -/
def isFolder (path : Text) : IO Bool := do
  if FilePath.isLongPath path then return false
  match ← guarded (IO.FS.realPath (String.ofList path)) with
  | .ok real => real.isDir
  | .error _ => return false

/-- The system that the program runs on. -/
def host : Host IO where
  folder? path := do
    if !(← isFolder path) then return none
    match ← guarded (entryAt (String.ofList path)) with
    | .ok entry@(.folder _) => return some entry
    | .ok entry@(.unreadable _) => return some entry
    | _ => return none
  isFolder := isFolder
  readFile path := do
    let content ← guarded (IO.FS.readBinFile (String.ofList path))
    return content.map ByteArray.toList
  makeFolder path := guarded (IO.FS.createDir (String.ofList path))
  writeFile path content :=
    guarded (IO.FS.writeBinFile (String.ofList path) ⟨content.toArray⟩)
  print text := IO.print (String.ofList text)
  printError text := IO.eprint (String.ofList text)

end SystemHost

end PicAssembly

/-- Runs the command that the program's name asks for. -/
def main (args : List String) : IO UInt32 := do
  let name := ((← IO.appPath).fileName).getD ""
  let texts := args.map String.toList
  let action :=
    if name.endsWith "-map" then
      PicAssembly.CommandLine.NameBuilder.run? PicAssembly.SystemHost.host texts
    else PicAssembly.CommandLine.Converter.run? PicAssembly.SystemHost.host texts
  match action with
  | some action => return UInt32.ofNat (← action)
  | none =>
    IO.eprintln "error: the command line is not understood"
    return 1
