import PicAssembly.Host

/-!
# `PicAssembly.Sandbox`: a system in memory

A sandbox is a tree of files, a directory of it that paths are seen from, and
what has been printed. A path leads through the tree name by name. Every name
but the last has to be that of a directory, and a slash behind the last name asks
for a directory too. What is above the root is the root.
-/

set_option autoImplicit false

namespace PicAssembly

namespace Entry

/-- What is under a list of names. -/
def at? : Entry → List Text → Option Entry
  | entry, [] => some entry
  | .folder members, name :: names =>
    match members.lookup name with
    | some entry => entry.at? names
    | none => none
  | _, _ :: _ => none

/-- Members with one put under a name, in the place of what was there. -/
def setMember (name : Text) (entry : Entry) : List (Text × Entry) → List (Text × Entry)
  | [] => [(name, entry)]
  | (n, e) :: members =>
    if n = name then (name, entry) :: members else (n, e) :: setMember name entry members

/-- The tree with something put under a list of names. The directories that it
is in are made if they are missing. -/
def put (new : Entry) : Entry → List Text → Entry
  | _, [] => new
  | .folder members, name :: names =>
    .folder (setMember name (put new ((members.lookup name).getD (.folder [])) names) members)
  | entry, _ :: _ => entry

mutual

/-- All files under a path, with their paths. -/
def listing (path : Text) : Entry → List (Text × Bytes)
  | .file content => [(path, content)]
  | .folder members => listingOf path members
  | .unreadable _ => []

/-- All files among the members of the directory with this path. -/
def listingOf (path : Text) : List (Text × Entry) → List (Text × Bytes)
  | [] => []
  | (name, entry) :: members =>
    listing (FilePath.join path name) entry ++ listingOf path members

end

mutual

/-- What a program is given of the entry under a path. Whatever has a path that is
too long is refused. -/
def within (path : Text) : Entry → Entry
  | .file content =>
    if FilePath.isLongPath path then .unreadable .nameTooLong else .file content
  | .folder members =>
    if FilePath.isLongPath path then .unreadable .nameTooLong
    else .folder (membersWithin path members)
  | .unreadable fault => .unreadable fault

/-- What a program is given of the members of the directory with this path. -/
def membersWithin (path : Text) : List (Text × Entry) → List (Text × Entry)
  | [] => []
  | (name, entry) :: members =>
    (name, within (FilePath.join path name) entry) :: membersWithin path members

end

end Entry

/-- A tree of files, the names from its root to the directory that paths are seen
from, and what has been printed so far. -/
structure Sandbox where
  root : Entry
  place : List Text
  output : Text
  errorOutput : Text

namespace Sandbox

/-- The names from the root to what some names lead to, seen from `place`. -/
def follow (root : Entry) (place : List Text) : List Text → Except FileFault (List Text)
  | [] => .ok place
  | name :: names =>
    match root.at? place with
    | some (.folder members) =>
      if FilePath.isSelf name then follow root place names
      else if FilePath.isParent name then follow root place.dropLast names
      else if FilePath.isLongName name then .error .nameTooLong
      else if (members.lookup name).isSome then follow root (place ++ [name]) names
      else .error .notFound
    | some (.file _) => .error .notDirectory
    | _ => .error .notFound

/-- The names from the root to where a path begins. -/
def start (s : Sandbox) (path : Text) : Except FileFault (List Text) :=
  if path.isEmpty then .error .notFound
  else if FilePath.isLongPath path then .error .nameTooLong
  else .ok (if path.head? = some '/' then [] else s.place)

/-- What is under a path. -/
def find (s : Sandbox) (path : Text) : Except FileFault Entry := do
  let place ← follow s.root (← s.start path) (FilePath.names path)
  match s.root.at? place with
  | some entry => return entry
  | none => throw .notFound

/-- The content of a file. -/
def read (s : Sandbox) (path : Text) : Except FileFault Bytes := do
  match ← s.find path with
  | .file content => return content
  | .folder _ => throw .isDirectory
  | .unreadable fault => throw fault

/-- Where a path ends: a directory that there is, and the last name, which may be
new in it. -/
structure Spot where
  place : List Text
  members : List (Text × Entry)
  name : Text
  /-- Whether the last name has a slash behind it. -/
  slashed : Bool

namespace Spot

/-- What is under the last name. -/
def entry? (spot : Spot) : Option Entry := spot.members.lookup spot.name

/-- Whether the last name stands for a directory by its form. -/
def isFolderName (spot : Spot) : Bool :=
  FilePath.isSelf spot.name || FilePath.isParent spot.name

/-- The tree with something put under the last name. -/
def put (spot : Spot) (new root : Entry) : Entry :=
  Entry.put new root (spot.place ++ [spot.name])

end Spot

/-- Where a path ends. -/
def spot (s : Sandbox) (path : Text) : Except FileFault Spot := do
  let start ← s.start path
  let backwards := (FilePath.names path).reverse
  let ended := backwards.dropWhile List.isEmpty
  let place ← follow s.root start ended.tail.reverse
  match s.root.at? place with
  | some (.folder members) =>
    return ⟨place, members, ended.headD [], ended.length < backwards.length⟩
  | some (.file _) => throw .notDirectory
  | _ => throw .notFound

/-- The tree with a directory made in one that there is. -/
def makeFolder (s : Sandbox) (path : Text) : Except FileFault Entry := do
  let spot ← s.spot path
  if spot.isFolderName then throw .alreadyExists
  if FilePath.isLongName spot.name then throw .nameTooLong
  if spot.entry?.isSome then throw .alreadyExists
  return spot.put (.folder []) s.root

/-- The tree with a file written into a directory that there is. -/
def write (s : Sandbox) (path : Text) (content : Bytes) : Except FileFault Entry := do
  let spot ← s.spot path
  if spot.isFolderName || spot.slashed then throw .isDirectory
  if FilePath.isLongName spot.name then throw .nameTooLong
  match spot.entry? with
  | some (.folder _) => throw .isDirectory
  | _ => return spot.put (.file content) s.root

/-- Changes the tree, unless the change is refused. -/
def change (f : Sandbox → Except FileFault Entry) : StateM Sandbox (Except FileFault Unit) :=
  fun sandbox => match f sandbox with
    | .ok root => (.ok (), { sandbox with root })
    | .error fault => (.error fault, sandbox)

/-- The sandbox as a system to run on. -/
def host : Host (StateM Sandbox) where
  folder? path := do
    match (← get).find path with
    | .ok entry@(.folder _) => return some (entry.within (FilePath.join path []))
    | _ => return none
  isFolder path := do
    match (← get).find path with
    | .ok (.folder _) => return true
    | _ => return false
  readFile path := return (← get).read path
  makeFolder path := change (·.makeFolder path)
  writeFile path content := change (·.write path content)
  print text := modify fun s => { s with output := s.output ++ text }
  printError text := modify fun s => { s with errorOutput := s.errorOutput ++ text }

/-- The directory that paths in a new sandbox are seen from. -/
def home : List Text := ["tmp".toList, "sandbox".toList]

/-- A sandbox with some directories and files. Directories that they are in are
made. -/
def ofFiles (folders : List Text) (files : List (Text × Bytes)) : Sandbox :=
  let along (path : Text) : List Text := (FilePath.names path).filter (!FilePath.isSelf ·)
  let withFolders := folders.foldl (fun root path =>
    if (root.at? (along path)).isSome then root
    else Entry.put (.folder []) root (along path)) (.folder [])
  let withFiles := files.foldl (fun root file =>
    Entry.put (.file file.2) root (along file.1)) withFolders
  ⟨Entry.put withFiles (.folder []) home, home, [], []⟩

/-- A sandbox in which nothing is. -/
def empty : Sandbox := ofFiles [] []

/-- All files below the directory that paths are seen from, with their paths. -/
def files (s : Sandbox) : List (Text × Bytes) :=
  ((s.root.at? s.place).getD (.folder [])).listing []

end Sandbox

end PicAssembly
