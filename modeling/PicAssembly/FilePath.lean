import PicAssembly.Text.Basic

/-!
# `PicAssembly.FilePath`: paths of files

A path is a list of names with slashes between them. An empty name and a point
stand for the directory that they are looked up in, two points for the directory
around it. A path that begins with a slash begins at the root of all files.
-/

set_option autoImplicit false

namespace PicAssembly

namespace FilePath

/-- The path of `name` seen from the directory `dir`. A name that begins with a
slash stands on its own. -/
def join (dir name : Text) : Text :=
  if name.head? = some '/' then name
  else if dir.isEmpty || dir.getLast? = some '/' then dir ++ name
  else dir ++ '/' :: name

/-- The names in a path. -/
def names (path : Text) : List Text := Text.splitAt '/' path

/-- Whether a name stands for the directory that it is looked up in. -/
def isSelf (name : Text) : Bool := name.isEmpty || name = ['.']

/-- Whether a name stands for the directory around the one that it is looked up
in. -/
def isParent (name : Text) : Bool := name = ['.', '.']

/-- The length of a text in bytes. Limits on names and paths are counted in them. -/
def byteLength (t : Text) : Nat := t.foldr (fun c length => c.utf8Size + length) 0

/-- Whether a name is longer than the 255 bytes that a directory has room for. -/
def isLongName (name : Text) : Bool := 255 < byteLength name

/-- Whether a path is longer than the 4095 bytes that the system takes. -/
def isLongPath (path : Text) : Bool := 4095 < byteLength path

/-- The beginnings of a path that end in a name of their own, the longest first.
Paths are lists of names here, the last name first. A point is a name of its own
only where the path begins with it. -/
def beginnings : List Text → List (List Text)
  | [] => []
  | name :: before =>
    if isSelf name && !(before.isEmpty && name = ['.']) then beginnings before
    else (name :: before) :: beginnings before

/-- A path and those of the directories that it leads through, the longest first.
The path itself is as it was written. The empty path and the root are left out:
both are there already. -/
def ancestors (path : Text) : List Text :=
  match beginnings (names path).reverse with
  | [] => []
  | _ :: shorter => path :: shorter.map fun before => Text.join ['/'] before.reverse

end FilePath

end PicAssembly
