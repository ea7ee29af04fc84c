import PicAssembly.Line.Basic

/-!
# `PicAssembly.Program.Basic`: programs

A program is its lines, one for every line of the text it was read from.
-/

set_option autoImplicit false

namespace PicAssembly

/-- The lines of a file, in order. -/
structure Program where
  lines : List Line
  deriving DecidableEq, Repr

namespace Program

/-- How many lines the program has. -/
def size (p : Program) : Nat := p.lines.length

/-- Whether the program has no lines. -/
def isEmpty (p : Program) : Bool := p.lines.isEmpty

/-- Puts a line before the one with this index, or at the end. -/
def insertAt (p : Program) (index : Nat) (line : Line) : Program :=
  ⟨p.lines.take index ++ line :: p.lines.drop index⟩

/-- The line with this index, and the program without it. -/
def removeAt? (p : Program) (index : Nat) : Option (Line × Program) :=
  p.lines[index]?.map (·, ⟨p.lines.eraseIdx index⟩)

/-- Puts any number of lines in the place of the one with this index. -/
def replaceAt (p : Program) (index : Nat) (lines : List Line) : Program :=
  ⟨p.lines.take index ++ lines ++ p.lines.drop (index + 1)⟩

/-- A replaced line makes way for as many lines as are put in its place. The sizes are added up on
both sides, so that no natural number is taken from a smaller one. -/
theorem size_replaceAt {p : Program} {index : Nat} (h : index < p.size) (lines : List Line) :
    (p.replaceAt index lines).size + 1 = p.size + lines.length := by
  rw [size] at h
  rw [size, replaceAt, List.length_append, List.length_append, List.length_take, List.length_drop,
    size]
  omega

/-- The statements of the program, in order. -/
def statements (p : Program) : List Statement := p.lines.filterMap Line.statement?

/-- Changes every line. -/
def mapLines (f : Line → Line) (p : Program) : Program := ⟨p.lines.map f⟩

/-- Changes every statement. -/
def mapStatements (f : Statement → Statement) (p : Program) : Program :=
  p.mapLines (Line.mapStatement f)

/-- The statements with this mnemonic, in any letter case. -/
def withMnemonic (p : Program) (mnemonic : Text) : List Statement :=
  p.statements.filter (·.hasMnemonic mnemonic)

/-- Changes the statements with this mnemonic, in any letter case. -/
def mapMnemonic (mnemonic : Text) (f : Statement → Statement) (p : Program) : Program :=
  p.mapStatements fun s => if s.hasMnemonic mnemonic then f s else s

end Program

end PicAssembly
