import PicAssembly.Edit.Basic

/-!
# `PicAssembly.Edit.Sections`: program sections

`NAME UDATA` and `NAME CODE` become `PSECT` statements, which take the name as
an operand. A section without a name is called after its file. A code section at
a fixed address keeps its label and is followed by an `ORG` statement with the
address.

Sections of data are declared first, each in its place. Then the sections of code
are, from the first line to the last, and a program gets longer where one of them
has an address. `Section.convert` says what becomes of a single line by both.
-/

set_option autoImplicit false

namespace PicAssembly

namespace Section

/-- The operand `name=value`, with a name for a value. -/
def option (name value : Text) : Operand := .assign .assign (.identifier name) (.identifier value)

/-- The operand `delta=2`: a program word has two bytes. -/
def delta : Operand :=
  .assign .assign (.identifier "delta".toList) (.number 2 .hexadecimal ['2'])

/-- The statement for a section of data. -/
def ofData (name : Text) (s : Statement) : Statement :=
  { s with
    label := none
    mnemonic := some "PSECT".toList
    operands := [.identifier name, option "class".toList "UDATA".toList] }

/-- The statements for a section of code. -/
def ofCode (name : Text) (s : Statement) : List Statement :=
  let operands := [.identifier name, option "class".toList "CODE".toList, delta]
  match s.operands with
  | address@(.number ..) :: _ =>
    [⟨some name, some "PSECT".toList, operands ++ [.identifier "abs".toList], s.comment⟩,
      { Statement.empty with mnemonic := some "ORG".toList, operands := [address] }]
  | _ => [{ s with label := none, mnemonic := some "PSECT".toList, operands }]

/-- The lines for a section of code in a file with this stem, if the line opens one. -/
def code? (stem : Text) : Line → Option (List Line)
  | .statement s =>
    if s.hasMnemonic "code".toList then
      some ((ofCode (s.label.getD (stem ++ "_CODE".toList)) s).map .statement)
    else none
  | _ => none

/-- The lines that a line becomes in a file with this stem. -/
def convert (stem : Text) : Line → List Line
  | .statement s =>
    if s.hasMnemonic "udata".toList then
      [.statement (ofData (s.label.getD (stem ++ "_UDATA".toList)) s)]
    else if s.hasMnemonic "code".toList then
      (ofCode (s.label.getD (stem ++ "_CODE".toList)) s).map .statement
    else [.statement s]
  | line => [line]

end Section

namespace Program

/-- Declares the sections of data in a file with this stem. -/
def declareData (stem : Text) (p : Program) : Program :=
  p.mapMnemonic "udata".toList fun s =>
    Section.ofData (s.label.getD (stem ++ "_UDATA".toList)) s

/-- Declares the sections of code in a file with this stem, from the line with this
index on. The lines for a section are put in the place of its statement, and the
next line to look at is the one behind them. -/
@[semireducible]
def declareCodeFrom (stem : Text) (index : Nat) (p : Program) : Program :=
  if h : index < p.lines.length then
    match Section.code? stem p.lines[index] with
    | some lines => declareCodeFrom stem (index + lines.length) (p.replaceAt index lines)
    | none => declareCodeFrom stem (index + 1) p
  else p
termination_by p.size - index
decreasing_by
  -- The program gets longer by one line less than the index moves on.
  · have hsize := size_replaceAt h lines
    have hindex : index < p.size := h
    omega
  · have hindex : index < p.size := h
    omega

/-- Declares all sections in a file with this stem. -/
def declareSections (stem : Text) (p : Program) : Program :=
  (p.declareData stem).declareCodeFrom stem 0

end Program

namespace Edit

/-- Declares program sections. -/
def sections : Edit where
  name := "fix-psects".toList
  change _ file := .done (file.mapProgram (·.declareSections (Text.upper file.stem)))
  reports _ _ := []

end Edit

end PicAssembly
