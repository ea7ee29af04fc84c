import PicAssembly.Operand.Printer
import PicAssembly.Program.Basic
import PicAssembly.Text.Blank

/-!
# `PicAssembly.Program.Layout`: the canonical layout of a program

Labels stand in a gutter that is as wide as the widest of them, so that every
mnemonic starts in the same column. A labelled statement begins a paragraph: an
empty line goes before it unless the line before it is blank. No line ends in
blanks.
-/

set_option autoImplicit false

namespace PicAssembly

/-- The choices a layout leaves open. -/
structure Layout where
  /-- What is written before a comment. -/
  marker : Text
  /-- The least width of the gutter. -/
  indent : Nat
  /-- Whether a colon follows a label where the mnemonic allows it. -/
  colons : Bool
  deriving DecidableEq, Repr

namespace Layout

/-- A semicolon before comments, a gutter of four columns, labels without colon. -/
def plain : Layout := ⟨[';'], 4, false⟩

/-- The mnemonics whose label names the thing that they declare, and which never
gets a colon. -/
def declaring : List Text :=
  ["macro".toList, "equ".toList, "udata".toList, "code".toList]

/-- The parts that are not empty, with a space between neighbours. -/
def joinParts (parts : List Text) : Text := Text.join [' '] (parts.filter (!·.isEmpty))

/-- Operands that no mnemonic precedes. The first of them is put in parentheses
if it would be read as a mnemonic or a directive. -/
def headlessOperands : List Operand → Text
  | [] => []
  | operand :: operands =>
    let first := operand.render
    let wrap := first.head?.any fun c => c.isAlpha || c == '_' || c == '#'
    Text.join [',', ' '] (Operand.grouped wrap first :: Operand.renderAll operands)

/-- A comment behind its marker, or nothing. -/
def comment (layout : Layout) : Option Text → Text
  | some text => if text.isEmpty then [] else layout.marker ++ ' ' :: text
  | none => []

/-- Whether the label of this statement gets a colon. -/
def needsColon (layout : Layout) (s : Statement) : Bool :=
  layout.colons && !s.hasOneOf declaring

/-- The label as it is written, with its colon. -/
def label (layout : Layout) (s : Statement) : Text :=
  let name := s.label.getD []
  if name.isEmpty then [] else if layout.needsColon s then name ++ [':'] else name

/-- The text with spaces behind it, up to the given width. -/
def padTo (width : Nat) (t : Text) : Text := t ++ List.replicate (width - t.length) ' '

/-- What stands behind the gutter. -/
def body (layout : Layout) (s : Statement) : Text :=
  joinParts [s.mnemonic.getD [],
    match s.mnemonic with
    | some _ => Operand.renderList s.operands
    | none => headlessOperands s.operands,
    layout.comment s.comment]

/-- A statement with a gutter of the given width. -/
def statement (layout : Layout) (gutter : Nat) (s : Statement) : Text :=
  let body := layout.body s
  Text.trimEnd (padTo gutter (layout.label s) ++ if body.isEmpty then [] else ' ' :: body)

/-- A line with a gutter of the given width. -/
def line (layout : Layout) (gutter : Nat) : Line → Text
  | .directive d => joinParts [d.word, d.value, layout.comment d.comment]
  | .definition d =>
    joinParts ["#define".toList, d.name, Operand.renderList d.operands, layout.comment d.comment]
  | .statement s => layout.statement gutter s

/-- The width of the gutter: that of the longest label, with room for a colon if
there are to be any, and at least the indent. -/
def gutter (layout : Layout) (p : Program) : Nat :=
  (p.statements.filterMap Statement.label).foldr
    (fun label width => max (label.length + if layout.colons then 1 else 0) width) layout.indent

/-- Whether the line is a statement with a label. -/
def isLabelled : Line → Bool
  | .statement s => !(s.label.getD []).isEmpty
  | _ => false

/-- The printed lines of the part of a program that follows a blank line or does
not. -/
def linesFrom (layout : Layout) (gutter : Nat) : (afterBlank : Bool) → List Line → List Text
  | _, [] => []
  | afterBlank, line :: lines =>
    let here := layout.line gutter line :: layout.linesFrom gutter line.isBlank lines
    if isLabelled line && !afterBlank then [] :: here else here

/-- The printed lines of a program. -/
def lines (layout : Layout) (p : Program) : List Text :=
  layout.linesFrom (layout.gutter p) false p.lines

/-- The text of a program. -/
def render (layout : Layout) (p : Program) : Text := Text.join ['\n'] (layout.lines p)

end Layout

end PicAssembly
