import PicAssembly.Device.Basic
import PicAssembly.Program.Basic
import PicAssembly.Text.Blank
import PicAssembly.Text.EditDistance
import PicAssembly.Text.Numeral

/-!
# `PicAssembly.Device.Correspondence`: old names and new names

The description of a device has the new names of its registers and bits. An old
header of the device has the old ones, each in a statement `NAME equ NUMBER`: a
register with its address, and the bits of a register with their positions,
grouped under a comment with the register's name and the word `Bits`.

* `wideNames` gives a register of sixteen bits the name of its lower half.
* `bitNames` gives `REGISTER.BIT` the name of the field at that position. If
  several old bits have the position, the one whose name is nearest to the
  field's is meant.
-/

set_option autoImplicit false

namespace PicAssembly

namespace Device

/-- A field at an address where no register is. -/
structure UnknownRegister where
  field : Text
  address : Nat
  deriving DecidableEq, Repr

namespace UnknownRegister

/-- The fault as the user sees it: the address in hexadecimal and the field that asked for it. -/
def message (e : UnknownRegister) : Text :=
  "unable to find a register at address 0x".toList ++ Numeral.write 16 e.address ++
    " for field ".toList ++ e.field

end UnknownRegister

/-- Adds a pair unless its key is there already. -/
def addIfNew (pairs : List (Text × Text)) (key value : Text) : List (Text × Text) :=
  if pairs.any (·.1 = key) then pairs else pairs ++ [(key, value)]

/-- Every register of sixteen bits with the first of eight bits at its address. -/
def wideNames (device : Device) : List (Text × Text) :=
  (device.registers.filter (·.size = 16)).foldl (fun pairs wide =>
    match device.registers.find? fun r => r.address = wide.address && r.size = 8 with
    | some narrow => addIfNew pairs wide.name narrow.name
    | none => pairs) []

/-- The number that a statement `NAME equ NUMBER` gives its name. -/
def equValue? (s : Statement) : Option Nat :=
  if s.label.isSome && s.hasMnemonic "equ".toList then
    match s.operands with
    | .number value _ _ :: _ => some value
    | _ => none
  else none

/-- Whether a comment on the line contains the text. -/
def mentions (text : Text) (line : Line) : Bool :=
  (line.statement?.bind Statement.comment).any (Text.contains text)

/-- Whether a line holds a comment and no label or mnemonic. -/
def isRemark (line : Line) : Bool :=
  line.statement?.any fun s => s.label.isNone && s.mnemonic.isNone && s.comment.isSome

/-- The lines behind the last that satisfies `p`. -/
def afterLast? (p : Line → Bool) (lines : List Line) : Option (List Line) :=
  let after := lines.reverse.takeWhile fun line => !p line
  if after.length = lines.length then none else some after.reverse

/-- The statements about the bits of a register: those behind the last comment
that announces them, up to the next remark. Without a remark there are none. -/
def bitBlock (header : Program) (register : Text) : List Statement :=
  match afterLast? (mentions (register ++ " Bits".toList)) header.lines with
  | none => []
  | some rest =>
    if rest.any isRemark then
      (rest.takeWhile fun line => !isRemark line).filterMap Line.statement?
    else []

/-- The first of some candidates that is nearest to a name. -/
def nearest? (name : Text) : List Text → Option Text
  | [] => none
  | candidate :: candidates =>
    let distance (t : Text) : Nat := EditDistance.distance name (Text.trim t)
    match nearest? name candidates with
    | none => some candidate
    | some other => if distance candidate ≤ distance other then some candidate else some other

/-- The register and the bit that the old header has at the place of a field. -/
def oldName? (header : Program) (field : Field) : Option (Text × Text) := do
  let s ← header.statements.find? fun s => equValue? s = some field.address
  let register := s.label.getD []
  let candidates := (bitBlock header register).filter fun s => equValue? s = some field.bit
  let bit ← nearest? field.name (candidates.filterMap Statement.label)
  return (register, bit)

/-- Adds the pairs for some fields to those there are. -/
def addBitNames (header : Program) (device : Device) :
    List Field → List (Text × Text) → Except UnknownRegister (List (Text × Text))
  | [], pairs => .ok pairs
  | field :: fields, pairs =>
    if device.registers.any (·.address = field.address) then
      addBitNames header device fields
        (match oldName? header field with
        | some (register, bit) => addIfNew pairs (register ++ '.' :: bit) field.name
        | none => pairs)
    else .error ⟨field.name, field.address⟩

/-- Every bit of the old header with the name of its field. The first name for a
bit is kept. -/
def bitNames (header : Program) (device : Device) :
    Except UnknownRegister (List (Text × Text)) :=
  addBitNames header device device.fields []

end Device

end PicAssembly
