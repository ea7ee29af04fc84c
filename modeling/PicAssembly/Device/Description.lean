import PicAssembly.Device.Basic
import PicAssembly.PairFile

/-!
# `PicAssembly.Device.Description`: reading a description of a device

A description has records `SFR=NAME,ADDRESS,SIZE` for registers and
`SFRFLD=NAME,ADDRESS,BIT,SIZE` for fields, one on a line. Addresses are
hexadecimal, the other numbers decimal, and further parts do not matter. Other
lines are ignored. A record with too few parts, or with a number that is none,
is malformed: it is skipped and reported.
-/

set_option autoImplicit false

namespace PicAssembly

namespace Device

/-- What a line of a description holds. -/
inductive Entry where
  | register (r : Register)
  | field (f : Field)
  | malformedRegister
  | malformedField
  | other
  deriving DecidableEq, Repr

/-- A malformed record and the kind of record it was to be. -/
structure SkippedRecord where
  kind : Text
  line : SkippedLine
  deriving DecidableEq, Repr

namespace SkippedRecord

/-- The warning for the line: which kind of record it is not. -/
def message (s : SkippedRecord) : Text := s.line.message (s.kind ++ " record".toList)

end SkippedRecord

/-- The parts of a record, without the blanks around them. -/
def parts (record : Text) : List Text := (Text.splitAt ',' record).map Text.trim

/-- An address, with or without `0x`. -/
def address? (t : Text) : Option Nat :=
  let digits := (Text.dropFront? ['0', 'x'] t).or (Text.dropFront? ['0', 'X'] t)
  Numeral.parse? 16 (digits.getD t)

/-- The register that a record describes. -/
def register? (record : Text) : Option Register :=
  match parts record with
  | name :: address :: size :: _ => do
    let address ← address? address
    let size ← Numeral.parse? 10 size
    return ⟨name, address, size⟩
  | _ => none

/-- The field that a record describes. -/
def field? (record : Text) : Option Field :=
  match parts record with
  | name :: address :: bit :: size :: _ => do
    let address ← address? address
    let bit ← Numeral.parse? 10 bit
    let size ← Numeral.parse? 10 size
    return ⟨name, address, bit, size⟩
  | _ => none

/-- What a line holds. -/
def entryOf (line : Text) : Entry :=
  match Text.dropFront? "SFR=".toList line, Text.dropFront? "SFRFLD=".toList line with
  | some record, _ => (register? record).elim .malformedRegister .register
  | none, some record => (field? record).elim .malformedField .field
  | none, none => .other

/-- The device that some lines describe, the first of which has this number, and
the malformed records among them. -/
def parseLines : (number : Nat) → List Text → Device × List SkippedRecord
  | _, [] => (⟨[], []⟩, [])
  | number, line :: lines =>
    let (device, skipped) := parseLines (number + 1) lines
    match entryOf line with
    | .register r => ({ device with registers := r :: device.registers }, skipped)
    | .field f => ({ device with fields := f :: device.fields }, skipped)
    | .malformedRegister => (device, ⟨"SFR".toList, ⟨number, line⟩⟩ :: skipped)
    | .malformedField => (device, ⟨"SFRFLD".toList, ⟨number, line⟩⟩ :: skipped)
    | .other => (device, skipped)

/-- Reads a description. -/
def parse (text : Text) : Device × List SkippedRecord := parseLines 1 (Text.lines text)

end Device

end PicAssembly
