import PicAssembly.Proofs.Device.Records
import PicAssembly.Proofs.Text.Lines

/-!
# `PicAssembly.Proofs.Device.DescriptionFormat`: descriptions that are written and read

`Device.Describes` says how a device is written down: its registers and its fields are records on
lines, each kind in its order, and between them stand records that are spoiled and lines that are
no records. Only the spoiled records are reported, each with its line.

* `Device.parse_of_describes`: whatever the description of a device is, it is read as the device,
  and every device whose names and numbers have the form of a record's has a description.
-/

set_option autoImplicit false

namespace PicAssembly

/-- A name that can be a part of a record. -/
structure IsRecordName (name : Text) : Prop where
  trimmed : Text.Trimmed name
  noComma : ',' ∉ name
  noLineFeed : '\n' ∉ name

instance (name : Text) : Decidable (IsRecordName name) :=
  decidable_of_iff (Text.Trimmed name ∧ ',' ∉ name ∧ '\n' ∉ name)
    ⟨fun h => ⟨h.1, h.2.1, h.2.2⟩, fun h => ⟨h.trimmed, h.noComma, h.noLineFeed⟩⟩

/-- The register has a name and numbers that can be written in a record. -/
structure Register.Describable (r : Register) : Prop where
  name : IsRecordName r.name
  address : r.address < Numeral.limit
  size : r.size < Numeral.limit

/-- The field has a name and numbers that can be written in a record. -/
structure Field.Describable (f : Field) : Prop where
  name : IsRecordName f.name
  address : f.address < Numeral.limit
  bit : f.bit < Numeral.limit
  size : f.size < Numeral.limit

namespace Device

open Numeral (limit)

/-- The device has only registers and fields that can be written in records. -/
structure Describable (device : Device) : Prop where
  registers : ∀ r ∈ device.registers, r.Describable
  fields : ∀ f ∈ device.fields, f.Describable

/-- What a record of a register begins with. -/
def registerMark : Text := "SFR=".toList

/-- What a record of a field begins with. -/
def fieldMark : Text := "SFRFLD=".toList

/-- The lines, the first of which has this number, describe the device, and some of them are
reported. -/
inductive Describes : Nat → List Text → Device → List SkippedRecord → Prop where
  | nil {number : Nat} : Describes number [] ⟨[], []⟩ []
  | register {number : Nat} {lines : List Text} {record : Text} {r : Register}
      {registers : List Register} {fields : List Field} {skipped : List SkippedRecord} :
      WritesRecord r.name r.address [r.size] record →
      Describes (number + 1) lines ⟨registers, fields⟩ skipped →
      Describes number ((registerMark ++ record) :: lines) ⟨r :: registers, fields⟩ skipped
  | field {number : Nat} {lines : List Text} {record : Text} {f : Field}
      {registers : List Register} {fields : List Field} {skipped : List SkippedRecord} :
      WritesRecord f.name f.address [f.bit, f.size] record →
      Describes (number + 1) lines ⟨registers, fields⟩ skipped →
      Describes number ((fieldMark ++ record) :: lines) ⟨registers, f :: fields⟩ skipped
  | other {number : Nat} {lines : List Text} {line : Text} {device : Device}
      {skipped : List SkippedRecord} : ¬ registerMark <+: line → ¬ fieldMark <+: line →
      Describes (number + 1) lines device skipped → Describes number (line :: lines) device skipped
  | spoiledRegister {number : Nat} {lines : List Text} {record : Text} {device : Device}
      {skipped : List SkippedRecord} : SpoilsRecord 1 record →
      Describes (number + 1) lines device skipped →
      Describes number ((registerMark ++ record) :: lines) device
        (⟨"SFR".toList, number, registerMark ++ record⟩ :: skipped)
  | spoiledField {number : Nat} {lines : List Text} {record : Text} {device : Device}
      {skipped : List SkippedRecord} : SpoilsRecord 2 record →
      Describes (number + 1) lines device skipped →
      Describes number ((fieldMark ++ record) :: lines) device
        (⟨"SFRFLD".toList, number, fieldMark ++ record⟩ :: skipped)

/-! ### Records and lines -/

section

variable {record line : Text}

/-- A record that is written for a register is read as the register. -/
theorem register?_of_writesRecord {r : Register} (hr : r.Describable)
    (h : WritesRecord r.name r.address [r.size] record) : register? record = some r := by
  obtain ⟨second, others, more, hparts, haddress, hothers⟩ :=
    exists_parts_of_writesRecord h hr.name.trimmed hr.name.noComma hr.address (by simp [hr.size])
  obtain ⟨size, _, hsize, hnil, rfl⟩ := List.forall₂_cons_left_iff.mp hothers
  obtain rfl := List.forall₂_nil_left_iff.mp hnil
  simp [register?, hparts, haddress, hsize]

/-- A record that is spoilt is read as no register. It should have one number behind the address. -/
theorem register?_of_spoilsRecord (h : SpoilsRecord 1 record) : register? record = none := by
  rcases parts_of_spoilsRecord h with hfew | ⟨name, second, others, more, hparts, hcount, hbad⟩
  · rw [register?]
    split
    · next hparts =>
      simp only [hparts, List.length_cons] at hfew
      omega
    · rfl
  · obtain ⟨size, rfl⟩ := List.length_eq_one_iff.mp hcount
    rcases hbad with haddress | ⟨part, hpart, hsize⟩
    · simp [register?, hparts, haddress]
    · rw [List.mem_singleton.mp hpart] at hsize
      simp [register?, hparts, hsize]

/-- A record that is written for a field is read as the field. -/
theorem field?_of_writesRecord {f : Field} (hf : f.Describable)
    (h : WritesRecord f.name f.address [f.bit, f.size] record) : field? record = some f := by
  obtain ⟨second, others, more, hparts, haddress, hothers⟩ :=
    exists_parts_of_writesRecord h hf.name.trimmed hf.name.noComma hf.address
      (by simp [hf.bit, hf.size])
  obtain ⟨bit, _, hbit, hrest, rfl⟩ := List.forall₂_cons_left_iff.mp hothers
  obtain ⟨size, _, hsize, hnil, rfl⟩ := List.forall₂_cons_left_iff.mp hrest
  obtain rfl := List.forall₂_nil_left_iff.mp hnil
  simp [field?, hparts, haddress, hbit, hsize]

/-- A record that is spoilt is read as no field. It should have two numbers behind the address. -/
theorem field?_of_spoilsRecord (h : SpoilsRecord 2 record) : field? record = none := by
  rcases parts_of_spoilsRecord h with hfew | ⟨name, second, others, more, hparts, hcount, hbad⟩
  · rw [field?]
    split
    · next hparts =>
      simp only [hparts, List.length_cons] at hfew
      omega
    · rfl
  · obtain ⟨bit, size, rfl⟩ := List.length_eq_two.mp hcount
    rcases hbad with haddress | ⟨part, hpart, hnumber⟩
    · simp [field?, hparts, haddress]
    · rcases List.mem_pair.mp hpart with rfl | rfl
      · simp [field?, hparts, hnumber]
      · simp [field?, hparts, hnumber]

/-- A line with the mark of a register holds the register, or a malformed record of one. -/
theorem entryOf_register (record : Text) :
    entryOf (registerMark ++ record) = (register? record).elim .malformedRegister .register := rfl

/-- A line with the mark of a field holds the field, or a malformed record of one. The mark of a
register is no beginning of it, so the order of the two checks does not matter. -/
theorem entryOf_field (record : Text) :
    entryOf (fieldMark ++ record) = (field? record).elim .malformedField .field := rfl

/-- A line with neither mark holds nothing that is looked at. -/
theorem entryOf_other (hregister : ¬ registerMark <+: line) (hfield : ¬ fieldMark <+: line) :
    entryOf line = .other := by
  have hnone {mark : Text} (hmark : ¬ mark <+: line) : Text.dropFront? mark line = none :=
    Option.eq_none_iff_forall_ne_some.mpr fun rest hrest =>
      hmark ⟨rest, (Text.dropFront?_eq_some_iff.mp hrest).symm⟩
  have hregister' : Text.dropFront? "SFR=".toList line = none := hnone hregister
  have hfield' : Text.dropFront? "SFRFLD=".toList line = none := hnone hfield
  rw [entryOf, hregister', hfield']

end

/-! ### Descriptions -/

section

variable {number : Nat} {lines : List Text} {device : Device} {skipped : List SkippedRecord}

/-- A described device is read line by line. -/
theorem Describes.parseLines_eq (h : Describes number lines device skipped)
    (hdevice : device.Describable) : parseLines number lines = (device, skipped) := by
  induction h with
  | nil => rfl
  | register hrecord _ ih =>
      obtain ⟨hr, hregisters⟩ := List.forall_mem_cons.mp hdevice.registers
      rw [parseLines, ih ⟨hregisters, hdevice.fields⟩, entryOf_register,
        register?_of_writesRecord hr hrecord]
      rfl
  | field hrecord _ ih =>
      obtain ⟨hf, hfields⟩ := List.forall_mem_cons.mp hdevice.fields
      rw [parseLines, ih ⟨hdevice.registers, hfields⟩, entryOf_field,
        field?_of_writesRecord hf hrecord]
      rfl
  | other hregister hfield _ ih => rw [parseLines, ih hdevice, entryOf_other hregister hfield]
  | spoiledRegister hrecord _ ih =>
      rw [parseLines, ih hdevice, entryOf_register, register?_of_spoilsRecord hrecord]
      rfl
  | spoiledField hrecord _ ih =>
      rw [parseLines, ih hdevice, entryOf_field, field?_of_spoilsRecord hrecord]
      rfl

end

/-! ### Writing -/

/-- A record with nothing but its parts, and the shortest spellings of its numbers. -/
def record (name : Text) (address : Nat) (numbers : List Nat) : Text :=
  Text.join [','] (name :: Numeral.write 16 address :: numbers.map (Numeral.write 10))

/-- The line for a register. -/
def registerLine (r : Register) : Text := registerMark ++ record r.name r.address [r.size]

/-- The line for a field. -/
def fieldLine (f : Field) : Text := fieldMark ++ record f.name f.address [f.bit, f.size]

/-- The lines for all registers and then those for all fields. -/
def descriptionLines (device : Device) : List Text :=
  device.registers.map registerLine ++ device.fields.map fieldLine

/-- The description of a device, with its registers before its fields. -/
def render (device : Device) : Text := (descriptionLines device).flatMap (· ++ ['\n'])

section

variable {device : Device}

/-- The shortest spelling of a number is a way to write it, if no mark is needed. -/
theorem writesNumber_write {base : Nat} (hbase : 1 < base) (hle : base ≤ 16) {marks : List Text}
    (hmarks : [] ∈ marks) (n : Nat) : WritesNumber marks base n (Numeral.write base n) :=
  ⟨[], hmarks, _, pads_self _, Numeral.spells_write hbase hle n⟩

/-- A record with nothing but its parts is a way to write it. -/
theorem writesRecord_record (name : Text) (address : Nat) (numbers : List Nat) :
    WritesRecord name address numbers (record name address numbers) := by
  refine ⟨name, _, numbers.map (Numeral.write 10), [], by rw [List.append_nil]; rfl,
    pads_self name, writesNumber_write (by decide) (by decide) (by decide) address, ?_⟩
  exact List.forall₂_map_right_iff.mpr (List.forall₂_same.mpr fun n _ =>
    writesNumber_write (by decide) (by decide) List.mem_cons_self n)

/-- A number is written without blanks. -/
theorem isBlank_of_mem_write {base : Nat} (hbase : 1 < base) (hle : base ≤ 16) {n : Nat} {c : Char}
    (hc : c ∈ Numeral.write base n) : Text.isBlank c = false :=
  Numeral.isBlank_of_digit? (Numeral.isDigits_write hbase hle n c hc)

/-- Behind its name a record has only digits and commas. -/
theorem exists_record (name : Text) (address : Nat) (numbers : List Nat) :
    ∃ tail, record name address numbers = name ++ [','] ++ tail ∧ tail ≠ [] ∧
      ∀ c ∈ tail, Text.isBlank c = false := by
  have hblank : ∀ piece ∈ Numeral.write 16 address :: numbers.map (Numeral.write 10),
      ∀ c ∈ piece, Text.isBlank c = false :=
    List.forall_mem_cons.mpr ⟨fun c => isBlank_of_mem_write (by decide) (by decide),
      List.forall_mem_map.mpr fun n _ c => isBlank_of_mem_write (by decide) (by decide)⟩
  have hne : ∀ piece ∈ Numeral.write 16 address :: numbers.map (Numeral.write 10), piece ≠ [] :=
    List.forall_mem_cons.mpr ⟨Numeral.write_ne_nil 16 address,
      List.forall_mem_map.mpr fun n _ => Numeral.write_ne_nil 10 n⟩
  refine ⟨_, Text.join_cons_cons [','] name _ _, ?_,
    Text.forall_mem_join (List.forall_mem_singleton.mpr rfl) hblank⟩
  refine (Text.solid_join (fun piece hpiece => ⟨hne piece hpiece, fun c hc => ?_⟩) [',']).2
    (List.cons_ne_nil _ _)
  exact hblank piece hpiece c (List.mem_of_mem_getLast? hc)

/-- A line that ends in a record has no line end in it, and no part of one at its end. -/
theorem isLine_record {mark name : Text} (hmark : '\n' ∉ mark) (hname : '\n' ∉ name)
    (address : Nat) (numbers : List Nat) :
    '\n' ∉ mark ++ record name address numbers ∧
      (mark ++ record name address numbers).getLast? ≠ some '\r' := by
  obtain ⟨tail, htail, hne, hblank⟩ := exists_record name address numbers
  have hfree : '\n' ∉ tail := fun hmem => absurd (hblank '\n' hmem) (by decide)
  rw [htail, ← List.append_assoc]
  constructor
  · simp [hmark, hname, hfree]
  · rw [List.getLast?_append_of_ne_nil _ hne]
    intro hlast
    exact absurd (hblank '\r' (List.mem_of_mem_getLast? hlast)) (by decide)

/-- The lines for some registers describe them, in front of lines that describe fields only. -/
theorem describes_registers (registers : List Register) {number : Nat} {lines : List Text}
    {fields : List Field} (h : ∀ number, Describes number lines ⟨[], fields⟩ []) :
    Describes number (registers.map registerLine ++ lines) ⟨registers, fields⟩ [] := by
  induction registers generalizing number with
  | nil => exact h number
  | cons r registers ih => exact .register (writesRecord_record _ _ _) ih

/-- The lines for some fields describe them. -/
theorem describes_fields (fields : List Field) (number : Nat) :
    Describes number (fields.map fieldLine) ⟨[], fields⟩ [] := by
  induction fields generalizing number with
  | nil => exact .nil
  | cons f fields ih => exact .field (writesRecord_record _ _ _) (ih (number + 1))

/-- The lines for a device describe it, and none of them is reported. -/
theorem describes_descriptionLines (device : Device) :
    Describes 1 (descriptionLines device) device [] :=
  describes_registers device.registers (describes_fields device.fields)

/-- The description of a device is made of its lines. They hold no line feeds and end in no carriage
return, since names and numbers hold neither. -/
theorem isLines_render (h : device.Describable) :
    Text.IsLines (descriptionLines device) (render device) := by
  refine Text.isLines_flatMap fun line hline => ?_
  rcases List.mem_append.mp hline with hline | hline
  · obtain ⟨r, hr, rfl⟩ := List.mem_map.mp hline
    exact isLine_record (by decide) (h.registers r hr).name.noLineFeed _ _
  · obtain ⟨f, hf, rfl⟩ := List.mem_map.mp hline
    exact isLine_record (by decide) (h.fields f hf).name.noLineFeed _ _

end

/-- However a device is described, it is read from the description as it is, and exactly the
spoiled records are reported. Every device with names and numbers that can stand in a record has a
description. -/
theorem parse_of_describes {device : Device} (h : device.Describable) :
    (∀ lines skipped text, Describes 1 lines device skipped → Text.IsLines lines text →
      parse text = (device, skipped)) ∧ parse (render device) = (device, []) := by
  have hread (lines : List Text) (skipped : List SkippedRecord) (text : Text)
      (hdescribes : Describes 1 lines device skipped) (hlines : Text.IsLines lines text) :
      parse text = (device, skipped) := by
    rw [parse, Text.lines_eq_of_isLines hlines, hdescribes.parseLines_eq h]
  exact ⟨hread, hread _ _ _ (describes_descriptionLines device) (isLines_render h)⟩

/-- A description with both letter cases, marks, blanks, further parts, another line, both line
ends, and records with too few parts, without a digit and with a number beyond 64 bits. -/
theorem parse_of_describes_mixed :
    let device : Device := ⟨[⟨"STATUS".toList, 3, 8⟩, ⟨"FSR0".toList, 0xFE9, 16⟩],
      [⟨"Z".toList, 3, 2, 1⟩]⟩
    let lines := [";".toList, registerMark ++ " STATUS,0x03, 8,x".toList,
      fieldMark ++ "Z,0X3,2,1".toList, registerMark ++ "TMR0".toList,
      registerMark ++ "FSR0,fE9,16".toList, fieldMark ++ "C,z,0,1".toList,
      registerMark ++ "W,10000000000000000,8".toList]
    let text := ";\nSFR= STATUS,0x03, 8,x\r\nSFRFLD=Z,0X3,2,1\nSFR=TMR0\n".toList ++
      "SFR=FSR0,fE9,16\nSFRFLD=C,z,0,1\r\nSFR=W,10000000000000000,8".toList
    let skipped := [⟨"SFR".toList, ⟨4, registerMark ++ "TMR0".toList⟩⟩,
      ⟨"SFRFLD".toList, ⟨6, fieldMark ++ "C,z,0,1".toList⟩⟩,
      ⟨"SFR".toList, ⟨7, registerMark ++ "W,10000000000000000,8".toList⟩⟩]
    device.Describable ∧ Describes 1 lines device skipped ∧ Text.IsLines lines text ∧
      parse text = (device, skipped) ∧ parse (render device) = (device, []) := by
  intro device lines text skipped
  have hdevice : device.Describable := {
    registers := List.forall_mem_cons.mpr ⟨⟨by decide, by decide, by decide⟩,
      List.forall_mem_singleton.mpr ⟨by decide, by decide, by decide⟩⟩
    fields := List.forall_mem_singleton.mpr ⟨by decide, by decide, by decide, by decide⟩ }
  have hlines : Text.IsLines lines text := by
    have h : Text.lines text = lines := by decide +kernel
    exact h ▸ Text.isLines_lines text
  -- Line by line, with a number that is spoilt in two ways: no digit, and a value that is too
  -- large.
  have hdescribes : Describes 1 lines device skipped := by
    refine .other (by decide) (by decide) ?_
    refine .register ⟨" STATUS".toList, "0x03".toList, [" 8".toList], ["x".toList], rfl,
      ⟨[' '], [], rfl, List.forall_mem_singleton.mpr rfl, List.forall_mem_nil _⟩, ?_, ?_⟩ ?_
    · exact ⟨['0', 'x'], by decide, ['0', '3'], pads_self _, by decide⟩
    · exact .cons ⟨[], by decide, ['8'], ⟨[' '], [], rfl, List.forall_mem_singleton.mpr rfl,
        List.forall_mem_nil _⟩, by decide⟩ .nil
    refine .field ⟨"Z".toList, "0X3".toList, ["2".toList, "1".toList], [], rfl, pads_self _, ?_,
      ?_⟩ ?_
    · exact ⟨['0', 'X'], by decide, ['3'], pads_self _, by decide⟩
    · exact .cons ⟨[], by decide, ['2'], pads_self _, by decide⟩
        (.cons ⟨[], by decide, ['1'], pads_self _, by decide⟩ .nil)
    refine .spoiledRegister ⟨["TMR0".toList], rfl, by decide, .inl (by decide)⟩ ?_
    refine .register ⟨"FSR0".toList, "fE9".toList, ["16".toList], [], rfl, pads_self _, ?_, ?_⟩ ?_
    · exact ⟨[], by decide, "fE9".toList, pads_self _, by decide⟩
    · exact .cons ⟨[], by decide, "16".toList, pads_self _, by decide⟩ .nil
    refine .spoiledField ⟨["C".toList, "z".toList, "0".toList, "1".toList], rfl, by decide,
      .inr ⟨_, _, ["0".toList, "1".toList], [], rfl, rfl, .inl ?_⟩⟩ ?_
    · exact ⟨[], by decide, ['z'], pads_self _, .inl (List.forall_mem_singleton.mpr rfl)⟩
    refine .spoiledRegister ⟨["W".toList, "10000000000000000".toList, "8".toList], rfl, by decide,
      .inr ⟨_, _, ["8".toList], [], rfl, rfl, .inl ?_⟩⟩ .nil
    exact ⟨[], by decide, _, pads_self _, .inr ⟨limit, by decide +kernel, le_rfl⟩⟩
  obtain ⟨hread, hrender⟩ := parse_of_describes hdevice
  exact ⟨hdevice, hdescribes, hlines, hread _ _ _ hdescribes hlines, hrender⟩

end Device

end PicAssembly
