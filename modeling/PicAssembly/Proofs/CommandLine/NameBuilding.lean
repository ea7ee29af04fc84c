import PicAssembly.CommandLine.NameBuilder
import PicAssembly.Proofs.CommandLine.Sessions
import PicAssembly.Proofs.Context.PairFile
import PicAssembly.Proofs.Context.Registers
import PicAssembly.Proofs.Device.BitNames

/-!
# `PicAssembly.Proofs.CommandLine.NameBuilding`: new names of bits, from the builder to the reader

The builder prints new names of bits, and the converter reads what was printed. Keys are made of
names and values of trimmed parts of lines, so they are read as they were printed
(`NameBuilder.isPart_of_mem_bitNames`). Names are ASCII text, so the lower case in which keys are
looked up is that of ASCII letters.

* `NameBuilder.bitNames_read_back`: what is printed, what is read, and what is found.
-/

set_option autoImplicit false

namespace PicAssembly

namespace CommandLine

namespace NameBuilder

open Session

/-! ### What is printed -/

section

variable {s : Sandbox} {path text : Text}

/-- A text that is there is read, and nothing is printed on the standard output. -/
theorem yields_readText (least : Log.Level) (h : s.text path = .ok text) :
    Yields (readText Sandbox.host least path) s (.ok text) [] := by
  refine .bind (.readText path) (?_ : Yields _ s (.ok text) [])
  rw [h]
  exact .pure text

/-- A device is what its description says. The reports on malformed records are not part of the
output. -/
theorem yields_readDevice (least : Log.Level) (h : s.text path = .ok text) :
    Yields (readDevice Sandbox.host least path) s (.ok (Device.parse text).1) [] :=
  .bind (yields_readText least h) <| .bind (.reportError least _) <|
    .bind (.reportError least _) (.pure _)

/-- A program whose text can be read is read, and nothing is printed on the standard output. -/
theorem yields_readProgram (least : Log.Level) {program : Program} (h : s.text path = .ok text)
    (hprogram : Program.parse text = .ok program) :
    Yields (readProgram Sandbox.host least path) s (.ok program) [] := by
  refine .bind (yields_readText least h) (?_ : Yields _ s (.ok program) [])
  rw [hprogram]
  exact .bind (.reportError least _) (.pure program)

/-- The builder prints new names of bits as a file of pairs. -/
theorem yields_serve {headerPath descriptionPath header description : Text} {program : Program}
    {pairs : List (Text × Text)} (verbosity : Nat) (hheader : s.text headerPath = .ok header)
    (hdescription : s.text descriptionPath = .ok description)
    (hprogram : Program.parse header = .ok program)
    (hpairs : (Device.parse description).1.bitNames program = .ok pairs) :
    Yields (serve Sandbox.host ⟨.bits headerPath descriptionPath, verbosity⟩) s (.ok ())
      (PairFile.render pairs) := by
  have hfor : Yields (pairsFor Sandbox.host (.ofVerbosity verbosity)
      (.bits headerPath descriptionPath)) s (.ok pairs) [] := by
    refine .bind (yields_readDevice _ hdescription) <|
      .bind (yields_readProgram _ hheader hprogram) (?_ : Yields _ s (.ok pairs) [])
    rw [hpairs]
    exact .pure pairs
  exact .bind hfor <| .bind (.reportError _ _) <| .forM fun pair _ => .print _

end

/-! ### What is read and found -/

section

variable {header : Program} {text : Text} {pairs : List (Text × Text)}

/-- The key of a bit is made of characters that names go on with: its point is one of them. -/
theorem isGlue_key {register bit : Text} (hregister : Token.IsName register)
    (hbit : Token.IsName bit) : ∀ c ∈ register ++ '.' :: bit, Token.isGlue c := by
  rw [List.forall_mem_append, List.forall_mem_cons]
  exact ⟨fun c hc => Token.isGlue_of_isIdentifierPart (hregister.isIdentifierPart c hc), rfl,
    fun c hc => Token.isGlue_of_isIdentifierPart (hbit.isIdentifierPart c hc)⟩

/-- The key of a bit is a text of ASCII characters, so its lower case is the simple one. -/
theorem isAscii_key {register bit : Text} (hregister : Token.IsName register)
    (hbit : Token.IsName bit) : Text.IsAscii (register ++ '.' :: bit) :=
  fun c hc => Token.toNat_lt_of_isGlue (isGlue_key hregister hbit c hc)

/-- A key made of two names has the form of one that was read. -/
theorem isPart_key {register bit : Text} (hregister : Token.IsName register)
    (hbit : Token.IsName bit) : PairFile.IsPart (register ++ '.' :: bit) := by
  have hglue := isGlue_key hregister hbit
  have hnot {c : Char} (hc : Token.isGlue c = false) : c ∉ register ++ '.' :: bit :=
    fun hmem => Bool.false_ne_true (hc.symm.trans (hglue c hmem))
  refine ⟨by simp, ⟨fun c hc => ?_, Token.solid_of_isGlue hglue⟩, hnot rfl, hnot rfl⟩
  exact Token.isBlank_of_isGlue (hglue c (List.mem_of_head? hc))

/-- The pairs for a header and a description that were read have the form of pairs that are read,
if no name of a field is empty or has an equals sign. -/
theorem isPart_of_mem_bitNames {headerText description : Text} {program : Program}
    (hprogram : Program.parse headerText = .ok program)
    (hfields : ∀ field ∈ (Device.parse description).1.fields, field.name ≠ [] ∧ '=' ∉ field.name)
    (hpairs : (Device.parse description).1.bitNames program = .ok pairs) :
    ∀ pair ∈ pairs, PairFile.IsPart pair.1 ∧ PairFile.IsPart pair.2 := by
  intro pair hpair
  obtain ⟨register, bit, hregister, hbit, hkey, field, hfield, hvalue⟩ :=
    Device.exists_of_mem_bitNames hprogram hpairs hpair
  obtain ⟨hne, hequals⟩ := hfields field hfield
  obtain ⟨htrimmed, hlineFeed⟩ := Device.trimmed_of_mem_fields hfield
  rw [hkey, hvalue]
  exact ⟨isPart_key hregister hbit, ⟨hne, htrimmed, hequals, hlineFeed⟩⟩

/-- Names in the letter case of others make a key in the same lower case. -/
theorem lower_key {register bit register' bit' : Text} (hregister : Token.IsName register)
    (hbit : Token.IsName bit) (h : Text.lower register' = Text.lower register)
    (h' : Text.lower bit' = Text.lower bit) :
    Text.lower (register' ++ '.' :: bit') = Text.lower (register ++ '.' :: bit) := by
  -- Case conversion looks at neighbours only for a sigma, and there is none.
  obtain ⟨hregister, hrest⟩ := List.forall_mem_append.mp (isAscii_key hregister hbit)
  obtain ⟨hpoint, hbit⟩ := List.forall_mem_cons.mp hrest
  exact Text.lower_append_congr hregister hrest h <|
    Text.lower_append_congr (List.forall_mem_singleton.mpr hpoint) hbit rfl h'

end

/-- The builder's lines are read back as its pairs, without a line that is skipped. If the keys
differ in more than letter case, the converter finds the new name of every bit in any letter case,
and it finds none for a register and a bit without a pair. -/
theorem bitNames_read_back {header description : Text} {program : Program}
    {pairs : List (Text × Text)} (hprogram : Program.parse header = .ok program)
    (hfields : ∀ field ∈ (Device.parse description).1.fields, field.name ≠ [] ∧ '=' ∉ field.name)
    (hpairs : (Device.parse description).1.bitNames program = .ok pairs) :
    let read := PairFile.parse (PairFile.render pairs)
    let context := Context.empty.addRegisters read.1
    (∀ (s : Sandbox) (headerPath descriptionPath : Text) (verbosity : Nat),
      s.text headerPath = .ok header → s.text descriptionPath = .ok description →
      ∃ errorOutput, (Session.exitCode (serve Sandbox.host
        ⟨.bits headerPath descriptionPath, verbosity⟩)).run s
          = (0, { s with output := s.output ++ PairFile.render pairs, errorOutput })) ∧
    read = (pairs, []) ∧
    (∀ pair ∈ pairs, ∃ register bit, Token.IsName register ∧ Token.IsName bit ∧
      pair.1 = register ++ '.' :: bit) ∧
    ((pairs.map fun pair => Text.asciiLower pair.1).Nodup → ∀ register bit name,
      Token.IsName register → Token.IsName bit → (register ++ '.' :: bit, name) ∈ pairs →
      ∀ register' bit', Text.lower register' = Text.lower register →
        Text.lower bit' = Text.lower bit → context.register? register' bit' = some name) ∧
    ∀ register bit, Token.IsName register → Token.IsName bit →
      (∀ pair ∈ pairs, ¬ Text.sameIgnoringCase pair.1 (register ++ '.' :: bit)) →
        context.register? register bit = none := by
  intro read context
  have hread : read = (pairs, []) :=
    PairFile.parse_render_pairs (isPart_of_mem_bitNames hprogram hfields hpairs)
  have hcontext : context = Context.empty.addRegisters pairs := by
    rw [show context = Context.empty.addRegisters read.1 from rfl, hread]
  -- The keys are ASCII text, so their lower case is that of ASCII letters.
  have hlower : ∀ pair ∈ pairs, Text.lower pair.1 = Text.asciiLower pair.1 := by
    intro pair hpair
    obtain ⟨register, bit, hregister, hbit, hkey, -⟩ :=
      Device.exists_of_mem_bitNames hprogram hpairs hpair
    rw [hkey, Text.lower_eq_asciiLower (isAscii_key hregister hbit)]
  refine ⟨fun s headerPath descriptionPath verbosity hheader hdescription => ?_, hread,
    fun pair hpair => ?_,
    fun hkeys register bit name hregister hbit hpair register' bit' h h' => ?_,
    fun register bit hregister hbit hnone => ?_⟩
  · exact (yields_serve verbosity hheader hdescription hprogram hpairs).exitCode_eq_zero
  · obtain ⟨register, bit, hregister, hbit, hkey, -⟩ :=
      Device.exists_of_mem_bitNames hprogram hpairs hpair
    exact ⟨register, bit, hregister, hbit, hkey⟩
  -- Here the keys have to be different: of two pairs for one key the last would count.
  · rw [hcontext]
    refine Context.register?_of_mem ?_ hpair (lower_key hregister hbit h h')
    rwa [List.map_congr_left hlower]
  · rw [hcontext]
    refine Context.register?_eq_none fun pair hpair => ?_
    rw [hlower pair hpair, Text.lower_eq_asciiLower (isAscii_key hregister hbit)]
    exact fun h => hnone pair hpair (beq_iff_eq.mpr h)

/-- The name of one bit, from the files to its look-up. -/
theorem bitNames_read_back_carry :
    let header := "STATUS EQU H'3'\n; STATUS Bits\nC EQU H'0'\n; end".toList
    let description := "SFR=STATUS,3,8\nSFRFLD=CARRY,3,0,1".toList
    let pairs := [("STATUS.C".toList, "CARRY".toList)]
    let s : Sandbox := ⟨.folder [("a.inc".toList, .file (Utf8.encode header)),
      ("a.ini".toList, .file (Utf8.encode description))], [], [], []⟩
    let context := Context.empty.addRegisters (PairFile.parse "STATUS.C=CARRY\n".toList).1
    (∃ errorOutput, (Session.exitCode (serve Sandbox.host
      ⟨.bits "a.inc".toList "a.ini".toList, 0⟩)).run s
        = (0, { s with output := "STATUS.C=CARRY\n".toList, errorOutput })) ∧
      PairFile.parse "STATUS.C=CARRY\n".toList = (pairs, []) ∧
      context.register? "Status".toList "c".toList = some "CARRY".toList ∧
      context.register? "STATUS".toList "Z".toList = none := by
  intro header description pairs s context
  let equ (name : Text) (value : Nat) (literal : Text) : Line := .statement
    ⟨some name, some "EQU".toList, [.number value .hexadecimal literal], none⟩
  let remark (text : Text) : Line := .statement ⟨none, none, [], some text⟩
  let program : Program := ⟨[equ "STATUS".toList 3 "H'3'".toList, remark "STATUS Bits".toList,
    equ ['C'] 0 "H'0'".toList, remark "end".toList]⟩
  have hprogram : Program.parse header = .ok program := by decide +kernel
  have hfields : ∀ field ∈ (Device.parse description).1.fields,
      field.name ≠ [] ∧ '=' ∉ field.name := by decide +kernel
  have hpairs : (Device.parse description).1.bitNames program = .ok pairs := by decide +kernel
  have hrender : PairFile.render pairs = "STATUS.C=CARRY\n".toList := rfl
  obtain ⟨hprint, hread, -, hfound, hnone⟩ := bitNames_read_back hprogram hfields hpairs
  rw [hrender] at hprint hread hfound hnone
  refine ⟨?_, hread, ?_, ?_⟩
  · exact hprint s "a.inc".toList "a.ini".toList 0 (by decide +kernel) (by decide +kernel)
  · exact hfound (by decide) "STATUS".toList ['C'] "CARRY".toList (by decide) (by decide)
      List.mem_cons_self _ _ (by decide +kernel) (by decide +kernel)
  · exact hnone _ _ (by decide) (by decide) (by decide)

end NameBuilder

end CommandLine

end PicAssembly
