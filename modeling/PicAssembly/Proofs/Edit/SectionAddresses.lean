import PicAssembly.Proofs.Edit.Names

/-!
# `PicAssembly.Proofs.Edit.SectionAddresses`: what becomes of the address of a section

The first operand of a section is its address. The declaration of sections writes operands of its
own in its place, `Statement.sectionOptions`, and only a number behind `code` gets a line where it
stays (`Section.mem_operands_convert_iff`). Whether an address is a number is decided by its
spelling: `0x0000` has a lower-case letter and five characters or more, so it is read as the name
of a device, and it is lost.

* `Edit.corresponds_address_sections`: which sections of a program keep their address.
-/

set_option autoImplicit false

namespace PicAssembly

/-- The operands that a section gets in a file with this stem, whatever its address is. -/
def Statement.sectionOptions (stem : Text) (s : Statement) : List Operand :=
  .identifier (s.sectionName stem) ::
    if s.hasMnemonic "udata".toList then [Section.option "class".toList "UDATA".toList]
    else [Section.option "class".toList "CODE".toList, Section.delta]

namespace Section

/-- The lines for a section have the operands of the section. A section of code at a number has
also the operand `abs`, and the number on a line of its own. -/
theorem flatMap_operands_convert {s : Statement} (hs : s.isSection) (stem : Text) :
    (convert stem (.statement s)).flatMap Line.operands = s.sectionOptions stem ++
      if s.isFixedCode then .identifier "abs".toList :: s.operands.take 1 else [] := by
  -- No statement is a section of both kinds, and only code looks at its address.
  by_cases hdata : s.hasMnemonic "udata".toList
  · have hcode : s.hasMnemonic "code".toList = false :=
      (Statement.hasMnemonic_eq_of_hasMnemonic hdata _).trans rfl
    have hfixed : ¬ s.isFixedCode := by
      rw [Statement.isFixedCode, hcode]
      exact Bool.false_ne_true
    rw [convert, Statement.sectionOptions, Statement.sectionName, if_pos hdata, if_pos hdata,
      if_pos hdata, if_neg hfixed, List.append_nil]
    rfl
  · have hcode : s.hasMnemonic "code".toList := (Bool.or_eq_true_iff.mp hs).resolve_left hdata
    rw [convert, Statement.sectionOptions, Statement.sectionName, if_neg hdata, if_neg hdata,
      if_neg hdata, if_pos hcode, ofCode]
    split
    · next hoperands =>
      have hfixed : s.isFixedCode := by
        rw [Statement.isFixedCode, hcode, hoperands]
        rfl
      rw [if_pos hfixed, hoperands]
      rfl
    · next hoperands =>
      have hfixed : ¬ s.isFixedCode := by
        intro hfixed
        obtain ⟨value, radix, literal, rest, h⟩ := Statement.exists_number_of_isFixedCode hfixed
        exact hoperands value radix literal rest h
      rw [if_neg hfixed, List.append_nil]
      rfl

/-- The address of a section is on the lines for it just if it is a number behind `code`, or
happens to be one of the operands that the section gets. -/
theorem mem_operands_convert_iff {s : Statement} {address : Operand} {rest : List Operand}
    (hs : s.isSection) (haddress : s.operands = address :: rest) (stem : Text) :
    address ∈ (convert stem (.statement s)).flatMap Line.operands ↔
      s.isFixedCode ∨ address ∈ s.sectionOptions stem := by
  rw [flatMap_operands_convert hs, List.mem_append, or_comm]
  by_cases hfixed : s.isFixedCode
  · rw [if_pos hfixed, haddress]
    exact iff_of_true (.inl (.tail _ (.head _))) (.inl hfixed)
  · rw [if_neg hfixed]
    exact or_congr_left (iff_of_false List.not_mem_nil hfixed)

end Section

namespace Edit

/-- Sections are declared without a fault, and the address of a section is on the lines that stand
for it just if it is a number behind `code`, or is anyway one of the operands that it gets. -/
theorem corresponds_address_sections (context : Context) {file : SourceFile} {p : Program}
    (hp : file.program = some p) :
    ∃ p', sections.change context file = .done { file with program := some p' } ∧
      Corresponds (fun line block => ∀ s address rest, line = .statement s → s.isSection →
        s.operands = address :: rest → (address ∈ block.flatMap Line.operands ↔
          s.isFixedCode ∨ address ∈ s.sectionOptions (Text.upper file.stem))) p.lines p'.lines := by
  refine ⟨⟨p.lines.flatMap (Section.convert (Text.upper file.stem))⟩, ?_, ?_⟩
  · rw [change_sections]
    exact congrArg (fun program => Outcome.done { file with program })
      (congrArg (Option.map _) hp)
  · refine .of_flatMap ?_
    rintro _ - s address rest rfl hs haddress
    exact Section.mem_operands_convert_iff hs haddress _

/-- The addresses of a section of code and of a section of data. -/
theorem corresponds_address_sections_number :
    let zero : Operand := .number 0 .hexadecimal ['0']
    let s (label mnemonic : Text) : Statement := ⟨some label, some mnemonic, [zero], none⟩
    let code : Statement := s "RESET".toList "code".toList
    let data : Statement := s "DATA".toList "udata".toList
    let file : SourceFile :=
      ⟨"main.asm".toList, [], [], some ⟨[.statement code, .statement data]⟩⟩
    Program.parse "RESET code 0\nDATA udata 0".toList = .ok ⟨[.statement code, .statement data]⟩ ∧
    ∃ p' front back, sections.change .empty file = .done { file with program := some p' } ∧
      p'.lines = front ++ back ∧ zero ∈ front.flatMap Line.operands ∧
      zero ∉ back.flatMap Line.operands := by
  intro zero s code data file
  have hp : file.program = some ⟨[.statement code] ++ [.statement data]⟩ := rfl
  obtain ⟨p', hp', hlines⟩ := corresponds_address_sections .empty hp
  obtain ⟨front, back, hfront, hcode, hback⟩ := Corresponds.exists_of_append hlines
  refine ⟨by decide +kernel, p', front, back, hp', hfront, ?_, ?_⟩
  · exact (Corresponds.singleton_iff.mp hcode code zero [] rfl (by decide) rfl).mpr
      (.inl (by decide))
  · exact (Corresponds.singleton_iff.mp hback data zero [] rfl (by decide) rfl).not.mpr
      (by decide +kernel)

/-- An address that is read as the name of a device is lost. -/
theorem not_keeps_address :
    let address : Operand := .chipId "0x0000".toList
    let s : Statement := ⟨some "RESET_VECTOR".toList, some "code".toList, [address], none⟩
    let s' : Statement := ⟨none, some "PSECT".toList, [.identifier "RESET_VECTOR".toList,
      Section.option "class".toList "CODE".toList, Section.delta], none⟩
    let file : SourceFile := ⟨"main.asm".toList, [], [], some ⟨[.statement s]⟩⟩
    Program.parse "RESET_VECTOR code 0x0000".toList = .ok ⟨[.statement s]⟩ ∧
      sections.change .empty file = .done { file with program := some ⟨[.statement s']⟩ } ∧
      address ∉ [Line.statement s'].flatMap Line.operands := by
  exact ⟨rfl, rfl, by decide⟩

end Edit

end PicAssembly
