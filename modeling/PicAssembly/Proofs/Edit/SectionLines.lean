import Mathlib.Data.List.Basic
import PicAssembly.Proofs.Edit.Reach

/-!
# `PicAssembly.Proofs.Edit.SectionLines`: the lines that declare a section

`Section.Declares` says what stands for a line once sections are declared, and it says so without
the edit: a section of data becomes one line, a section of code one or two, and any other line
stays. The options of a section are what the reader makes of their text.

* `Edit.corresponds_declared_sections`: the edit comes to its end, its lines are those blocks in
  the order of the lines, and once sections are declared there are none left to declare.

That the edit converts every line by itself, though the program gets longer while it does so, is
`Program.declareSections_eq`.
-/

set_option autoImplicit false

namespace PicAssembly

namespace Section

/-- What stands for a line in a file with this stem once sections are declared. -/
inductive Declares (stem : Text) : BlockRelation where
  | data {s : Statement} {kind : Operand} (h : s.hasMnemonic "udata".toList)
      (hkind : Operand.parse "class=UDATA".toList = .ok kind) :
      Declares stem (.statement s) [.statement ⟨none, some "PSECT".toList,
        [.identifier (s.label.getD (stem ++ "_UDATA".toList)), kind], s.comment⟩]
  /-- A section of code at a number keeps the name for a label, and the number comes after. -/
  | fixedCode {s : Statement} {kind width address : Operand} {value : Nat} {radix : Radix}
      {literal : Text} {rest : List Operand} (h : s.hasMnemonic "code".toList)
      (hkind : Operand.parse "class=CODE".toList = .ok kind)
      (hwidth : Operand.parse "delta=2".toList = .ok width)
      (haddress : address = .number value radix literal)
      (hoperands : s.operands = address :: rest) :
      Declares stem (.statement s) [.statement ⟨some (s.label.getD (stem ++ "_CODE".toList)),
          some "PSECT".toList, [.identifier (s.label.getD (stem ++ "_CODE".toList)), kind, width,
            .identifier "abs".toList], s.comment⟩,
        .statement ⟨none, some "ORG".toList, [address], none⟩]
  | code {s : Statement} {kind width : Operand} (h : s.hasMnemonic "code".toList)
      (hkind : Operand.parse "class=CODE".toList = .ok kind)
      (hwidth : Operand.parse "delta=2".toList = .ok width)
      (hoperands : ∀ value radix literal rest,
        s.operands ≠ .number value radix literal :: rest) :
      Declares stem (.statement s) [.statement ⟨none, some "PSECT".toList,
        [.identifier (s.label.getD (stem ++ "_CODE".toList)), kind, width], s.comment⟩]
  | other {line : Line} (h : ∀ s, line = .statement s → ¬ s.isSection) :
      Declares stem line [line]

/-! The options are written down as trees. These are the trees of their texts. -/

/-- The option that makes a section one of data can be read. -/
theorem parse_data :
    Operand.parse "class=UDATA".toList = .ok (option "class".toList "UDATA".toList) := rfl

/-- The option that makes a section one of code can be read. -/
theorem parse_code :
    Operand.parse "class=CODE".toList = .ok (option "class".toList "CODE".toList) := rfl

/-- The option for the size of a program word can be read. -/
theorem parse_delta : Operand.parse "delta=2".toList = .ok delta := rfl

/-- What the edit makes of a line is what should stand for it. -/
theorem declares_convert (stem : Text) (line : Line) :
    Declares stem line (convert stem line) := by
  cases line with
  | directive d => exact .other (fun s h => by cases h)
  | definition d => exact .other (fun s h => by cases h)
  | statement s =>
      rw [convert]
      by_cases hdata : s.hasMnemonic "udata".toList
      · rw [if_pos hdata]
        exact .data hdata parse_data
      rw [if_neg hdata]
      by_cases hcode : s.hasMnemonic "code".toList
      · rw [if_pos hcode, ofCode]
        -- Only a number is looked at as an address, and only if it is the first operand.
        split
        · next hoperands => exact .fixedCode hcode parse_code parse_delta rfl hoperands
        · next hoperands => exact .code hcode parse_code parse_delta hoperands
      · rw [if_neg hcode]
        refine .other ?_
        intro s' hs'
        cases hs'
        rw [Statement.isSection, Bool.or_eq_true_iff]
        exact not_or.mpr ⟨hdata, hcode⟩

/-- A statement that opens no section stays one line. -/
theorem convert_of_not_isSection {s : Statement} (h : ¬ s.isSection) (stem : Text) :
    convert stem (.statement s) = [.statement s] := by
  rcases convert_statement_cases stem s with ⟨-, hconvert⟩ | ⟨hsection, -⟩ | ⟨hfixed, -⟩
  · exact hconvert
  · exact absurd hsection h
  · exact absurd (Statement.isSection_of_isFixedCode hfixed) h

/-- A line that declares a section opens none, so it is not converted again. -/
theorem convert_of_mem_convert {stem : Text} {line line' : Line} (h : line' ∈ convert stem line)
    (stem' : Text) : convert stem' line' = [line'] := by
  cases line with
  | directive d =>
      have hline : line' = .directive d := List.mem_singleton.mp h
      rw [hline]
      rfl
  | definition d =>
      have hline : line' = .definition d := List.mem_singleton.mp h
      rw [hline]
      rfl
  | statement s =>
      -- What comes of a section has a mnemonic that is not that of a section any more.
      rcases convert_statement_cases stem s with
        ⟨hs, hblock⟩ | ⟨-, -, operands, hblock⟩ | ⟨-, label, operands, address, hblock⟩
      · rw [hblock] at h
        rw [List.mem_singleton.mp h]
        exact convert_of_not_isSection hs stem'
      · rw [hblock] at h
        rw [List.mem_singleton.mp h]
        rfl
      · rw [hblock] at h
        rcases List.mem_pair.mp h with hline | hline
        · rw [hline]
          rfl
        · rw [hline]
          rfl

/-- Sections that are declared are not declared again: a `PSECT` opens no section of the old
kind. -/
theorem flatMap_convert_flatMap (stem : Text) (lines : List Line) :
    (lines.flatMap (convert stem)).flatMap (convert stem) = lines.flatMap (convert stem) := by
  have hstays : ∀ line' ∈ lines.flatMap (convert stem), convert stem line' = [line'] := by
    intro line' hline'
    obtain ⟨line, -, hmem⟩ := List.mem_flatMap.mp hline'
    exact convert_of_mem_convert hmem stem
  calc (lines.flatMap (convert stem)).flatMap (convert stem)
      = (lines.flatMap (convert stem)).flatMap (fun line' => [line']) := List.flatMap_congr hstays
    _ = lines.flatMap (convert stem) := List.flatMap_singleton' _

end Section

namespace Edit

/-- Sections are declared without a fault. The program becomes the blocks that stand for its lines,
in their order, and to declare its sections once more changes nothing. -/
theorem corresponds_declared_sections (context : Context) {file : SourceFile} {p : Program}
    (hp : file.program = some p) :
    ∃ p', sections.apply context file = .ok { file with program := some p' } ∧
      Corresponds (Section.Declares (Text.upper file.stem)) p.lines p'.lines ∧
      sections.apply context { file with program := some p' }
        = .ok { file with program := some p' } := by
  let stem := Text.upper file.stem
  let p' : Program := ⟨p.lines.flatMap (Section.convert stem)⟩
  have hfirst : sections.change context file = .done { file with program := some p' } := by
    rw [change_sections, SourceFile.mapProgram, hp]
    rfl
  have hagain : sections.change context { file with program := some p' }
      = .done { file with program := some p' } := by
    rw [change_sections, SourceFile.mapProgram]
    -- The stem is that of the same name.
    show Outcome.done { file with program := some ⟨p'.lines.flatMap (Section.convert stem)⟩ } = _
    rw [show p'.lines.flatMap (Section.convert stem) = p'.lines from
      Section.flatMap_convert_flatMap stem p.lines]
  refine ⟨p', Outcome.toExcept_eq_ok_iff.mpr hfirst, ?_, Outcome.toExcept_eq_ok_iff.mpr hagain⟩
  exact .of_flatMap fun line _ => Section.declares_convert stem line

/-- A section of code at an address, and behind it one of data without a name. -/
theorem corresponds_declared_sections_address :
    let zero : Operand := .number 0 .hexadecimal ['0']
    let s : Statement := ⟨some "RESET".toList, some "CODE".toList, [zero], some "vector".toList⟩
    let t : Statement := ⟨none, some "udata".toList, [], none⟩
    let file : SourceFile := ⟨"main.asm".toList, [], [], some ⟨[.statement s, .statement t]⟩⟩
    Program.parse "RESET CODE 0 ; vector\n udata".toList = .ok ⟨[.statement s, .statement t]⟩ ∧
    ∃ p', sections.apply .empty file = .ok { file with program := some p' } ∧
      p'.lines = [.statement ⟨some "RESET".toList, some "PSECT".toList,
          [.identifier "RESET".toList, Section.option "class".toList "CODE".toList, Section.delta,
            .identifier "abs".toList], some "vector".toList⟩,
        .statement ⟨none, some "ORG".toList, [zero], none⟩,
        .statement ⟨none, some "PSECT".toList, [.identifier "MAIN_UDATA".toList,
          Section.option "class".toList "UDATA".toList], none⟩] := by
  intro zero s t file
  have hp : file.program = some ⟨[.statement s] ++ [.statement t]⟩ := rfl
  obtain ⟨p', hp', hlines, -⟩ := corresponds_declared_sections .empty hp
  obtain ⟨front, back, hfront, hcode, hdata⟩ := Corresponds.exists_of_append hlines
  refine ⟨by decide +kernel, p', hp', ?_⟩
  rw [hfront]
  -- Of the ways to declare a section, one only fits the first line, and one the second.
  cases Corresponds.singleton_iff.mp hcode with
  | data h => exact absurd h (by decide)
  | code h hkind hwidth hoperands => exact absurd rfl (hoperands 0 .hexadecimal ['0'] [])
  | other h => exact absurd (show s.isSection by decide) (h s rfl)
  | fixedCode h hkind hwidth haddress hoperands =>
      rw [← Except.ok.inj (Section.parse_code.symm.trans hkind),
        ← Except.ok.inj (Section.parse_delta.symm.trans hwidth), ← (List.cons.inj hoperands).1]
      cases Corresponds.singleton_iff.mp hdata with
      | fixedCode h => exact absurd h (by decide)
      | code h => exact absurd h (by decide)
      | other h => exact absurd (show t.isSection by decide) (h t rfl)
      | data h hkind =>
          rw [← Except.ok.inj (Section.parse_data.symm.trans hkind)]
          rfl

end Edit

end PicAssembly
