import PicAssembly.Proofs.Edit.Stages

/-!
# `PicAssembly.Proofs.Edit.Rendition`: what becomes of each line of a program

All edits together put one line in the place of a line, or two in the place of a code section
at a fixed address. `Rendition` says what these lines keep of it.

* `Catalog.corresponds_of_apply`: every line gets its rendition, in order, and the mnemonics
  that a conversion gives up are gone.
-/

set_option autoImplicit false

namespace PicAssembly

/-! ### Mnemonics -/

namespace Catalog

/-- The mnemonics that a conversion gives up, each with the one in its place. -/
def successors : List (Text × Text) :=
  [("extern".toList, "GLOBAL".toList), ("res".toList, "DS".toList),
   ("__CONFIG".toList, "config".toList), ("udata".toList, "PSECT".toList),
   ("code".toList, "PSECT".toList)]

/-- The mnemonics that a conversion gives up. -/
def obsolete : List Text := successors.map Prod.fst

/-- The mnemonic after a conversion. -/
def successor (mnemonic : Text) : Text :=
  ((successors.find? fun entry => Text.sameIgnoringCase mnemonic entry.1).map Prod.snd).getD
    mnemonic

/-- The table of successors has one entry for each mnemonic, so any letter case of an old one leads
to its successor. -/
theorem successor_eq_of_mem {m old new : Text} (h : (old, new) ∈ successors)
    (hm : Text.sameIgnoringCase m old) : successor m = new := by
  have hclosed : ∀ entry ∈ successors, (successors.find? fun other =>
      Text.sameIgnoringCase entry.1 other.1).map Prod.snd = some entry.2 := by decide
  simp only [successor, Text.sameIgnoringCase_eq_of_same hm, hclosed _ h, Option.getD_some]

/-- A mnemonic that is not given up stays. -/
theorem successor_eq_self {m : Text} (h : obsolete.any (Text.sameIgnoringCase m) = false) :
    successor m = m := by
  have hnone : successors.find? (fun entry => Text.sameIgnoringCase m entry.1) = none := by
    rw [obsolete, List.any_map, List.any_eq_false] at h
    exact List.find?_eq_none.mpr h
  rw [successor, hnone, Option.map_none, Option.getD_none]

/-- A mnemonic that takes the place of another is not given up itself. -/
theorem any_obsolete_successor (m : Text) :
    obsolete.any (Text.sameIgnoringCase (successor m)) = false := by
  cases h : obsolete.any (Text.sameIgnoringCase m) with
  | false => rw [successor_eq_self h, h]
  | true =>
      have hclosed : ∀ entry ∈ successors,
          obsolete.any (Text.sameIgnoringCase entry.2) = false := by decide
      rw [obsolete, List.any_map, List.any_eq_true] at h
      obtain ⟨⟨old, new⟩, hentry, hm⟩ := h
      rw [successor_eq_of_mem hentry hm, hclosed _ hentry]

/-- The mnemonic of a section. -/
theorem map_successor_of_isSection {s : Statement} (h : s.isSection) :
    s.mnemonic.map successor = some "PSECT".toList := by
  have hdata : ("udata".toList, "PSECT".toList) ∈ successors := by decide
  have hcode : ("code".toList, "PSECT".toList) ∈ successors := by decide
  obtain ⟨label, mnemonic, operands, comment⟩ := s
  cases mnemonic with
  | none => cases h
  | some m =>
      rcases Bool.or_eq_true_iff.mp h with h | h
      · exact congrArg some (successor_eq_of_mem hdata h)
      · exact congrArg some (successor_eq_of_mem hcode h)

/-- A mnemonic that is not one of a section is what the renamings make of it. They come one
after the other, and none takes up what one before it has put. -/
theorem renamed_eq_successor {m : Text} (hdata : Text.sameIgnoringCase m "udata".toList = false)
    (hcode : Text.sameIgnoringCase m "code".toList = false) :
    Text.renamed "res".toList "DS".toList (Text.renamed "__CONFIG".toList "config".toList
      (Text.renamed "extern".toList "GLOBAL".toList m)) = successor m := by
  -- The three old mnemonics differ, so at most one of the renamings applies.
  cases hexternal : Text.sameIgnoringCase m "extern".toList with
  | true =>
      have hmem : ("extern".toList, "GLOBAL".toList) ∈ successors := by decide
      rw [successor_eq_of_mem hmem hexternal, Text.renamed_of_same hexternal]
      rfl
  | false =>
      rw [Text.renamed_of_not_same hexternal]
      cases hconfig : Text.sameIgnoringCase m "__CONFIG".toList with
      | true =>
          have hmem : ("__CONFIG".toList, "config".toList) ∈ successors := by decide
          rw [successor_eq_of_mem hmem hconfig, Text.renamed_of_same hconfig]
          rfl
      | false =>
          rw [Text.renamed_of_not_same hconfig]
          cases hres : Text.sameIgnoringCase m "res".toList with
          | true =>
              have hmem : ("res".toList, "DS".toList) ∈ successors := by decide
              rw [successor_eq_of_mem hmem hres, Text.renamed_of_same hres]
          | false =>
              have hnone : obsolete.any (Text.sameIgnoringCase m) = false := by
                simp only [obsolete, successors, List.map_cons, List.map_nil, List.any_cons,
                  List.any_nil, hexternal, hres, hconfig, hdata, hcode, Bool.or_self]
              rw [Text.renamed_of_not_same hres, successor_eq_self hnone]

/-- The mnemonic of any other statement is what the renamings make of it. -/
theorem map_successor_of_not_isSection {s : Statement} (h : ¬ s.isSection) :
    (((s.rename "extern".toList "GLOBAL".toList).rename "__CONFIG".toList "config".toList).rename
      "res".toList "DS".toList).mnemonic = s.mnemonic.map successor := by
  obtain ⟨label, mnemonic, operands, comment⟩ := s
  cases mnemonic with
  | none => rfl
  | some m =>
      obtain ⟨hdata, hcode⟩ := Bool.or_eq_false_iff.mp (Bool.eq_false_iff.mpr h)
      exact congrArg some (renamed_eq_successor hdata hcode)

end Catalog

/-! ### Renditions -/

/-- The lines that stand for a line after a conversion. -/
inductive Rendition : BlockRelation where
  | directive (d : Directive) (value : Text) :
      Rendition (.directive d) [.directive { d with value }]
  | definition (d : Definition) (operands : List Operand) :
      Rendition (.definition d) [.definition { d with operands }]
  /-- A statement keeps its label, unless it opens a section. -/
  | statement {s s' : Statement} (single : ¬ s.isFixedCode)
      (label : s'.label = if s.isSection then none else s.label)
      (mnemonic : s'.mnemonic = s.mnemonic.map Catalog.successor)
      (comment : s.KeepsComment s'.comment) : Rendition (.statement s) [.statement s']
  | opener (s : Statement) (value : Text) (h : s.hasMnemonic "ifdef".toList) :
      Rendition (.statement s) [.directive ⟨"#ifdef".toList, value, s.comment⟩]
  | closer (s : Statement) (value : Text) (h : s.hasMnemonic "endif".toList) :
      Rendition (.statement s) [.directive ⟨"#endif".toList, value, s.comment⟩]
  /-- The address of a section of code gets a line of its own. -/
  | fixedCode {s first second : Statement} (double : s.isFixedCode)
      (mnemonic : first.mnemonic = some "PSECT".toList) (comment : first.comment = s.comment)
      (mnemonic' : second.mnemonic = some "ORG".toList) (label' : second.label = none)
      (comment' : second.comment = none) :
      Rendition (.statement s) [.statement first, .statement second]

namespace Finished

/-- A statement with a mnemonic that no edit behind the sections looks at. -/
theorem exists_statement_of_mnemonic {s : Statement} {m : Text} {line : Line}
    (h : Finished (.statement s) line) (hs : s.mnemonic = some m)
    (hm : ("res".toList :: "ifdef".toList :: "endif".toList :: BitName.instructions).any
      (Text.sameIgnoringCase m) = false) :
    ∃ s', line = .statement s' ∧ s'.label = s.label ∧ s'.mnemonic = some m ∧
      s'.comment = s.comment := by
  have hown := Statement.hasMnemonic_self hs
  simp only [List.any_cons, Bool.or_eq_false_iff] at hm
  obtain ⟨hres, hopener, hcloser, hbits⟩ := hm
  cases h with
  | @statement _ s' label mnemonic comment =>
      refine ⟨s', rfl, label, ?_, comment.eq_of_hasMnemonic hown hbits⟩
      rw [mnemonic, Statement.rename, hs, Option.map_some, Text.renamed_of_not_same hres]
  -- The conditionals are statements with mnemonics that `m` is not.
  | opener _ value h =>
      rw [Statement.hasMnemonic_eq_of_hasMnemonic hown, hopener] at h
      cases h
  | closer _ value h =>
      rw [Statement.hasMnemonic_eq_of_hasMnemonic hown, hcloser] at h
      cases h

end Finished

namespace Prepared

variable {s s' : Statement} (h : Prepared (.statement s) (.statement s'))

include h

/-- The mnemonics that are renamed early are not those that are looked for later. -/
theorem hasMnemonic_eq {m : Text}
    (hm : ["extern".toList, "GLOBAL".toList, "__CONFIG".toList, "config".toList].all
      fun other => Text.sameIgnoringCase other m = false) :
    s'.hasMnemonic m = s.hasMnemonic m := by
  simp only [List.all_cons, List.all_nil, Bool.and_eq_true, decide_eq_true_eq] at hm
  obtain ⟨hexternal, hglobal, hold, hnew, -⟩ := hm
  cases h with
  | statement label mnemonic comment form =>
      rw [Statement.hasMnemonic, mnemonic, ← Statement.hasMnemonic,
        Statement.hasMnemonic_rename hold hnew, Statement.hasMnemonic_rename hexternal hglobal]

/-- The edits before the sections make no section and take none away. -/
theorem isSection_eq : s'.isSection = s.isSection := by
  rw [Statement.isSection, hasMnemonic_eq h rfl, hasMnemonic_eq h rfl, Statement.isSection]

/-- The edits before the sections keep the form of operands, but for configuration words, which get
operands that are read anew. -/
theorem form_eq_of_hasMnemonic {m : Text} (hs : s.hasMnemonic m)
    (hm : Text.sameIgnoringCase m "__CONFIG".toList = false) : s'.form = s.form := by
  cases h with
  | statement label mnemonic comment form =>
      apply form
      rw [Statement.hasMnemonic_eq_of_hasMnemonic hs, hm]
      exact Bool.false_ne_true

/-- The edits before the sections leave the sections of code at a fixed address as they are. -/
theorem isFixedCode_eq : s'.isFixedCode = s.isFixedCode := by
  rw [Statement.isFixedCode, hasMnemonic_eq h rfl, Statement.isFixedCode]
  cases hcode : s.hasMnemonic "code".toList with
  | false => rfl
  | true =>
      have hkind : s'.operands.head?.map Operand.kind = s.operands.head?.map Operand.kind :=
        congrArg Prod.snd (form_eq_of_hasMnemonic h hcode rfl)
      rw [hkind]

/-- The edits before the sections keep the comment. -/
theorem comment_eq : s'.comment = s.comment := by
  cases h with
  | statement label mnemonic comment form => exact comment

/-- The edits before the sections leave the instructions on single bits as they are. -/
theorem hasOneOf_instructions_eq :
    s'.hasOneOf BitName.instructions = s.hasOneOf BitName.instructions := by
  rw [Statement.hasOneOf, Statement.hasOneOf, BitName.instructions]
  simp only [List.any_cons, List.any_nil]
  rw [hasMnemonic_eq h rfl, hasMnemonic_eq h rfl, hasMnemonic_eq h rfl, hasMnemonic_eq h rfl]

/-- An instruction on a bit is given its operands as they were. -/
theorem pair?_eq (hs : s.hasOneOf BitName.instructions) :
    BitName.pair? s'.operands = BitName.pair? s.operands := by
  obtain ⟨m, hm, hs⟩ := List.any_eq_true.mp hs
  have hconfig : ∀ m ∈ BitName.instructions,
      Text.sameIgnoringCase m "__CONFIG".toList = false := by decide
  exact congrArg Prod.fst (form_eq_of_hasMnemonic h hs (hconfig m hm))

/-! What stands for a statement, for each of the three things that become of sections. -/

/-- A statement that opens no section is rendered by one line, after the edits behind the
sections. -/
theorem rendition_of_not_isSection {line : Line} (hsection : ¬ s'.isSection)
    (hline : Finished (.statement s') line) : Rendition (.statement s) [line] := by
  rw [isSection_eq h] at hsection
  cases hline with
  | @statement _ s'' label' mnemonic' comment' =>
      -- Sections were left alone up to here, so what is none now was none before.
      have hfixed : ¬ s.isFixedCode := mt Statement.isSection_of_isFixedCode hsection
      have hkeeps : s.KeepsComment s''.comment :=
        comment'.of_eq (comment_eq h) (hasOneOf_instructions_eq h) (pair?_eq h)
      cases h with
      | statement label mnemonic comment form =>
          refine .statement hfixed ?_ ?_ hkeeps
          · rw [if_neg hsection, label', label]
          · rw [mnemonic', ← Catalog.map_successor_of_not_isSection hsection]
            exact congrArg (Option.map _) mnemonic
  | opener _ value hs' =>
      rw [comment_eq h]
      rw [hasMnemonic_eq h rfl] at hs'
      exact .opener s value hs'
  | closer _ value hs' =>
      rw [comment_eq h]
      rw [hasMnemonic_eq h rfl] at hs'
      exact .closer s value hs'

/-- A statement that opens a section without an address is rendered by the line that declares it. -/
theorem rendition_of_isSection {operands : List Operand} {line : Line} (hsection : s'.isSection)
    (hfixed : ¬ s'.isFixedCode)
    (hline : Finished (.statement ⟨none, some "PSECT".toList, operands, s'.comment⟩) line) :
    Rendition (.statement s) [line] := by
  rw [isSection_eq h] at hsection
  rw [isFixedCode_eq h] at hfixed
  obtain ⟨s'', rfl, label, mnemonic, comment⟩ := hline.exists_statement_of_mnemonic rfl rfl
  have hcomment : s''.comment = s.comment := by
    rw [← comment_eq h]
    exact comment
  refine .statement hfixed ?_ ?_ (.inl hcomment)
  · rw [label, if_pos hsection]
  · rw [mnemonic, Catalog.map_successor_of_isSection hsection]

/-- A statement that opens a section of code at a fixed address is rendered by two lines: the
section, and the address for what follows. -/
theorem rendition_of_isFixedCode {name : Option Text} {operands address : List Operand}
    {line line' : Line} (hfixed : s'.isFixedCode)
    (hline : Finished (.statement ⟨name, some "PSECT".toList, operands, s'.comment⟩) line)
    (hline' : Finished (.statement ⟨none, some "ORG".toList, address, none⟩) line') :
    Rendition (.statement s) [line, line'] := by
  rw [isFixedCode_eq h] at hfixed
  obtain ⟨first, rfl, -, mnemonic, comment⟩ := hline.exists_statement_of_mnemonic rfl rfl
  obtain ⟨second, rfl, label', mnemonic', comment'⟩ :=
    hline'.exists_statement_of_mnemonic rfl rfl
  have hcomment : first.comment = s.comment := by
    rw [← comment_eq h]
    exact comment
  exact .fixedCode hfixed mnemonic hcomment mnemonic' label' comment'

end Prepared

/-- Preparing, declaring sections and finishing give a rendition. -/
theorem Rendition.of_stages {stem : Text} {line prepared : Line} {block : List Line}
    (h : Prepared line prepared)
    (hfinished : Corresponds (OneLine Finished) (Section.convert stem prepared) block) :
    Rendition line block := by
  cases h with
  | directive d value =>
      obtain ⟨_, rfl, hline⟩ := Corresponds.singleton_iff.mp hfinished
      cases hline
      exact .directive d _
  | definition d operands =>
      obtain ⟨_, rfl, hline⟩ := Corresponds.singleton_iff.mp hfinished
      cases hline
      exact .definition d _
  | @statement s s' label mnemonic comment form =>
      have h : Prepared (.statement s) (.statement s') := .statement label mnemonic comment form
      -- The statement is no section, or a section on one line, or one with an address behind it.
      obtain ⟨hsection, hlines⟩ | ⟨hsection, hfixed, operands, hlines⟩ |
        ⟨hfixed, name, operands, address, hlines⟩ := Section.convert_statement_cases stem s'
      · rw [hlines] at hfinished
        obtain ⟨_, rfl, hline⟩ := Corresponds.singleton_iff.mp hfinished
        exact h.rendition_of_not_isSection hsection hline
      · rw [hlines] at hfinished
        obtain ⟨_, rfl, hline⟩ := Corresponds.singleton_iff.mp hfinished
        exact h.rendition_of_isSection hsection hfixed hline
      · rw [hlines] at hfinished
        cases hfinished with
        | cons hline hrest =>
            obtain ⟨_, rfl, hline⟩ := hline
            obtain ⟨_, rfl, hline'⟩ := Corresponds.singleton_iff.mp hrest
            exact h.rendition_of_isFixedCode hfixed hline hline'

/-- The mnemonics among the lines that stand for a line are not given up. -/
theorem Rendition.any_obsolete {line : Line} {block : List Line} {s : Statement} {m : Text}
    (h : Rendition line block) (hs : .statement s ∈ block) (hm : s.mnemonic = some m) :
    Catalog.obsolete.any (Text.sameIgnoringCase m) = false := by
  cases h with
  | directive d value => simp at hs
  | definition d operands => simp at hs
  | opener s' value h => simp at hs
  | closer s' value h => simp at hs
  -- Every statement of a block has a successor, or one of the mnemonics for sections.
  | statement single label mnemonic comment =>
      obtain rfl := Line.statement.inj (List.mem_singleton.mp hs)
      obtain ⟨m', -, rfl⟩ := Option.map_eq_some_iff.mp (mnemonic.symm.trans hm)
      exact Catalog.any_obsolete_successor m'
  | fixedCode double mnemonic comment mnemonic' label' comment' =>
      rcases List.mem_cons.mp hs with hs | hs
      · obtain rfl := Line.statement.inj hs
        cases mnemonic.symm.trans hm
        rfl
      · obtain rfl := Line.statement.inj (List.mem_singleton.mp hs)
        cases mnemonic'.symm.trans hm
        rfl

namespace Catalog

/-- Every line gets its rendition, in order, and no statement is left with a mnemonic that a
conversion gives up. -/
theorem corresponds_of_apply {context : Context} {file file' : SourceFile} {p : Program}
    (hp : file.program = some p) (h : apply context file = .ok file') :
    ∃ p', file'.program = some p' ∧ Corresponds Rendition p.lines p'.lines ∧
      ∀ s, .statement s ∈ p'.lines → ¬ s.hasOneOf obsolete := by
  obtain ⟨p', hp', hlines⟩ := turns_edits file file' p hp (Outcome.toExcept_eq_ok_iff.mp h)
  have hrendition : Corresponds Rendition p.lines p'.lines := by
    refine hlines.mono ?_
    rintro line block ⟨_, ⟨prepared, rfl, hprepared⟩, hrest⟩
    obtain ⟨_, ⟨stem, rfl⟩, hfinished⟩ := Corresponds.singleton_iff.mp hrest
    exact .of_stages hprepared hfinished
  refine ⟨p', hp', hrendition, fun s hs => ?_⟩
  -- A statement of the result stands in the block of some line, and no block has an obsolete
  -- mnemonic.
  obtain ⟨line, -, block, hblock, hs⟩ := hrendition.exists_of_mem hs
  cases hmnemonic : s.mnemonic with
  | none => simp [Statement.hasOneOf, Statement.hasMnemonic, hmnemonic]
  | some m =>
      rw [Statement.hasOneOf_eq_of_hasMnemonic (Statement.hasMnemonic_self hmnemonic),
        hblock.any_obsolete hs hmnemonic]
      exact Bool.false_ne_true

/-- A section at a fixed address, a bit with a new name, a conditional and reserved space. -/
theorem corresponds_of_apply_section :
    let context : Context := { Context.empty with
      registers := ⟨[("status.z".toList, "ZERO".toList)]⟩ }
    let lines : List Line := [
      .statement ⟨some "reset".toList, some "CODE".toList, [.number 4 .hexadecimal ['4']],
        some "start".toList⟩,
      .statement ⟨none, some "btfss".toList, [.identifier "STATUS".toList, .identifier ['Z']],
        none⟩,
      .statement ⟨none, some "ifdef".toList, [.identifier "DEBUG".toList], none⟩,
      .statement ⟨some "buffer".toList, some "res".toList, [.number 2 .decimal ['2']], none⟩,
      .statement ⟨none, some "endif".toList, [], none⟩]
    let lines' : List Line := [
      .statement ⟨some "reset".toList, some "PSECT".toList,
        [.identifier "reset".toList, Section.option "class".toList "CODE".toList, Section.delta,
          .identifier "abs".toList], some "start".toList⟩,
      .statement ⟨none, some "ORG".toList, [.number 4 .hexadecimal "0x4".toList], none⟩,
      .statement ⟨none, some "btfss".toList, [.identifier "ZERO".toList],
        some "STATUS.Z".toList⟩,
      .directive ⟨"#ifdef".toList, "DEBUG".toList, none⟩,
      .statement ⟨some "buffer".toList, some "DS".toList, [.number 2 .decimal ['2']], none⟩,
      .directive ⟨"#endif".toList, [], none⟩]
    apply context ⟨"a.asm".toList, [], [], some ⟨lines⟩⟩
        = .ok ⟨"a.s".toList, [], [], some ⟨lines'⟩⟩ ∧
      Corresponds Rendition lines lines' := by
  intro context lines lines'
  have hrun : run context ⟨"a.asm".toList, [], [], some ⟨lines⟩⟩
      = .done ⟨"a.s".toList, [], [], some ⟨lines'⟩⟩ := by decide +kernel
  have happly := Outcome.toExcept_eq_ok_iff.mpr hrun
  obtain ⟨p', hp', hlines, -⟩ := corresponds_of_apply rfl happly
  cases hp'
  exact ⟨happly, hlines⟩

end Catalog

end PicAssembly
