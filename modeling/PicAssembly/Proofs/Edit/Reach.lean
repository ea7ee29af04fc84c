import PicAssembly.Proofs.Edit.Running
import PicAssembly.Proofs.Edit.Splicing
import PicAssembly.Proofs.Line.Mnemonic
import PicAssembly.Proofs.Operand.Replacement

/-!
# `PicAssembly.Proofs.Edit.Reach`: what each edit can change

An edit respects a relation if the relation holds of the lines that the edit may change, and
of every line with itself. There is one such lemma for each edit, or for each form that edits
have. Later modules put in a relation of their own and go on without looking into an edit.

The declaration of sections may put two lines in the place of one. All that it can do to a
statement is `Section.convert_statement_cases`.
-/

set_option autoImplicit false

namespace PicAssembly

namespace Statement

/-- Whether the statement opens a section. -/
def isSection (s : Statement) : Bool := s.hasMnemonic "udata".toList || s.hasMnemonic "code".toList

/-- Whether the statement opens a section of code at a fixed address. -/
def isFixedCode (s : Statement) : Bool :=
  s.hasMnemonic "code".toList && s.operands.head?.map Operand.kind == some .number

/-- A section of code at a fixed address is a section. -/
theorem isSection_of_isFixedCode {s : Statement} (h : s.isFixedCode) : s.isSection :=
  Bool.or_eq_true_iff.mpr (.inr (Bool.and_eq_true_iff.mp h).1)

/-- The address of a section of code is a number. It is the first operand, and any others stand
behind it. -/
theorem exists_number_of_isFixedCode {s : Statement} (h : s.isFixedCode) :
    ∃ value radix literal rest, s.operands = .number value radix literal :: rest := by
  obtain ⟨label, mnemonic, operands, comment⟩ := s
  have hkind := beq_iff_eq.mp (Bool.and_eq_true_iff.mp h).2
  cases operands with
  | nil => cases hkind
  | cons operand rest =>
      cases operand with
      | number value radix literal => exact ⟨value, radix, literal, rest, rfl⟩
      | _ => cases hkind

end Statement

/-- What the declaration of sections does to a statement. -/
theorem Section.convert_statement_cases (stem : Text) (s : Statement) :
    (¬ s.isSection ∧ convert stem (.statement s) = [.statement s]) ∨
    (s.isSection ∧ ¬ s.isFixedCode ∧ ∃ operands, convert stem (.statement s) =
      [.statement ⟨none, some "PSECT".toList, operands, s.comment⟩]) ∨
    (s.isFixedCode ∧ ∃ label operands address, convert stem (.statement s) =
      [.statement ⟨label, some "PSECT".toList, operands, s.comment⟩,
        .statement ⟨none, some "ORG".toList, address, none⟩]) := by
  by_cases hdata : s.hasMnemonic "udata".toList
  · have hcode : s.hasMnemonic "code".toList = false :=
      (Statement.hasMnemonic_eq_of_hasMnemonic hdata _).trans rfl
    exact .inr (.inl ⟨by rw [Statement.isSection, hdata]; rfl,
      by rw [Statement.isFixedCode, hcode]; exact Bool.false_ne_true, _, if_pos hdata⟩)
  by_cases hcode : s.hasMnemonic "code".toList
  · have hsection : s.isSection := Bool.or_eq_true_iff.mpr (.inr hcode)
    rw [convert, if_neg hdata, if_pos hcode, ofCode]
    -- A number behind `code` makes the section a fixed one.
    split
    · next hoperands =>
      exact .inr (.inr ⟨by rw [Statement.isFixedCode, hcode, hoperands]; rfl, _, _, _, rfl⟩)
    · next hoperands =>
      refine .inr (.inl ⟨hsection, ?_, _, rfl⟩)
      intro hfixed
      obtain ⟨value, radix, literal, rest, h⟩ := Statement.exists_number_of_isFixedCode hfixed
      exact hoperands value radix literal rest h
  · refine .inl ⟨?_, ?_⟩
    · rw [Statement.isSection, Bool.or_eq_true_iff]
      exact not_or.mpr ⟨hdata, hcode⟩
    · rw [convert, if_neg hdata, if_neg hcode]

/-! ### The edits -/

namespace Edit

variable {context : Context} {R : BlockRelation} {name : Text}

/-! Forms that several edits have. -/

/-- An edit that changes lines one by one respects what each change does. -/
theorem respects_mapLines {f : Context → Program → Line → Line}
    (h : ∀ p line, R line [f context p line]) :
    (ofProgram name fun context p => p.mapLines (f context p)).Respects context R :=
  respects_ofProgram fun p => .of_map fun line _ => h p line

/-- An edit of the statements with one mnemonic leaves all other lines alone. -/
theorem respects_mapMnemonic {mnemonic : Text} {f : Statement → Statement}
    (hrefl : ∀ line, R line [line])
    (h : ∀ s, s.hasMnemonic mnemonic → R (.statement s) [.statement (f s)]) :
    (ofProgram name fun _ => Program.mapMnemonic mnemonic f).Respects context R := by
  refine respects_ofProgram fun p => .of_map fun line _ => ?_
  cases line with
  | directive d => exact hrefl _
  | definition d => exact hrefl _
  | statement s =>
      rw [Line.mapStatement]
      split
      · next hs => exact h s hs
      · exact hrefl _

/-- An edit of the outermost operands of a kind changes statements only. -/
theorem respects_replaceOutermost {kind : Operand.Kind} {f : Context → Place → Operand → Operand}
    (hrefl : ∀ line, R line [line])
    (h : ∀ s index, R (.statement s) [.statement (s.replaceIn kind (f context) index)]) :
    (ofProgram name fun context p => p.replaceOutermost kind (f context)).Respects context R := by
  refine respects_ofProgram fun p => (p.corresponds_replaceOutermost kind (f context)).mono ?_
  rintro line _ ⟨_, rfl, index, rfl⟩
  cases line with
  | directive d => exact hrefl _
  | definition d => exact hrefl _
  | statement s => exact h s index

/-! The other edits, one by one. -/

/-- To name a file is not to change its lines. -/
theorem respects_fileNames (hrefl : ∀ line, R line [line]) : fileNames.Respects context R :=
  fun _ p hp => ⟨p, hp, .refl hrefl p.lines⟩

/-- The edit of includes changes the values of the directives that include a header, and no other
line. -/
theorem respects_includes (hrefl : ∀ line, R line [line])
    (h : ∀ (d : Directive) (value : Text), d.isInclude →
      R (.directive d) [.directive { d with value }]) : includes.Respects context R := by
  refine respects_mapLines fun p line => ?_
  cases line with
  | directive d =>
      rw [Include.convertLine]
      split
      · next hd => exact h d _ hd
      · exact hrefl _
  | definition d => exact hrefl _
  | statement s => exact hrefl _

/-- The edit of configuration words changes their mnemonic and their operands, also where a fault
stops it, and no other line. -/
theorem respects_configWords (hrefl : ∀ line, R line [line])
    (h : ∀ (s : Statement) (operands : List Operand), s.hasMnemonic "__CONFIG".toList →
      R (.statement s) [.statement { s with mnemonic := some "config".toList, operands }]) :
    configWords.Respects context R := by
  refine respects_changeLines rfl hrefl fun line => ?_
  cases line with
  | directive d => exact hrefl _
  | definition d => exact hrefl _
  | statement s =>
      rw [ConfigWord.convert]
      split
      · next hs =>
        split
        · exact h s _ hs
        · exact h s s.operands hs
      · exact hrefl _

/-- The edit of sections makes of each line what a section is made of, wherever the line stands. -/
theorem respects_sections (h : ∀ stem line, R line (Section.convert stem line)) :
    sections.Respects context R := by
  intro file p hp
  have hprogram : (sections.change context file).result.program
      = some ⟨p.lines.flatMap (Section.convert (Text.upper file.stem))⟩ := by
    rw [change_sections]
    exact congrArg (Option.map _) hp
  exact ⟨_, hprogram, .of_flatMap fun line _ => h _ line⟩

/-- The edit of bits changes operands and comments, and on statements only those with an instruction
on single bits. -/
theorem respects_bitNames (hrefl : ∀ line, R line [line])
    (hstatement : ∀ (s : Statement) (operands : List Operand) (comment : Option Text),
      s.hasOneOf BitName.instructions →
        R (.statement s) [.statement { s with operands, comment }])
    (hdefinition : ∀ (d : Definition) (operands : List Operand),
      R (.definition d) [.definition { d with operands }]) : bitNames.Respects context R := by
  refine respects_changeLines rfl hrefl fun line => ?_
  rw [BitName.convert]
  split
  · exact hrefl _
  · next hmapped =>
    split
    · obtain ⟨operands, hoperands, -⟩ := Option.bind_eq_some_iff.mp hmapped
      cases line with
      | directive d => exact hrefl _
      | definition d => exact hdefinition d _
      | statement s =>
          refine hstatement s _ _ ?_
          rw [BitName.operands?] at hoperands
          split at hoperands
          · assumption
          · cases hoperands
    · exact hrefl _

/-- The edit of conditionals makes directives of statements, and changes no other line. -/
theorem respects_conditionals (hrefl : ∀ line, R line [line])
    (hopener : ∀ (s : Statement) (value : Text), s.hasMnemonic "ifdef".toList →
      R (.statement s) [.directive ⟨"#ifdef".toList, value, s.comment⟩])
    (hcloser : ∀ s : Statement, s.hasMnemonic "endif".toList →
      R (.statement s) [.directive ⟨"#endif".toList, [], s.comment⟩]) :
    conditionals.Respects context R := by
  have hlines (lines : List Line) (waiting : Nat) :
      Corresponds R lines (Conditional.convertFrom waiting lines) := by
    -- However many openers wait, a line is kept or becomes one directive.
    induction lines generalizing waiting with
    | nil => exact .nil
    | cons line lines ih =>
        cases line with
        | directive d => exact .cons (hrefl _) (ih waiting)
        | definition d => exact .cons (hrefl _) (ih waiting)
        | statement s =>
            rw [Conditional.convertFrom]
            split
            · next name hname =>
              refine .cons (hopener s name ?_) (ih (waiting + 1))
              rw [Conditional.symbol?] at hname
              split at hname
              · assumption
              · cases hname
            · split
              · next hs => exact .cons (hcloser s hs.1) (ih _)
              · exact .cons (hrefl _) (ih waiting)
  exact respects_ofProgram fun p => hlines p.lines 0

/-- The edit of additions with carry changes the operands of two mnemonics. -/
theorem respects_carryAdditions (hrefl : ∀ line, R line [line])
    (h : ∀ (s : Statement) (operands : List Operand),
      s.hasMnemonic "addwfc".toList ∨ s.hasMnemonic "subwfb".toList →
        R (.statement s) [.statement { s with operands }]) :
    carryAdditions.Respects context R := by
  refine respects_ofProgram fun p => ?_
  have hlines : (mapOperands "subwfb".toList Instruction.nameDestination
      (mapOperands "addwfc".toList Instruction.nameDestination p)).lines
        = p.lines.map _ := List.map_map
  rw [hlines]
  refine .of_map fun line _ => ?_
  cases line with
  | directive d => exact hrefl _
  | definition d => exact hrefl _
  | statement s =>
      -- The second change sees the line after the first, which may have changed its operands only.
      by_cases hadd : s.hasMnemonic "addwfc".toList
      · rw [Function.comp, Line.mapStatement, if_pos hadd, Line.mapStatement]
        split
        · exact h s _ (.inl hadd)
        · exact h s _ (.inl hadd)
      · rw [Function.comp, Line.mapStatement, if_neg hadd, Line.mapStatement]
        split
        · next hsub => exact h s _ (.inr hsub)
        · exact hrefl _

/-- The edits behind that of includes keep directives, they change no more than the operands of
definitions, and they make no include of a statement. -/
theorem respects_behindIncludes (hrefl : ∀ line, R line [line])
    (hdefinition : ∀ (d : Definition) (operands : List Operand),
      R (.definition d) [.definition { d with operands }])
    (hstatement : ∀ (s : Statement) (block : List Line),
      (∀ d, Line.directive d ∈ block → d.isInclude = false) → R (.statement s) block) :
    ∀ edit ∈ [numbers, externs, configWords, sections, reservations, bitNames, fixedAddresses,
      identifiers, fsrAdditions, conditionals, carryAdditions], edit.Respects context R := by
  -- No edit behind the conversion of includes makes an include of a statement.
  have hone (s s' : Statement) : R (.statement s) [.statement s'] :=
    hstatement s _ fun d hd => by cases List.mem_singleton.mp hd
  have hdirective (s : Statement) {d : Directive} (h : d.isInclude = false) :
      R (.statement s) [.directive d] :=
    hstatement s _ fun d' hd => by rwa [Line.directive.inj (List.mem_singleton.mp hd)]
  simp only [List.forall_mem_cons, List.not_mem_nil, false_implies, implies_true, and_true]
  refine ⟨?numbers, respects_mapMnemonic hrefl fun s _ => hone s _,
    respects_configWords hrefl fun s _ _ => hone s _, ?sections,
    respects_mapMnemonic hrefl fun s _ => hone s _,
    respects_bitNames hrefl (fun s _ _ _ => hone s _) hdefinition,
    respects_replaceOutermost hrefl fun s _ => hone s _,
    respects_replaceOutermost hrefl fun s _ => hone s _,
    respects_mapMnemonic hrefl fun s _ => hone s _,
    respects_conditionals hrefl (fun s _ _ => hdirective s rfl) fun s _ => hdirective s rfl,
    respects_carryAdditions hrefl fun s _ _ => hone s _⟩
  case numbers =>
    refine respects_mapLines fun _ line => ?_
    cases line with
    | directive d => exact hrefl _
    | definition d => exact hdefinition d _
    | statement s => exact hone s _
  case sections =>
    refine respects_sections fun stem line => ?_
    cases line with
    | directive d => exact hrefl _
    | definition d => exact hrefl _
    | statement s =>
        refine hstatement s _ fun d hd => ?_
        rcases Section.convert_statement_cases stem s with
          ⟨-, h⟩ | ⟨-, -, _, h⟩ | ⟨-, _, _, _, h⟩ <;> simp [h] at hd

end Edit

end PicAssembly
