import PicAssembly.Proofs.Edit.OperandNames
import PicAssembly.Proofs.Edit.Renaming
import PicAssembly.Proofs.Edit.Stages
import PicAssembly.Proofs.Program.RoundTrip
import PicAssembly.Proofs.Project.Files

/-!
# `PicAssembly.Proofs.Edit.Names`: the names that a conversion leaves in operands

Names are in order if they are read as themselves. All names of a program that was read are, and
a context without new names adds none. But a section without a name is called after its file, a
label may be a keyword, and a keyword may stand behind a pound sign that is taken away.
`Line.StaysLexical` says when none of this is the case.

* `Catalog.corresponds_lexical_of_apply`: the names in what becomes of a line are in order just
  if the line is of this kind.

The sections divide the proof as they divide the catalog: `Catalog.turns_naming` is the edits
before them, and `Catalog.turns_unpounded` those behind them.
-/

set_option autoImplicit false

namespace PicAssembly

/-! ### Lines before the sections -/

namespace Statement

/-- The operands have names that are read as themselves. -/
def Lexical (s : Statement) : Prop := ∀ x ∈ s.operands, x.Lexical

/-- The name of the section that the statement opens, in a file with this stem. -/
def sectionName (stem : Text) (s : Statement) : Text :=
  s.label.getD (stem ++ if s.hasMnemonic "udata".toList then "_UDATA".toList else "_CODE".toList)

/-- The name of a section is plain, and no pound sign in another statement hides a keyword. -/
def NamesPlainly (stem : Text) (s : Statement) : Prop :=
  if s.isSection then Operand.IsPlainName (s.sectionName stem)
  else ∀ x ∈ s.operands, ¬ x.PoundsKeyword

/-- A change to operands that hides no keyword leaves what is asked of the names in a statement. -/
theorem namesPlainly_map {stem : Text} {f : Operand → Operand}
    (hf : ∀ x, (f x).PoundsKeyword ↔ x.PoundsKeyword) (s : Statement) :
    NamesPlainly stem { s with operands := s.operands.map f } ↔ s.NamesPlainly stem := by
  show (if s.isSection then _ else _) ↔ (if s.isSection then _ else _)
  split
  · exact Iff.rfl
  · exact List.forall_mem_map.trans <| forall₂_congr fun x _ => not_congr (hf x)

/-- What the operands of the statement must be like to have proper names after a conversion.
Configuration words may be like anything: their operands are read anew. -/
def StaysLexical (stem : Text) (s : Statement) : Prop :=
  s.hasMnemonic "__CONFIG".toList ∨ s.NamesPlainly stem

end Statement

namespace Line

/-- If the line is a statement, then its operands have names that are read as themselves. -/
def Lexical : Line → Prop
  | .statement s => s.Lexical
  | _ => True

/-- What is asked of the names on a line before its section is declared. -/
def NamesPlainly (stem : Text) : Line → Prop
  | .statement s => s.NamesPlainly stem
  | _ => True

/-- What the names on a line must be like to be proper names after a conversion. -/
def StaysLexical (stem : Text) : Line → Prop
  | .statement s => s.StaysLexical stem
  | _ => True

/-- What is said of the names on a line before the sections. -/
def naming (stem : Text) (line : Line) : Prop × Prop := (line.Lexical, line.StaysLexical stem)

/-- The names on a line with a printed form are read as themselves. -/
theorem WellFormed.lexical {line : Line} (h : line.WellFormed) : line.Lexical := by
  cases line with
  | directive d => trivial
  | definition d => trivial
  | statement s => exact fun x hx => (Statement.WellFormed.operands h x hx).lexical

/-- Spelling numbers anew changes nothing about names. -/
theorem naming_respellNumbers (stem : Text) (line : Line) :
    line.respellNumbers.naming stem = line.naming stem := by
  cases line with
  | directive d => rfl
  | definition d => rfl
  | statement s =>
      rw [respellNumbers, Operand.respellAll, Operand.replaceOutermost_eq_map]
      refine Prod.ext (propext ?_) (propext (or_congr_right ?_))
      · exact List.forall_mem_map.trans <| forall₂_congr fun x _ =>
          Operand.lexical_replaceIn_respell x _
      · exact Statement.namesPlainly_map (fun x => Operand.poundsKeyword_replaceIn_respell x _) s

end Line

/-- Statements for external symbols are neither sections nor configuration words, under their
old name and under the new one. -/
theorem Statement.naming_externs {stem : Text} {s : Statement}
    (hs : s.hasMnemonic "extern".toList) :
    (Line.statement { s with mnemonic := some "GLOBAL".toList }).naming stem
      = (Line.statement s).naming stem := by
  have hsection : s.isSection = false := by
    rw [isSection, hasMnemonic_eq_of_hasMnemonic hs, hasMnemonic_eq_of_hasMnemonic hs]
    rfl
  have hconfig : s.hasMnemonic "__CONFIG".toList = false := hasMnemonic_eq_of_hasMnemonic hs _
  refine Prod.ext rfl (propext (or_congr ?_ ?_))
  · rw [hconfig]
    exact Iff.rfl
  · rw [NamesPlainly, NamesPlainly, hsection]
    exact Iff.rfl

/-- With configuration words read anew, the other names are all that is left to look at. -/
theorem ConfigWord.namesPlainly_iff_of_convert {stem : Text} {line line' : Line}
    (h : convert line = .done line') (hline : line.Lexical) :
    line'.Lexical ∧ (line'.NamesPlainly stem ↔ line.StaysLexical stem) := by
  cases line with
  | directive d =>
      obtain ⟨rfl, -⟩ := Outcome.eq_done_iff.mp h
      exact ⟨trivial, Iff.rfl⟩
  | definition d =>
      obtain ⟨rfl, -⟩ := Outcome.eq_done_iff.mp h
      exact ⟨trivial, Iff.rfl⟩
  | statement s =>
      rw [convert] at h
      split at h
      · next hconfig =>
        split at h
        · next operands hoperands =>
          obtain ⟨rfl, -⟩ := Outcome.eq_done_iff.mp h
          have hread := lexical_of_operandsOf hoperands hline
          -- The settings of the line are read from texts of identifiers, and so have names plainly.
          exact ⟨fun x hx => (hread x hx).1,
            iff_of_true (fun x hx => (hread x hx).2) (.inl hconfig)⟩
        · cases h
      · next hconfig =>
        obtain ⟨rfl, -⟩ := Outcome.eq_done_iff.mp h
        exact ⟨hline, ⟨.inr, fun h => h.resolve_left hconfig⟩⟩

/-! ### Lines behind the sections -/

/-- A line after the edits behind the sections, if there are no new names. -/
inductive Unpounded : Line → Line → Prop where
  /-- The number of a pointer register is taken from its name, whatever else is in that. -/
  | statement {s s' : Statement} (place : Place)
      (h : (s.hasMnemonic "addfsr".toList → s.Lexical) → (s'.Lexical ↔ ∀ x ∈ s.operands,
        (Operand.replaceIn .unary (fun _ node => node.withoutPound) place x).Lexical)) :
      Unpounded (.statement s) (.statement s')
  /-- Directives and definitions stay what they are, and conditionals become directives. -/
  | other {line line' : Line} (h : ∀ s, line = .statement s →
      s.hasMnemonic "ifdef".toList ∨ s.hasMnemonic "endif".toList)
      (h' : line'.statement? = none) : Unpounded line line'

/-- Whether the line is a statement, and whether its names are in order. -/
def Line.outcome (line : Line) : Bool × Prop := (line.statement?.isSome, line.Lexical)

/-- Without new names for bits every line stays. -/
theorem BitName.convert_eq_done {context : Context} (h : context.registers.isEmpty)
    (line : Line) : convert context line = .done line := by
  have hmapped : ∀ operands, mapped? context operands = none := by
    intro operands
    rw [mapped?]
    split
    · rw [Context.register?, Table.get?_eq_none h, Option.map_none]
    · rfl
  rw [convert]
  split
  · rfl
  · next hsome =>
    obtain ⟨operands, -, hsome⟩ := Option.bind_eq_some_iff.mp hsome
    cases (hmapped operands).symm.trans hsome

namespace Edit

variable {context : Context}

/-- An addition with carry keeps its names in order: it gets a letter for its destination, which is
a plain name. -/
theorem respects_carryAdditions_outcome :
    carryAdditions.Respects context (Keeping Line.outcome) := by
  have hone (mnemonic : Text) (p : Program) : Corresponds (Keeping Line.outcome) p.lines
      (mapOperands mnemonic Instruction.nameDestination p).lines := by
    refine .of_map fun line _ => ⟨_, rfl, ?_⟩
    cases line with
    | directive d => rfl
    | definition d => rfl
    | statement s =>
        rw [Line.mapStatement]
        split
        · exact Prod.ext rfl (propext (Instruction.lexical_nameDestination s.operands))
        · rfl
  exact respects_ofProgram fun p => (hone _ p).trans_of (keeping_trans _) (hone _ _)

end Edit

/-- The statement with the number of a pointer register in the place of its name. -/
def Statement.numberFsr (s : Statement) : Statement :=
  if s.hasMnemonic "addfsr".toList then
    { s with operands := Instruction.numberFsr s.operands }
  else s

/-- The number of a pointer register stands in an operand, so the mnemonic stays. -/
theorem Statement.hasMnemonic_numberFsr (s : Statement) (m : Text) :
    s.numberFsr.hasMnemonic m = s.hasMnemonic m := by
  rw [numberFsr]
  split <;> rfl

/-- A pointer register under its name is a plain name, so nothing changes about the names when its
number stands there. The condition asks for the form of names only; that the name of a register is
no keyword follows. -/
theorem Statement.lexical_numberFsr_iff {s : Statement}
    (h : s.hasMnemonic "addfsr".toList →
      ∀ name, .identifier name ∈ s.operands → Token.IsName name) :
    s.numberFsr.Lexical ↔ s.Lexical := by
  rw [numberFsr]
  split
  · next hs => exact Instruction.lexical_numberFsr (h hs)
  · exact Iff.rfl

namespace Unpounded

/-- The edits behind the sections, where those that give new names do nothing. -/
theorem of_edits {index : Nat} {line marked line' : Line}
    (hmarked : Conditional.Marked
      (((line.mapStatement (.rename "res".toList "DS".toList)).mapStatement
        (.replaceIn .unary (fun _ node => node.withoutPound) index)).mapStatement .numberFsr)
      marked)
    (houtcome : line'.outcome = marked.outcome) : Unpounded line line' := by
  have hshape : line'.statement?.isSome = marked.statement?.isSome := congrArg Prod.fst houtcome
  have hnone (h : marked.statement? = none) : line'.statement? = none := by
    rw [h] at hshape
    exact Option.not_isSome_iff_eq_none.mp (Bool.eq_false_iff.mp hshape)
  cases line with
  | directive d =>
      cases hmarked
      exact .other (fun s h => nomatch h) (hnone rfl)
  | definition d =>
      cases hmarked
      exact .other (fun s h => nomatch h) (hnone rfl)
  | statement s =>
      let renamed := s.rename "res".toList "DS".toList
      let bared := renamed.replaceIn .unary (fun _ node => node.withoutPound) index
      -- The only mnemonic that changes on the way is none that a later edit looks for.
      have hmnemonic {m : Text} (hold : Text.sameIgnoringCase "res".toList m = false)
          (hnew : Text.sameIgnoringCase "DS".toList m = false)
          (h : bared.numberFsr.hasMnemonic m) : s.hasMnemonic m := by
        have h : renamed.hasMnemonic m := bared.hasMnemonic_numberFsr m ▸ h
        rwa [Statement.hasMnemonic_rename hold hnew] at h
      cases hmarked with
      | opener _ value h =>
          refine .other (fun s' heq => .inl ?_) (hnone rfl)
          cases heq
          exact hmnemonic rfl rfl h
      | closer _ h =>
          refine .other (fun s' heq => .inr ?_) (hnone rfl)
          cases heq
          exact hmnemonic rfl rfl h
      | same =>
          cases line' with
          | directive d => cases hshape
          | definition d => cases hshape
          | statement s' =>
              refine .statement (renamed.place index) fun hfsr => ?_
              have hlexical : s'.Lexical ↔ bared.numberFsr.Lexical :=
                iff_of_eq (congrArg Prod.snd houtcome)
              rw [hlexical, Statement.lexical_numberFsr_iff]
              · exact List.forall_mem_map
              · intro hs name hname
                obtain ⟨x, hx, hbared⟩ := List.mem_map.mp hname
                have hs : s.hasMnemonic "addfsr".toList :=
                  hmnemonic rfl rfl (bared.hasMnemonic_numberFsr _ ▸ hs)
                exact Operand.isName_of_replaceIn_withoutPound (hfsr hs x hx) hbared

/-- A statement that is no conditional stays one, and its names are those behind pound signs. -/
theorem exists_statement {s : Statement} {m : Text} {line : Line}
    (h : Unpounded (.statement s) line) (hs : s.mnemonic = some m)
    (hm : ["addfsr".toList, "ifdef".toList, "endif".toList].all fun other =>
      Text.sameIgnoringCase m other = false) :
    ∃ s' place, line = .statement s' ∧ (s'.Lexical ↔ ∀ x ∈ s.operands,
      (Operand.replaceIn .unary (fun _ node => node.withoutPound) place x).Lexical) := by
  have hown := Statement.hasMnemonic_eq_of_hasMnemonic (Statement.hasMnemonic_self hs)
  simp only [List.all_cons, List.all_nil, Bool.and_eq_true, decide_eq_true_eq] at hm
  obtain ⟨hfsr, hopener, hcloser, -⟩ := hm
  cases h with
  | @statement _ s' place h =>
      refine ⟨s', place, rfl, h fun hfsr' => ?_⟩
      rw [hown, hfsr] at hfsr'
      cases hfsr'
  | other h =>
      -- A conditional would have one of the mnemonics that `m` is not.
      have hconditional := h s rfl
      rw [hown, hown, hopener, hcloser] at hconditional
      simp at hconditional

end Unpounded

/-! ### Sections -/

namespace Section

/-- An assignment is in order if its two sides are. -/
theorem lexical_assign {name : Text} {x : Operand} (hname : Operand.IsPlainName name)
    (hx : x.Lexical ∧ ¬ x.PoundsKeyword) : (Operand.assign .assign (.identifier name) x).Lexical ∧
      ¬ (Operand.assign .assign (.identifier name) x).PoundsKeyword := by
  simp [hname, hx]

/-- An option that is set to a plain name is in order. -/
theorem lexical_option {name value : Text} (hname : Operand.IsPlainName name)
    (hvalue : Operand.IsPlainName value) :
    (option name value).Lexical ∧ ¬ (option name value).PoundsKeyword :=
  lexical_assign hname ⟨.identifier hvalue, Operand.not_poundsKeyword_identifier⟩

/-- The option for the size of a program word is in order. -/
theorem lexical_delta : delta.Lexical ∧ ¬ delta.PoundsKeyword :=
  lexical_assign (by decide) ⟨.number .., Operand.not_poundsKeyword_number⟩

/-- What opens a section becomes a statement that names the section, and the address of a
section of code may get a line behind it. -/
theorem exists_convert_eq {s : Statement} (h : s.isSection) (stem : Text) :
    ∃ label options comment rest, convert stem (.statement s) = .statement
        ⟨label, some "PSECT".toList, .identifier (s.sectionName stem) :: options, comment⟩ :: rest ∧
      (∀ x ∈ options, x.Lexical ∧ ¬ x.PoundsKeyword) ∧
      (rest = [] ∨ ∃ value radix literal, rest = [.statement
        ⟨none, some "ORG".toList, [.number value radix literal], none⟩]) := by
  by_cases hdata : s.hasMnemonic "udata".toList
  · refine ⟨none, [option "class".toList "UDATA".toList], s.comment, [], ?_, ?_, .inl rfl⟩
    · rw [convert, if_pos hdata, ofData, Statement.sectionName, if_pos hdata]
    · exact List.forall_mem_singleton.mpr (lexical_option (by decide) (by decide))
  · have hcode : s.hasMnemonic "code".toList := (Bool.or_eq_true_iff.mp h).resolve_left hdata
    have hclass : (option "class".toList "CODE".toList).Lexical ∧
        ¬ (option "class".toList "CODE".toList).PoundsKeyword :=
      lexical_option (by decide) (by decide)
    have habsolute : (Operand.identifier "abs".toList).Lexical ∧
        ¬ (Operand.identifier "abs".toList).PoundsKeyword :=
      ⟨.identifier (by decide), Operand.not_poundsKeyword_identifier⟩
    rw [convert, if_neg hdata, if_pos hcode, ofCode, Statement.sectionName, if_neg hdata]
    -- A number behind `code` is an address, which goes on a line of its own.
    split
    · refine ⟨_, [_, _, _], _, _, rfl, ?_, .inr ⟨_, _, _, rfl⟩⟩
      rw [List.forall_mem_cons, List.forall_mem_cons, List.forall_mem_singleton]
      exact ⟨hclass, lexical_delta, habsolute⟩
    · refine ⟨_, [_, _], _, _, rfl, ?_, .inl rfl⟩
      rw [List.forall_mem_cons, List.forall_mem_singleton]
      exact ⟨hclass, lexical_delta⟩

/-- The names in the statement for a section are in order if the name of the section is. -/
theorem lexical_map_replaceIn_iff {name : Text} {place : Place} {options : List Operand}
    (h : ∀ x ∈ options, x.Lexical ∧ ¬ x.PoundsKeyword) :
    (∀ x ∈ Operand.identifier name :: options,
      (Operand.replaceIn .unary (fun _ node => node.withoutPound) place x).Lexical)
      ↔ Operand.IsPlainName name := by
  rw [List.forall_mem_cons, and_iff_left fun x hx =>
    (Operand.lexical_replaceIn_withoutPound (h x hx).1 place).mpr (h x hx).2]
  exact Operand.lexical_identifier_iff

end Section

/-- The lines for a section are in order if the name of the section is. -/
theorem Section.lexical_iff_isPlainName {stem : Text} {s : Statement} {block : List Line}
    (hs : s.isSection)
    (h : Corresponds (OneLine Unpounded) (convert stem (.statement s)) block) :
    (∀ s', .statement s' ∈ block → s'.Lexical) ↔ Operand.IsPlainName (s.sectionName stem) := by
  obtain ⟨label, options, comment, rest, hconvert, hoptions, hrest⟩ := exists_convert_eq hs stem
  rw [hconvert, ← List.singleton_append] at h
  -- The first line has the name of the section, and a second one has only an address.
  obtain ⟨front, back, rfl, hfront, hback⟩ := Corresponds.exists_of_append h
  obtain ⟨_, rfl, hfirst⟩ := Corresponds.singleton_iff.mp hfront
  obtain ⟨first, place, rfl, hlexical⟩ := hfirst.exists_statement rfl rfl
  rw [lexical_map_replaceIn_iff hoptions] at hlexical
  have hback : ∀ s', .statement s' ∈ back → s'.Lexical := by
    rcases hrest with rfl | ⟨value, radix, literal, rfl⟩
    · cases hback
      simp
    · obtain ⟨_, rfl, hsecond⟩ := Corresponds.singleton_iff.mp hback
      obtain ⟨second, place', rfl, hlexical'⟩ := hsecond.exists_statement rfl rfl
      have haddress : second.Lexical :=
        hlexical'.mpr (List.forall_mem_singleton.mpr (.number value radix literal))
      simpa using haddress
  simp only [List.singleton_append, List.mem_cons, Line.statement.injEq, forall_eq_or_imp,
    hlexical, and_iff_left hback]

/-- What the edits from the sections on make of the names on a line, if there are no new
names. -/
theorem Line.lexical_iff_namesPlainly {stem : Text} {line : Line} {block : List Line}
    (hline : line.Lexical) (h : Corresponds (OneLine Unpounded) (Section.convert stem line) block)
    (hsome : ∃ s, .statement s ∈ block) :
    (∀ s, .statement s ∈ block → s.Lexical) ↔ line.NamesPlainly stem := by
  obtain ⟨s', hs'⟩ := hsome
  -- A line that stands alone in its block is the statement of the block.
  have hone {line : Line} (h : Corresponds (OneLine Unpounded) [line] block) :
      ∃ s place, line = .statement s ∧ block = [.statement s'] ∧
        ((s.hasMnemonic "addfsr".toList → s.Lexical) → (s'.Lexical ↔ ∀ x ∈ s.operands,
          (Operand.replaceIn .unary (fun _ node => node.withoutPound) place x).Lexical)) := by
    obtain ⟨line', rfl, hline'⟩ := Corresponds.singleton_iff.mp h
    obtain rfl := List.mem_singleton.mp hs'
    cases hline' with
    | @statement s _ place h => exact ⟨s, place, rfl, rfl, h⟩
    | other _ h' => cases h'
  cases line with
  | directive d =>
      obtain ⟨_, _, hstatement, -⟩ := hone h
      cases hstatement
  | definition d =>
      obtain ⟨_, _, hstatement, -⟩ := hone h
      cases hstatement
  | statement s =>
      show _ ↔ s.NamesPlainly stem
      rw [Statement.NamesPlainly]
      split
      · next hsection => exact Section.lexical_iff_isPlainName hsection h
      · next hsection =>
        rcases Section.convert_statement_cases stem s with
          ⟨-, hconvert⟩ | ⟨hs, -⟩ | ⟨hfixed, -⟩
        · rw [hconvert] at h
          obtain ⟨_, place, hstatement, rfl, hlexical⟩ := hone h
          cases hstatement
          have hoperands : s'.Lexical ↔ ∀ x ∈ s.operands, ¬ x.PoundsKeyword :=
            (hlexical fun _ => hline).trans <| forall₂_congr fun x hx =>
              Operand.lexical_replaceIn_withoutPound (hline x hx) place
          simpa using hoperands
        · exact absurd hs hsection
        · exact absurd (Statement.isSection_of_isFixedCode hfixed) hsection

/-- The new ending of a name leaves the stem alone. -/
theorem SourceFile.takeWhile_convertedName (name : Text) :
    (convertedName name).takeWhile (· != '.') = name.takeWhile (· != '.') := by
  rw [convertedName]
  split
  · next stem hstem =>
    rw [Text.dropBack?_eq_some_iff.mp hstem, List.takeWhile_append, List.takeWhile_append]
    rfl
  · rfl

namespace Catalog

open Edit

variable {context : Context}

/-- The edits before the sections. -/
theorem turns_naming (stem : Text) :
    Turns context [.fileNames, .includes, .numbers, .externs, .configWords]
      (OneLine fun line line' => line.Lexical →
        line'.Lexical ∧ (line'.NamesPlainly stem ↔ line.StaysLexical stem)) := by
  -- All edits but the last leave alone what is asked of the names.
  have hkeeping : Turns context [.fileNames, .includes, .numbers, .externs]
      (Keeping (Line.naming stem)) := by
    refine turns_of_respects (keeping_refl _) (keeping_trans _) ?_
    simp only [List.forall_mem_cons, List.not_mem_nil, false_implies, implies_true, and_true]
    exact ⟨respects_fileNames (keeping_refl _),
      respects_includes (keeping_refl _) fun _ _ _ => ⟨_, rfl, rfl⟩,
      respects_mapLines fun _ line => ⟨_, rfl, line.naming_respellNumbers stem⟩,
      respects_mapMnemonic (keeping_refl _) fun _ hs => ⟨_, rfl, Statement.naming_externs hs⟩⟩
  have hconfig : Turns context [.configWords] _ := turns_changeLines rfl
  refine (hkeeping.append hconfig).mono ?_
  intro line block h
  obtain ⟨kept, line', rfl, hkept, hline'⟩ := OneLine.of_via h
  refine ⟨line', rfl, fun hline => ?_⟩
  have hlexical : kept.Lexical ↔ line.Lexical := iff_of_eq (congrArg Prod.fst hkept)
  have hstays : kept.StaysLexical stem ↔ line.StaysLexical stem :=
    iff_of_eq (congrArg Prod.snd hkept)
  rw [← hstays]
  exact ConfigWord.namesPlainly_iff_of_convert hline' (hlexical.mpr hline)

/-- The edits behind the sections. -/
theorem turns_unpounded (hregisters : context.registers.isEmpty)
    (hreplacements : context.replacements.isEmpty) :
    Turns context [.reservations, .bitNames, .fixedAddresses, .identifiers, .fsrAdditions,
      .conditionals, .carryAdditions] (OneLine Unpounded) := by
  have hreservations : Turns context [.reservations] _ :=
    turns_singleton (respects_renameMnemonic context _ "res".toList "DS".toList)
  have hbits : Turns context [.bitNames] _ := turns_changeLines rfl
  have hpounds : Turns context [.fixedAddresses] (OneLine fun line line' => ∃ index, line'
      = line.mapStatement (.replaceIn .unary (fun _ node => node.withoutPound) index)) :=
    turns_singleton <| respects_ofProgram fun p => p.corresponds_replaceOutermost ..
  have hnames : Turns context [.identifiers] _ :=
    turns_singleton (respects_identifiers (keeping_refl fun line => line) hreplacements)
  have hfsr : Turns context [.fsrAdditions]
      (OneLine fun line line' => line' = line.mapStatement .numberFsr) :=
    turns_singleton <| respects_ofProgram fun p => .of_map fun _ _ => ⟨_, rfl, rfl⟩
  have hconditionals : Turns context [.conditionals] (OneLine Conditional.Marked) :=
    turns_singleton <| respects_conditionals (fun line => ⟨_, rfl, .same line⟩)
      (fun s value h => ⟨_, rfl, .opener s value h⟩) (fun s h => ⟨_, rfl, .closer s h⟩)
  have hcarry : Turns context [.carryAdditions] (Keeping Line.outcome) :=
    turns_singleton respects_carryAdditions_outcome
  refine (hreservations.append (hbits.append (hpounds.append (hnames.append (hfsr.append
    (hconditionals.append hcarry)))))).mono ?_
  -- None of these edits divides a line, so there is one line to follow through all of them.
  rintro line block ⟨_, ⟨_, rfl, rfl⟩, h⟩
  obtain ⟨_, ⟨named, rfl, hnamed⟩, h⟩ := Corresponds.singleton_iff.mp h
  rw [BitName.convert_eq_done hregisters] at hnamed
  obtain ⟨rfl, -⟩ := Outcome.eq_done_iff.mp hnamed
  obtain ⟨_, ⟨_, rfl, index, rfl⟩, h⟩ := Corresponds.singleton_iff.mp h
  obtain ⟨_, ⟨_, rfl, rfl⟩, h⟩ := Corresponds.singleton_iff.mp h
  obtain ⟨_, ⟨_, rfl, rfl⟩, h⟩ := Corresponds.singleton_iff.mp h
  obtain ⟨marked, line', rfl, hmarked, hline'⟩ := OneLine.of_via (Corresponds.singleton_iff.mp h)
  exact ⟨line', rfl, .of_edits hmarked hline'⟩

/-- The edits before the sections leave the stem of the file alone. -/
theorem stem_runAll (context : Context) (file : SourceFile) :
    (runAll context [.fileNames, .includes, .numbers, .externs, .configWords] file).result.stem
      = file.stem := by
  refine runAll_eq_of_keeps (fun edit hedit file => ?_) file
  revert edit
  simp only [List.forall_mem_cons, List.not_mem_nil, false_implies, implies_true, and_true]
  refine ⟨SourceFile.takeWhile_convertedName file.name, rfl, rfl, rfl, ?_⟩
  have hlocation : configWords.KeepsLocation := keepsLocation_changeProgram _ fun _ => rfl
  exact congrArg (fun location => location.2.takeWhile (· != '.')) (hlocation context file)

/-- The three stages of a run, with the stem that sections are called after. -/
theorem corresponds_of_run {R S : BlockRelation} {file file' : SourceFile} {p : Program}
    (hfirst : Turns context [.fileNames, .includes, .numbers, .externs, .configWords] R)
    (hlast : Turns context [.reservations, .bitNames, .fixedAddresses, .identifiers,
      .fsrAdditions, .conditionals, .carryAdditions] S)
    (hp : file.program = some p) (h : run context file = .done file') :
    ∃ p', file'.program = some p' ∧ Corresponds (Via R (Via (fun line block =>
      block = Section.convert (Text.upper file.stem) line) S)) p.lines p'.lines := by
  have hedits : edits = [.fileNames, .includes, .numbers, .externs, .configWords] ++
    ([.sections] ++ edits.drop 6) := rfl
  -- The run in three parts: up to the sections, the sections, and from there on.
  rw [run, hedits, runAll_append] at h
  obtain ⟨middle, hmiddle, h⟩ := Outcome.andThen_eq_done_iff.mp h
  rw [runAll_append, runAll_singleton] at h
  obtain ⟨declared, hdeclared, h⟩ := Outcome.andThen_eq_done_iff.mp h
  obtain ⟨q, hq, hprepared⟩ := hfirst file middle p hp hmiddle
  -- The edits before the sections may rename the file, but the name of a section is cut off at the
  -- ending.
  have hstem : middle.stem = file.stem := by
    rw [← stem_runAll context file, hmiddle, Outcome.result_done]
  rw [Edit.change_sections] at hdeclared
  obtain ⟨rfl, -⟩ := Outcome.eq_done_iff.mp hdeclared
  obtain ⟨p', hp', hfinished⟩ := hlast _ file' _ (congrArg (Option.map _) hq) h
  have hsections : Corresponds (fun line block =>
      block = Section.convert (Text.upper file.stem) line) q.lines
        (q.lines.flatMap (Section.convert (Text.upper middle.stem))) :=
    .of_flatMap fun line _ => by rw [hstem]
  exact ⟨p', hp', hprepared.trans (hsections.trans hfinished)⟩

/-- Without new names for bits and identifiers, the statements that stand for a line of a source
have names that are read as themselves, just if the name of a section is such a name, or in
any other line no pound sign hides a keyword. -/
theorem corresponds_lexical_of_apply {file read file' : SourceFile}
    (hregisters : context.registers.isEmpty) (hreplacements : context.replacements.isEmpty)
    (hparse : file.parse = .ok read) (happly : apply context read = .ok file') :
    ∃ p p', read.program = some p ∧ file'.program = some p' ∧
      Corresponds (fun line block => (∃ s, .statement s ∈ block) →
        ((∀ s, .statement s ∈ block → s.Lexical) ↔
          line.StaysLexical (Text.upper file.stem))) p.lines p'.lines := by
  obtain ⟨p, hp, rfl⟩ : ∃ p, Program.parse file.text = .ok p ∧
      read = { file with program := some p } := by
    obtain ⟨p, hp, hread⟩ := bind_eq_ok_iff.mp hparse
    cases hread
    exact ⟨p, hp, rfl⟩
  -- In a program that was read all names are in order, whatever the edits do to them.
  have hlexical : ∀ line ∈ p.lines, line.Lexical := fun line hline =>
    (Program.wellFormed_of_parse hp line hline).lexical
  obtain ⟨p', hp', hlines⟩ := corresponds_of_run (turns_naming (Text.upper file.stem))
    (turns_unpounded hregisters hreplacements) rfl (Outcome.toExcept_eq_ok_iff.mp happly)
  refine ⟨p, p', rfl, hp', hlines.mono_of_mem ?_⟩
  rintro line hline block ⟨_, ⟨prepared, rfl, hprepared⟩, hrest⟩ hsome
  obtain ⟨_, rfl, hfinished⟩ := Corresponds.singleton_iff.mp hrest
  obtain ⟨hpreparedLexical, hstays⟩ := hprepared (hlexical line hline)
  rw [← hstays]
  exact Line.lexical_iff_namesPlainly hpreparedLexical hfinished hsome

/-- A section that is called after its file. -/
theorem corresponds_lexical_of_apply_section :
    let s : Statement := ⟨none, some "udata".toList, [], none⟩
    let s' : Statement := ⟨none, some "PSECT".toList, [.identifier "MAIN_UDATA".toList,
      Section.option "class".toList "UDATA".toList], none⟩
    let file : SourceFile := .unread "main.asm".toList [] (Utf8.encode " udata".toList)
    let read : SourceFile := { file with program := some ⟨[.statement s]⟩ }
    Context.empty.registers.isEmpty ∧ Context.empty.replacements.isEmpty ∧
      file.parse = .ok read ∧ apply .empty read
        = .ok { file with name := "main.s".toList, program := some ⟨[.statement s']⟩ } ∧
      s'.Lexical := by
  intro s s' file read
  have hregisters : Context.empty.registers.isEmpty := rfl
  have hreplacements : Context.empty.replacements.isEmpty := rfl
  have hparse : file.parse = .ok read := by decide +kernel
  have happly : apply .empty read
      = .ok { file with name := "main.s".toList, program := some ⟨[.statement s']⟩ } := by
    decide +kernel
  obtain ⟨p, p', hp, hp', hlines⟩ :=
    corresponds_lexical_of_apply hregisters hreplacements hparse happly
  cases hp
  cases hp'
  have hname : s.NamesPlainly (Text.upper file.stem) :=
    show Operand.IsPlainName _ by decide +kernel
  have hlexical := Corresponds.singleton_iff.mp hlines ⟨s', List.mem_cons_self⟩
  exact ⟨hregisters, hreplacements, hparse, happly,
    hlexical.mpr (.inr hname) s' List.mem_cons_self⟩

/-- A section that is called after a file with a name that is none. -/
theorem not_lexical_of_apply :
    let s : Statement := ⟨none, some "PSECT".toList, [.identifier "MY-FILE_UDATA".toList,
      Section.option "class".toList "UDATA".toList], none⟩
    let file : SourceFile := .unread "my-file.asm".toList [] (Utf8.encode " udata".toList)
    ∃ read, file.parse = .ok read ∧ apply .empty read
        = .ok { file with name := "my-file.s".toList, program := some ⟨[.statement s]⟩ } ∧
      ¬ Token.IsName "MY-FILE_UDATA".toList ∧ ¬ s.Lexical := by
  intro s file
  have hname : ¬ Token.IsName "MY-FILE_UDATA".toList := by decide
  refine ⟨{ file with program := some ⟨[.statement ⟨none, some "udata".toList, [], none⟩]⟩ },
    by decide +kernel, by decide +kernel, hname, fun h => hname ?_⟩
  exact (Operand.lexical_identifier_iff.mp (h _ List.mem_cons_self)).1

end Catalog

end PicAssembly
