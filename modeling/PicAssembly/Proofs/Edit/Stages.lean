import PicAssembly.Proofs.Edit.Frames

/-!
# `PicAssembly.Proofs.Edit.Stages`: lines before and behind the sections

The declaration of sections divides the catalog: it is the one edit that puts two lines in the
place of one. `Prepared` is what the edits before it do to a line, and `Finished` what those
behind it do.

* `Catalog.turns_prepared` and `Catalog.turns_finished` say so of the two runs.
* `Catalog.turns_edits` puts the whole catalog together from them and `Section.convert`.

A line with configuration words, a bit with a new name and a conditional change more than what
is in a frame. What an edit does to each of them is a lemma of its own.
-/

set_option autoImplicit false

namespace PicAssembly

namespace Statement

/-- A comment stays. Where there was none, the old name of a bit may be one. -/
def KeepsComment (s : Statement) (comment : Option Text) : Prop :=
  comment = s.comment ∨
    s.comment = none ∧ s.hasOneOf BitName.instructions ∧
      ∃ register bit, s.operands = [.identifier register, .identifier bit] ∧
        comment = some (register ++ '.' :: bit)

end Statement

/-- A line after the edits before the sections. -/
inductive Prepared : Line → Line → Prop where
  | directive (d : Directive) (value : Text) :
      Prepared (.directive d) (.directive { d with value })
  | definition (d : Definition) (operands : List Operand) :
      Prepared (.definition d) (.definition { d with operands })
  | statement {s s' : Statement} (label : s'.label = s.label)
      (mnemonic : s'.mnemonic = ((s.rename "extern".toList "GLOBAL".toList).rename
        "__CONFIG".toList "config".toList).mnemonic)
      (comment : s'.comment = s.comment)
      (form : ¬ s.hasMnemonic "__CONFIG".toList → s'.form = s.form) :
      Prepared (.statement s) (.statement s')

/-- A line after the edits behind the sections. -/
inductive Finished : Line → Line → Prop where
  | directive (d : Directive) (value : Text) :
      Finished (.directive d) (.directive { d with value })
  | definition (d : Definition) (operands : List Operand) :
      Finished (.definition d) (.definition { d with operands })
  | statement {s s' : Statement} (label : s'.label = s.label)
      (mnemonic : s'.mnemonic = (s.rename "res".toList "DS".toList).mnemonic)
      (comment : s.KeepsComment s'.comment) : Finished (.statement s) (.statement s')
  | opener (s : Statement) (value : Text) (h : s.hasMnemonic "ifdef".toList) :
      Finished (.statement s) (.directive ⟨"#ifdef".toList, value, s.comment⟩)
  | closer (s : Statement) (value : Text) (h : s.hasMnemonic "endif".toList) :
      Finished (.statement s) (.directive ⟨"#endif".toList, value, s.comment⟩)

/-! ### The edits that do not keep frames -/

/-- Renaming a mnemonic makes one line of each, with the mnemonic renamed. -/
theorem Edit.respects_renameMnemonic (context : Context) (name old new : Text) :
    (ofProgram name fun _ => renameMnemonic old new).Respects context
      (OneLine fun line line' => line' = line.mapStatement (.rename old new)) := by
  refine respects_ofProgram fun p => .of_map fun line _ => ⟨_, rfl, ?_⟩
  cases line with
  | directive d => rfl
  | definition d => rfl
  | statement s => exact congrArg Line.statement (s.rename_eq old new).symm

/-- Configuration words are renamed, and only they get other operands. -/
theorem ConfigWord.convert_statement_eq_done {s : Statement} {line : Line}
    (h : convert (.statement s) = .done line) :
    ∃ s', line = .statement s' ∧ s'.label = s.label ∧ s'.comment = s.comment ∧
      s'.mnemonic = (s.rename "__CONFIG".toList "config".toList).mnemonic ∧
      (¬ s.hasMnemonic "__CONFIG".toList → s'.form = s.form) := by
  rw [Statement.rename_eq]
  rw [convert] at h
  split at h
  · next hconfig =>
    rw [if_pos hconfig]
    split at h
    -- The operands are read anew, so nothing is said of their form.
    · obtain ⟨rfl, -⟩ := Outcome.eq_done_iff.mp h
      exact ⟨_, rfl, rfl, rfl, rfl, fun hnot => absurd hconfig hnot⟩
    · cases h
  · next hconfig =>
    rw [if_neg hconfig]
    obtain ⟨rfl, -⟩ := Outcome.eq_done_iff.mp h
    exact ⟨s, rfl, rfl, rfl, rfl, fun _ => rfl⟩

/-- A statement with a new name for a bit keeps the old name in a comment. -/
theorem BitName.convert_statement_eq_done {context : Context} {s : Statement} {line : Line}
    (h : convert context (.statement s) = .done line) :
    ∃ s', line = .statement s' ∧ s'.label = s.label ∧ s'.mnemonic = s.mnemonic ∧
      s.KeepsComment s'.comment := by
  rw [convert] at h
  split at h
  · obtain ⟨rfl, -⟩ := Outcome.eq_done_iff.mp h
    exact ⟨s, rfl, rfl, rfl, Or.inl rfl⟩
  · next register bit name hmapped =>
    obtain ⟨operands, hoperands, hmapped⟩ := Option.bind_eq_some_iff.mp hmapped
    rw [operands?] at hoperands
    split at hoperands
    · next hinstruction =>
      cases hoperands
      -- A name was found, so the operands are a register and one of its bits.
      have hpair : s.operands = [.identifier register, .identifier bit] := by
        rw [mapped?] at hmapped
        split at hmapped
        · next hpair =>
          obtain ⟨_, -, heq⟩ := Option.map_eq_some_iff.mp hmapped
          cases heq
          exact pair?_eq_some_iff.mp hpair
        · cases hmapped
      split at h
      · obtain ⟨rfl, -⟩ := Outcome.eq_done_iff.mp h
        refine ⟨_, rfl, rfl, rfl, ?_⟩
        rw [Statement.KeepsComment]
        cases hcomment : s.comment with
        | some text => exact Or.inl rfl
        | none => exact Or.inr ⟨rfl, hinstruction, register, bit, hpair, rfl⟩
      · cases h
    · cases hoperands

/-- A definition keeps its name and its comment when the bit in it gets a new name. -/
theorem BitName.convert_definition_eq_done {context : Context} {d : Definition} {line : Line}
    (h : convert context (.definition d) = .done line) :
    ∃ operands, line = .definition { d with operands } := by
  rw [convert] at h
  split at h
  · obtain ⟨rfl, -⟩ := Outcome.eq_done_iff.mp h
    exact ⟨d.operands, rfl⟩
  · split at h
    · obtain ⟨rfl, -⟩ := Outcome.eq_done_iff.mp h
      exact ⟨_, rfl⟩
    · cases h

/-- A line with a directive in the place of a conditional. -/
inductive Conditional.Marked : Line → Line → Prop where
  | same (line : Line) : Marked line line
  | opener (s : Statement) (name : Text) (h : s.hasMnemonic "ifdef".toList) :
      Marked (.statement s) (.directive ⟨"#ifdef".toList, name, s.comment⟩)
  | closer (s : Statement) (h : s.hasMnemonic "endif".toList) :
      Marked (.statement s) (.directive ⟨"#endif".toList, [], s.comment⟩)

/-! ### The two stages -/

namespace Statement.KeepsComment

variable {s s' : Statement} {comment : Option Text}

/-- What is known of the comment of a statement that was prepared holds of the statement before,
since preparing changes nothing that the comment depends on. -/
theorem of_eq (h : s'.KeepsComment comment) (hcomment : s'.comment = s.comment)
    (hbits : s'.hasOneOf BitName.instructions = s.hasOneOf BitName.instructions)
    (hpair : s.hasOneOf BitName.instructions →
      BitName.pair? s'.operands = BitName.pair? s.operands) : s.KeepsComment comment := by
  rcases h with h | ⟨hnone, hinstruction, register, bit, hoperands, h⟩
  · exact Or.inl (h.trans hcomment)
  · rw [hbits] at hinstruction
    refine Or.inr ⟨hcomment ▸ hnone, hinstruction, register, bit, ?_, h⟩
    rw [← BitName.pair?_eq_some_iff, ← hpair hinstruction, BitName.pair?_eq_some_iff, hoperands]

/-- Only an instruction on a bit gets a comment. -/
theorem eq_of_hasMnemonic {m : Text} (h : s.KeepsComment comment) (hm : s.hasMnemonic m)
    (hbits : BitName.instructions.any (Text.sameIgnoringCase m) = false) :
    comment = s.comment := by
  rcases h with h | ⟨-, hinstruction, -⟩
  · exact h
  · rw [Statement.hasOneOf_eq_of_hasMnemonic hm, hbits] at hinstruction
    cases hinstruction

end Statement.KeepsComment

namespace Prepared

/-- The edits before the sections, put together: frames are kept but for the two that change a
mnemonic. -/
theorem of_edits {line kept line' : Line} (hkept : kept.formedFrame = line.formedFrame)
    (h : ConfigWord.convert (kept.mapStatement (.rename "extern".toList "GLOBAL".toList))
      = .done line') : Prepared line line' := by
  have hframe : kept.frame = line.frame := congrArg Prod.fst hkept
  cases line with
  | directive d =>
      obtain ⟨value, rfl⟩ := Line.exists_directive_of_frame hframe
      obtain ⟨rfl, -⟩ := Outcome.eq_done_iff.mp h
      exact .directive d value
  | definition d =>
      obtain ⟨operands, rfl⟩ := Line.exists_definition_of_frame hframe
      obtain ⟨rfl, -⟩ := Outcome.eq_done_iff.mp h
      exact .definition d operands
  | statement s =>
      obtain ⟨operands, rfl⟩ := Line.exists_statement_of_frame hframe
      have hform : Statement.form { s with operands } = s.form :=
        Option.some.inj (congrArg Prod.snd hkept)
      obtain ⟨s', rfl, hlabel, hcomment, hmnemonic, hform'⟩ :=
        ConfigWord.convert_statement_eq_done h
      refine .statement hlabel hmnemonic hcomment fun hconfig => (hform' ?_).trans hform
      rwa [Statement.hasMnemonic_rename rfl rfl]

end Prepared

namespace Finished

/-- The edits behind the sections, put together: frames are kept but for the bits, the conditionals
and the one change of a mnemonic. -/
theorem of_edits {context : Context} {line named framed marked line' : Line}
    (hnamed : BitName.convert context (line.mapStatement (.rename "res".toList "DS".toList))
      = .done named) (hframed : framed.frame = named.frame)
    (hmarked : Conditional.Marked framed marked) (hframe : line'.frame = marked.frame) :
    Finished line line' := by
  cases line with
  | directive d =>
      obtain ⟨rfl, -⟩ := Outcome.eq_done_iff.mp hnamed
      obtain ⟨value, rfl⟩ := Line.exists_directive_of_frame hframed
      cases hmarked
      obtain ⟨value', rfl⟩ := Line.exists_directive_of_frame hframe
      exact .directive d value'
  | definition d =>
      obtain ⟨operands, rfl⟩ := BitName.convert_definition_eq_done hnamed
      obtain ⟨operands', rfl⟩ := Line.exists_definition_of_frame hframed
      cases hmarked
      obtain ⟨operands'', rfl⟩ := Line.exists_definition_of_frame hframe
      exact .definition d operands''
  | statement s =>
      obtain ⟨s', rfl, hlabel, hmnemonic, hcomment⟩ := BitName.convert_statement_eq_done hnamed
      have hkeeps : s.KeepsComment s'.comment :=
        hcomment.of_eq rfl (Statement.hasOneOf_rename rfl rfl s) fun _ => rfl
      obtain ⟨operands, rfl⟩ := Line.exists_statement_of_frame hframed
      -- The mnemonic of a conditional is none of those that were renamed before.
      have hsame : ∀ m, Text.sameIgnoringCase "res".toList m = false →
          Text.sameIgnoringCase "DS".toList m = false → s'.hasMnemonic m → s.hasMnemonic m := by
        intro m hold hnew h
        rwa [Statement.hasMnemonic, hmnemonic, ← Statement.hasMnemonic,
          Statement.hasMnemonic_rename hold hnew] at h
      cases hmarked with
      | same =>
          obtain ⟨operands', rfl⟩ := Line.exists_statement_of_frame hframe
          exact .statement hlabel hmnemonic hkeeps
      | opener _ name h =>
          obtain ⟨value, rfl⟩ := Line.exists_directive_of_frame hframe
          have hopener := hsame _ rfl rfl h
          rw [hkeeps.eq_of_hasMnemonic hopener rfl]
          exact .opener s value hopener
      | closer _ h =>
          obtain ⟨value, rfl⟩ := Line.exists_directive_of_frame hframe
          have hcloser := hsame _ rfl rfl h
          rw [hkeeps.eq_of_hasMnemonic hcloser rfl]
          exact .closer s value hcloser

end Finished

namespace Catalog

open Edit

variable {context : Context}

/-- The edits before the sections turn each line into one that is prepared. -/
theorem turns_prepared :
    Turns context [.fileNames, .includes, .numbers, .externs, .configWords] (OneLine Prepared) := by
  have hkeeping : Turns context [.fileNames, .includes, .numbers] (Keeping Line.formedFrame) :=
    turns_of_respects (keeping_refl _) (keeping_trans _) <| List.forall_mem_cons.mpr
      ⟨respects_fileNames (keeping_refl _), List.forall_mem_cons.mpr
        ⟨respects_includes (keeping_refl _) fun _ _ _ => ⟨_, rfl, rfl⟩,
          List.forall_mem_singleton.mpr <| respects_mapLines fun _ line =>
            ⟨_, rfl, line.formedFrame_respellNumbers⟩⟩⟩
  have hexternal : Turns context [.externs] _ :=
    turns_singleton (respects_renameMnemonic context _ "extern".toList "GLOBAL".toList)
  have hconfig : Turns context [.configWords] _ := turns_changeLines rfl
  refine (hkeeping.append (hexternal.append hconfig)).mono ?_
  rintro line block ⟨_, ⟨kept, rfl, hkept⟩, h⟩
  obtain ⟨_, line', rfl, rfl, h⟩ := OneLine.of_via (Corresponds.singleton_iff.mp h)
  exact ⟨line', rfl, .of_edits hkept h⟩

/-- The edits behind the sections turn each line into one that is finished. -/
theorem turns_finished :
    Turns context [.reservations, .bitNames, .fixedAddresses, .identifiers, .fsrAdditions,
      .conditionals, .carryAdditions] (OneLine Finished) := by
  have hreservations : Turns context [.reservations] _ :=
    turns_singleton (respects_renameMnemonic context _ "res".toList "DS".toList)
  have hbits : Turns context [.bitNames] _ := turns_changeLines rfl
  have hkeeping : Turns context [.fixedAddresses, .identifiers, .fsrAdditions]
      (Keeping Line.frame) :=
    turns_of_respects (keeping_refl _) (keeping_trans _) <| List.forall_mem_cons.mpr
      ⟨respects_replaceOutermost (keeping_refl _) fun _ _ => ⟨_, rfl, rfl⟩,
        List.forall_mem_cons.mpr
          ⟨respects_replaceOutermost (keeping_refl _) fun _ _ => ⟨_, rfl, rfl⟩,
            List.forall_mem_singleton.mpr <| respects_mapMnemonic (keeping_refl _)
              fun _ _ => ⟨_, rfl, rfl⟩⟩⟩
  have hconditionals : Turns context [.conditionals] (OneLine Conditional.Marked) :=
    turns_singleton <| respects_conditionals (fun line => ⟨_, rfl, .same line⟩)
      (fun s value h => ⟨_, rfl, .opener s value h⟩) (fun s h => ⟨_, rfl, .closer s h⟩)
  have hcarry : Turns context [.carryAdditions] (Keeping Line.frame) :=
    turns_singleton <| respects_carryAdditions (keeping_refl _) fun _ _ _ => ⟨_, rfl, rfl⟩
  -- Every stage gives one line for a line, so all of them together do.
  refine (hreservations.append (hbits.append (hkeeping.append
    (hconditionals.append hcarry)))).mono ?_
  rintro line block ⟨_, ⟨_, rfl, rfl⟩, h⟩
  obtain ⟨_, ⟨named, rfl, hnamed⟩, h⟩ := Corresponds.singleton_iff.mp h
  obtain ⟨_, ⟨framed, rfl, hframed⟩, h⟩ := Corresponds.singleton_iff.mp h
  obtain ⟨marked, line', rfl, hmarked, hline'⟩ := OneLine.of_via (Corresponds.singleton_iff.mp h)
  exact ⟨line', rfl, .of_edits hnamed hframed hmarked hline'⟩

/-- Lines are prepared, then sections are declared, and then the lines are finished. -/
theorem turns_edits :
    Turns context edits (Via (OneLine Prepared)
      (Via (fun line block => ∃ stem, block = Section.convert stem line) (OneLine Finished))) := by
  have hsections : Turns context [.sections]
      (fun line block => ∃ stem, block = Section.convert stem line) :=
    turns_singleton (respects_sections fun stem _ => ⟨stem, rfl⟩)
  exact turns_prepared.append (hsections.append turns_finished)

end Catalog

end PicAssembly
