import PicAssembly.Program.Parser
import PicAssembly.Proofs.Edit.Frames
import PicAssembly.Proofs.Token.Reading

/-!
# `PicAssembly.Proofs.Edit.MappedBits`: which lines get new names of bits

A line is selected if it is an instruction on a single bit or a definition, its operands are a
register and a bit, and the context has a new name for the two (`BitName.Selects`). The parts of
the new name, between its points, become the operands, and all other lines stay
(`BitName.Maps`).

The new names come from outside, so their parts may be anything. The edit fails just if a part of
a name that is put in cannot be read as an operand (`Edit.corresponds_mapped_bitNames`).
-/

set_option autoImplicit false

namespace PicAssembly

namespace BitName

/-- The line names this bit of this register, where the edit looks at it, and the context has this
new name for the bit. -/
inductive Selects (context : Context) (register bit name : Text) : Line → Prop where
  | statement {s : Statement} (hinstruction : s.hasOneOf instructions)
      (hpair : s.operands = [.identifier register, .identifier bit])
      (hname : context.register? register bit = some name) :
      Selects context register bit name (.statement s)
  | definition {d : Definition} (hpair : d.operands = [.identifier register, .identifier bit])
      (hname : context.register? register bit = some name) :
      Selects context register bit name (.definition d)

/-- The operands are the parts of the name between its points, in order. -/
def ReadsAs (name : Text) (operands : List Operand) : Prop :=
  List.Forall₂ (fun part x => Operand.parse part = .ok x) (Text.splitAt '.' name) operands

/-- What a line becomes if it is selected. -/
inductive Maps (context : Context) : Line → Line → Prop where
  | statement {s : Statement} {register bit name : Text} {operands : List Operand}
      (hselects : Selects context register bit name (.statement s))
      (hreads : ReadsAs name operands) :
      Maps context (.statement s) (.statement
        { s with operands, comment := some (s.comment.getD (register ++ '.' :: bit)) })
  | definition {d : Definition} {register bit name : Text} {operands : List Operand}
      (hselects : Selects context register bit name (.definition d))
      (hreads : ReadsAs name operands) :
      Maps context (.definition d) (.definition { d with operands })
  | kept {line : Line} (h : ∀ register bit name, ¬ Selects context register bit name line) :
      Maps context line line

variable {context : Context}

/-- The operands have a new name just if they are a register and a bit for which the context has
one. -/
theorem mapped?_eq_some_iff {operands : List Operand} {register bit name : Text} :
    mapped? context operands = some ((register, bit), name) ↔
      operands = [.identifier register, .identifier bit] ∧
        context.register? register bit = some name := by
  rw [← pair?_eq_some_iff, mapped?]
  rcases pair? operands with _ | ⟨register', bit'⟩
  · simp
  · simp only [Option.map_eq_some_iff, Prod.mk.injEq, Option.some_inj]
    constructor
    · rintro ⟨_, hname, ⟨rfl, rfl⟩, rfl⟩
      exact ⟨⟨rfl, rfl⟩, hname⟩
    · rintro ⟨⟨rfl, rfl⟩, hname⟩
      exact ⟨name, hname, ⟨rfl, rfl⟩, rfl⟩

/-- The edit looks at the selected lines, and no others. -/
theorem selects_iff {line : Line} {register bit name : Text} :
    (operands? line).bind (mapped? context) = some ((register, bit), name)
      ↔ Selects context register bit name line := by
  cases line with
  | directive d =>
      refine iff_of_false (Option.some_ne_none _).symm fun h => ?_
      cases h
  | definition d =>
      refine mapped?_eq_some_iff.trans ⟨fun h => .definition h.1 h.2, fun h => ?_⟩
      cases h with
      | definition hpair hname => exact ⟨hpair, hname⟩
  | statement s =>
      rw [operands?]
      split
      · next hinstruction =>
        refine mapped?_eq_some_iff.trans ⟨fun h => .statement hinstruction h.1 h.2, fun h => ?_⟩
        cases h with
        | statement _ hpair hname => exact ⟨hpair, hname⟩
      · next hother =>
        refine iff_of_false (Option.some_ne_none _).symm fun h => ?_
        cases h with
        | statement hinstruction => exact hother hinstruction

/-- The edit fails at a line just if a part of the new name that the line is to get is no
operand. -/
theorem fault_convert_eq_none_iff {line : Line} : (convert context line).fault = none ↔
    ∀ register bit name, Selects context register bit name line →
      ∀ part ∈ Text.splitAt '.' name, ∃ x, Operand.parse part = .ok x := by
  rw [convert]
  split
  · next hnone =>
    refine iff_of_true rfl fun register bit name hselects => ?_
    cases hnone.symm.trans (selects_iff.mpr hselects)
  · next register bit name hsome =>
    have hreads : (∃ operands, operandsOf name = .ok operands) ↔
        ∀ part ∈ Text.splitAt '.' name, ∃ x, Operand.parse part = .ok x := exists_mapM_eq_ok_iff
    -- The context has one name for a bit, so this is the only one that the line is selected for.
    split
    · next operands hok =>
      refine iff_of_true rfl fun register' bit' name' hselects => ?_
      cases hsome.symm.trans (selects_iff.mpr hselects)
      exact hreads.mp ⟨operands, hok⟩
    · next e herror =>
      refine iff_of_false (Option.some_ne_none e) fun h => ?_
      obtain ⟨operands, hok⟩ := hreads.mpr (h register bit name (selects_iff.mp hsome))
      cases herror.symm.trans hok

/-- A line that the edit comes to the end of has become what it should. -/
theorem maps_of_convert {line line' : Line} (h : convert context line = .done line') :
    Maps context line line' := by
  rw [convert] at h
  split at h
  · next hnone =>
    cases h
    refine .kept fun register bit name hselects => ?_
    cases hnone.symm.trans (selects_iff.mpr hselects)
  · next register bit name hsome =>
    split at h
    · next operands hok =>
      cases h
      -- The new name was read part by part.
      have hreads : ReadsAs name operands := forall₂_of_mapM hok
      have hselects := selects_iff.mp hsome
      cases line with
      | directive d => cases hselects
      | definition d => exact .definition hselects hreads
      | statement s =>
          rw [withOperands, Option.or_some]
          exact .statement hselects hreads
    · cases h

end BitName

namespace Edit

open BitName

/-- The edit fails just if a selected line is to get a name with a part that is no operand. If it
does not, every selected line has the parts of its new name for operands, a statement also the old
names as a comment unless it had one, and nothing else is changed. -/
theorem corresponds_mapped_bitNames (context : Context) {file : SourceFile} {p : Program}
    (hp : file.program = some p) :
    ((∃ e, bitNames.apply context file = .error e) ↔
      ∃ line ∈ p.lines, ∃ register bit name, Selects context register bit name line ∧
        ∃ part ∈ Text.splitAt '.' name, ∃ e, Operand.parse part = .error e) ∧
    ∀ file', bitNames.apply context file = .ok file' →
      ∃ p', file' = { file with program := some p' } ∧
        Corresponds (OneLine (Maps context)) p.lines p'.lines := by
  have hedit : bitNames.change context
      = SourceFile.changeProgram (Program.changeLines (convert context)) := rfl
  constructor
  · rw [exists_eq_error_iff, apply, Outcome.exists_toExcept_eq_ok_iff,
      fault_changeLines_eq_none_iff hedit hp]
    simp only [fault_convert_eq_none_iff, exists_eq_error_iff, not_forall, exists_prop]
  · intro file' hok
    obtain ⟨p', rfl, hlines⟩ :=
      corresponds_of_changeLines hedit hp (Outcome.toExcept_eq_ok_iff.mp hok)
    refine ⟨p', rfl, hlines.mono ?_⟩
    rintro line _ ⟨line', rfl, hconvert⟩
    exact ⟨line', rfl, maps_of_convert hconvert⟩

/-- An instruction and a definition with new names, and a new name with a part that is empty. -/
theorem corresponds_mapped_bitNames_port :
    let name (text : String) : Operand := .identifier text.toList
    let s : Statement := ⟨none, some "BTFSS".toList, [name "Status", name "Z"], none⟩
    let d : Definition := ⟨"LED".toList, [name "PORTA", name "RA3"], none⟩
    let file (p : Program) : SourceFile := ⟨"main.asm".toList, [], [], some p⟩
    let p : Program := ⟨[.statement s, .definition d]⟩
    let p' : Program := ⟨[
      .statement { s with operands := [name "ZERO"], comment := some "Status.Z".toList },
      .definition { d with operands := [name "LATA", name "LATA3"] }]⟩
    let context := Context.empty.addRegisters
      [("STATUS.Z".toList, "ZERO".toList), ("porta.ra3".toList, "LATA.LATA3".toList)]
    let broken := Context.empty.addRegisters [("porta.ra3".toList, "LATA.".toList)]
    Program.parse " BTFSS Status, Z\n#define LED PORTA, RA3".toList = .ok p ∧
      bitNames.apply context (file p) = .ok (file p') ∧
      Corresponds (OneLine (Maps context)) p.lines p'.lines ∧
      ∃ e, bitNames.apply broken (file p) = .error e := by
  intro name s d file p p' context broken
  have hp : (file p).program = some p := rfl
  have happly : bitNames.apply context (file p) = .ok (file p') := by decide +kernel
  refine ⟨by decide +kernel, happly, ?_, ?_⟩
  · obtain ⟨q, hq, hlines⟩ := (corresponds_mapped_bitNames context hp).2 _ happly
    cases Option.some.inj (congrArg SourceFile.program hq)
    exact hlines
  · refine (corresponds_mapped_bitNames broken hp).1.mpr ⟨.definition d, .tail _ (.head _),
      "PORTA".toList, "RA3".toList, "LATA.".toList, .definition rfl (by decide +kernel), [], ?_⟩
    exact ⟨by decide, _, rfl⟩

end Edit

end PicAssembly
