import PicAssembly.Edit.Sections
import PicAssembly.Proofs.Line.Mnemonic

/-!
# `PicAssembly.Proofs.Edit.Splicing`: sections line by line

The declaration of sections goes over the program twice, and the second time the program gets
longer under it. Both together do to every line what `Section.convert` does to it
(`Program.declareSections_eq`), since the lines that are put in are passed by, and those behind
them are still the lines that were there.
-/

set_option autoImplicit false

namespace PicAssembly

namespace Section

/-- The lines that a line becomes when the sections of code are declared. -/
def codeBlock (stem : Text) (line : Line) : List Line := (code? stem line).getD [line]

/-- A section of data is none of code once it is declared. -/
theorem codeBlock_ofData (stem name : Text) (s : Statement) :
    codeBlock stem (.statement (ofData name s)) = [.statement (ofData name s)] := rfl

/-- First the sections of data and then those of code: together that is a conversion. -/
theorem codeBlock_declared (stem : Text) (line : Line) :
    codeBlock stem (line.mapStatement fun s =>
      if s.hasMnemonic "udata".toList then
        ofData (s.label.getD (stem ++ "_UDATA".toList)) s else s) = convert stem line := by
  cases line with
  | directive d => rfl
  | definition d => rfl
  | statement s =>
      rw [Line.mapStatement, convert]
      by_cases hdata : s.hasMnemonic "udata".toList
      · rw [if_pos hdata, if_pos hdata, codeBlock_ofData]
      · rw [if_neg hdata, if_neg hdata, codeBlock, code?]
        by_cases hcode : s.hasMnemonic "code".toList
        · rw [if_pos hcode, if_pos hcode, Option.getD_some]
        · rw [if_neg hcode, if_neg hcode, Option.getD_none]

end Section

namespace Program

variable {stem : Text} {index : Nat} {p : Program}

/-- The beginning of a program up to a line, and some lines behind it, have this length together. -/
theorem length_take_append (h : index < p.lines.length) (lines : List Line) :
    (p.lines.take index ++ lines).length = index + lines.length := by
  rw [List.length_append, List.length_take, Nat.min_eq_left (Nat.le_of_lt h)]

/-- Where a line is replaced, the lines before the next one to look at are those before it and
those that have taken its place. -/
theorem take_replaceAt (h : index < p.lines.length) (lines : List Line) :
    (p.replaceAt index lines).lines.take (index + lines.length)
      = p.lines.take index ++ lines := by
  rw [replaceAt]
  exact List.take_left' (length_take_append h lines)

/-- Where a line is replaced, the lines behind those that have taken its place are untouched. -/
theorem drop_replaceAt (h : index < p.lines.length) (lines : List Line) :
    (p.replaceAt index lines).lines.drop (index + lines.length) = p.lines.drop (index + 1) := by
  rw [replaceAt]
  exact List.drop_left' (length_take_append h lines)

/-- The lines before the index stay, and each of the others becomes its block. The induction is
on what is left to look at: whatever the program has become up to the index, the lines from
there on are lines of the program that was there. -/
theorem lines_declareCodeFrom (stem : Text) (index : Nat) (p : Program) :
    (p.declareCodeFrom stem index).lines
      = p.lines.take index ++ (p.lines.drop index).flatMap (Section.codeBlock stem) := by
  fun_induction declareCodeFrom stem index p with
  -- Lines were put in the place of the section, and the loop goes on behind them.
  | case1 index p h lines hlines ih =>
      have hblock : Section.codeBlock stem p.lines[index] = lines := by
        rw [Section.codeBlock, hlines, Option.getD_some]
      rw [ih, take_replaceAt h, drop_replaceAt h, List.drop_eq_getElem_cons h, List.flatMap_cons,
        hblock, List.append_assoc]
  | case2 index p h hline ih =>
      have hblock : Section.codeBlock stem p.lines[index] = [p.lines[index]] := by
        rw [Section.codeBlock, hline, Option.getD_none]
      rw [ih, List.drop_eq_getElem_cons h, List.flatMap_cons, hblock, ← List.append_assoc,
        List.take_append_getElem h]
  | case3 index p h =>
      have hle : p.lines.length ≤ index := Nat.le_of_not_lt h
      rw [List.take_of_length_le hle, List.drop_of_length_le hle, List.flatMap_nil,
        List.append_nil]

/-- The declaration of sections converts every line by itself. -/
theorem declareSections_eq (stem : Text) (p : Program) :
    p.declareSections stem = ⟨p.lines.flatMap (Section.convert stem)⟩ := by
  have hlines : (p.declareSections stem).lines = p.lines.flatMap (Section.convert stem) := by
    rw [declareSections, lines_declareCodeFrom, List.take_zero, List.drop_zero, List.nil_append,
      declareData, mapMnemonic, mapStatements, mapLines, List.flatMap_map]
    exact congrArg (p.lines.flatMap ·) (funext (Section.codeBlock_declared stem))
  exact congrArg Program.mk hlines

end Program

/-- The declaration of sections comes to its end, with every line converted by itself. -/
theorem Edit.change_sections (context : Context) (file : SourceFile) :
    sections.change context file = .done (file.mapProgram fun p =>
      ⟨p.lines.flatMap (Section.convert (Text.upper file.stem))⟩) := by
  have hdeclare : Program.declareSections (Text.upper file.stem) = fun p =>
      ⟨p.lines.flatMap (Section.convert (Text.upper file.stem))⟩ :=
    funext (Program.declareSections_eq _)
  rw [← hdeclare]
  rfl

end PicAssembly
