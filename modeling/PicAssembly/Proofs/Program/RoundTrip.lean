import PicAssembly.Program.Parser
import PicAssembly.Proofs.Line.RoundTrip

/-!
# `PicAssembly.Proofs.Program.RoundTrip`: reading and printing programs

Printing puts an empty line before a labelled statement, unless there is one already. As a
change of the program this is `Program.spaced`, and printing does nothing else to it:

* `Program.parse_render`: a program that was read is printed as a text that is read as the
  spaced program, and the spaced program has the same text.
-/

set_option autoImplicit false

namespace PicAssembly

namespace Program

/-- Whether the line is a statement with a label. -/
def hasLabel (line : Line) : Bool := line.statement?.any (·.label.isSome)

/-- The lines that follow `previous`, with a blank line before each label that does not stand
behind one. -/
def spacedAfter : (previous : Option Line) → List Line → List Line
  | _, [] => []
  | previous, line :: lines =>
    if hasLabel line ∧ ¬ previous.any Line.isBlank then
      .statement .empty :: line :: spacedAfter (some line) lines
    else line :: spacedAfter (some line) lines

/-- The program with a blank line before each label. -/
def spaced (p : Program) : Program := ⟨spacedAfter none p.lines⟩

/-- What holds of the lines of a program and of a blank one holds of the spaced program. -/
theorem forall_mem_spacedAfter {P : Line → Prop} (hempty : P (.statement .empty))
    {lines : List Line} (h : ∀ line ∈ lines, P line) (previous : Option Line) :
    ∀ line ∈ spacedAfter previous lines, P line := by
  induction lines generalizing previous with
  | nil => simp [spacedAfter]
  | cons line lines ih =>
      obtain ⟨hline, hlines⟩ := List.forall_mem_cons.mp h
      have hrest := List.forall_mem_cons.mpr ⟨hline, ih hlines (some line)⟩
      rw [spacedAfter]
      split
      · exact List.forall_mem_cons.mpr ⟨hempty, hrest⟩
      · exact hrest

/-- A spaced program has its blank lines. -/
theorem spacedAfter_spacedAfter (lines : List Line) (previous : Option Line) :
    spacedAfter previous (spacedAfter previous lines) = spacedAfter previous lines := by
  induction lines generalizing previous with
  | nil => rfl
  | cons line lines ih =>
      rw [spacedAfter]
      split
      · next hlabel =>
        have hblank : ¬ (hasLabel line ∧ ¬ (some (Line.statement .empty)).any Line.isBlank) :=
          fun h => h.2 rfl
        have hempty : ¬ (hasLabel (.statement .empty) ∧ ¬ previous.any Line.isBlank) :=
          fun h => Bool.false_ne_true h.1
        rw [spacedAfter, if_neg hempty, spacedAfter, if_neg hblank, ih]
      · next hlabel => rw [spacedAfter, if_neg hlabel, ih]

/-- Blank lines have no label, so the gutter does not change. -/
theorem filterMap_label_spacedAfter (lines : List Line) (previous : Option Line) :
    ((spacedAfter previous lines).filterMap Line.statement?).filterMap Statement.label
      = (lines.filterMap Line.statement?).filterMap Statement.label := by
  induction lines generalizing previous with
  | nil => rfl
  | cons line lines ih =>
      have hrest : ((line :: spacedAfter (some line) lines).filterMap
          Line.statement?).filterMap Statement.label
          = ((line :: lines).filterMap Line.statement?).filterMap Statement.label := by
        cases hs : line.statement? <;> simp [List.filterMap_cons, hs, ih]
      rw [spacedAfter]
      split
      · rw [← hrest]
        rfl
      · exact hrest

/-- Spacing a program a second time adds no blank lines: each label has one before it by then. -/
theorem spaced_spaced (p : Program) : p.spaced.spaced = p.spaced := by
  rw [spaced, spaced, spacedAfter_spacedAfter]

end Program

namespace Layout

/-- Blank lines do not move the gutter, so a spaced program is printed in the same columns. -/
theorem gutter_spaced (layout : Layout) (p : Program) :
    layout.gutter p.spaced = layout.gutter p := by
  rw [gutter, gutter, Program.statements, Program.statements, Program.spaced,
    Program.filterMap_label_spacedAfter]

/-- A blank line is printed as one. -/
theorem line_empty (layout : Layout) (gutter : Nat) :
    layout.line gutter (.statement .empty) = [] := by
  rw [line, statement_eq Statement.wellFormed_empty]
  rfl

/-- Where there is a label there is a name. -/
theorem isLabelled_eq {line : Line} (h : line.WellFormed) :
    isLabelled line = Program.hasLabel line := by
  cases line with
  | directive d => rfl
  | definition d => rfl
  | statement s =>
      show (!(s.label.getD []).isEmpty) = s.label.isSome
      cases hlabel : s.label with
      | none => rfl
      | some name =>
          have hname := (Token.Spelled.identifier (h.label name hlabel)).ne_nil
          simpa using hname

/-- The printed lines of a program are those of the spaced program, one by one. -/
theorem linesFrom_eq_map (layout : Layout) (gutter : Nat) {lines : List Line}
    (h : ∀ line ∈ lines, line.WellFormed) (previous : Option Line) :
    layout.linesFrom gutter (previous.any Line.isBlank) lines
      = (Program.spacedAfter previous lines).map (layout.line gutter) := by
  induction lines generalizing previous with
  | nil => rfl
  | cons line lines ih =>
      obtain ⟨hline, hlines⟩ := List.forall_mem_cons.mp h
      have hrest := ih hlines (some line)
      rw [Option.any_some] at hrest
      rw [linesFrom, Program.spacedAfter, isLabelled_eq hline, hrest]
      by_cases hlabel : Program.hasLabel line ∧ ¬ previous.any Line.isBlank
      · rw [if_pos hlabel, if_pos (by simpa using hlabel), List.map_cons, line_empty,
          List.map_cons]
      · rw [if_neg hlabel, if_neg (by simpa using hlabel), List.map_cons]

/-- A program is printed as the lines of the spaced program. -/
theorem render_eq (layout : Layout) {p : Program} (h : ∀ line ∈ p.lines, line.WellFormed) :
    layout.render p
      = Text.join ['\n'] (p.spaced.lines.map (layout.line (layout.gutter p))) := by
  rw [render, Layout.lines]
  exact congrArg (Text.join ['\n']) (layout.linesFrom_eq_map (layout.gutter p) h none)

end Layout

namespace Program

/-- A program is read line by line. -/
theorem forall_mem_of_parseLines {Q : Line → Prop} {texts : List Text} {lines : List Line}
    {index : Nat} (h : parseLines index texts = .ok lines)
    (hQ : ∀ text ∈ texts, ∀ index line, Line.parse text index = .ok line → Q line) :
    ∀ line ∈ lines, Q line := by
  induction texts generalizing index lines with
  | nil =>
      cases h
      simp
  | cons text texts ih =>
      obtain ⟨line, hline, h⟩ := bind_eq_ok_iff.mp h
      obtain ⟨rest, hrest, h⟩ := bind_eq_ok_iff.mp h
      cases h
      obtain ⟨htext, htexts⟩ := List.forall_mem_cons.mp hQ
      exact List.forall_mem_cons.mpr ⟨htext index line hline, ih hrest htexts⟩

/-- What holds of every line that is read holds of every line of a program that is read. A program
is cut into lines at line feeds, so the lines have none. -/
theorem forall_mem_of_parse {Q : Line → Prop} {text : Text} {p : Program}
    (h : parse text = .ok p)
    (hQ : ∀ piece index line, '\n' ∉ piece → Line.parse piece index = .ok line → Q line) :
    ∀ line ∈ p.lines, Q line := by
  obtain ⟨lines, hlines, hp⟩ := bind_eq_ok_iff.mp h
  cases hp
  exact forall_mem_of_parseLines hlines fun piece hpiece index line =>
    hQ piece index line (Text.not_mem_of_mem_splitAt hpiece)

/-- Every line of a program that is read has a printed form. -/
theorem wellFormed_of_parse {text : Text} {p : Program} (h : parse text = .ok p) :
    ∀ line ∈ p.lines, line.WellFormed :=
  forall_mem_of_parse h fun _ _ _ _ hline => Line.wellFormed_of_parse hline

/-- A program that was read has at least one line, and so has the spaced program. -/
theorem lines_spaced_ne_nil {text : Text} {p : Program} (h : parse text = .ok p) :
    p.spaced.lines ≠ [] := by
  obtain ⟨piece, pieces, hpieces⟩ := List.exists_cons_of_ne_nil (Text.splitAt_ne_nil '\n' text)
  obtain ⟨lines, hlines, hp⟩ := bind_eq_ok_iff.mp h
  cases hp
  rw [hpieces] at hlines
  obtain ⟨line, -, hlines⟩ := bind_eq_ok_iff.mp hlines
  obtain ⟨rest, -, hlines⟩ := bind_eq_ok_iff.mp hlines
  cases hlines
  show spacedAfter none (line :: rest) ≠ []
  rw [spacedAfter]
  split <;> simp

/-- Lines that are printed one by one are read one by one. -/
theorem parseLines_map {layout : Layout} (hl : layout.IsReadable) (gutter : Nat)
    {lines : List Line} (h : ∀ line ∈ lines, line.WellFormed) (index : Nat) :
    parseLines index (lines.map (layout.line gutter)) = .ok lines := by
  induction lines generalizing index with
  | nil => rfl
  | cons line lines ih =>
      obtain ⟨hline, hlines⟩ := List.forall_mem_cons.mp h
      rw [List.map_cons, parseLines, Line.parse_line hl hline gutter index, ih hlines]
      rfl

/-- A program that was read is printed with a blank line before each label and as itself
otherwise, and the spaced program is printed in the same way. -/
theorem parse_render {text : Text} {p : Program} (h : parse text = .ok p) {layout : Layout}
    (hl : layout.marker = [';']) :
    parse (layout.render p) = .ok p.spaced ∧ layout.render p.spaced = layout.render p := by
  have hwell : ∀ line ∈ p.lines, line.WellFormed := wellFormed_of_parse h
  have hspaced : ∀ line ∈ p.spaced.lines, line.WellFormed :=
    forall_mem_spacedAfter (P := Line.WellFormed) Statement.wellFormed_empty hwell none
  constructor
  · have hnewline : ∀ line ∈ p.spaced.lines, '\n' ∉ layout.line (layout.gutter p) line := by
      refine forall_mem_spacedAfter (by simp [Layout.line_empty]) ?_ none
      exact forall_mem_of_parse h fun _ _ _ hpiece hline =>
        Line.newline_not_mem_line hline hpiece hl _
    rw [parse, layout.render_eq hwell, Text.splitAt_join (by simpa using lines_spaced_ne_nil h)
      (by simpa using hnewline), parseLines_map hl _ hspaced]
    rfl
  · rw [layout.render_eq hspaced, layout.render_eq hwell, spaced_spaced, layout.gutter_spaced]

/-- Two labels, one of which has its blank line already. -/
theorem parse_render_labels :
    let p : Program := ⟨[
      .statement ⟨some ['a'], some "bsf".toList, [.identifier ['f']], none⟩,
      .statement .empty,
      .statement ⟨some ['b'], none, [], some "end".toList⟩]⟩
    parse (Layout.plain.render p) = .ok ⟨.statement .empty :: p.lines⟩ ∧
      Layout.plain.render ⟨.statement .empty :: p.lines⟩ = Layout.plain.render p := by
  have hparse : parse "a: bsf (f)\n\nb ;end".toList = .ok ⟨[
      .statement ⟨some ['a'], some "bsf".toList, [.identifier ['f']], none⟩,
      .statement .empty,
      .statement ⟨some ['b'], none, [], some "end".toList⟩]⟩ := rfl
  exact parse_render hparse rfl

end Program

end PicAssembly
