import PicAssembly.Proofs.Line.Directive

/-!
# `PicAssembly.Proofs.Line.RoundTrip`: reading and printing lines

`Line.WellFormed` says of each shape of a line that it has a printed form. What is read
has one (`Line.wellFormed_of_parse`), and the printed form is read as the line again
(`Line.parse_line`), whatever the gutter and wherever the line stands. It is a single line
(`Line.newline_not_mem_line`), so a program can be printed line by line.
-/

set_option autoImplicit false

namespace PicAssembly

open Token (Lexeme Scans Spelled)

/-! ### What directives were read from -/

namespace DirectiveLine

/-- The parts of a directive that was read have a printed form. -/
theorem wellFormed_directive {text blanks front gap tail : Text}
    (h : DirectiveLine text blanks front gap tail) (hnot : ¬ IsDefinition front) :
    Directive.WellFormed ⟨directiveWord front,
      Text.trim (front.drop (directiveWord front).length), Cursor.commentText tail⟩ := by
  obtain ⟨t, ht⟩ := h.pound
  refine ⟨?_, fun c hc => ?_, Bool.eq_false_iff.mpr hnot, Text.trimmed_trim _, ?_,
    fun u hu => (isComment_of_commentText hu).1⟩
  · exact ⟨t.takeWhile fun c => !Text.isBlank c, by
      rw [ht, directiveWord, List.takeWhile_cons_of_pos (by decide)]⟩
  · simpa using List.mem_takeWhile_imp hc
  · refine List.forall_mem_append.mpr ⟨fun c hc => ?_, fun c hc => ?_⟩
    · exact h.body c ((List.takeWhile_prefix _).subset hc)
    · exact h.body c (List.mem_of_mem_drop (Text.mem_of_mem_trim hc))

/-- A comment behind a directive consists of characters of the line. -/
theorem mem_of_mem_commentText {text blanks front gap tail u : Text}
    (h : DirectiveLine text blanks front gap tail) (hu : Cursor.commentText tail = some u) :
    ∀ c ∈ u, c ∈ text := by
  intro c hc
  rw [h.eq]
  exact List.mem_append_right _ ((isComment_of_commentText hu).2 c hc)

/-- The characters of a directive are characters of its line. -/
theorem mem_of_mem_front {text blanks front gap tail : Text}
    (h : DirectiveLine text blanks front gap tail) {c : Char} (hc : c ∈ front) : c ∈ text := by
  rw [h.eq]
  simp [hc]

end DirectiveLine

/-- The parts of a definition that was read have a printed form. -/
theorem Definition.SpelledBy.wellFormed {d : Definition} {ls : List Lexeme} (h : d.SpelledBy ls)
    (hs : ∀ l ∈ ls, Spelled l.kind l.text) (hbody : ∀ l ∈ ls, ∀ c ∈ l.text, c ≠ ';')
    (hcomment : ∀ t ∈ d.comment, IsComment t) : d.WellFormed := by
  obtain ⟨row, rfl, hrow⟩ := h
  obtain ⟨hname, hoperands⟩ := List.forall_mem_cons.mp hs
  refine ⟨Spelled.isName hname, Operand.wellFormed_of_spellsRow hrow hoperands, ?_, hcomment⟩
  exact Operand.forall_mem_render_of_spellsRow (by simp) hrow (List.forall_mem_cons.mp hbody).2

namespace Line

/-- A definition that was read is spelled by the tokens behind its word. -/
theorem exists_spelledBy_of_parse {text : Text} {index : Nat} {d : Definition}
    (h : parse text index = .ok (.definition d)) :
    ∃ blanks front gap tail c, DirectiveLine text blanks front gap tail ∧ IsDefinition front ∧
      d.comment = Cursor.commentText tail ∧
      Cursor.ofScanner ⟨text, index, blanks.length + (directiveWord front).length, false,
        front.drop (directiveWord front).length⟩ = .ok c ∧
      Scans (front.drop (directiveWord front).length) c.lexemes [] ∧ d.SpelledBy c.lexemes := by
  obtain ⟨blanks, front, gap, tail, hline⟩ := exists_directiveLine h (by simp)
  obtain ⟨hdefine, hcomment, c, hc, hbody⟩ := hline.parse_eq_definition_iff.mp h
  obtain ⟨hproper, hscans⟩ := Cursor.proper_of_ofScanner hc (Or.inl rfl)
  exact ⟨blanks, front, gap, tail, c, hline, hdefine, hcomment, hc, hscans,
    Cursor.spelledBy_of_definitionBody hproper hbody⟩

/-! ### All lines -/

/-- The lines that have a printed form. -/
def WellFormed : Line → Prop
  | .directive d => d.WellFormed
  | .definition d => d.WellFormed
  | .statement s => s.WellFormed

/-- What was read has a printed form. -/
theorem wellFormed_of_parse {text : Text} {index : Nat} {line : Line}
    (h : parse text index = .ok line) : line.WellFormed := by
  cases line with
  | directive d =>
      obtain ⟨blanks, front, gap, tail, hline⟩ := exists_directiveLine h (by simp)
      obtain ⟨hnot, rfl⟩ := hline.parse_eq_directive_iff.mp h
      exact hline.wellFormed_directive hnot
  | definition d =>
      obtain ⟨blanks, front, gap, tail, c, hline, -, hcomment, -, hscans, hspelled⟩ :=
        exists_spelledBy_of_parse h
      refine hspelled.wellFormed hscans.spelled (fun l hl ch hch => ?_) fun t ht => ?_
      · exact hline.body ch (List.mem_of_mem_drop (hscans.mem_of_mem_text l hl ch hch))
      · rw [hcomment] at ht
        exact (isComment_of_commentText ht).1
  | statement s =>
      obtain ⟨c, -, hscans, hspelled⟩ := spelledBy_of_parse h
      exact hspelled.wellFormed hscans.spelled

/-- A printed line is read as itself. -/
theorem parse_line {layout : Layout} (hl : layout.IsReadable) {line : Line} (h : line.WellFormed)
    (gutter index : Nat) : parse (layout.line gutter line) index = .ok line := by
  cases line with
  | directive d => exact parse_directive hl h gutter index
  | definition d => exact parse_definition hl h gutter index
  | statement s => exact parse_statement hl h gutter index

/-- What was read from a single line is printed as one, if what marks comments has no newline. -/
theorem newline_not_mem_line_of_marker {text : Text} {index : Nat} {line : Line}
    (h : parse text index = .ok line) (htext : '\n' ∉ text) {layout : Layout}
    (hmarker : '\n' ∉ layout.marker) (gutter : Nat) : '\n' ∉ layout.line gutter line := by
  have hP : Layout.Covers (· ≠ '\n') := by simp [Layout.Covers]
  have hmarks : ∀ c ∈ layout.marker, c ≠ '\n' := fun c hc heq => hmarker (heq ▸ hc)
  suffices hline : ∀ c ∈ layout.line gutter line, c ≠ '\n' from fun hmem => hline '\n' hmem rfl
  have htext : ∀ c ∈ text, c ≠ '\n' := fun c hc heq => htext (heq ▸ hc)
  -- What a line prints is from the text that was read, or from the layout.
  cases line with
  | directive d =>
      obtain ⟨blanks, front, gap, tail, hdirective⟩ := exists_directiveLine h (by simp)
      obtain ⟨-, rfl⟩ := hdirective.parse_eq_directive_iff.mp h
      have hfront : ∀ c ∈ front, c ≠ '\n' := fun c hc =>
        htext c (hdirective.mem_of_mem_front hc)
      refine Layout.forall_mem_joinParts (by decide) ?_
      simp only [List.forall_mem_cons]
      refine ⟨fun c hc => hfront c ((List.takeWhile_prefix _).subset hc),
        fun c hc => hfront c (List.mem_of_mem_drop (Text.mem_of_mem_trim hc)),
        Layout.forall_mem_comment hP hmarks fun u hu c hc => ?_, by simp⟩
      exact htext c (hdirective.mem_of_mem_commentText hu c hc)
  | definition d =>
      obtain ⟨blanks, front, gap, tail, c, hdirective, -, hcomment, -, hscans, row, hls, hrow⟩ :=
        exists_spelledBy_of_parse h
      have hlexemes : ∀ l ∈ c.lexemes, ∀ ch ∈ l.text, ch ≠ '\n' := fun l hl ch hch =>
        htext ch (hdirective.mem_of_mem_front
          (List.mem_of_mem_drop (hscans.mem_of_mem_text l hl ch hch)))
      rw [hls] at hlexemes
      obtain ⟨hname, hoperands⟩ := List.forall_mem_cons.mp hlexemes
      have hword : ∀ c ∈ "#define".toList, c ≠ '\n' := List.all_iff_forall_prop.mp (by decide)
      refine Layout.forall_mem_joinParts (by decide) ?_
      simp only [List.forall_mem_cons]
      refine ⟨hword, hname, ?_, Layout.forall_mem_comment hP hmarks fun u hu ch hch => ?_, by simp⟩
      · exact Layout.forall_mem_renderList hP.separator
          (Operand.forall_mem_render_of_spellsRow hP.operands hrow hoperands)
      · rw [Option.mem_def, hcomment] at hu
        exact htext ch (hdirective.mem_of_mem_commentText hu ch hch)
  | statement s =>
      obtain ⟨c, -, hscans, hspelled⟩ := spelledBy_of_parse h
      exact hspelled.forall_mem_statement hP
        (fun l hl ch hch => htext ch (hscans.mem_of_mem_text l hl ch hch)) hmarks gutter

/-- A line that was read is printed on one line. What it prints was on the line it was read from, or
is written by the layout. -/
theorem newline_not_mem_line {text : Text} {index : Nat} {line : Line}
    (h : parse text index = .ok line) (htext : '\n' ∉ text) {layout : Layout}
    (hl : layout.IsReadable) (gutter : Nat) : '\n' ∉ layout.line gutter line := by
  refine newline_not_mem_line_of_marker h htext ?_ gutter
  rw [hl]
  decide

end Line

end PicAssembly
