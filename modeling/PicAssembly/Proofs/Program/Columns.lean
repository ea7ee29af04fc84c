import Mathlib.Order.Bounds.Basic
import PicAssembly.Proofs.Program.RoundTrip

/-!
# `PicAssembly.Proofs.Program.Columns`: what stands where in a printed program

The gutter is as wide as the widest label on any line, and every line is printed with the same one.
So a label never reaches into the column behind the gutter, and there each mnemonic begins.

The printed text is looked at as a reader does, line by line. Its pieces between newlines are the
printed lines and the empty lines before labels: no line of a program that was read is printed as
several, whatever is written before comments, as long as that has no newline itself.

* `Layout.columns_render`: the pieces of a printed program, and the columns of its labels and
  mnemonics.
-/

set_option autoImplicit false

namespace PicAssembly

open Token (Spelled)

/-- The largest of some numbers and a first one. -/
theorem isGreatest_foldr_max {α : Type} (f : α → Nat) (least : Nat) (xs : List α) :
    IsGreatest (insert least {n | ∃ x ∈ xs, n = f x})
      (xs.foldr (fun x width => max (f x) width) least) := by
  induction xs with
  | nil => simp [IsGreatest, upperBounds]
  | cons x xs ih =>
      have hset : insert least {n | ∃ y ∈ x :: xs, n = f y}
          = insert (f x) (insert least {n | ∃ y ∈ xs, n = f y}) := by
        ext n
        simp only [List.mem_cons, exists_eq_or_imp, Set.mem_insert_iff, Set.mem_ofPred_eq]
        exact or_left_comm
      rw [hset]
      exact ih.insert (f x)

/-- The statements of a program are those on its lines. -/
theorem Program.mem_statements_iff {p : Program} {s : Statement} :
    s ∈ p.statements ↔ .statement s ∈ p.lines := by
  rw [statements, List.mem_filterMap]
  constructor
  · rintro ⟨line, hline, hs⟩
    cases line with
    | statement s' => cases hs; exact hline
    | directive | definition => cases hs
  · exact fun h => ⟨_, h, rfl⟩

/-- What is printed in the place of each line. -/
theorem Program.spacedAfter_eq_flatMap (lines : List Line) (previous : Option Line) :
    spacedAfter previous lines = ((previous :: lines.map some).zip lines).flatMap fun x =>
      if hasLabel x.2 ∧ ¬ x.1.any Line.isBlank then [.statement .empty, x.2] else [x.2] := by
  induction lines generalizing previous with
  | nil => rfl
  | cons line lines ih =>
      rw [spacedAfter, ih]
      simp only [List.map_cons, List.zip_cons_cons, List.flatMap_cons]
      split <;> rfl

namespace Layout

variable {layout : Layout}

/-- No printed line ends in a blank. -/
theorem solid_line {line : Line} (h : line.WellFormed) (gutter : Nat) :
    Text.Solid (layout.line gutter line) := by
  cases line with
  | statement s => exact Text.solid_trimEnd _
  | directive d =>
      refine solid_joinParts ?_
      simp only [List.forall_mem_cons]
      exact ⟨fun c hc => h.word c (List.mem_of_getLast? hc), h.value.solid,
        solid_comment h.comment, by simp⟩
  | definition d =>
      refine solid_joinParts ?_
      simp only [List.forall_mem_cons]
      exact ⟨Text.solid_append_singleton (c := 'e') (by decide) "#defin".toList,
        (Spelled.identifier h.name).solid (by simp), solid_renderList h.operands,
        solid_comment h.comment, by simp⟩

/-- The gutter is the largest of the indent and the widths of the labels. -/
theorem isGreatest_gutter (layout : Layout) (p : Program) :
    IsGreatest (insert layout.indent {n | ∃ s name, .statement s ∈ p.lines ∧ s.label = some name ∧
      n = name.length + if layout.colons then 1 else 0}) (layout.gutter p) := by
  have hset : {n | ∃ s name, .statement s ∈ p.lines ∧ s.label = some name ∧
        n = name.length + if layout.colons then 1 else 0}
      = {n | ∃ name ∈ p.statements.filterMap Statement.label,
        n = name.length + if layout.colons then 1 else 0} := by
    ext n
    constructor
    · rintro ⟨s, name, hs, hname, rfl⟩
      exact ⟨name, List.mem_filterMap.mpr ⟨s, Program.mem_statements_iff.mpr hs, hname⟩, rfl⟩
    · rintro ⟨name, hmem, rfl⟩
      obtain ⟨s, hs, hname⟩ := List.mem_filterMap.mp hmem
      exact ⟨s, name, Program.mem_statements_iff.mp hs, hname, rfl⟩
  rw [hset]
  exact isGreatest_foldr_max (fun name : Text => name.length + if layout.colons then 1 else 0)
    layout.indent _

/-- A label fits into the gutter. -/
theorem length_label_le {p : Program} {s : Statement} (hs : .statement s ∈ p.lines)
    (h : s.WellFormed) : (layout.label s).length ≤ layout.gutter p := by
  cases hlabel : s.label with
  | none => simp [label, hlabel]
  | some name =>
      have hwidth := (layout.isGreatest_gutter p).2 (.inr ⟨s, name, hs, hlabel, rfl⟩)
      -- There is room for a colon behind every label, also where the mnemonic allows none.
      refine le_trans ?_ hwidth
      rw [label_eq h hlabel, needsColon, List.length_append]
      cases layout.colons <;> cases s.hasOneOf declaring <;> simp

/-- Behind a label comes the end of the line, or a space. -/
theorem exists_statement_eq (layout : Layout) {s : Statement} (h : s.WellFormed) (gutter : Nat) :
    ∃ rest, layout.statement gutter s = layout.label s ++ rest ∧ rest.head? ≠ some ':' := by
  rw [statement_eq h]
  split
  · exact ⟨[], (List.append_nil _).symm, by simp⟩
  · refine ⟨_, List.append_assoc .., ?_⟩
    cases gutter - (layout.label s).length with
    | zero => simp
    | succ n => simp [List.replicate_succ]

/-- A label stands at the start of its line, and is followed by a colon if it is to have one. -/
theorem exists_line_of_label {s : Statement} (h : s.WellFormed) {name : Text}
    (hname : s.label = some name) (gutter : Nat) :
    ∃ rest, layout.line gutter (.statement s) = name ++ rest ∧
      (rest.head? = some ':' ↔ layout.colons ∧ ¬ s.hasOneOf declaring) := by
  obtain ⟨rest, hrest, hhead⟩ := exists_statement_eq layout h gutter
  rw [label_eq h hname, List.append_assoc] at hrest
  refine ⟨_, hrest, ?_⟩
  have hneeds : layout.needsColon s ↔ layout.colons ∧ ¬ s.hasOneOf declaring := by
    simp [needsColon]
  rw [← hneeds]
  split
  · next hcolon => exact iff_of_true rfl hcolon
  · next hcolon => exact iff_of_false hhead hcolon

/-- Parts in a row begin with the first. -/
theorem exists_joinParts_cons {part : Text} (h : part ≠ []) (parts : List Text) :
    ∃ rest, joinParts (part :: parts) = part ++ rest := by
  rw [joinParts_cons, if_neg h]
  split
  · exact ⟨[], (List.append_nil part).symm⟩
  · exact ⟨_, rfl⟩

/-- Behind the gutter and a space stands the mnemonic. -/
theorem exists_line_of_mnemonic {p : Program} {s : Statement} (hs : .statement s ∈ p.lines)
    (h : s.WellFormed) {name : Text} (hname : s.mnemonic = some name) :
    ∃ front rest, layout.line (layout.gutter p) (.statement s) = front ++ (name ++ rest) ∧
      front.length = layout.gutter p + 1 := by
  have hne : name ≠ [] := (Spelled.identifier (h.mnemonic name hname)).ne_nil
  obtain ⟨rest, hbody⟩ : ∃ rest, layout.body s = name ++ rest := by
    rw [body, hname]
    exact exists_joinParts_cons hne _
  refine ⟨padTo (layout.gutter p) (layout.label s) ++ [' '], rest, ?_, ?_⟩
  · rw [line, statement_eq h, hbody, if_neg (by simp [hne]), List.append_assoc,
      List.singleton_append]
  · -- Only what fits into the gutter is padded to its width.
    have hfits : (layout.label s).length ≤ layout.gutter p := length_label_le hs h
    rw [List.length_append, padTo, List.length_append, List.length_replicate,
      List.length_singleton]
    omega

/-- The pieces of the printed text are the printed lines of the spaced program. -/
theorem splitAt_render {text : Text} {p : Program} (hparse : Program.parse text = .ok p)
    (hmarker : '\n' ∉ layout.marker) : Text.splitAt '\n' (layout.render p)
      = p.spaced.lines.map (layout.line (layout.gutter p)) := by
  have hwell : ∀ line ∈ p.lines, line.WellFormed := Program.wellFormed_of_parse hparse
  have hnewline : ∀ line ∈ p.spaced.lines, '\n' ∉ layout.line (layout.gutter p) line := by
    refine Program.forall_mem_spacedAfter (by simp [line_empty]) ?_ none
    exact Program.forall_mem_of_parse hparse fun _ _ _ hpiece hline =>
      Line.newline_not_mem_line_of_marker hline hpiece hmarker _
  rw [layout.render_eq hwell]
  refine Text.splitAt_join ?_ (by simpa using hnewline)
  simpa using Program.lines_spaced_ne_nil hparse

/-- A program that was read is printed line by line, with an empty line before each label that no
blank line precedes. No line ends in a blank. Labels stand in the first column, with a colon behind
them if there are to be colons and the mnemonic allows it. All mnemonics begin in the column behind
the gutter and one space, and the gutter is the largest of the indent and the labels with room for
their colons. -/
theorem columns_render {text : Text} {p : Program} (hparse : Program.parse text = .ok p)
    {layout : Layout} (hmarker : '\n' ∉ layout.marker) :
    (Text.splitAt '\n' (layout.render p)
      = ((none :: p.lines.map some).zip p.lines).flatMap fun x =>
        if Program.hasLabel x.2 ∧ ¬ x.1.any Line.isBlank then
          [[], layout.line (layout.gutter p) x.2]
        else [layout.line (layout.gutter p) x.2]) ∧
    (∀ piece ∈ Text.splitAt '\n' (layout.render p), Text.Solid piece) ∧
    (∀ s, .statement s ∈ p.lines → ∀ name, s.label = some name →
      ∃ rest, layout.line (layout.gutter p) (.statement s) = name ++ rest ∧
        (rest.head? = some ':' ↔ layout.colons ∧ ¬ s.hasOneOf declaring)) ∧
    (∀ s, .statement s ∈ p.lines → ∀ name, s.mnemonic = some name →
      ∃ front rest, layout.line (layout.gutter p) (.statement s) = front ++ (name ++ rest) ∧
        front.length = layout.gutter p + 1) ∧
    IsGreatest (insert layout.indent {n | ∃ s name, .statement s ∈ p.lines ∧ s.label = some name ∧
      n = name.length + if layout.colons then 1 else 0}) (layout.gutter p) := by
  have hwell : ∀ line ∈ p.lines, line.WellFormed := Program.wellFormed_of_parse hparse
  have hspaced : ∀ line ∈ p.spaced.lines, line.WellFormed :=
    Program.forall_mem_spacedAfter (P := Line.WellFormed) Statement.wellFormed_empty hwell none
  refine ⟨?_, ?_, fun s hs name hname => exists_line_of_label (hwell _ hs) hname _,
    fun s hs name hname => exists_line_of_mnemonic hs (hwell _ hs) hname,
    layout.isGreatest_gutter p⟩
  · rw [splitAt_render hparse hmarker, Program.spaced, Program.spacedAfter_eq_flatMap,
      List.map_flatMap]
    -- A blank line is printed as the empty text.
    refine congrArg (List.flatMap · _) (funext fun x => ?_)
    by_cases h : Program.hasLabel x.2 ∧ ¬ x.1.any Line.isBlank
    · rw [if_pos h, if_pos h, List.map_cons, line_empty, List.map_singleton]
    · rw [if_neg h, if_neg h, List.map_singleton]
  · rw [splitAt_render hparse hmarker]
    intro piece hpiece
    obtain ⟨line, hline, rfl⟩ := List.mem_map.mp hpiece
    exact solid_line (hspaced line hline) _

/-- Colons, a comment that is set off by dashes, and a label that reaches up to the gutter. -/
theorem columns_render_colons :
    let layout : Layout := ⟨"--".toList, 3, true⟩
    let nop : Statement := ⟨some "loop".toList, some "nop".toList, [], some "wait".toList⟩
    let equ : Statement := ⟨some "x".toList, some "EQU".toList, [.identifier "y".toList], none⟩
    let p : Program := ⟨[.statement nop, .statement .empty, .statement equ]⟩
    Program.parse "loop nop ;wait\n\nx EQU y".toList = .ok p ∧
      Text.splitAt '\n' (layout.render p)
        = [[], "loop: nop -- wait".toList, [], "x     EQU y".toList] ∧
      layout.gutter p = 5 := by
  intro layout nop equ p
  have hparse : Program.parse "loop nop ;wait\n\nx EQU y".toList = .ok p := by decide +kernel
  have hmarker : '\n' ∉ layout.marker := by decide
  obtain ⟨hpieces, -⟩ := columns_render hparse hmarker
  refine ⟨hparse, ?_, by decide⟩
  rw [hpieces]
  decide

end Layout

end PicAssembly
