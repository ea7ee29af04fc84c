import PicAssembly.Program.Layout
import PicAssembly.Proofs.Operand.Printing

/-!
# `PicAssembly.Proofs.Line.Printing`: the tokens of a printed line

A printed line is its parts with spaces between them, without blanks at the end.
`Layout.scans_statement` gives the tokens of a printed statement, whatever the gutter, and
`Layout.scans_joinParts_cons` does so for parts in a row.

The label is the only part that the reader knows by its place. `Layout.statement_eq` shows
where it stands: at the start of the line, and without it the line starts with a blank.
-/

set_option autoImplicit false

namespace PicAssembly

open Token (Lexeme Prints Scans Spelled)

/-- The text of a comment that was read: not empty, without blanks at its ends. -/
def IsComment (t : Text) : Prop := t ≠ [] ∧ Text.Trimmed t

/-- The statements that have a printed form. -/
structure Statement.WellFormed (s : Statement) : Prop where
  label : ∀ name ∈ s.label, Token.IsName name
  mnemonic : ∀ name ∈ s.mnemonic, Token.IsName name
  operands : ∀ x ∈ s.operands, x.WellFormed
  comment : ∀ t ∈ s.comment, IsComment t

/-- The statement of an empty line has a printed form. -/
theorem Statement.wellFormed_empty : Statement.WellFormed .empty :=
  ⟨by simp [empty], by simp [empty], by simp [empty], by simp [empty]⟩

namespace Layout

/-! ### The tokens of the parts of a line -/

/-- A label, with a colon or without. -/
def labelLexemes (label : Option Text) (colon : Bool) : List Lexeme :=
  match label with
  | none => []
  | some name => ⟨.identifier, name⟩ :: if colon then [Token.Kind.colon.lexeme] else []

/-- A mnemonic, or no token if there is none. -/
def mnemonicLexemes : Option Text → List Lexeme
  | none => []
  | some name => [⟨.identifier, name⟩]

/-- A comment as it is printed, or no token if there is none. -/
def commentLexemes : Option Text → List Lexeme
  | none => []
  | some t => [⟨.comment, ';' :: ' ' :: t⟩]

/-- Whether a printed operand would be read as a mnemonic or a directive at the head of a
statement. -/
def looksLikeHead (t : Text) : Bool := t.head?.any fun c => c.isAlpha || c == '_' || c == '#'

/-- Operands that no mnemonic precedes. -/
def headlessLexemes : List Operand → List Lexeme
  | [] => []
  | x :: xs =>
    Operand.commaSeparated
      (Operand.groupedLexemes (looksLikeHead x.render) x.lexemes :: Operand.lexemesAll xs)

/-- The operands of a statement, which are spelled in another way if no mnemonic precedes them. -/
def operandLexemes (s : Statement) : List Lexeme :=
  match s.mnemonic with
  | some _ => Operand.listLexemes s.operands
  | none => headlessLexemes s.operands

/-- What stands behind the gutter. -/
def bodyLexemes (s : Statement) : List Lexeme :=
  mnemonicLexemes s.mnemonic ++ (operandLexemes s ++ commentLexemes s.comment)

/-- The tokens of a printed statement. -/
def statementLexemes (layout : Layout) (s : Statement) : List Lexeme :=
  labelLexemes s.label (layout.needsColon s) ++ bodyLexemes s

/-! ### Parts in a row -/

/-- A part in front adds itself and a space, if neither it nor what follows is empty. -/
theorem joinParts_cons (part : Text) (parts : List Text) :
    joinParts (part :: parts) = if part = [] then joinParts parts
      else if joinParts parts = [] then part else part ++ ' ' :: joinParts parts := by
  cases part with
  | nil => rfl
  | cons c cs =>
      have hfilter : ((c :: cs) :: parts).filter (!·.isEmpty)
          = (c :: cs) :: parts.filter (!·.isEmpty) := rfl
      have hmem : ∀ part ∈ parts.filter (!·.isEmpty), part ≠ [] := by simp
      rw [joinParts, hfilter, if_neg (by simp), joinParts]
      cases hrest : parts.filter (!·.isEmpty) with
      | nil => simp [Text.join]
      | cons q qs =>
          have hq : q ≠ [] := hmem q (by simp [hrest])
          -- The parts that follow are not empty, so they are not left out.
          have hne : Text.join [' '] (q :: qs) ≠ [] := by
            cases qs with
            | nil => simpa [Text.join_singleton] using hq
            | cons q' qs => simp [Text.join_cons_cons]
          rw [if_neg hne, Text.join_cons_cons, List.append_assoc]
          rfl

/-- The last part stands behind a space, if it and what precedes it are not empty. -/
theorem joinParts_concat (parts : List Text) (last : Text) :
    joinParts (parts ++ [last]) = if joinParts parts = [] then last
      else if last = [] then joinParts parts else joinParts parts ++ ' ' :: last := by
  induction parts with
  | nil =>
      rw [List.nil_append, joinParts_cons]
      split <;> simp_all [joinParts, Text.join]
  | cons part parts ih =>
      rw [List.cons_append, joinParts_cons, joinParts_cons part parts, ih]
      split_ifs <;> simp_all

/-- A part of its own tokens before others. -/
theorem scans_joinParts_cons {part : Text} {parts : List Text} {ls ms : List Lexeme}
    (hpart : Prints part ls) (h : Scans (joinParts parts) ms []) :
    Scans (joinParts (part :: parts)) (ls ++ ms) [] := by
  rw [joinParts_cons]
  split
  · next hnil =>
    subst hnil
    have hls := (hpart [] Token.detached_nil).eq_nil
    rwa [hls]
  · split
    · next hnil =>
      rw [hnil] at h
      have hscans := hpart [] Token.detached_nil
      rw [List.append_nil] at hscans
      rwa [h.eq_nil, List.append_nil]
    · exact (hpart _ (Token.detached_cons (by decide) _)).append (.blank (by decide) h)

/-- The last part may be one that ends only with the line. -/
theorem scans_joinParts_singleton {part : Text} {ls : List Lexeme} (h : Scans part ls []) :
    Scans (joinParts [part]) ls [] := by
  rw [joinParts_cons]
  split
  · next hnil => rwa [hnil] at h
  · exact h

/-- If no part ends in a blank, the parts in a row do not either. -/
theorem solid_joinParts {parts : List Text} (h : ∀ part ∈ parts, Text.Solid part) :
    Text.Solid (joinParts parts) := by
  refine (Text.solid_join (fun part hpart => ?_) _).1
  have := List.mem_filter.mp hpart
  exact ⟨by simpa using this.2, h part this.1⟩

/-! ### The parts of a statement -/

/-- The layouts that write comments as the reader reads them. -/
def IsReadable (layout : Layout) : Prop := layout.marker = [';']

/-- A printed comment is scanned as one token, or as none if there is no comment. -/
theorem scans_comment {layout : Layout} (hl : layout.IsReadable) {comment : Option Text}
    (h : ∀ t ∈ comment, IsComment t) :
    Scans (layout.comment comment) (commentLexemes comment) [] := by
  cases comment with
  | none => exact .done []
  | some t =>
      have hne : t.isEmpty = false := by simpa using (h t rfl).1
      have hscans := Scans.single (.comment (' ' :: t)) (Token.endsBefore_nil _ _)
      rw [List.append_nil] at hscans
      rw [Layout.comment, hne, hl]
      exact hscans

/-- A printed comment ends in no blank, since the text of a comment that was read has none at its
ends. -/
theorem solid_comment {layout : Layout} {comment : Option Text}
    (h : ∀ t ∈ comment, IsComment t) : Text.Solid (layout.comment comment) := by
  cases comment with
  | none => exact Text.solid_nil
  | some t =>
      obtain ⟨hne, htrimmed⟩ := h t rfl
      have hempty : t.isEmpty = false := by simpa using hne
      rw [Layout.comment, hempty]
      exact Text.Solid.append (u := ' ' :: t) (htrimmed.solid.append hne [' ']) (by simp) _

/-- Only the first of the operands may need parentheses, if it would be read as a mnemonic or a
directive. -/
theorem headlessOperands_cons (x : Operand) (xs : List Operand) :
    headlessOperands (x :: xs) = Text.join [',', ' ']
      (Operand.grouped (looksLikeHead x.render) x.render :: xs.map Operand.render) := by
  rw [← Operand.renderAll_eq_map]
  rfl

/-- Operands without a mnemonic, the first of which may be in parentheses. -/
theorem prints_headlessOperands {xs : List Operand} (h : ∀ x ∈ xs, x.WellFormed) :
    Prints (headlessOperands xs) (headlessLexemes xs) := by
  cases xs with
  | nil => exact Prints.nil
  | cons x xs =>
      have hx := Operand.prints_grouped (Operand.prints_render (h x List.mem_cons_self))
        (looksLikeHead x.render)
      have hxs : ∀ p ∈ xs.map fun y => (y.render, y.lexemes), Prints p.1 p.2 := by
        intro p hp
        obtain ⟨y, hy, rfl⟩ := List.mem_map.mp hp
        exact Operand.prints_render (h y (List.mem_cons_of_mem x hy))
      -- The first operand, in parentheses if it needs them, is printed in a row with the others.
      have hrow := Operand.prints_join
        ((Operand.grouped (looksLikeHead x.render) x.render,
          Operand.groupedLexemes (looksLikeHead x.render) x.lexemes) ::
            xs.map fun y => (y.render, y.lexemes))
        (List.forall_mem_cons.mpr ⟨hx, hxs⟩)
      rw [headlessOperands_cons, headlessLexemes, Operand.lexemesAll_eq_map]
      simpa only [List.map_cons, List.map_map, Function.comp_def] using hrow

/-- The operands of a statement are scanned as their tokens, with a mnemonic in front or without. -/
theorem prints_operands {s : Statement} (h : s.WellFormed) :
    Prints (match s.mnemonic with
      | some _ => Operand.renderList s.operands
      | none => headlessOperands s.operands) (operandLexemes s) := by
  unfold operandLexemes
  cases s.mnemonic with
  | none => exact prints_headlessOperands h.operands
  | some m =>
      exact Operand.prints_renderList fun x hx => Operand.prints_render (h.operands x hx)

/-- A mnemonic is scanned as one token, or as none if there is none. -/
theorem prints_mnemonic {mnemonic : Option Text} (h : ∀ name ∈ mnemonic, Token.IsName name) :
    Prints (mnemonic.getD []) (mnemonicLexemes mnemonic) := by
  cases mnemonic with
  | none => exact Prints.nil
  | some name => exact Prints.word (.identifier (h name rfl)) (Or.inl rfl)

/-- A label is scanned as its name and the colon that it needs. -/
theorem prints_label (layout : Layout) {s : Statement} (h : s.WellFormed) :
    Prints (layout.label s) (labelLexemes s.label (layout.needsColon s)) := by
  unfold label
  cases hlabel : s.label with
  | none => exact Prints.nil
  | some name =>
      have hname := h.label name hlabel
      have hspelled : Spelled .identifier name := .identifier hname
      have hempty : name.isEmpty = false := by simpa using hspelled.ne_nil
      simp only [Option.getD_some, hempty, Bool.false_eq_true, if_false]
      cases layout.needsColon s with
      | false => exact Prints.word hspelled (Or.inl rfl)
      | true =>
          have hcolon : Prints [':'] [Token.Kind.colon.lexeme] :=
            Prints.symbol [':'] rfl
              (fun rest _ => Token.endsBefore_mark rfl _ (by simp)) Prints.nil
          -- A colon goes on with no name, so the label ends before it.
          exact (Prints.word hspelled (Or.inl rfl)).append hcolon
            fun rest _ => Token.detached_cons (by decide) _

/-- A printed label is its name, and a colon if it is to have one. -/
theorem label_eq {layout : Layout} {s : Statement} {name : Text} (h : s.WellFormed)
    (hlabel : s.label = some name) :
    layout.label s = name ++ if layout.needsColon s then [':'] else [] := by
  have hspelled : Spelled .identifier name := .identifier (h.label name hlabel)
  have hempty : name.isEmpty = false := by simpa using hspelled.ne_nil
  simp only [label, hlabel, Option.getD_some, hempty, Bool.false_eq_true, if_false]
  split
  · rfl
  · exact (List.append_nil name).symm

/-- A printed label begins with the name. -/
theorem exists_label_eq {layout : Layout} {s : Statement} {name : Text} (h : s.WellFormed)
    (hlabel : s.label = some name) : ∃ t, layout.label s = name ++ t :=
  ⟨_, label_eq h hlabel⟩

/-- A printed label ends in no blank. -/
theorem solid_label {layout : Layout} {s : Statement} (h : s.WellFormed) :
    Text.Solid (layout.label s) := by
  unfold label
  cases hlabel : s.label with
  | none => exact Text.solid_nil
  | some name =>
      have hspelled : Spelled .identifier name := .identifier (h.label name hlabel)
      have hempty : name.isEmpty = false := by simpa using hspelled.ne_nil
      simp only [Option.getD_some, hempty, Bool.false_eq_true, if_false]
      split
      · exact Text.solid_append_singleton (by decide) name
      · exact hspelled.solid (by simp)

/-- Operands without a mnemonic end in no blank. -/
theorem solid_headlessOperands {xs : List Operand} (h : ∀ x ∈ xs, x.WellFormed) :
    Text.Solid (headlessOperands xs) := by
  cases xs with
  | nil => exact Text.solid_nil
  | cons x xs =>
      obtain ⟨hx, hxs⟩ := List.forall_mem_cons.mp h
      rw [headlessOperands_cons]
      refine (Text.solid_join (List.forall_mem_cons.mpr ⟨?_, fun t ht => ?_⟩) _).1
      · exact ⟨Operand.grouped_render_ne_nil hx _,
          Operand.solid_grouped (Operand.solid_render hx) _⟩
      · obtain ⟨y, hy, rfl⟩ := List.mem_map.mp ht
        exact ⟨Operand.grouped_render_ne_nil (hxs y hy) false, Operand.solid_render (hxs y hy)⟩

/-- Operands in a row end in no blank. -/
theorem solid_renderList {xs : List Operand} (h : ∀ x ∈ xs, x.WellFormed) :
    Text.Solid (Operand.renderList xs) := by
  rw [Operand.renderList, Operand.renderAll_eq_map]
  refine (Text.solid_join (fun t ht => ?_) _).1
  obtain ⟨y, hy, rfl⟩ := List.mem_map.mp ht
  exact ⟨Operand.grouped_render_ne_nil (h y hy) false, Operand.solid_render (h y hy)⟩

/-! ### Statements -/

/-- What stands behind the gutter has the tokens of the mnemonic, the operands and the
comment. -/
theorem scans_body {layout : Layout} (hl : layout.IsReadable) {s : Statement}
    (h : s.WellFormed) : Scans (layout.body s) (bodyLexemes s) [] :=
  scans_joinParts_cons (prints_mnemonic h.mnemonic)
    (scans_joinParts_cons (prints_operands h)
      (scans_joinParts_singleton (scans_comment hl h.comment)))

/-- A mnemonic ends in no blank. -/
theorem solid_mnemonic {mnemonic : Option Text} (h : ∀ name ∈ mnemonic, Token.IsName name) :
    Text.Solid (mnemonic.getD []) := by
  cases mnemonic with
  | none => exact Text.solid_nil
  | some name => exact (Spelled.identifier (h name rfl)).solid (by simp)

/-- What stands behind the gutter ends in no blank. -/
theorem solid_body {layout : Layout} {s : Statement} (h : s.WellFormed) :
    Text.Solid (layout.body s) := by
  refine solid_joinParts ?_
  simp only [List.forall_mem_cons]
  refine ⟨solid_mnemonic h.mnemonic, ?_, solid_comment h.comment, by simp⟩
  split
  · exact solid_renderList h.operands
  · exact solid_headlessOperands h.operands

/-- A printed statement is its label in the gutter and, behind a space, its body. Without a
body there is nothing behind the label. -/
theorem statement_eq {layout : Layout} {s : Statement} (h : s.WellFormed) (gutter : Nat) :
    layout.statement gutter s = if layout.body s = [] then layout.label s
      else padTo gutter (layout.label s) ++ ' ' :: layout.body s := by
  unfold statement
  dsimp only
  split
  · next hnil =>
    -- Without a body the padding is at the end of the line and is taken away.
    have hspaces : ∀ c ∈ List.replicate (gutter - (layout.label s).length) ' ',
        Text.isBlank c := by
      intro c hc
      rw [List.eq_of_mem_replicate hc]
      decide
    rw [if_pos (List.isEmpty_iff.mp hnil), List.append_nil, padTo,
      Text.trimEnd_append_of_isBlank hspaces, Text.trimEnd_eq_self (solid_label h)]
  · next hnil =>
    have hne : layout.body s ≠ [] := fun hbody => hnil (List.isEmpty_iff.mpr hbody)
    rw [if_neg hne, Text.trimEnd_eq_self]
    exact Text.Solid.append (u := ' ' :: layout.body s) ((solid_body h).append hne [' '])
      (by simp) _

/-- The tokens of a printed statement. -/
theorem scans_statement {layout : Layout} (hl : layout.IsReadable) {s : Statement}
    (h : s.WellFormed) (gutter : Nat) :
    Scans (layout.statement gutter s) (layout.statementLexemes s) [] := by
  rw [statement_eq h, statementLexemes]
  have hbody := scans_body hl h
  have hlabel := prints_label layout h
  split
  · next hnil =>
    rw [hnil] at hbody
    have hscans := hlabel [] Token.detached_nil
    rw [List.append_nil] at hscans
    rwa [hbody.eq_nil, List.append_nil]
  · have hspaces : ∀ c ∈ List.replicate (gutter - (layout.label s).length) ' ',
        Token.isSeparator c := by
      intro c hc
      rw [List.eq_of_mem_replicate hc]
      decide
    rw [padTo, List.append_assoc]
    -- A space is behind the label, in the padding or at the gutter.
    refine (hlabel _ ?_).append (.blanks hspaces (.blank (by decide) hbody))
    cases gutter - (layout.label s).length with
    | zero => exact Token.detached_cons (by decide) _
    | succ n => exact Token.detached_cons (by decide) _

/-! ### The characters of a printed line -/

/-- What holds of the characters that a layout writes by itself. -/
def Covers (P : Char → Prop) : Prop := ∀ c ∈ [' ', ':', ';', ',', '(', ')'], P c

/-- What holds of the parts and of a space holds of all characters of the parts in a row. -/
theorem forall_mem_joinParts {P : Char → Prop} (hspace : P ' ') {parts : List Text}
    (h : ∀ part ∈ parts, ∀ c ∈ part, P c) : ∀ c ∈ joinParts parts, P c :=
  Text.forall_mem_join (by simpa using hspace) fun part hpart =>
    h part (List.mem_of_mem_filter hpart)

/-- What holds of the marker, of the text of a comment and of a space holds of the printed
comment. -/
theorem forall_mem_comment {P : Char → Prop} (hP : Covers P) {layout : Layout}
    (hmarker : ∀ c ∈ layout.marker, P c) {comment : Option Text}
    (h : ∀ t ∈ comment, ∀ c ∈ t, P c) : ∀ c ∈ layout.comment comment, P c := by
  cases comment with
  | none => exact fun c hc => absurd hc (by simp [Layout.comment])
  | some t =>
      show ∀ c ∈ (if t.isEmpty then [] else layout.marker ++ ' ' :: t), P c
      split
      · simp
      · exact List.forall_mem_append.mpr
          ⟨hmarker, List.forall_mem_cons.mpr ⟨hP ' ' (by simp), h t rfl⟩⟩

/-- What holds of the printed operands and of the separator holds of the operands in a row. -/
theorem forall_mem_renderList {P : Char → Prop} (hsep : ∀ c ∈ [',', ' '], P c)
    {xs : List Operand} (h : ∀ x ∈ xs, ∀ c ∈ x.render, P c) :
    ∀ c ∈ Operand.renderList xs, P c := by
  rw [Operand.renderList, Operand.renderAll_eq_map]
  exact Text.forall_mem_join hsep (by simpa using h)

/-- Operands in a row are separated and put in parentheses with characters that a layout writes
itself. -/
theorem Covers.operands {P : Char → Prop} (hP : Covers P) :
    ∀ c ∈ [' ', ',', '(', ')'], P c := by
  simpa using ⟨hP ' ' (by simp), hP ',' (by simp), hP '(' (by simp), hP ')' (by simp)⟩

/-- The separator is made of characters that a layout writes itself. -/
theorem Covers.separator {P : Char → Prop} (hP : Covers P) : ∀ c ∈ [',', ' '], P c := by
  simpa using ⟨hP ',' (by simp), hP ' ' (by simp)⟩

/-- What holds of the printed operands and of the characters of a layout holds without a mnemonic
too, where the first operand may stand in parentheses. -/
theorem forall_mem_headlessOperands {P : Char → Prop} (hP : Covers P) {xs : List Operand}
    (h : ∀ x ∈ xs, ∀ c ∈ x.render, P c) : ∀ c ∈ headlessOperands xs, P c := by
  cases xs with
  | nil => exact fun c hc => absurd hc (by simp [headlessOperands])
  | cons x xs =>
      obtain ⟨hx, hxs⟩ := List.forall_mem_cons.mp h
      rw [headlessOperands_cons]
      refine Text.forall_mem_join hP.separator (List.forall_mem_cons.mpr ⟨?_, by simpa using hxs⟩)
      cases looksLikeHead x.render with
      | false => exact hx
      | true =>
          have hclose : ∀ c ∈ [')'], P c := by simpa using hP ')' (by simp)
          exact List.forall_mem_cons.mpr
            ⟨hP '(' (by simp), List.forall_mem_append.mpr ⟨hx, hclose⟩⟩

/-- A printed statement has the characters of its parts, and those of the layout. -/
theorem forall_mem_statement {P : Char → Prop} (hP : Covers P) {layout : Layout}
    (hmarker : ∀ c ∈ layout.marker, P c) {s : Statement}
    (hlabel : ∀ name ∈ s.label, ∀ c ∈ name, P c)
    (hmnemonic : ∀ name ∈ s.mnemonic, ∀ c ∈ name, P c)
    (hoperands : ∀ x ∈ s.operands, ∀ c ∈ x.render, P c)
    (hcomment : ∀ t ∈ s.comment, ∀ c ∈ t, P c) (gutter : Nat) :
    ∀ c ∈ layout.statement gutter s, P c := by
  have hname : ∀ c ∈ layout.label s, P c := by
    have hgetD : ∀ c ∈ s.label.getD [], P c := by
      cases hs : s.label with
      | none => simp
      | some name => exact hlabel name hs
    unfold label
    dsimp only
    split
    · simp
    · split
      · exact List.forall_mem_append.mpr ⟨hgetD, by simpa using hP ':' (by simp)⟩
      · exact hgetD
  have hbody : ∀ c ∈ layout.body s, P c := by
    refine forall_mem_joinParts (hP ' ' (by simp)) ?_
    simp only [List.forall_mem_cons]
    refine ⟨?_, ?_, forall_mem_comment hP hmarker hcomment, by simp⟩
    · cases hs : s.mnemonic with
      | none => simp
      | some name => exact hmnemonic name hs
    · split
      · exact forall_mem_renderList hP.separator hoperands
      · exact forall_mem_headlessOperands hP hoperands
  -- The line is the label, blanks up to the column of the mnemonic, and the body.
  intro c hc
  refine List.forall_mem_append.mpr ⟨?_, ?_⟩ c (Text.mem_of_mem_trimEnd hc)
  · refine List.forall_mem_append.mpr ⟨hname, fun d hd => ?_⟩
    rw [List.eq_of_mem_replicate hd]
    exact hP ' ' (by simp)
  · split
    · simp
    · exact List.forall_mem_cons.mpr ⟨hP ' ' (by simp), hbody⟩

end Layout

end PicAssembly
