import PicAssembly.Line.Parser
import PicAssembly.Proofs.Line.Printing
import PicAssembly.Proofs.Operand.Reading
import PicAssembly.Proofs.Operand.RoundTrip

/-!
# `PicAssembly.Proofs.Line.Statement`: reading statements

A statement is read in four parts, and from the tokens of a printed part the reader builds
the part again.

* `Line.parse_statement`: a printed statement is read as itself.
* `Line.parse_mnemonic_renderList`: so are operands in a row behind a mnemonic.
-/

set_option autoImplicit false

namespace PicAssembly

open Token (Lexeme Scans Spelled headKind)

namespace Cursor

/-- The label of a statement with its colon, if the first token is one, and what follows. -/
def label (c : Cursor) : Option Text × Cursor :=
  if c.kind = .identifier ∧ (c.peek 0).column = 0 then
    (some (c.peek 0).text, if c.consume.kind = .colon then c.consume.consume else c.consume)
  else (none, c)

/-- The mnemonic of a statement, if there is one, and what follows. -/
def mnemonic (c : Cursor) : Option Text × Cursor :=
  if c.kind = .identifier then (some (c.peek 0).text, c.consume) else (none, c)

/-- A statement is read part by part. -/
theorem statement_eq (c : Cursor) : c.statement = (do
    let row ← c.label.2.mnemonic.2.operands
    let comment ← row.2.comment
    return ⟨c.label.1, c.label.2.mnemonic.1, row.1, comment⟩) := rfl

/-- A statement is its four parts. -/
theorem statement_eq_ok_iff {c : Cursor} {s : Statement} :
    c.statement = .ok s ↔ ∃ c₁ c₂ c₃, c.label = (s.label, c₁) ∧ c₁.mnemonic = (s.mnemonic, c₂) ∧
      c₂.operands = .ok (s.operands, c₃) ∧ c₃.comment = .ok s.comment := by
  obtain ⟨label, mnemonic, operands, comment⟩ := s
  rw [statement_eq, bind_eq_ok_iff]
  constructor
  · rintro ⟨⟨xs, c₃⟩, hxs, h⟩
    obtain ⟨o, ho, h⟩ := bind_eq_ok_iff.mp h
    cases h
    exact ⟨c.label.2, c.label.2.mnemonic.2, c₃, rfl, rfl, hxs, ho⟩
  · rintro ⟨c₁, c₂, c₃, hl, hm, hxs, ho⟩
    simp only [hl, hm]
    exact ⟨(operands, c₃), hxs, bind_eq_ok_iff.mpr ⟨comment, ho, rfl⟩⟩

/-- What a comment says, without its semicolons and the blanks around it. -/
def commentText (t : Text) : Option Text :=
  if (Text.trim (t.dropWhile (· == ';'))).isEmpty then none
  else some (Text.trim (t.dropWhile (· == ';')))

/-- A comment is the last token, if it is there. -/
theorem comment_eq_ok_iff {c : Cursor} {comment : Option Text} :
    c.comment = .ok comment ↔
      (c.kind = .comment ∧ c.consume.kind = .eof ∧ comment = commentText (c.peek 0).text) ∨
        (c.kind = .eof ∧ comment = none) := by
  -- A comment must be the last token, and without one the line must end here.
  by_cases hk : c.kind = .comment
  · have hcomment : c.comment = (do
        c.consume.endOfLine
        return commentText (c.peek 0).text) := if_pos hk
    rw [hcomment, bind_eq_ok_iff]
    constructor
    · rintro ⟨⟨⟩, hend, h⟩
      cases h
      exact Or.inl ⟨hk, endOfLine_eq_ok_iff.mp hend, rfl⟩
    · rintro (⟨-, hend, rfl⟩ | ⟨heof, -⟩)
      · exact ⟨(), endOfLine_eq_ok_iff.mpr hend, rfl⟩
      · simp [hk] at heof
  · have hcomment : c.comment = (do
        c.endOfLine
        return none) := if_neg hk
    rw [hcomment, bind_eq_ok_iff]
    constructor
    · rintro ⟨⟨⟩, hend, h⟩
      cases h
      exact Or.inr ⟨endOfLine_eq_ok_iff.mp hend, rfl⟩
    · rintro (⟨hc, -⟩ | ⟨heof, rfl⟩)
      · exact absurd hc hk
      · exact ⟨(), endOfLine_eq_ok_iff.mpr heof, rfl⟩

/-! ### From printed parts -/

/-- A comment that is printed is read back as its text. -/
theorem commentText_eq_some {t : Text} (h : IsComment t) :
    commentText (';' :: ' ' :: t) = some t := by
  have htrim : Text.trim ((';' :: ' ' :: t).dropWhile (· == ';')) = t := by
    show Text.trim (' ' :: t) = t
    rw [Text.trim_cons_of_isBlank (by decide), Text.trim_eq_self h.2]
  rw [commentText, htrim, if_neg (by simpa using h.1)]

/-- A printed comment is read as its text. -/
theorem comment_of_lexemes {c : Cursor} {comment : Option Text} (heof : c.eof.kind = .eof)
    (hc : c.lexemes = Layout.commentLexemes comment) (h : ∀ t ∈ comment, IsComment t) :
    c.comment = .ok comment := by
  rw [comment_eq_ok_iff]
  cases comment with
  | none =>
      have hkind : c.kind = .eof := by
        rw [kind_eq_headKind heof, hc]
        rfl
      exact Or.inr ⟨hkind, rfl⟩
  | some t =>
      obtain ⟨hreads, -⟩ := reads_of_lexemes hc
      have hend : c.consume.kind = .eof := by
        rw [kind_eq_headKind (hreads.eof ▸ heof), hreads.tail_eq hc]
        rfl
      rw [text_of_lexemes hc, commentText_eq_some (h t rfl)]
      exact Or.inl ⟨kind_of_lexemes hc, hend, rfl⟩

/-- A label in column zero is read as its name, with its colon. -/
theorem label_of_lexemes {c : Cursor} {name? : Option Text} {colon : Bool} {r : List Lexeme}
    (heof : c.eof.kind = .eof) (hc : c.lexemes = Layout.labelLexemes name? colon ++ r)
    (hr : headKind r ≠ .colon)
    (hcolumn : c.kind = .identifier → ((c.peek 0).column = 0 ↔ name?.isSome)) :
    ∃ c', c.label = (name?, c') ∧ Reads c (Layout.labelLexemes name? colon) c' := by
  -- A name is a label just if it stands in the first column.
  cases name? with
  | none =>
      refine ⟨c, if_neg fun hk => ?_, .refl c⟩
      simpa using (hcolumn hk.1).mp hk.2
  | some name =>
      obtain ⟨hname, -⟩ := reads_of_lexemes hc
      have hleft := hname.tail_eq hc
      have hkind : c.kind = .identifier := kind_of_lexemes hc
      have htext : (c.peek 0).text = name := text_of_lexemes hc
      have heof' : c.consume.eof.kind = .eof := hname.eof ▸ heof
      rw [label, if_pos ⟨hkind, (hcolumn hkind).mpr rfl⟩, htext]
      refine ⟨_, rfl, ?_⟩
      cases colon with
      | true =>
          have hcolon : c.consume.kind = .colon := kind_of_lexemes hleft
          rw [if_pos hcolon]
          exact hname.cons (reads_of_lexemes hleft).1
      | false =>
          have hcolon : c.consume.kind ≠ .colon := by
            rw [kind_eq_headKind heof', hleft]
            exact hr
          rw [if_neg hcolon]
          exact hname

/-- A printed mnemonic is read as its name. -/
theorem mnemonic_of_lexemes {c : Cursor} {mnemonic : Option Text} {r : List Lexeme}
    (heof : c.eof.kind = .eof) (hc : c.lexemes = Layout.mnemonicLexemes mnemonic ++ r)
    (hr : mnemonic = none → headKind r ≠ .identifier) :
    ∃ c', c.mnemonic = (mnemonic, c') ∧ Reads c (Layout.mnemonicLexemes mnemonic) c' := by
  cases mnemonic with
  | none =>
      refine ⟨c, if_neg ?_, .refl c⟩
      rw [kind_eq_headKind heof, hc]
      exact hr rfl
  | some name =>
      have htext : (c.peek 0).text = name := text_of_lexemes hc
      refine ⟨c.consume, ?_, (reads_of_lexemes hc).1⟩
      rw [Cursor.mnemonic, if_pos (kind_of_lexemes hc), htext]

end Cursor

/-! ### From printed statements -/

namespace Layout

open Cursor (Standalone)

/-- An operand that would be read as the head of a statement is in parentheses there. -/
theorem headKind_grouped {x : Operand} (h : x.WellFormed) :
    headKind (Operand.groupedLexemes (looksLikeHead x.render) x.lexemes) ≠ .identifier ∧
      headKind (Operand.groupedLexemes (looksLikeHead x.render) x.lexemes) ≠ .pound := by
  cases hhead : looksLikeHead x.render with
  | true => simp [Operand.groupedLexemes, headKind]
  | false =>
      show headKind x.lexemes ≠ .identifier ∧ headKind x.lexemes ≠ .pound
      have hscans := Operand.prints_render h [] Token.detached_nil
      rw [List.append_nil] at hscans
      -- The printed operand begins with its first token, and so with the first character of that.
      obtain ⟨c, cs, hrender, -, hc⟩ := Operand.startsOperand_render h
      obtain ⟨l, ls, hlexemes⟩ := List.exists_cons_of_ne_nil
        (Token.ne_nil_of_beginsOperand (Operand.beginsOperand_lexemes h))
      rw [hlexemes] at hscans ⊢
      obtain ⟨t, ht⟩ := hscans.exists_eq_append (by simpa [hrender] using hc)
      have hspelled := hscans.spelled l List.mem_cons_self
      obtain ⟨d, ds, hl⟩ := List.exists_cons_of_ne_nil hspelled.ne_nil
      rw [looksLikeHead, ht, hl] at hhead
      simp only [List.cons_append, List.head?_cons, Option.any_some, Bool.or_eq_false_iff,
        beq_eq_false_iff_ne] at hhead
      refine ⟨fun hk => ?_, fun hk => ?_⟩
      · have hk : l.kind = .identifier := hk
        rw [hk, hl] at hspelled
        have hstart : Token.isIdentifierStart d := hspelled.isName.1
        simp [Token.isIdentifierStart, hhead.1] at hstart
      · have hk : l.kind = .pound := hk
        rw [hk, hl] at hspelled
        have hd := hspelled.eq_symbol (u := ['#']) rfl
        simp only [List.cons.injEq] at hd
        exact hhead.2 hd.1

/-- The operands of a printed statement, each with its tokens. -/
theorem exists_operandPairs {s : Statement} (h : s.WellFormed) :
    ∃ pairs : List (Operand × List Lexeme), pairs.map Prod.fst = s.operands ∧
      Operand.commaSeparated (pairs.map Prod.snd) = operandLexemes s ∧
      ∀ p ∈ pairs, Standalone p.1 p.2 := by
  have hplain {xs : List Operand} (hxs : ∀ x ∈ xs, x.WellFormed) :
      ∀ p ∈ xs.map fun x => (x, x.lexemes), Standalone p.1 p.2 := by
    intro p hp
    obtain ⟨x, hx, rfl⟩ := List.mem_map.mp hp
    exact Operand.standalone_lexemes (hxs x hx)
  unfold operandLexemes
  -- Without a mnemonic the first operand may stand in parentheses.
  cases s.mnemonic with
  | some name =>
      refine ⟨s.operands.map fun x => (x, x.lexemes), ?_, ?_, hplain h.operands⟩
      · simp [Function.comp_def]
      · simp [Operand.listLexemes, Operand.lexemesAll_eq_map, Function.comp_def]
  | none =>
      have hoperands := h.operands
      cases hxs : s.operands with
      | nil => exact ⟨[], rfl, rfl, by simp⟩
      | cons x xs =>
          rw [hxs] at hoperands
          obtain ⟨hx, hrest⟩ := List.forall_mem_cons.mp hoperands
          refine ⟨(x, Operand.groupedLexemes (looksLikeHead x.render) x.lexemes) ::
            xs.map fun x => (x, x.lexemes), ?_, ?_, ?_⟩
          · simp [Function.comp_def]
          · simp [headlessLexemes, Operand.lexemesAll_eq_map, Function.comp_def]
          · exact List.forall_mem_cons.mpr
              ⟨(Operand.standalone_lexemes hx).group _, hplain hrest⟩

/-- A comment or the end of the line comes first among the tokens of a comment, so operands end
before it. -/
theorem headKind_commentLexemes (comment : Option Text) :
    headKind (commentLexemes comment) = .comment ∨ headKind (commentLexemes comment) = .eof := by
  cases comment with
  | none => exact Or.inr rfl
  | some t => exact Or.inl rfl

/-- What stands behind a label is not its colon. -/
theorem headKind_bodyLexemes {s : Statement} (h : s.WellFormed) :
    headKind (bodyLexemes s) ≠ .colon := by
  unfold bodyLexemes
  cases s.mnemonic with
  | some name => simp [mnemonicLexemes, headKind]
  | none =>
      obtain ⟨pairs, -, hlexemes, hpairs⟩ := exists_operandPairs h
      rw [← hlexemes]
      show headKind (_ ++ commentLexemes s.comment) ≠ .colon
      cases pairs with
      | nil =>
          rcases headKind_commentLexemes s.comment with hk | hk <;>
            simp [Operand.commaSeparated, hk]
      | cons p pairs =>
          have hp := (hpairs p List.mem_cons_self).begins
          rw [List.map_cons, Token.headKind_commaSeparated hp]
          exact hp.2.2.2

/-- What stands where a mnemonic may stand is none. -/
theorem headKind_headless {s : Statement} (h : s.WellFormed) (hm : s.mnemonic = none) :
    headKind (operandLexemes s ++ commentLexemes s.comment) ≠ .identifier ∧
      headKind (operandLexemes s ++ commentLexemes s.comment) ≠ .pound := by
  have hoperands := h.operands
  rw [operandLexemes, hm]
  cases hxs : s.operands with
  | nil =>
      rcases headKind_commentLexemes s.comment with hk | hk <;> simp [headlessLexemes, hk]
  | cons x xs =>
      have hx : x.WellFormed := hoperands x (by simp [hxs])
      have hbegins := Operand.beginsOperand_groupedLexemes (Operand.beginsOperand_lexemes hx)
        (looksLikeHead x.render) []
      rw [List.append_nil] at hbegins
      show headKind (Operand.commaSeparated (_ :: _) ++ _) ≠ .identifier ∧
        headKind (Operand.commaSeparated (_ :: _) ++ _) ≠ .pound
      rw [Token.headKind_commaSeparated hbegins]
      exact headKind_grouped hx

/-- No printed statement begins with a pound sign. -/
theorem headKind_statementLexemes (layout : Layout) {s : Statement} (h : s.WellFormed) :
    headKind (layout.statementLexemes s) ≠ .pound := by
  unfold statementLexemes bodyLexemes
  cases s.label with
  | some name => simp [labelLexemes, headKind]
  | none =>
      cases hm : s.mnemonic with
      | some name => simp [labelLexemes, mnemonicLexemes, headKind]
      | none => exact (headKind_headless h hm).2

/-- A printed statement is not scanned as a directive. -/
theorem readsPound_statementLexemes {layout : Layout} {s : Statement} (h : s.WellFormed)
    (scanner : Scanner) : ∀ l ∈ (layout.statementLexemes s).head?, scanner.ReadsPound l.kind := by
  intro l hl
  obtain ⟨ls, hls⟩ := List.head?_eq_some_iff.mp hl
  have hpound := headKind_statementLexemes layout h
  rw [hls] at hpound
  exact Or.inr hpound

end Layout

namespace Line

/-- A line without a directive is a statement. -/
theorem parse_eq_statement_iff {text : Text} {index : Nat} {s : Statement} :
    parse text index = .ok (.statement s) ↔ ∃ c, Cursor.ofScanner (.ofLine text index) = .ok c ∧
      c.kind ≠ .pragma ∧ c.statement = .ok s := by
  simp only [parse, bind_eq_ok_iff, mapError_eq_ok_iff]
  refine exists_congr fun c => and_congr_right fun _ => ?_
  split
  · next hk =>
    refine ⟨fun h => ?_, fun h => absurd hk h.1⟩
    -- A directive never makes a statement.
    unfold Cursor.directive at h
    dsimp only at h
    split at h
    · obtain ⟨_, -, h⟩ := bind_eq_ok_iff.mp h
      obtain ⟨_, -, h⟩ := bind_eq_ok_iff.mp h
      obtain ⟨_, -, h⟩ := bind_eq_ok_iff.mp h
      cases h
    · obtain ⟨_, -, h⟩ := bind_eq_ok_iff.mp h
      cases h
  · next hk =>
    rw [bind_eq_ok_iff]
    constructor
    · rintro ⟨s', hs, h⟩
      cases h
      exact ⟨hk, mapError_eq_ok_iff.mp hs⟩
    · rintro ⟨-, hs⟩
      exact ⟨s, mapError_eq_ok_iff.mpr hs, rfl⟩

/-- A text with the tokens of a printed statement is read as the statement, if it starts with
the label or, without one, with a blank. -/
theorem parse_of_scans {text : Text} (layout : Layout) {s : Statement} (h : s.WellFormed)
    (hscans : Scans text (layout.statementLexemes s) [])
    (hplace : text ≠ [] → (text.takeWhile Token.isSeparator = [] ↔ s.label.isSome))
    (index : Nat) : parse text index = .ok (.statement s) := by
  obtain ⟨c, hc, hrun, hlexemes, heof⟩ := Cursor.ofScanner_of_scans
    (s := Scanner.ofLine text index) hscans (Layout.readsPound_statementLexemes h _)
  have hpragma : c.kind ≠ .pragma := by
    rw [Cursor.kind_eq_headKind heof, hlexemes]
    exact hscans.headKind_ne_pragma
  -- The first token stands in the first column just if the text does not begin with a blank.
  have hcolumn : c.kind = .identifier → ((c.peek 0).column = 0 ↔ s.label.isSome) := by
    intro hk
    have hreads := Cursor.reads_consume heof (by simp [hk])
    obtain ⟨token, tokens, hrest⟩ : ∃ token tokens, c.rest = token :: tokens := by
      refine List.exists_cons_of_ne_nil fun hnil => ?_
      have hlen := hreads.length
      simp only [hnil, List.length_nil, List.length_cons] at hlen
      omega
    have hne : text ≠ [] := by
      rintro rfl
      rw [Cursor.lexemes, hrest, hscans.eq_nil] at hlexemes
      cases hlexemes
    rw [hrest] at hrun
    have hcol := Scanner.column_of_run hrun
    rw [Cursor.peek, hrest, List.getD_cons_zero, hcol, ← hplace hne]
    simp [Scanner.ofLine]
  -- Label, mnemonic, operands and comment, each from where the one before it ends.
  obtain ⟨c₁, hlabel, hreads₁⟩ :=
    Cursor.label_of_lexemes heof hlexemes (Layout.headKind_bodyLexemes h) hcolumn
  have heof₁ : c₁.eof.kind = .eof := hreads₁.eof ▸ heof
  obtain ⟨c₂, hmnemonic, hreads₂⟩ := Cursor.mnemonic_of_lexemes heof₁ (hreads₁.lexemes_eq hlexemes)
    fun hm => (Layout.headKind_headless h hm).1
  have heof₂ : c₂.eof.kind = .eof := hreads₂.eof ▸ heof₁
  have hleft₂ := hreads₂.lexemes_eq (hreads₁.lexemes_eq hlexemes)
  obtain ⟨pairs, hfst, hsnd, hpairs⟩ := Layout.exists_operandPairs h
  rw [← hsnd] at hleft₂
  obtain ⟨c₃, hreads₃, hoperands⟩ := Cursor.operandsWithin_of_standalone hpairs
    (Layout.headKind_commentLexemes s.comment) _ c₂ heof₂ hleft₂ (Nat.le_refl _)
  have hcomment := Cursor.comment_of_lexemes (hreads₃.eof ▸ heof₂) (hreads₃.lexemes_eq hleft₂)
    h.comment
  rw [hfst] at hoperands
  exact parse_eq_statement_iff.mpr ⟨c, hc, hpragma, Cursor.statement_eq_ok_iff.mpr
    ⟨c₁, c₂, c₃, hlabel, hmnemonic, hoperands, hcomment⟩⟩

/-- A printed statement is read as itself. -/
theorem parse_statement {layout : Layout} (hl : layout.IsReadable) {s : Statement}
    (h : s.WellFormed) (gutter index : Nat) :
    parse (layout.statement gutter s) index = .ok (.statement s) := by
  refine parse_of_scans layout h (Layout.scans_statement hl h gutter) (fun hne => ?_) index
  rw [Layout.statement_eq h] at hne ⊢
  cases hlabel : s.label with
  -- Without a label the first token must not be in column zero, and the gutter keeps it from there.
  | none =>
      have hempty : layout.label s = [] := by simp [Layout.label, hlabel]
      rw [hempty] at hne ⊢
      split at hne
      · exact absurd rfl hne
      · next hbody =>
        rw [if_neg hbody]
        cases gutter <;> simp [Layout.padTo, List.replicate_succ, Token.isSeparator]
  | some name =>
      obtain ⟨t, ht⟩ := Layout.exists_label_eq h hlabel
      have hspelled : Spelled .identifier name := .identifier (h.label name hlabel)
      obtain ⟨c, cs, rfl⟩ := List.exists_cons_of_ne_nil hspelled.ne_nil
      rw [ht]
      split <;> simp [Layout.padTo, hspelled.head_not_isSeparator]

/-- Operands in a row are read as themselves behind a mnemonic. -/
theorem parse_mnemonic_renderList {mnemonic : Text} (hm : Token.IsName mnemonic)
    {xs : List Operand} (h : ∀ x ∈ xs, x.WellFormed) (index : Nat) :
    parse (' ' :: mnemonic ++ ' ' :: Operand.renderList xs) index
      = .ok (.statement ⟨none, some mnemonic, xs, none⟩) := by
  have hs : Statement.WellFormed ⟨none, some mnemonic, xs, none⟩ :=
    ⟨by simp, by simpa using hm, h, by simp⟩
  have hoperands := Operand.prints_renderList fun x hx => Operand.prints_render (h x hx)
  have hmnemonic := Token.Prints.word (.identifier hm) (Or.inl rfl)
  have hrow := hmnemonic.append hoperands.space fun rest _ => Token.detached_cons (by decide) _
  have hscans := hrow.space [] Token.detached_nil
  rw [List.append_nil] at hscans
  refine parse_of_scans Layout.plain hs ?_ (fun _ => by simp [Token.isSeparator]) index
  simpa [Layout.statementLexemes, Layout.labelLexemes, Layout.bodyLexemes,
    Layout.mnemonicLexemes, Layout.operandLexemes, Layout.commentLexemes] using hscans

/-- An operator with a sign behind it, and two signs in a row. -/
theorem parse_mnemonic_renderList_signs :
    parse " m a=-b, - -x".toList 0 = .ok (.statement ⟨none, some ['m'],
      [.assign .assign (.identifier ['a']) (.unary .negate ['-'] (.identifier ['b'])),
        .unary .negate ['-'] (.unary .negate ['-'] (.identifier ['x']))], none⟩) := by
  have hname (c : Char) (hc : Token.isIdentifierStart c) : Token.IsName [c] := ⟨hc, by simp⟩
  have ha : Operand.WellFormed (.identifier ['a']) := .identifier (hname 'a' rfl) rfl
  have hb : Operand.WellFormed (.identifier ['b']) := .identifier (hname 'b' rfl) rfl
  have hx : Operand.WellFormed (.identifier ['x']) := .identifier (hname 'x' rfl) rfl
  have hminus {x : Operand} (h : x.WellFormed) : Operand.WellFormed (.unary .negate ['-'] x) :=
    .unary (by decide) rfl h
  have hxs : ∀ x ∈ [Operand.assign .assign (.identifier ['a'])
      (.unary .negate ['-'] (.identifier ['b'])),
      .unary .negate ['-'] (.unary .negate ['-'] (.identifier ['x']))], x.WellFormed := by
    simpa using ⟨.assign ha (hminus hb), hminus (hminus hx)⟩
  exact parse_mnemonic_renderList (hname 'm' rfl) hxs 0

end Line

end PicAssembly
