import PicAssembly.Proofs.Line.Statement
import PicAssembly.Proofs.Operand.Preservation

/-!
# `PicAssembly.Proofs.Line.Reading`: what a statement was read from

`Statement.SpelledBy s ls` says that the tokens `ls` are the parts of the statement `s` in
their order, with any spelling of the operands. `Line.spelledBy_of_parse` is the soundness of
the reader of statements. From it follow the three things that printing needs to know:
the statement has a printed form (`SpelledBy.wellFormed`), which has the same significant
tokens (`SpelledBy.significant`) and no other characters (`SpelledBy.forall_mem_statement`).
-/

set_option autoImplicit false

namespace PicAssembly

open Token (Lexeme Scans Spelled significant)

/-- The tokens that a statement can be read from: any operands in a row behind the label and
the mnemonic, and any comment. -/
def Statement.SpelledBy (s : Statement) (ls : List Lexeme) : Prop :=
  ∃ (colon : Bool) (row tail : List Lexeme),
    ls = Layout.labelLexemes s.label colon ++
      (Layout.mnemonicLexemes s.mnemonic ++ (row ++ tail)) ∧
    Operand.SpellsRow s.operands row ∧
    ((tail = [] ∧ s.comment = none) ∨
      ∃ t, tail = [⟨.comment, t⟩] ∧ s.comment = Cursor.commentText t)

namespace Cursor

/-- A label is read from its tokens. The colon is optional there. -/
theorem reads_of_label {c c' : Cursor} {name? : Option Text} (hc : c.Proper)
    (h : c.label = (name?, c')) : ∃ colon, Reads c (Layout.labelLexemes name? colon) c' := by
  unfold label at h
  split at h
  · next hk =>
    cases h
    have hname := hc.reads hk.1 (by simp)
    split
    · next hcolon => exact ⟨true, hname.cons ((hname.proper hc).reads_symbol hcolon rfl)⟩
    · exact ⟨false, hname⟩
  · cases h
    exact ⟨false, .refl c⟩

/-- A mnemonic is read from its token, or nothing is read if there is none. -/
theorem reads_of_mnemonic {c c' : Cursor} {name? : Option Text} (hc : c.Proper)
    (h : c.mnemonic = (name?, c')) : Reads c (Layout.mnemonicLexemes name?) c' := by
  unfold mnemonic at h
  split at h
  · next hk =>
    cases h
    exact hc.reads hk (by simp)
  · cases h
    exact .refl c

/-- A comment takes up the rest of the line. -/
theorem lexemes_of_comment {c : Cursor} {comment : Option Text} (hc : c.Proper)
    (h : c.comment = .ok comment) : (c.lexemes = [] ∧ comment = none) ∨
      ∃ t, c.lexemes = [⟨.comment, t⟩] ∧ comment = commentText t := by
  rcases comment_eq_ok_iff.mp h with ⟨hk, hend, rfl⟩ | ⟨hk, rfl⟩
  · have hreads := hc.reads hk (by simp)
    have hlexemes := hreads.lexemes
    rw [(hreads.proper hc).lexemes_eq_nil hend] at hlexemes
    exact Or.inr ⟨_, hlexemes, rfl⟩
  · exact Or.inl ⟨hc.lexemes_eq_nil hk, rfl⟩

/-- The reader of statements takes every token of the line for a part. -/
theorem spelledBy_of_statement {c : Cursor} {s : Statement} (hc : c.Proper)
    (h : c.statement = .ok s) : s.SpelledBy c.lexemes := by
  obtain ⟨c₁, c₂, c₃, hlabel, hmnemonic, hoperands, hcomment⟩ := statement_eq_ok_iff.mp h
  obtain ⟨colon, hreads₁⟩ := reads_of_label hc hlabel
  have hc₁ := hreads₁.proper hc
  have hreads₂ := reads_of_mnemonic hc₁ hmnemonic
  have hc₂ := hreads₂.proper hc₁
  obtain ⟨row, hreads₃, hrow⟩ := spellsRow_of_operandsWithin _ _ _ _ hc₂ hoperands
  refine ⟨colon, row, c₃.lexemes, ?_, hrow, lexemes_of_comment (hreads₃.proper hc₂) hcomment⟩
  rw [hreads₁.lexemes, hreads₂.lexemes, hreads₃.lexemes]

end Cursor

/-- What a comment says has no blanks at its ends, and is not empty. -/
theorem isComment_of_commentText {t u : Text} (h : Cursor.commentText t = some u) :
    IsComment u ∧ ∀ c ∈ u, c ∈ t := by
  unfold Cursor.commentText at h
  split at h
  · cases h
  · next hne =>
    cases h
    refine ⟨⟨by simpa using hne, Text.trimmed_trim _⟩, fun c hc => ?_⟩
    exact List.dropWhile_subset _ (Text.mem_of_mem_trim hc)

namespace Statement

/-- The parts of a statement that was read have a printed form. -/
theorem SpelledBy.wellFormed {s : Statement} {ls : List Lexeme} (h : s.SpelledBy ls)
    (hs : ∀ l ∈ ls, Spelled l.kind l.text) : s.WellFormed := by
  obtain ⟨colon, row, tail, rfl, hrow, htail⟩ := h
  simp only [List.forall_mem_append] at hs
  obtain ⟨hlabel, hmnemonic, hoperands, -⟩ := hs
  refine ⟨fun name hname => ?_, fun name hname => ?_,
    Operand.wellFormed_of_spellsRow hrow hoperands, fun t ht => ?_⟩
  · rw [Option.mem_def.mp hname] at hlabel
    exact Spelled.isName (hlabel ⟨.identifier, name⟩ List.mem_cons_self)
  · rw [Option.mem_def.mp hname] at hmnemonic
    exact Spelled.isName (hmnemonic ⟨.identifier, name⟩ List.mem_cons_self)
  · rcases htail with ⟨-, hnone⟩ | ⟨u, -, hcomment⟩
    · rw [hnone] at ht
      cases ht
    · rw [hcomment] at ht
      exact (isComment_of_commentText ht).1

/-- The colon of a label is not significant. -/
theorem significant_labelLexemes (name? : Option Text) (colon : Bool) :
    significant (Layout.labelLexemes name? colon) = Layout.mnemonicLexemes name? := by
  cases name? with
  | none => rfl
  | some name =>
      cases colon <;>
        simp [Layout.labelLexemes, Layout.mnemonicLexemes, Token.Kind.isSignificant]

/-- What makes operands without a mnemonic differ from others are parentheses, which are not
significant. -/
theorem significant_operandLexemes (s : Statement) :
    significant (Layout.operandLexemes s) = significant (Operand.listLexemes s.operands) := by
  unfold Layout.operandLexemes
  cases s.mnemonic with
  | some name => rfl
  | none =>
      cases s.operands with
      | nil => rfl
      | cons x xs =>
          simp [Layout.headlessLexemes, Operand.listLexemes, Operand.lexemesAll,
            Operand.significant_commaSeparated]

/-- A comment is not significant. -/
theorem significant_commentLexemes (comment : Option Text) :
    significant (Layout.commentLexemes comment) = [] := by
  cases comment with
  | none => rfl
  | some t => simp [Layout.commentLexemes, Token.Kind.isSignificant]

/-- A statement is printed as the tokens that it was read from, up to punctuation and
comments. -/
theorem SpelledBy.significant {s : Statement} {ls : List Lexeme} (h : s.SpelledBy ls)
    (layout : Layout) :
    Token.significant (layout.statementLexemes s) = Token.significant ls := by
  obtain ⟨colon, row, tail, rfl, hrow, htail⟩ := h
  have htail : Token.significant tail = [] := by
    rcases htail with ⟨rfl, -⟩ | ⟨t, rfl, -⟩
    · rfl
    · simp [Token.Kind.isSignificant]
  simp [Layout.statementLexemes, Layout.bodyLexemes, significant_labelLexemes,
    significant_operandLexemes, significant_commentLexemes,
    Operand.significant_of_spellsRow hrow, htail]

/-- A statement is printed with the characters of the tokens that it was read from, and those
of the layout. -/
theorem SpelledBy.forall_mem_statement {P : Char → Prop} (hP : Layout.Covers P) {s : Statement}
    {ls : List Lexeme} (h : s.SpelledBy ls) (hls : ∀ l ∈ ls, ∀ c ∈ l.text, P c)
    {layout : Layout} (hmarker : ∀ c ∈ layout.marker, P c) (gutter : Nat) :
    ∀ c ∈ layout.statement gutter s, P c := by
  obtain ⟨colon, row, tail, rfl, hrow, htail⟩ := h
  simp only [List.forall_mem_append] at hls
  obtain ⟨hlabel, hmnemonic, hoperands, hrest⟩ := hls
  refine Layout.forall_mem_statement hP hmarker (fun name hname => ?_) (fun name hname => ?_)
    (fun x hx => ?_) (fun t ht => ?_) gutter
  · rw [Option.mem_def.mp hname] at hlabel
    exact hlabel ⟨.identifier, name⟩ List.mem_cons_self
  · rw [Option.mem_def.mp hname] at hmnemonic
    exact hmnemonic ⟨.identifier, name⟩ List.mem_cons_self
  · exact Operand.forall_mem_render_of_spellsRow hP.operands hrow hoperands x hx
  -- The text of a comment is a part of its token.
  · rcases htail with ⟨-, hnone⟩ | ⟨u, rfl, hcomment⟩
    · rw [hnone] at ht
      cases ht
    · rw [hcomment] at ht
      exact fun c hc => hrest ⟨.comment, u⟩ List.mem_cons_self c
        ((isComment_of_commentText ht).2 c hc)

end Statement

namespace Line

/-- A statement that was read is spelled by the tokens of its line. -/
theorem spelledBy_of_parse {text : Text} {index : Nat} {s : Statement}
    (h : parse text index = .ok (.statement s)) :
    ∃ c, Cursor.ofScanner (.ofLine text index) = .ok c ∧ Scans text c.lexemes [] ∧
      s.SpelledBy c.lexemes := by
  obtain ⟨c, hc, hk, hs⟩ := parse_eq_statement_iff.mp h
  obtain ⟨hproper, hscans⟩ := Cursor.proper_of_ofScanner hc (Or.inr hk)
  exact ⟨c, hc, hscans, Cursor.spelledBy_of_statement hproper hs⟩

end Line

end PicAssembly
