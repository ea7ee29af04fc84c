import PicAssembly.Proofs.Line.RoundTrip
import PicAssembly.Proofs.Token.Remainder

/-!
# `PicAssembly.Proofs.Line.Preservation`: printing keeps the tokens of a line

Punctuation and comments aside, a line is printed as the tokens that it was read from, in
their order (`Line.significant_of_parse`). For a statement these are the tokens of the whole
line, for a definition those behind the word.

The reader of definitions sees the line only up to the comment, without the blanks before
that. `Scanner.significant_of_scans` shows that it misses nothing: behind the last token there
is nothing to scan but the comment, although the scanner may stop at a blank that it does not
know.
-/

set_option autoImplicit false

namespace PicAssembly

open Token (Lexeme Scans)

/-! ### The tokens of a text -/

namespace Scanner

/-- The tokens up to the end or the first fault, without punctuation and comments. -/
def significant (s : Scanner) : List Lexeme := Token.significant (s.run.1.map Token.lexeme)

/-- Whether there is no fault. -/
def Succeeds (s : Scanner) : Prop := ∃ eof, s.run.2 = .ok eof

/-- A text with a scan to its end has no fault. -/
theorem succeeds_of_scans {s : Scanner} {ls : List Lexeme} (h : Scans s.rest ls [])
    (hf : ∀ l ∈ ls.head?, s.ReadsPound l.kind) :
    s.Succeeds ∧ s.significant = Token.significant ls := by
  obtain ⟨tokens, eof, hrun, hls, -⟩ := run_of_scans h hf
  exact ⟨⟨eof, by rw [hrun]⟩, by rw [significant, hrun, hls]⟩

/-- A cursor has the tokens of a text without fault. -/
theorem succeeds_of_ofScanner {s : Scanner} {c : Cursor} (h : Cursor.ofScanner s = .ok c) :
    s.Succeeds ∧ s.significant = Token.significant c.lexemes := by
  obtain ⟨hrun, -, -⟩ := Cursor.ofScanner_eq_ok_iff.mp h
  exact ⟨⟨c.eof, by rw [hrun]⟩, by rw [significant, hrun]; rfl⟩

/-- What stands behind the tokens of a text adds none. -/
theorem significant_of_scans {s : Scanner} {t gap tail : Text} {ls : List Lexeme}
    (hs : s.rest = t ++ (gap ++ tail)) (hfresh : s.fresh = false) (h : Scans t ls [])
    (hls : ∀ l ∈ ls, l.kind ≠ .comment) (hgap : ∀ c ∈ gap, Text.isBlank c)
    (htail : ∀ c ∈ tail.head?, c = ';') : s.significant = Token.significant ls := by
  have hends : Token.Ends (gap ++ tail) := by
    intro c hc
    cases gap with
    | nil => exact Or.inr (htail c hc)
    | cons d ds =>
        cases hc
        exact Or.inl (hgap c List.mem_cons_self)
  obtain ⟨tokens, steps, s', hrun, hlexemes, hrest, hfresh'⟩ := runFor_of_scans
    (h.extend hls hends) s.rest.length s hs (by rw [hs]) fun _ _ => Or.inl hfresh
  -- Behind the gap there is nothing but a comment.
  have hcomments := runFor_of_blanks hrest (hfresh' hfresh) hgap htail steps
  have hnil : Token.significant ((runFor steps s').1.map Token.lexeme) = [] := by
    refine List.filter_eq_nil_iff.mpr fun l hl => ?_
    obtain ⟨token, htoken, rfl⟩ := List.mem_map.mp hl
    show ¬ token.kind.isSignificant = true
    rw [hcomments token htoken]
    decide
  rw [significant, run, hrun, List.map_append, hlexemes, Token.significant_append, hnil,
    List.append_nil]

end Scanner

/-! ### Where a definition stands -/

/-- The place behind the word `#define` of a line that begins with it. -/
def afterDefine (text : Text) : Nat := (text.takeWhile Token.isSeparator).length + 7

/-- The place behind a directive, before the blanks and the comment that follow it. -/
def directiveEnd (text : Text) : Nat :=
  let blanks := text.takeWhile Token.isSeparator
  blanks.length + (Text.trimEnd ((text.drop blanks.length).takeWhile (· != ';'))).length

/-- The word of a definition has seven characters in any letter case. -/
theorem length_of_isDefinition {front : Text} (h : IsDefinition front) :
    (directiveWord front).length = 7 := by
  have hlower := congrArg List.length (beq_iff_eq.mp h)
  simpa [Text.asciiLower] using hlower

/-- The blanks in front of a directive are all blanks there: the directive itself begins with
none. -/
theorem DirectiveLine.takeWhile_eq {text blanks front gap tail : Text}
    (h : DirectiveLine text blanks front gap tail) :
    text.takeWhile Token.isSeparator = blanks := by
  obtain ⟨t, rfl⟩ := h.pound
  rw [h.eq, List.append_assoc, List.append_assoc]
  exact Token.takeWhile_append_of_head h.blanks (by simp [Token.isSeparator])

/-- The end of a directive, as it is computed from the line, is where the directive ends. -/
theorem DirectiveLine.directiveEnd_eq {text blanks front gap tail : Text}
    (h : DirectiveLine text blanks front gap tail) :
    directiveEnd text = blanks.length + front.length := by
  have hbody : ∀ c ∈ front ++ gap, (c != ';') = true := by
    refine List.forall_mem_append.mpr ⟨by simpa using h.body, fun c hc => ?_⟩
    have hblank := h.gap c hc
    rw [bne_iff_ne]
    rintro rfl
    exact absurd hblank (by decide)
  have hdrop : text.drop blanks.length = front ++ gap ++ tail := by
    rw [h.eq, List.append_assoc, List.append_assoc, List.drop_left, List.append_assoc]
  have hbefore : (front ++ gap ++ tail).takeWhile (· != ';') = front ++ gap :=
    Token.takeWhile_append_of_head hbody (by simpa using h.tail)
  rw [directiveEnd, h.takeWhile_eq, hdrop, hbefore, Text.trimEnd_append_of_isBlank h.gap,
    Text.trimEnd_eq_self h.solid]

/-- The place behind the word, as it is computed from the line, is where the word ends. -/
theorem DirectiveLine.afterDefine_eq {text blanks front gap tail : Text}
    (h : DirectiveLine text blanks front gap tail) (hdefine : IsDefinition front) :
    afterDefine text = blanks.length + (directiveWord front).length := by
  rw [afterDefine, h.takeWhile_eq, length_of_isDefinition hdefine]

/-- The reader of definitions is given what stands between these two places. -/
theorem DirectiveLine.within_definition {text blanks front gap tail : Text}
    (h : DirectiveLine text blanks front gap tail) (hdefine : IsDefinition front) (index : Nat) :
    Scanner.within text index (afterDefine text) (directiveEnd text)
      = ⟨text, index, blanks.length + (directiveWord front).length, false,
          front.drop (directiveWord front).length⟩ := by
  obtain ⟨hpos, hle⟩ := h.length_directiveWord
  rw [h.afterDefine_eq hdefine, h.directiveEnd_eq, h.within_front index hpos hle]

/-- A definition is printed as the tokens that it was read from, up to punctuation. -/
theorem Definition.SpelledBy.significant {d : Definition} {ls : List Lexeme}
    (h : d.SpelledBy ls) :
    Token.significant (⟨.identifier, d.name⟩ :: Operand.listLexemes d.operands)
      = Token.significant ls := by
  obtain ⟨row, rfl, hrow⟩ := h
  rw [Token.significant_cons, Token.significant_cons, Operand.significant_of_spellsRow hrow]

/-- The tokens of a printed definition behind its word. -/
theorem Layout.significant_definition {layout : Layout} (hl : layout.IsReadable)
    {d : Definition} (h : d.WellFormed) (gutter index : Nat) :
    let printed := layout.line gutter (.definition d)
    let rest := Scanner.within printed index (afterDefine printed) printed.length
    rest.Succeeds ∧ rest.significant
      = Token.significant (⟨.identifier, d.name⟩ :: Operand.listLexemes d.operands) := by
  have hprinted : layout.line gutter (.definition d) = _ := Definition.joinParts_eq h
    [Operand.renderList d.operands, layout.comment d.comment]
  -- Behind the seven characters of the keyword, a blank and then the rest of the line is left.
  have hafter : afterDefine (layout.line gutter (.definition d)) = 7 := by
    rw [hprinted]
    rfl
  have hwithin : Scanner.within (layout.line gutter (.definition d)) index 7
      (layout.line gutter (.definition d)).length = ⟨layout.line gutter (.definition d), index, 7,
        false, ' ' :: joinParts [d.name, Operand.renderList d.operands,
          layout.comment d.comment]⟩ := by
    rw [hprinted]
    simp [Scanner.within, Token.isSeparator]
  have hname := Token.Prints.word (.identifier h.name) (Or.inl rfl)
  have hoperands := Operand.prints_renderList fun x hx => Operand.prints_render (h.operands x hx)
  have hscans := scans_joinParts_cons hname
    (scans_joinParts_cons hoperands (scans_joinParts_singleton (scans_comment hl h.comment)))
  dsimp only
  rw [hafter, hwithin]
  obtain ⟨hok, hsig⟩ := Scanner.succeeds_of_scans
    (s := ⟨layout.line gutter (.definition d), index, 7, false, _⟩)
    (Scans.blank (c := ' ') (by decide) hscans) fun _ _ => Or.inl rfl
  refine ⟨hok, hsig.trans ?_⟩
  rw [← List.append_assoc, Token.significant_append, Statement.significant_commentLexemes,
    List.append_nil]
  rfl

namespace Line

/-- The tokens of a definition that was read, behind its word. -/
theorem significant_of_parse_definition {text : Text} {index : Nat} {d : Definition}
    (h : parse text index = .ok (.definition d)) :
    let body := Scanner.within text index (afterDefine text) (directiveEnd text)
    let rest := Scanner.within text index (afterDefine text) text.length
    let ls := Token.significant (⟨.identifier, d.name⟩ :: Operand.listLexemes d.operands)
    body.Succeeds ∧ body.significant = ls ∧ rest.significant = ls := by
  obtain ⟨blanks, front, gap, tail, c, hline, hdefine, -, hc, hscans, hspelled⟩ :=
    exists_spelledBy_of_parse h
  obtain ⟨hpos, hle⟩ := hline.length_directiveWord
  -- A comment would begin with a semicolon, and the directive has none.
  have hcomment : ∀ l ∈ c.lexemes, l.kind ≠ .comment := by
    intro l hl hk
    have hform := hscans.spelled l hl
    rw [hk] at hform
    obtain ⟨body, hb⟩ := hform.exists_comment
    refine hline.body ';' (List.mem_of_mem_drop (hscans.mem_of_mem_text l hl ';' ?_)) rfl
    simp [hb]
  dsimp only
  rw [hline.within_definition hdefine, hline.afterDefine_eq hdefine,
    hline.within_line index hpos hle, hspelled.significant]
  obtain ⟨hok, hsig⟩ := Scanner.succeeds_of_ofScanner hc
  exact ⟨hok, hsig,
    Scanner.significant_of_scans rfl rfl hscans hcomment hline.gap hline.tail⟩

/-- Up to punctuation and comments, a line is printed as the tokens that it was read from. Of
a definition these are the tokens behind its word: the reader is given them without a fault,
and they are all that the scanner finds up to the end of the line or the first fault. -/
theorem significant_of_parse {text : Text} {index : Nat} {line : Line}
    (h : parse text index = .ok line) (gutter index' : Nat) :
    let printed := Layout.plain.line gutter line
    match line with
    | .statement _ =>
      (Scanner.ofLine text index).Succeeds ∧ (Scanner.ofLine printed index').Succeeds ∧
        (Scanner.ofLine printed index').significant = (Scanner.ofLine text index).significant
    | .definition _ =>
      let body := Scanner.within text index (afterDefine text) (directiveEnd text)
      let rest := Scanner.within text index (afterDefine text) text.length
      let printedRest := Scanner.within printed index' (afterDefine printed) printed.length
      body.Succeeds ∧ printedRest.Succeeds ∧ printedRest.significant = body.significant ∧
        printedRest.significant = rest.significant
    | .directive _ => True := by
  have hl : Layout.plain.IsReadable := rfl
  have hwell := wellFormed_of_parse h
  cases line with
  | directive d => trivial
  | statement s =>
      obtain ⟨c, hc, -, hspelled⟩ := spelledBy_of_parse h
      obtain ⟨hsource, hsig⟩ := Scanner.succeeds_of_ofScanner hc
      obtain ⟨hprinted, hsig'⟩ := Scanner.succeeds_of_scans
        (s := Scanner.ofLine (Layout.plain.statement gutter s) index')
        (Layout.scans_statement hl hwell gutter) (Layout.readsPound_statementLexemes hwell _)
      refine ⟨hsource, hprinted, ?_⟩
      rw [hsig]
      exact hsig'.trans (hspelled.significant Layout.plain)
  | definition d =>
      obtain ⟨hbody, hsig, hrest⟩ := significant_of_parse_definition h
      obtain ⟨hprinted, hsig'⟩ := Layout.significant_definition hl hwell gutter index'
      exact ⟨hbody, hprinted, hsig'.trans hsig.symm, hsig'.trans hrest.symm⟩

/-- A definition with a comment, behind a word in capitals. -/
theorem significant_of_parse_capitals :
    parse "\t#DEFINE led a,(3) ; out".toList 0 = .ok (.definition ⟨"led".toList,
      [.identifier ['a'], .number 3 .hexadecimal ['3']], some "out".toList⟩) ∧
    (Scanner.within "#define led a, 3 ; out".toList 0 7 22).significant
      = (Scanner.within "\t#DEFINE led a,(3) ; out".toList 0 8 24).significant := by
  have hparse : parse "\t#DEFINE led a,(3) ; out".toList 0 = .ok (.definition ⟨"led".toList,
      [.identifier ['a'], .number 3 .hexadecimal ['3']], some "out".toList⟩) := rfl
  exact ⟨hparse, (significant_of_parse hparse 4 0).2.2.2⟩

/-- At the end of a definition, a form feed is a blank to the reader and a fault to the
scanner. -/
example : ¬ (Scanner.within "#define X 1\x0c".toList 0 7 12).Succeeds := by
  rintro ⟨eof, heof⟩
  cases heof

end Line

end PicAssembly
