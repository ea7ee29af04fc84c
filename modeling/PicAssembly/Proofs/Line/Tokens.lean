import PicAssembly.Proofs.Line.Directive
import PicAssembly.Proofs.Operand.Trimming
import PicAssembly.Proofs.Token.Partition
import PicAssembly.Proofs.Token.Splitting

/-!
# `PicAssembly.Proofs.Line.Tokens`: a line is read by its tokens

Two lines with the same tokens are read alike, wherever the tokens stand: as the same line, or with
the same complaint (`Line.readAlike_of_tokens`). Of the places it only matters whether the first
token stands in column zero, and the blanks at the end of a comment do not matter.

`ReadAlike` compares two readings step by step. A definition is scanned a second time, so the
scanner has to be compared as well: what it answers depends on the characters that are left
(`Scanner.readAlike_runFor`).
-/

set_option autoImplicit false

namespace PicAssembly

open Token (Lexeme)

/-- Two faults for the same cause. Their messages are the same, and their places may differ. -/
def Diagnostic.SameCause {Cause : Type} (e e' : Diagnostic Cause) : Prop := e.cause = e'.cause

/-- Two faults of the same kind for the same cause. -/
inductive Error.SameCause : Error → Error → Prop where
  | lex {e e' : LexError} (h : e.SameCause e') : SameCause (.lex e) (.lex e')
  | parse {e e' : ParseError} (h : e.SameCause e') : SameCause (.parse e) (.parse e')

/-- Faults for the same cause have the same message, whichever their places. -/
theorem Error.SameCause.message_eq {e e' : Error} (h : e.SameCause e') :
    e.message = e'.message := by
  cases h with
  | lex h => exact congrArg LexCause.message h
  | parse h => exact congrArg ParseCause.message h

/-- Two readings answer, with what `R` relates, or both fail, with faults that `E` relates. -/
inductive ReadAlike {ε α β : Type} (E : ε → ε → Prop) (R : α → β → Prop) :
    Except ε α → Except ε β → Prop where
  | ok {x : α} {y : β} (h : R x y) : ReadAlike E R (.ok x) (.ok y)
  | error {e e' : ε} (h : E e e') : ReadAlike E R (.error e) (.error e')

namespace ReadAlike

variable {ε ε' α β α' β' : Type} {E : ε → ε → Prop} {E' : ε' → ε' → Prop} {R : α → β → Prop}
  {S : α' → β' → Prop} {r : Except ε α} {r' : Except ε β}

/-- One reading after the other. -/
theorem bind {f : α → Except ε α'} {g : β → Except ε β'} (h : ReadAlike E R r r')
    (hfg : ∀ x y, R x y → ReadAlike E S (f x) (g y)) : ReadAlike E S (r >>= f) (r' >>= g) := by
  cases h with
  | ok h => exact hfg _ _ h
  | error h => exact .error h

/-- Two readings stay alike when their faults are changed in ways that agree. -/
theorem mapError {f g : ε → ε'} (h : ReadAlike E R r r') (hfg : ∀ e e', E e e' → E' (f e) (g e')) :
    ReadAlike E' R (r.mapError f) (r'.mapError g) := by
  cases h with
  | ok h => exact .ok h
  | error h => exact .error (hfg _ _ h)

/-- Two readings that are alike are so in a weaker sense. -/
theorem mono {F : ε → ε → Prop} (h : ReadAlike E R r r') (hEF : ∀ e e', E e e' → F e e') :
    ReadAlike F R r r' := by
  cases h with
  | ok h => exact .ok h
  | error h => exact .error (hEF _ _ h)

/-- The faults of the scanner among all faults. -/
theorem lex {r : Except LexError α} {r' : Except LexError β}
    (h : ReadAlike Diagnostic.SameCause R r r') :
    ReadAlike Error.SameCause R (r.mapError .lex) (r'.mapError .lex) := h.mapError fun _ _ => .lex

/-- The faults of the readers among all faults. -/
theorem parse {r : Except ParseError α} {r' : Except ParseError β}
    (h : ReadAlike Diagnostic.SameCause R r r') :
    ReadAlike Error.SameCause R (r.mapError .parse) (r'.mapError .parse) :=
  h.mapError fun _ _ => .parse

end ReadAlike

/-! ### The scanner -/

namespace Scanner

/-- One step depends on the characters that are left, and on whether a directive may begin. -/
theorem readAlike_next {s s' : Scanner} (hrest : s.rest = s'.rest) (hfresh : s.fresh = s'.fresh) :
    ReadAlike Diagnostic.SameCause
      (fun p q => p.1.lexeme = q.1.lexeme ∧ p.2.rest = q.2.rest ∧ p.2.fresh = q.2.fresh)
      s.next s'.next := by
  obtain ⟨source, line, column, fresh, rest⟩ := s
  obtain ⟨source', line', column', fresh', rest'⟩ := s'
  obtain rfl : rest = rest' := hrest
  obtain rfl : fresh = fresh' := hfresh
  simp only [next, skipBlanks, take]
  cases rest.drop (rest.takeWhile Token.isSeparator).length with
  | nil => exact .ok ⟨rfl, rfl, rfl⟩
  | cons c cs =>
      dsimp only
      cases Token.extent fresh c cs with
      | error f => exact .error rfl
      | ok extent => exact .ok ⟨rfl, rfl, rfl⟩

/-- A run depends on the same, but for the places of its tokens. -/
theorem readAlike_runFor (steps : Nat) {s s' : Scanner} (hrest : s.rest = s'.rest)
    (hfresh : s.fresh = s'.fresh) :
    (runFor steps s).1.map Token.lexeme = (runFor steps s').1.map Token.lexeme ∧
      ReadAlike Diagnostic.SameCause (fun eof eof' => eof.kind = eof'.kind)
        (runFor steps s).2 (runFor steps s').2 := by
  -- The scanners take the same step, so both runs end here or both go on with one step less.
  induction steps using Nat.strongRecOn generalizing s s' with
  | ind steps ih =>
      have hnext := readAlike_next hrest hfresh
      generalize hs : s.next = r, hs' : s'.next = r' at hnext
      cases hnext with
      | error h =>
          rw [runFor_of_error hs, runFor_of_error hs']
          exact ⟨rfl, .error h⟩
      | @ok p q h =>
          obtain ⟨hlexeme, hrest', hfresh'⟩ := h
          have hkind : p.1.kind = q.1.kind := congrArg Lexeme.kind hlexeme
          by_cases hend : p.1.kind = .eof ∨ steps = 0
          · rw [runFor_of_eof hs hend, runFor_of_eof hs' (hkind ▸ hend)]
            exact ⟨rfl, .ok hkind⟩
          · obtain ⟨hk, hsteps⟩ := not_or.mp hend
            obtain ⟨steps, rfl⟩ := Nat.exists_eq_succ_of_ne_zero hsteps
            rw [runFor_succ hs hk, runFor_succ hs' (hkind ▸ hk)]
            obtain ⟨htokens, hend⟩ := ih steps (Nat.lt_succ_self steps) hrest' hfresh'
            exact ⟨by rw [List.map_cons, List.map_cons, hlexeme, htokens], hend⟩

end Scanner

namespace Cursor

/-- Two scanners with the same characters left, behind the beginning of a line, give the same
tokens. -/
theorem readAlike_ofScanner {s s' : Scanner} (hrest : s.rest = s'.rest) (hfresh : s.fresh = false)
    (hfresh' : s'.fresh = false) :
    ReadAlike Diagnostic.SameCause (Agrees []) (ofScanner s) (ofScanner s') := by
  obtain ⟨htokens, houtcome⟩ := Scanner.readAlike_runFor s.rest.length hrest
    (hfresh.trans hfresh'.symm)
  have hproper : ∀ c, ofScanner s = .ok c → c.eof.kind = .eof := fun _ => kind_eof_of_ofScanner
  have hproper' : ∀ c, ofScanner s' = .ok c → c.eof.kind = .eof := fun _ => kind_eof_of_ofScanner
  unfold ofScanner Scanner.run at *
  rw [← hrest] at hproper' ⊢
  generalize Scanner.runFor s.rest.length s = p, Scanner.runFor s.rest.length s' = q
    at htokens houtcome hproper hproper'
  obtain ⟨tokens, outcome⟩ := p
  obtain ⟨tokens', outcome'⟩ := q
  cases houtcome with
  | ok h =>
      exact .ok ⟨htokens.trans (List.append_nil _).symm, hproper _ rfl, hproper' _ rfl⟩
  | error h => exact .error h

/-- Whether a line can be cut into tokens does not depend on its number. -/
theorem exists_ofScanner {text : Text} {index : Nat} {c : Cursor}
    (h : ofScanner (.ofLine text index) = .ok c) (index' : Nat) :
    ∃ d, ofScanner (.ofLine text index') = .ok d := by
  obtain ⟨hrun, -, -⟩ := ofScanner_eq_ok_iff.mp h
  have hrest : (Scanner.ofLine text index).rest = (Scanner.ofLine text index').rest := rfl
  obtain ⟨-, houtcome⟩ := Scanner.readAlike_runFor text.length hrest rfl
  have hleft : (Scanner.runFor text.length (.ofLine text index)).2 = .ok c.eof :=
    congrArg Prod.snd hrun
  generalize hright : Scanner.runFor text.length (.ofLine text index') = q at houtcome
  rw [hleft] at houtcome
  obtain ⟨tokens, outcome⟩ := q
  cases houtcome with
  | ok _ => exact ⟨⟨tokens, _, text, index'⟩, ofScanner_eq_ok_iff.mpr ⟨hright, rfl, rfl⟩⟩

/-- Going behind a token leaves the others ahead. -/
theorem lexemes_consume (c : Cursor) : c.consume.lexemes = c.lexemes.tail := by
  simp [lexemes, consume, List.map_tail]

/-- A comment is read as what it says. -/
theorem comment_eq (c : Cursor) : c.comment =
    if c.kind = .comment then (do
      c.consume.endOfLine
      return commentText (c.peek 0).text)
    else (do
      c.endOfLine
      return none) := rfl

variable {c d : Cursor}

/-! ### The readers of a line -/

namespace Agrees

/-- The same kind is ahead of both cursors. -/
theorem kind_eq (h : Agrees [] c d) : c.kind = d.kind := by
  rw [kind_eq_headKind h.eof_left, kind_eq_headKind h.eof_right, h.lexemes, List.append_nil]

/-- So is the same text, before the end of the line. -/
theorem text_eq (h : Agrees [] c d) (hk : d.kind ≠ .eof) : (c.peek 0).text = (d.peek 0).text := by
  have hne : d.lexemes ≠ [] := fun hnil => hk (h.kind_of_nil hnil).2
  exact congrArg Lexeme.text (h.ahead hne).1

/-- Behind it the cursors agree again. -/
theorem consume (h : Agrees [] c d) : Agrees [] c.consume d.consume := by
  have hlexemes := h.lexemes
  rw [List.append_nil] at hlexemes
  exact ⟨by rw [lexemes_consume, lexemes_consume, hlexemes, List.append_nil], h.eof_left,
    h.eof_right⟩

/-- With the same tokens ahead both lines are at their end or neither is. -/
theorem readAlike_endOfLine (h : Agrees [] c d) :
    ReadAlike Diagnostic.SameCause Eq c.endOfLine d.endOfLine := by
  unfold endOfLine atEnd
  rw [h.kind_eq]
  split
  · exact .ok rfl
  · exact .error rfl

/-- With the same tokens ahead the operands are the same, and so are the tokens behind them. -/
theorem readAlike_operands (h : Agrees [] c d) :
    ReadAlike Diagnostic.SameCause (fun p q => p.1 = q.1 ∧ Agrees [] p.2 q.2)
      c.operands d.operands := by
  have halike := h.alike_operands (.inr rfl)
  generalize c.operands = r, d.operands = r' at halike
  cases halike with
  | ok h => exact .ok ⟨rfl, h⟩
  | error h => exact .error (h rfl)

/-- With the same tokens ahead the comments are the same. -/
theorem readAlike_comment (h : Agrees [] c d) :
    ReadAlike Diagnostic.SameCause Eq c.comment d.comment := by
  rw [comment_eq, comment_eq, h.kind_eq]
  split
  · next hk =>
    rw [h.text_eq (by simp [hk])]
    exact h.consume.readAlike_endOfLine.bind fun _ _ _ => .ok rfl
  · exact h.readAlike_endOfLine.bind fun _ _ _ => .ok rfl

/-- With the same tokens ahead the definitions are the same. -/
theorem readAlike_definitionBody (h : Agrees [] c d) :
    ReadAlike Diagnostic.SameCause Eq c.definitionBody d.definitionBody := by
  have hname : ReadAlike Diagnostic.SameCause (fun p q => p.1.text = q.1.text ∧ Agrees [] p.2 q.2)
      (c.expect .identifier) (d.expect .identifier) := by
    rcases h.expect_cases (.inr rfl) .identifier (by simp) (by simp) with
      ⟨hc, hd, hpeek, hagrees, -⟩ | ⟨e, e', hc, hd, he⟩
    · rw [hc, hd]
      exact .ok ⟨congrArg Lexeme.text hpeek, hagrees⟩
    · rw [hc, hd]
      exact .error (he rfl)
  refine hname.bind ?_
  rintro ⟨name, c₁⟩ ⟨name', d₁⟩ ⟨htext, h₁⟩
  refine h₁.readAlike_operands.bind ?_
  rintro ⟨xs, c₂⟩ ⟨ys, d₂⟩ ⟨rfl, h₂⟩
  refine h₂.readAlike_endOfLine.bind fun _ _ _ => .ok ?_
  rw [htext]

/-- The label is the part that is known by its place. -/
theorem label (h : Agrees [] c d)
    (hcolumn : d.kind = .identifier → ((c.peek 0).column = 0 ↔ (d.peek 0).column = 0)) :
    c.label.1 = d.label.1 ∧ Agrees [] c.label.2 d.label.2 := by
  unfold Cursor.label
  have hcondition : (c.kind = .identifier ∧ (c.peek 0).column = 0) ↔
      (d.kind = .identifier ∧ (d.peek 0).column = 0) := by
    rw [h.kind_eq]
    exact and_congr_right hcolumn
  by_cases hd : d.kind = .identifier ∧ (d.peek 0).column = 0
  · rw [if_pos (hcondition.mpr hd), if_pos hd, h.text_eq (by simp [hd.1]), h.consume.kind_eq]
    refine ⟨rfl, ?_⟩
    dsimp only
    split
    · exact h.consume.consume
    · exact h.consume
  · rw [if_neg (hcondition.not.mpr hd), if_neg hd]
    exact ⟨rfl, h⟩

/-- With the same tokens ahead the mnemonics are the same, and so are the tokens behind them. -/
theorem mnemonic (h : Agrees [] c d) :
    c.mnemonic.1 = d.mnemonic.1 ∧ Agrees [] c.mnemonic.2 d.mnemonic.2 := by
  unfold Cursor.mnemonic
  rw [h.kind_eq]
  split
  · next hk => exact ⟨by rw [h.text_eq (by simp [hk])], h.consume⟩
  · exact ⟨rfl, h⟩

/-- With the same tokens ahead the statements are the same. Column zero makes a label of a name, so
a name that comes first must be there on both lines or on neither. -/
theorem readAlike_statement (h : Agrees [] c d)
    (hcolumn : d.kind = .identifier → ((c.peek 0).column = 0 ↔ (d.peek 0).column = 0)) :
    ReadAlike Diagnostic.SameCause Eq c.statement d.statement := by
  obtain ⟨hlabel, h₁⟩ := h.label hcolumn
  obtain ⟨hmnemonic, h₂⟩ := h₁.mnemonic
  rw [statement_eq, statement_eq, hlabel, hmnemonic]
  refine h₂.readAlike_operands.bind ?_
  rintro ⟨xs, c₃⟩ ⟨ys, d₃⟩ ⟨rfl, h₃⟩
  exact h₃.readAlike_comment.bind fun _ _ hcomment => .ok (by rw [hcomment])

end Agrees

/-! ### Blanks at the end of a comment -/

/-- The blanks at the end of a comment are not part of what it says. -/
theorem commentText_trimEnd (t : Text) : commentText (Text.trimEnd t) = commentText t := by
  obtain ⟨blanks, hsplit, hblanks⟩ := Text.exists_trimEnd t
  have hdrop : t.dropWhile (· == ';') = (Text.trimEnd t).dropWhile (· == ';') ++ blanks := by
    conv_lhs => rw [hsplit]
    rw [List.dropWhile_append]
    split
    · next hnil =>
      rw [List.isEmpty_iff.mp hnil, List.nil_append, List.dropWhile_eq_self_iff]
      intro hlength heq
      rw [beq_iff_eq] at heq
      exact absurd (hblanks _ (List.getElem_mem hlength)) (by rw [heq]; decide)
    · rfl
  unfold commentText
  rw [hdrop, Text.trim_append_of_isBlank hblanks]

/-- The label is read the same way from the trimmed cursor. -/
theorem label_trimmed (c : Cursor) : c.trimmed.label = (c.label.1, c.label.2.trimmed) := by
  unfold label
  rw [kind_trimmed, peek_trimmed, Token.column_trimmed, consume_trimmed, kind_trimmed]
  split
  · next hk => rw [trimmed_peek hk.1 (by simp), consume_trimmed, ← apply_ite]
  · rfl

/-- The mnemonic is read the same way from the trimmed cursor. -/
theorem mnemonic_trimmed (c : Cursor) :
    c.trimmed.mnemonic = (c.mnemonic.1, c.mnemonic.2.trimmed) := by
  unfold mnemonic
  rw [kind_trimmed, peek_trimmed, consume_trimmed]
  split
  · next hk => rw [trimmed_peek hk (by simp)]
  · rfl

/-- The trimmed cursor is at the end of its line if the cursor is. -/
theorem endOfLine_trimmed (c : Cursor) : c.trimmed.endOfLine = c.endOfLine := by
  unfold endOfLine atEnd
  rw [kind_trimmed, error_trimmed]

/-- The comment is read the same way from the trimmed cursor, by `commentText_trimEnd`. -/
theorem comment_trimmed (c : Cursor) : c.trimmed.comment = c.comment := by
  rw [comment_eq, comment_eq, kind_trimmed, consume_trimmed, endOfLine_trimmed, endOfLine_trimmed,
    peek_trimmed]
  split
  · next hk => rw [Token.text_trimmed hk, commentText_trimEnd]
  · rfl

/-- A statement is the same without the blanks at the end of its comment. -/
theorem statement_trimmed (c : Cursor) : c.trimmed.statement = c.statement := by
  rw [statement_eq, statement_eq, label_trimmed, mnemonic_trimmed, trims_operands]
  cases c.label.2.mnemonic.2.operands with
  | error e => rfl
  | ok row =>
      show (row.2.trimmed.comment >>= _) = (row.2.comment >>= _)
      rw [comment_trimmed]

/-! ### Whole lines -/

/-- The same tokens are ahead of both cursors, but for the blanks at the end of a comment, and the
first of them is in column zero for both or for neither, if it is a name. -/
structure SameTokens (c d : Cursor) : Prop where
  lexemes : c.lexemes.map Lexeme.trimmed = d.lexemes.map Lexeme.trimmed
  column : d.kind = .identifier → ((c.peek 0).column = 0 ↔ (d.peek 0).column = 0)

/-- The tokens of a line with a directive. -/
theorem AtDirective.lexemes {c : Cursor} {text front tail : Text} {index column : Nat}
    (h : c.AtDirective text index column front tail) :
    c.lexemes = ⟨.pragma, front⟩ :: Token.tailLexemes tail := by
  have hk : c.kind ≠ .eof := by simp [kind, h.head]
  rw [(reads_consume (c := c) h.eof hk).lexemes, h.head, h.rest]
  rfl

/-- Two tails say the same if they differ by the blanks at their ends only. -/
theorem commentText_congr {tail tail' : Text}
    (h : (Token.tailLexemes tail).map Lexeme.trimmed
      = (Token.tailLexemes tail').map Lexeme.trimmed) : commentText tail = commentText tail' := by
  rw [← commentText_trimEnd tail, ← commentText_trimEnd tail']
  unfold Token.tailLexemes at h
  split_ifs at h with hnil hnil'
  · rw [hnil, hnil']
  · cases h
  · cases h
  · have htrimmed : Text.trimEnd tail = Text.trimEnd tail' := by
      simpa [Lexeme.trimmed] using h
    rw [htrimmed]

end Cursor

namespace DirectiveLine

variable {text blanks front gap tail text' blanks' gap' tail' : Text}

/-- Two lines with one directive are read alike if their comments say the same. -/
theorem readAlike_parse (h : DirectiveLine text blanks front gap tail)
    (h' : DirectiveLine text' blanks' front gap' tail')
    (hcomment : Cursor.commentText tail = Cursor.commentText tail') (index index' : Nat) :
    ReadAlike Error.SameCause Eq (Line.parse text index) (Line.parse text' index') := by
  rw [h.parse_eq, h'.parse_eq, hcomment]
  split
  -- What is defined is scanned once more, from another column of another line.
  · have hscanned : ReadAlike Diagnostic.SameCause (Cursor.Agrees [])
        (Cursor.ofScanner ⟨text, index, blanks.length + (directiveWord front).length, false,
          front.drop (directiveWord front).length⟩)
        (Cursor.ofScanner ⟨text', index', blanks'.length + (directiveWord front).length, false,
          front.drop (directiveWord front).length⟩) := Cursor.readAlike_ofScanner rfl rfl rfl
    refine hscanned.lex.bind fun c d hagrees => ?_
    exact hagrees.readAlike_definitionBody.parse.bind fun _ _ hbody => .ok (by rw [hbody])
  · exact .ok rfl

end DirectiveLine

/-- Lines with the same tokens are read alike, whatever blanks end their comments. -/
theorem Line.readAlike_of_tokens {text text' : Text} {index index' : Nat} {c d : Cursor}
    (hc : Cursor.ofScanner (.ofLine text index) = .ok c)
    (hd : Cursor.ofScanner (.ofLine text' index') = .ok d) (hsame : c.SameTokens d) :
    ReadAlike Error.SameCause Eq (parse text index) (parse text' index') := by
  -- No reader looks at the blanks behind a comment, so both lines may be read trimmed.
  have hagrees : Cursor.Agrees [] c.trimmed d.trimmed := by
    refine ⟨?_, ?_, ?_⟩
    · rw [Cursor.lexemes_trimmed, Cursor.lexemes_trimmed, hsame.lexemes, List.append_nil]
    · rw [Cursor.trimmed, Token.kind_trimmed, Cursor.kind_eof_of_ofScanner hc]
    · rw [Cursor.trimmed, Token.kind_trimmed, Cursor.kind_eof_of_ofScanner hd]
  have hkind : c.kind = d.kind := by
    rw [← Cursor.kind_trimmed c, ← Cursor.kind_trimmed d, hagrees.kind_eq]
  by_cases hk : c.kind = .pragma
  · obtain ⟨_, front, _, tail, hline, hat⟩ := Cursor.exists_directiveLine hc hk
    obtain ⟨_, front', _, tail', hline', hat'⟩ := Cursor.exists_directiveLine hd (hkind ▸ hk)
    have hlexemes := hsame.lexemes
    rw [hat.lexemes, hat'.lexemes, List.map_cons, List.map_cons] at hlexemes
    obtain ⟨hfront, htail⟩ := List.cons.inj hlexemes
    obtain rfl : front = front' := by simpa [Lexeme.trimmed] using hfront
    exact hline.readAlike_parse hline' (Cursor.commentText_congr htail) index index'
  · have hstatement := hagrees.readAlike_statement (by simpa using hsame.column)
    rw [Cursor.statement_trimmed, Cursor.statement_trimmed] at hstatement
    simp only [parse, hc, hd, Except.mapError, bind, Except.bind, hk, hkind ▸ hk, if_false]
    exact hstatement.parse.bind fun _ _ h => .ok (congrArg Line.statement h)

end PicAssembly
