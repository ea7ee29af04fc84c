import PicAssembly.Proofs.Line.Preservation
import PicAssembly.Proofs.Operand.Invariants
import PicAssembly.Proofs.Program.Faults

/-!
# `PicAssembly.Proofs.Program.Invariants`: how the reader leaves a program

Every line of a program that was read is left in the same way (`Program.lines_asRead`). Its
labels, mnemonics and defined names are names, every node of its operands is as
`Operand.NodeAsRead` says, and its comment is not empty and has no blanks at its ends.

The names and the keywords are compared with the source line. They are the identifiers that the
scanner finds there, without a fault, in their order and in the letter case of the source. In a
statement these are the identifiers of the whole line, and in a definition those between the word
and the comment.
-/

set_option autoImplicit false

namespace PicAssembly

open Token (Lexeme)

/-! ### The words of a line -/

namespace Scanner

/-- The texts of the identifiers up to the end or the first fault. -/
def words (s : Scanner) : List Text := Token.words (s.run.1.map Token.lexeme)

/-- A cursor has the words of its text. -/
theorem words_of_ofScanner {s : Scanner} {c : Cursor} (h : Cursor.ofScanner s = .ok c) :
    s.words = Token.words c.lexemes := by
  obtain ⟨hrun, -, -⟩ := Cursor.ofScanner_eq_ok_iff.mp h
  rw [words, hrun]
  rfl

end Scanner

namespace Statement

/-- The names and the keywords in a statement, from left to right. -/
def words (s : Statement) : List Text :=
  s.label.toList ++ s.mnemonic.toList ++ s.operands.flatMap Operand.words

/-- The word of a label is its name. -/
theorem words_labelLexemes (name? : Option Text) (colon : Bool) :
    Token.words (Layout.labelLexemes name? colon) = name?.toList := by
  cases name? with
  | none => rfl
  | some name => cases colon <;> rfl

/-- The word of a mnemonic is its name. -/
theorem words_mnemonicLexemes (name? : Option Text) :
    Token.words (Layout.mnemonicLexemes name?) = name?.toList := by
  cases name? <;> rfl

/-- A statement keeps the words that it was read from. -/
theorem SpelledBy.words {s : Statement} {ls : List Lexeme} (h : s.SpelledBy ls) :
    Token.words ls = s.words := by
  obtain ⟨colon, row, tail, rfl, hrow, htail⟩ := h
  have hcomment : Token.words tail = [] := by
    rcases htail with ⟨rfl, -⟩ | ⟨t, rfl, -⟩
    · rfl
    · rfl
  rw [Token.words_append, Token.words_append, Token.words_append, words_labelLexemes,
    words_mnemonicLexemes, Operand.words_of_spellsRow hrow, hcomment, List.append_nil,
    Statement.words, List.append_assoc]

end Statement

namespace Definition

/-- The names and the keywords in a definition, from left to right. -/
def words (d : Definition) : List Text := d.name :: d.operands.flatMap Operand.words

/-- A definition keeps the words that it was read from. -/
theorem SpelledBy.words {d : Definition} {ls : List Lexeme} (h : d.SpelledBy ls) :
    Token.words ls = d.words := by
  obtain ⟨row, rfl, hrow⟩ := h
  rw [Token.words_cons, if_pos rfl, Operand.words_of_spellsRow hrow, Definition.words]

end Definition

/-! ### Lines -/

/-- How the reader leaves a statement, in comparison with the text that it was read from. -/
structure Statement.AsRead (s : Statement) (source : Scanner) : Prop where
  label : ∀ name ∈ s.label, Token.IsName name
  mnemonic : ∀ name ∈ s.mnemonic, Token.IsName name
  operands : ∀ x ∈ s.operands, x.AsRead
  scanned : source.Succeeds
  words : source.words = s.words
  comment : ∀ t ∈ s.comment, IsComment t

/-- How the reader leaves a definition, in comparison with the text that it was read from. -/
structure Definition.AsRead (d : Definition) (source : Scanner) : Prop where
  name : Token.IsName d.name
  operands : ∀ x ∈ d.operands, x.AsRead
  scanned : source.Succeeds
  words : source.words = d.words
  comment : ∀ t ∈ d.comment, IsComment t

namespace Line

/-- How the reader leaves a line, in comparison with the text of the line. -/
def AsRead (source : Text) (index : Nat) : Line → Prop
  | .directive d => ∀ t ∈ d.comment, IsComment t
  | .definition d =>
    d.AsRead (.within source index (afterDefine source) (directiveEnd source))
  | .statement s => s.AsRead (.ofLine source index)

/-- A definition that is read is as the reader leaves it, in comparison with the part of its line
between the word and the comment. -/
theorem asRead_of_parse_definition {text : Text} {index : Nat} {d : Definition}
    (h : parse text index = .ok (.definition d)) :
    d.AsRead (.within text index (afterDefine text) (directiveEnd text)) := by
  have hwell : d.WellFormed := wellFormed_of_parse h
  have hoperands : ∀ x ∈ d.operands, x.AsRead := fun x hx => (hwell.operands x hx).asRead
  obtain ⟨blanks, front, gap, tail, c, hline, hdefine, -, hc, -, hspelled⟩ :=
    exists_spelledBy_of_parse h
  -- The comment was cut off before the name and the operands were scanned.
  rw [hline.within_definition hdefine]
  have hscanned := (Scanner.succeeds_of_ofScanner hc).1
  have hwords := (Scanner.words_of_ofScanner hc).trans hspelled.words
  exact ⟨hwell.name, hoperands, hscanned, hwords, hwell.comment⟩

/-- A statement that is read is as the reader leaves it, in comparison with its line. -/
theorem asRead_of_parse_statement {text : Text} {index : Nat} {s : Statement}
    (h : parse text index = .ok (.statement s)) : s.AsRead (.ofLine text index) := by
  have hwell : s.WellFormed := wellFormed_of_parse h
  have hoperands : ∀ x ∈ s.operands, x.AsRead := fun x hx => (hwell.operands x hx).asRead
  obtain ⟨c, hc, -, hspelled⟩ := spelledBy_of_parse h
  have hscanned := (Scanner.succeeds_of_ofScanner hc).1
  have hwords := (Scanner.words_of_ofScanner hc).trans hspelled.words
  exact ⟨hwell.label, hwell.mnemonic, hoperands, hscanned, hwords, hwell.comment⟩

/-- Every line that is read is as the reader leaves it. -/
theorem asRead_of_parse {text : Text} {index : Nat} {line : Line}
    (h : parse text index = .ok line) : line.AsRead text index := by
  cases line with
  | directive d => exact Directive.WellFormed.comment (wellFormed_of_parse h)
  | definition d => exact asRead_of_parse_definition h
  | statement s => exact asRead_of_parse_statement h

end Line

namespace Program

/-! ### Programs -/

/-- In a program that was read, every line is as the reader leaves the line of the text with the
same index. -/
theorem lines_asRead {text : Text} {p : Program} (h : parse text = .ok p) {i : Nat} {line : Line}
    (hline : p.lines[i]? = some line) :
    ∃ source, (Text.splitAt '\n' text)[i]? = some source ∧ line.AsRead source i := by
  obtain ⟨source, hsource, hparse⟩ := exists_parse_of_getElem? h hline
  exact ⟨source, hsource, Line.asRead_of_parse hparse⟩

/-- A keyword in mixed case, with a call behind it, and the same word as a name under a pound
sign. -/
theorem lines_asRead_keyword :
    let text := "#define LED H'1f' ; on\nrun: movlw #high, High (f)(a), \"x;\" ;; out ".toList
    let d : Definition := ⟨"LED".toList, [.number 31 .hexadecimal "H'1f'".toList],
      some "on".toList⟩
    let s : Statement := ⟨some "run".toList, some "movlw".toList,
      [.unary .pound ['#'] (.identifier "high".toList),
        .unary .high "High".toList (.call (.identifier ['f']) [.identifier ['a']]),
        .string "\"x;\"".toList],
      some "out".toList⟩
    let p : Program := ⟨[.definition d, .statement s]⟩
    parse text = .ok p ∧ p.lines[1]? = some (.statement s) ∧
      ∃ source, (Text.splitAt '\n' text)[1]? = some source ∧
        Line.AsRead source 1 (.statement s) := by
  intro text d s p
  have hparse : parse text = .ok p := by decide +kernel
  have hline : p.lines[1]? = some (.statement s) := rfl
  exact ⟨hparse, hline, lines_asRead hparse hline⟩

end Program

end PicAssembly
