import PicAssembly.Operand.Parser
import PicAssembly.Operand.Printer
import PicAssembly.Proofs.Token.Printing

/-!
# `PicAssembly.Proofs.Operand.Lexemes`: the tokens of a printed operand

`Operand.lexemes` lists the tokens that an operand is printed as, parentheses included, and
`Operand.WellFormed` says which operands can be printed at all: their names are names, their
literals are single tokens with the value that the tree gives them, and their operators are
spelled as such.

`startsOperand_render` is what the printer of an assignment needs: nothing that it prints
behind an operator begins with an equals sign.
-/

set_option autoImplicit false

namespace PicAssembly

open Token (Lexeme Spelled Prints)

namespace Token

/-- The text, alone on a line, is one token of this kind. -/
def IsToken (k : Kind) (text : Text) : Prop :=
  ∃ token eof, (Scanner.ofLine text 0).run = ([token], .ok eof) ∧ token.lexeme = ⟨k, text⟩

/-- Text between double quotes, or one character between single quotes. -/
def IsQuotation (text : Text) : Prop :=
  (∃ body, '"' ∉ body ∧ text = '"' :: body ++ ['"']) ∨ ∃ c, text = ['\'', c, '\'']

end Token

namespace UnaryOp

/-- The kind of the token that spells a prefix operator. -/
def tokenKind : UnaryOp → Token.Kind
  | .high | .low | .upper => .identifier
  | .complement => .complement
  | .not => .not
  | .negate => .binary .subtract
  | .pound => .pound
  | .step op => .step op

/-- The spellings of a prefix operator: keywords in any letter case, the others as they
are. -/
def IsSpelling (op : UnaryOp) (spelling : Text) : Prop :=
  match op with
  | .high | .low | .upper => keyword? spelling = some op
  | _ => spelling = op.lexeme

/-- The names that are operators, in any letter case. -/
def IsKeyword (name : Text) : Prop :=
  Text.asciiLower name ∈ ["high".toList, "low".toList, "upper".toList]

instance : DecidablePred IsKeyword := fun _ => inferInstanceAs (Decidable (_ ∈ _))

/-- Only the keywords are spelled as identifiers; the other prefix operators are punctuation. -/
theorem tokenKind_eq_identifier_iff {op : UnaryOp} :
    op.tokenKind = .identifier ↔ op = .high ∨ op = .low ∨ op = .upper := by
  cases op <;> simp [tokenKind]

/-- A name is taken for an operator just if it is the word for it. -/
theorem keyword?_eq_some_iff {name : Text} {op : UnaryOp} :
    keyword? name = some op ↔ op.tokenKind = .identifier ∧ Text.asciiLower name = op.lexeme := by
  unfold keyword?
  dsimp only
  constructor
  · intro h
    split_ifs at h with hhigh hlow hupper
    · cases h
      exact ⟨rfl, hhigh⟩
    · cases h
      exact ⟨rfl, hlow⟩
    · cases h
      exact ⟨rfl, hupper⟩
  · rintro ⟨hk, h⟩
    rw [h]
    rcases tokenKind_eq_identifier_iff.mp hk with rfl | rfl | rfl
    · rfl
    · rfl
    · rfl

/-- A name is no operator just if it is no keyword. -/
theorem keyword?_eq_none_iff {name : Text} : keyword? name = none ↔ ¬ IsKeyword name := by
  unfold keyword?
  dsimp only
  split_ifs <;> simp_all [IsKeyword]

end UnaryOp

namespace Operand

/-- The operands that have a printed form: names are names and no keywords, literals are
single tokens with the value of the tree, operators are spelled as such, and only names are
called. A pound sign may stand before any name. -/
inductive WellFormed : Operand → Prop where
  | number {value : Nat} {radix : Radix} {literal : Text}
      (token : Token.IsToken .number literal) (unquoted : literal.head? ≠ some '\'')
      (decodes : decode literal = (radix, value)) (fits : value < Numeral.limit) :
      WellFormed (.number value radix literal)
  | string {text : Text} (h : Token.IsQuotation text) : WellFormed (.string text)
  | chipId {text : Text} (h : Token.IsToken .chipId text) : WellFormed (.chipId text)
  | programCounter : WellFormed .programCounter
  | identifier {name : Text} (hn : Token.IsName name) (hk : UnaryOp.keyword? name = none) :
      WellFormed (.identifier name)
  | pound {name : Text} (hn : Token.IsName name) :
      WellFormed (.unary .pound UnaryOp.pound.lexeme (.identifier name))
  | unary {op : UnaryOp} {spelling : Text} {operand : Operand} (hop : op ≠ .pound)
      (hs : op.IsSpelling spelling) (h : WellFormed operand) :
      WellFormed (.unary op spelling operand)
  | stepped {op : StepOp} {operand : Operand} (h : WellFormed operand) :
      WellFormed (.stepped op operand)
  | binary {op : BinaryOp} {left right : Operand} (hl : WellFormed left)
      (hr : WellFormed right) : WellFormed (.binary op left right)
  | assign {op : AssignOp} {left right : Operand} (hl : WellFormed left)
      (hr : WellFormed right) : WellFormed (.assign op left right)
  | call {name : Text} {args : List Operand} (hn : Token.IsName name)
      (hk : UnaryOp.keyword? name = none) (hargs : ∀ arg ∈ args, WellFormed arg) :
      WellFormed (.call (.identifier name) args)

/-- The tokens, in parentheses if `wrap` holds. -/
def groupedLexemes (wrap : Bool) (ls : List Lexeme) : List Lexeme :=
  if wrap then Token.Kind.openParen.lexeme :: ls ++ [Token.Kind.closeParen.lexeme] else ls

/-- Lists of tokens with a comma between neighbours. -/
def commaSeparated (lss : List (List Lexeme)) : List Lexeme :=
  [Token.Kind.comma.lexeme].intercalate lss

mutual

/-- The tokens of the canonical spelling of an operand. -/
def lexemes : Operand → List Lexeme
  | .number _ _ literal => [⟨.number, literal⟩]
  | .string text => [⟨if text.head? = some '"' then .string else .number, text⟩]
  | .chipId text => [⟨.chipId, text⟩]
  | .programCounter => [Token.Kind.programCounter.lexeme]
  | .identifier name => [⟨.identifier, name⟩]
  | .unary op spelling operand =>
    ⟨op.tokenKind, spelling⟩ ::
      groupedLexemes (0 < op.operandPower && operand.power < Power.unary) operand.lexemes
  | .stepped op operand =>
    groupedLexemes (operand.power < Power.postfixed) operand.lexemes ++
      [(Token.Kind.step op).lexeme]
  | .binary op left right =>
    groupedLexemes (left.power < op.power) left.lexemes ++ (Token.Kind.binary op).lexeme ::
      groupedLexemes (right.power ≤ op.power) right.lexemes
  | .assign op left right =>
    groupedLexemes (left.power ≤ Power.assignment) left.lexemes ++
      (Token.Kind.assign op).lexeme ::
      groupedLexemes (right.power < Power.assignment) right.lexemes
  | .call callee args =>
    callee.lexemes ++ Token.Kind.openParen.lexeme :: commaSeparated (lexemesAll args) ++
      [Token.Kind.closeParen.lexeme]

/-- The tokens of several operands, one list for each. -/
def lexemesAll : List Operand → List (List Lexeme)
  | [] => []
  | operand :: operands => operand.lexemes :: lexemesAll operands

end

/-- The tokens of operands in a row. -/
def listLexemes (operands : List Operand) : List Lexeme := commaSeparated (lexemesAll operands)

/-- One list alone needs no comma. -/
theorem commaSeparated_singleton (ls : List Lexeme) : commaSeparated [ls] = ls := by
  simp [commaSeparated, List.intercalate]

/-- A comma stands behind the first list if there is a second one. -/
theorem commaSeparated_cons_cons (ls ms : List Lexeme) (lss : List (List Lexeme)) :
    commaSeparated (ls :: ms :: lss)
      = ls ++ Token.Kind.comma.lexeme :: commaSeparated (ms :: lss) := by
  simp [commaSeparated, List.intercalate]

/-- The lists of tokens are those of the operands, one by one. -/
theorem lexemesAll_eq_map (operands : List Operand) :
    lexemesAll operands = operands.map lexemes := by
  induction operands with
  | nil => rfl
  | cons operand operands ih => simp [lexemesAll, ih]

/-! ### The tokens of leaves and operators -/

/-- What is one token on a line has the form of its kind. A pragma takes up the line without a
form. -/
theorem spelled_of_isToken {k : Token.Kind} {text : Text} (h : Token.IsToken k text)
    (hk : k ≠ .pragma) : Spelled k text := by
  obtain ⟨token, eof, hrun, hl⟩ := h
  have hkind : token.kind = k := congrArg Lexeme.kind hl
  obtain ⟨hscans, -⟩ := Scanner.scans_of_run hrun (Or.inr (by simpa [hkind] using hk))
  exact hscans.spelled ⟨k, text⟩ (by simp [hl])

/-- The converse: the form of a token makes a token. -/
theorem isToken_of_spelled {k : Token.Kind} {text : Text} (h : Spelled k text)
    (hk : k ≠ .pound) : Token.IsToken k text := by
  have hscans := Token.Scans.single h (Token.endsBefore_nil k text)
  rw [List.append_nil] at hscans
  obtain ⟨tokens, eof, hrun, hls, -⟩ := Scanner.run_of_scans (s := Scanner.ofLine text 0) hscans
    (by
      rintro l ⟨⟩
      exact Or.inr hk)
  obtain ⟨token, rfl, hl⟩ := List.map_eq_singleton_iff.mp hls
  exact ⟨token, eof, hrun, hl⟩

/-- A quotation has the form of a string, or of a number if it is a character between single
quotes. -/
theorem spelled_of_isQuotation {text : Text} (h : Token.IsQuotation text) :
    Spelled (if text.head? = some '"' then .string else .number) text := by
  rcases h with ⟨body, hbody, rfl⟩ | ⟨c, rfl⟩
  · exact .string hbody
  · exact .character c

/-- The keywords spell three operators. -/
theorem eq_of_keyword? {name : Text} {op : UnaryOp} (h : UnaryOp.keyword? name = some op) :
    op = .high ∨ op = .low ∨ op = .upper :=
  UnaryOp.tokenKind_eq_identifier_iff.mp (UnaryOp.keyword?_eq_some_iff.mp h).1

/-- The words that are keywords, in lower case. -/
theorem asciiLower_mem_of_keyword? {name : Text} {op : UnaryOp}
    (h : UnaryOp.keyword? name = some op) :
    Text.asciiLower name ∈ ["high".toList, "low".toList, "upper".toList] := by
  rw [(UnaryOp.keyword?_eq_some_iff.mp h).2]
  rcases eq_of_keyword? h with rfl | rfl | rfl
  · decide
  · decide
  · decide

/-- Keywords are names. -/
theorem isName_of_keyword? {name : Text} {op : UnaryOp} (h : UnaryOp.keyword? name = some op) :
    Token.IsName name := by
  have hall : ∀ w ∈ ["high".toList, "low".toList, "upper".toList], w ≠ [] ∧
      w.all Char.isAlpha := by decide
  obtain ⟨hne, hletters⟩ := hall _ (asciiLower_mem_of_keyword? h)
  -- The letters of the word are those of the name in lower case.
  have halpha : ∀ c ∈ name, c.isAlpha := by
    intro c hc
    rw [← Token.isAlpha_toLower]
    exact List.all_eq_true.mp hletters _ (List.mem_map_of_mem hc)
  cases name with
  | nil => exact absurd rfl hne
  | cons c cs =>
      refine ⟨?_, fun d hd => ?_⟩
      · simp [Token.isIdentifierStart, halpha c (by simp)]
      · simp [Token.isIdentifierPart, Char.isAlphanum, halpha d (by simp [hd])]

/-- Keywords have more than one letter. -/
theorem length_ne_one_of_keyword? {name : Text} {op : UnaryOp}
    (h : UnaryOp.keyword? name = some op) : name.length ≠ 1 := by
  have hall : ∀ w ∈ ["high".toList, "low".toList, "upper".toList], w.length ≠ 1 := by decide
  have hlen := hall _ (asciiLower_mem_of_keyword? h)
  rwa [Text.asciiLower, List.length_map] at hlen

/-- The operators that are not keywords have one text. -/
theorem symbol?_tokenKind {op : UnaryOp} (h : op.tokenKind ≠ .identifier) :
    op.tokenKind.symbol? = some op.lexeme := by
  cases op with
  | high => exact absurd rfl h
  | low => exact absurd rfl h
  | upper => exact absurd rfl h
  | _ => rfl

/-- A spelling has the form of a token of the operator's kind. -/
theorem spelled_of_isSpelling {op : UnaryOp} {spelling : Text} (h : op.IsSpelling spelling) :
    Spelled op.tokenKind spelling := by
  cases op with
  | high => exact .identifier (isName_of_keyword? h)
  | low => exact .identifier (isName_of_keyword? h)
  | upper => exact .identifier (isName_of_keyword? h)
  | _ =>
      obtain rfl : spelling = _ := h
      exact .symbol rfl

/-! ### The printed form begins like an operand -/

/-- No operand begins with an equals sign, so that an operator of one character before it
stays one. Nor does it begin with a blank. -/
def StartsOperand (t : Text) : Prop :=
  ∃ c cs, t = c :: cs ∧ c ≠ '=' ∧ Token.isSeparator c = false

/-- How a text begins does not depend on what follows it. -/
theorem startsOperand_append {t : Text} (h : StartsOperand t) (rest : Text) :
    StartsOperand (t ++ rest) := by
  obtain ⟨c, cs, rfl, hc⟩ := h
  exact ⟨c, cs ++ rest, rfl, hc⟩

/-- A text that begins like an operand does so in parentheses too. -/
theorem startsOperand_grouped {t : Text} (h : StartsOperand t) (wrap : Bool) :
    StartsOperand (grouped wrap t) := by
  cases wrap with
  | false => exact h
  | true => exact ⟨'(', t ++ [')'], rfl, by decide, by decide⟩

/-- Words begin like operands. -/
theorem startsOperand_of_spelled {k : Token.Kind} {text : Text} (h : Spelled k text)
    (hk : k.IsWord) : StartsOperand text := by
  cases text with
  | nil => exact absurd rfl h.ne_nil
  | cons c cs =>
      refine ⟨c, cs, rfl, ?_, h.head_not_isSeparator⟩
      rintro rfl
      exact h.head_not_operator hk (by decide)

/-- Prefix operators begin like operands. -/
theorem startsOperand_of_isSpelling {op : UnaryOp} {spelling : Text}
    (h : op.IsSpelling spelling) : StartsOperand spelling := by
  cases op with
  | high => exact startsOperand_of_spelled (spelled_of_isSpelling h) (Or.inl rfl)
  | low => exact startsOperand_of_spelled (spelled_of_isSpelling h) (Or.inl rfl)
  | upper => exact startsOperand_of_spelled (spelled_of_isSpelling h) (Or.inl rfl)
  | step op =>
      obtain rfl : spelling = _ := h
      cases op <;> exact ⟨_, _, rfl, by decide, by decide⟩
  | _ =>
      obtain rfl : spelling = _ := h
      exact ⟨_, _, rfl, by decide, by decide⟩

/-- An operator before a text begins as the operator does. -/
theorem startsOperand_joinPrefixed {spelling : Text} (h : StartsOperand spelling) (t : Text) :
    StartsOperand (joinPrefixed spelling t) := by
  unfold joinPrefixed
  split
  · exact startsOperand_append h t
  · exact startsOperand_append h (' ' :: t)

/-- Whatever its form, a printed operand begins like one. -/
theorem startsOperand_render {x : Operand} (h : WellFormed x) : StartsOperand x.render := by
  -- Every form begins with a token of its own or with its leftmost part.
  induction h with
  | number token _ _ _ =>
      exact startsOperand_of_spelled (spelled_of_isToken token (by simp)) (Or.inr (Or.inl rfl))
  | string h =>
      rcases h with ⟨body, -, rfl⟩ | ⟨c, rfl⟩
      · exact ⟨'"', _, rfl, by decide, by decide⟩
      · exact ⟨'\'', _, rfl, by decide, by decide⟩
  | chipId h =>
      exact startsOperand_of_spelled (spelled_of_isToken h (by simp))
        (Or.inr (Or.inr (Or.inl rfl)))
  | programCounter => exact ⟨'$', [], rfl, by decide, by decide⟩
  | identifier hn _ => exact startsOperand_of_spelled (.identifier hn) (Or.inl rfl)
  | pound hn => exact startsOperand_joinPrefixed ⟨'#', [], rfl, by decide, by decide⟩ _
  | unary _ hs _ _ => exact startsOperand_joinPrefixed (startsOperand_of_isSpelling hs) _
  | stepped _ ih => exact startsOperand_append (startsOperand_grouped ih _) _
  | binary _ _ ihl _ =>
      simp only [render, List.append_assoc]
      exact startsOperand_append (startsOperand_grouped ihl _) _
  | assign _ _ ihl _ =>
      simp only [render, List.append_assoc]
      exact startsOperand_append (startsOperand_grouped ihl _) _
  | call hn _ _ _ =>
      simp only [render, List.append_assoc]
      exact startsOperand_append (startsOperand_of_spelled (.identifier hn) (Or.inl rfl)) _

end Operand

end PicAssembly
