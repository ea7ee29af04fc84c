import PicAssembly.Proofs.Operand.Agreement

/-!
# `PicAssembly.Proofs.Operand.Trimming`: the readers of operands look into no comment

A comment takes up the rest of its line with the blanks that stand there. Its place in the row of
tokens is all that a reader of operands asks of it, so the blanks at its end can be taken away
before the reading or after it (`Cursor.Trims`). The faults stay the same, column and all.

Together with `Cursor.Agrees` this compares lines that end in different blanks: without these
they have the same tokens.
-/

set_option autoImplicit false

namespace PicAssembly

namespace Token

/-- A comment without the blanks at its end, or any other token as it is. -/
def trimmed (token : Token) : Token :=
  if token.kind = .comment then { token with text := Text.trimEnd token.text } else token

/-- Trimming does not change the kind of a token. -/
@[simp] theorem kind_trimmed (token : Token) : token.trimmed.kind = token.kind := by
  unfold trimmed
  split <;> rfl

/-- Trimming does not change where a token is. -/
@[simp] theorem column_trimmed (token : Token) : token.trimmed.column = token.column := by
  unfold trimmed
  split <;> rfl

/-- A token that is no comment is not trimmed. -/
theorem trimmed_eq_self {token : Token} (h : token.kind ≠ .comment) : token.trimmed = token :=
  if_neg h

/-- A comment is trimmed at its end. -/
theorem text_trimmed {token : Token} (h : token.kind = .comment) :
    token.trimmed.text = Text.trimEnd token.text := by
  rw [trimmed, if_pos h]

/-- The same without a place. -/
def Lexeme.trimmed (l : Lexeme) : Lexeme :=
  if l.kind = .comment then { l with text := Text.trimEnd l.text } else l

/-- A token can be trimmed before its place is left out or after. -/
theorem lexeme_trimmed (token : Token) : token.trimmed.lexeme = token.lexeme.trimmed := by
  by_cases h : token.kind = .comment
  · simp [trimmed, Lexeme.trimmed, lexeme, h]
  · simp [trimmed, Lexeme.trimmed, lexeme, h]

end Token

namespace Operand

/-- A token that is trimmed stands for the same prefix operator, since comments stand for none. -/
@[simp] theorem prefixOp?_trimmed (token : Token) : prefixOp? token.trimmed = prefixOp? token := by
  by_cases h : token.kind = .comment
  · simp only [prefixOp?, Token.kind_trimmed, h]
  · rw [Token.trimmed_eq_self h]

end Operand

namespace Cursor

/-- The cursor with its tokens trimmed. -/
def trimmed (c : Cursor) : Cursor :=
  { c with rest := c.rest.map Token.trimmed, eof := c.eof.trimmed }

variable {α β : Type} {c : Cursor}

/-- Trimming leaves as many tokens as there are. -/
@[simp] theorem length_trimmed (c : Cursor) : c.trimmed.rest.length = c.rest.length :=
  List.length_map _

/-- The token ahead is the trimmed one. -/
@[simp] theorem peek_trimmed (c : Cursor) : c.trimmed.peek 0 = (c.peek 0).trimmed := by
  obtain ⟨rest, eof, source, line⟩ := c
  cases rest <;> rfl

/-- Going behind a token and trimming can be done in either order. -/
@[simp] theorem consume_trimmed (c : Cursor) : c.trimmed.consume = c.consume.trimmed := by
  simp [consume, trimmed, List.map_tail]

/-- The tokens ahead of the trimmed cursor are the trimmed ones. -/
theorem lexemes_trimmed (c : Cursor) : c.trimmed.lexemes = c.lexemes.map Token.Lexeme.trimmed := by
  simp [lexemes, trimmed, Function.comp_def, Token.lexeme_trimmed]

/-- The kind that the readers decide by stays the same. -/
@[simp] theorem kind_trimmed (c : Cursor) : c.trimmed.kind = c.kind := by
  rw [kind, peek_trimmed, Token.kind_trimmed, kind]

/-- A complaint about a token stays the same: it tells a column and the line, and trimming changes
neither. -/
@[simp] theorem errorAt_trimmed (c : Cursor) (token : Token) (cause : ParseCause) :
    c.trimmed.errorAt token.trimmed cause = c.errorAt token cause := by
  simp [errorAt, trimmed]

/-- A complaint at the place of the cursor stays the same. -/
@[simp] theorem error_trimmed (c : Cursor) (cause : ParseCause) :
    c.trimmed.error cause = c.error cause := by
  rw [error, peek_trimmed, errorAt_trimmed, error]

/-- A token that is no comment is ahead of both cursors as it is. -/
theorem trimmed_peek {k : Token.Kind} (hk : c.kind = k) (h : k ≠ .comment) :
    (c.peek 0).trimmed = c.peek 0 :=
  Token.trimmed_eq_self fun hcomment => h (hk.symm.trans hcomment)

/-- The reading `r'` from the trimmed cursor is the reading `r` with the cursor behind it
trimmed. -/
def Trims (r' r : Except ParseError (α × Cursor)) : Prop :=
  r' = r.map fun p => (p.1, p.2.trimmed)

/-- One reading after the other. -/
theorem Trims.bind {r r' : Except ParseError (α × Cursor)}
    {f g : α × Cursor → Except ParseError (β × Cursor)} (h : Trims r' r)
    (hfg : ∀ x c, Trims (g (x, c.trimmed)) (f (x, c))) : Trims (r' >>= g) (r >>= f) := by
  unfold Trims at h
  subst h
  cases r with
  | error e => rfl
  | ok p => exact hfg p.1 p.2

/-- The reader of expressions looks into no comment. -/
def TrimsInner (inner : InnerReader) : Prop :=
  ∀ least c, Trims (inner least c.trimmed) (inner least c)

/-! ### The readers, one by one -/

/-- What is expected is no comment. -/
theorem trims_expect {wanted : Token.Kind} (h : wanted ≠ .comment) (c : Cursor) :
    Trims (c.trimmed.expect wanted) (c.expect wanted) := by
  unfold expect Trims
  rw [kind_trimmed]
  split
  · next hk => simp [advance, trimmed_peek hk h, Except.map]
  · simp [Except.map]

variable {inner : InnerReader}

/-- The first operand is read the same way from the trimmed cursor. -/
theorem trims_primary (hinner : TrimsInner inner) (c : Cursor) :
    Trims (primary inner c.trimmed) (primary inner c) := by
  unfold primary
  dsimp only
  rw [peek_trimmed, consume_trimmed, Operand.prefixOp?_trimmed]
  by_cases hk : (c.peek 0).kind = .comment
  -- A comment begins no operand, and its kind is all that the fault mentions.
  · have hnone : Operand.prefixOp? (c.peek 0) = none := by simp [Operand.prefixOp?, hk]
    simp [hnone, hk, Trims, Except.map]
  rw [Token.trimmed_eq_self hk]
  cases Operand.prefixOp? (c.peek 0) with
  | some op => exact (hinner _ _).bind fun x c' => rfl
  | none =>
      cases hkind : (c.peek 0).kind with
      | number =>
          dsimp only
          have hnumber : c.consume.trimmed.number (c.peek 0) = c.consume.number (c.peek 0) := rfl
          rw [hnumber]
          cases c.consume.number (c.peek 0) <;> rfl
      | pound => exact (trims_expect (by simp) _).bind fun name c' => rfl
      | openParen =>
          exact (hinner _ _).bind fun x c₁ => (trims_expect (by simp) _).bind fun _ c₂ => rfl
      | _ => rfl

/-- The arguments up to the closing parenthesis are read the same way. -/
theorem trims_argumentsFrom (hinner : TrimsInner inner) (steps : Nat) (c : Cursor) :
    Trims (argumentsFrom inner steps c.trimmed) (argumentsFrom inner steps c) := by
  induction steps generalizing c with
  | zero => simp [argumentsFrom, Trims, Except.map]
  | succ steps ih =>
      rw [argumentsFrom, argumentsFrom]
      refine (hinner 0 c).bind fun x c₁ => ?_
      -- The kind behind the argument decides, and that is the same.
      dsimp only
      rw [kind_trimmed]
      cases c₁.kind with
      | comma =>
          rw [consume_trimmed]
          exact (ih _).bind fun xs c₂ => rfl
      | closeParen => simp [Trims, pure, Except.pure, Except.map]
      | _ => simp [Trims, Except.map]

/-- The arguments of a call are read the same way. -/
theorem trims_arguments (hinner : TrimsInner inner) (c : Cursor) :
    Trims (arguments inner c.trimmed) (arguments inner c) := by
  unfold arguments
  rw [kind_trimmed, length_trimmed, consume_trimmed]
  split
  · rfl
  · exact trims_argumentsFrom hinner _ c

/-- The operators behind an operand are read the same way. -/
theorem trims_climb (hinner : TrimsInner inner) (steps least : Nat) (left : Operand)
    (c : Cursor) : Trims (climb inner steps least left c.trimmed)
      (climb inner steps least left c) := by
  induction steps generalizing left c with
  | zero => rfl
  | succ steps ih =>
      -- The cases are those of the loop: it ends, or an operator is taken with what it needs.
      rw [climb, climb, kind_trimmed, consume_trimmed]
      cases c.kind with
      | step op =>
          dsimp only
          split
          · rfl
          · exact ih _ _
      | openParen =>
          dsimp only
          split
          · simp [Trims, Except.map]
          · exact (trims_arguments hinner _).bind fun args c₁ => ih _ _
      | assign op =>
          dsimp only
          split
          · rfl
          · exact (hinner _ _).bind fun right c₁ => ih _ _
      | binary op =>
          dsimp only
          split
          · rfl
          · exact (hinner _ _).bind fun right c₁ => ih _ _
      | _ => rfl

/-- An expression at any depth is read the same way. -/
theorem trims_expressionWithin (depth : Nat) : TrimsInner (expressionWithin depth) := by
  induction depth with
  | zero => exact fun least c => by simp [expressionWithin, Trims, Except.map]
  | succ depth ih =>
      intro least c
      rw [expressionWithin, expressionWithin]
      refine (trims_primary ih c).bind fun left c₁ => ?_
      dsimp only
      rw [length_trimmed]
      exact trims_climb ih _ _ _ _

/-- The operands in a row are read the same way. They end at a comment, so none looks into it. -/
theorem trims_operandsWithin (steps : Nat) (c : Cursor) :
    Trims (operandsWithin steps c.trimmed) (operandsWithin steps c) := by
  induction steps generalizing c with
  | zero => rfl
  | succ steps ih =>
      rw [operandsWithin, operandsWithin, kind_trimmed]
      split
      · rfl
      · rw [expression, expression, length_trimmed]
        refine (trims_expressionWithin _ 0 c).bind fun operand c₁ => ?_
        dsimp only
        rw [kind_trimmed, consume_trimmed, ← apply_ite]
        exact (ih _).bind fun operands c₂ => rfl

/-- Operands in a row are the same without the blanks at the end of the line. -/
theorem trims_operands (c : Cursor) : Trims c.trimmed.operands c.operands := by
  rw [operands, operands, length_trimmed]
  exact trims_operandsWithin _ c

end Cursor

end PicAssembly
