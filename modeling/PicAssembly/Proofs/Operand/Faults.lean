import PicAssembly.Proofs.Operand.Decoding
import PicAssembly.Proofs.Token.Places

/-!
# `PicAssembly.Proofs.Operand.Faults`: what the readers complain about

A reader moves forward over the tokens of its line, or it complains about one of them.
`Cursor.Stays c r` says this of the reading `r` from the cursor `c`, and `Stays.bind` puts
readings together. It holds of all readers of operands, for any reader of the expressions
inside that has it (`stays_of_expressionWithin` closes the circle), and of any tokens.

Such a complaint has the column of the token, so it is located in the line if the tokens are
(`Blames.locates`).
-/

set_option autoImplicit false

namespace PicAssembly.Cursor

/-- The complaint is about one of the tokens ahead, or about the end of the line. -/
def Blames (c : Cursor) (e : ParseError) : Prop :=
  ∃ token ∈ c.eof :: c.rest, e = c.errorAt token e.cause

/-- A complaint at a token ahead is about that token. -/
theorem blames_errorAt {c : Cursor} {token : Token} (h : token ∈ c.eof :: c.rest)
    (cause : ParseCause) : c.Blames (c.errorAt token cause) := ⟨token, h, rfl⟩

/-- The token to read next is one of those ahead. -/
theorem peek_mem (c : Cursor) : c.peek 0 ∈ c.eof :: c.rest := by
  obtain ⟨rest, eof, source, line⟩ := c
  cases rest with
  | nil => exact List.mem_cons_self
  | cons token tokens => exact List.mem_cons_of_mem _ List.mem_cons_self

/-- A complaint at the place of the cursor is about the token there, or about the end of the
line. -/
theorem blames_error (c : Cursor) (cause : ParseCause) : c.Blames (c.error cause) :=
  blames_errorAt c.peek_mem cause

/-- A complaint about what is ahead further on is one about what is ahead here. -/
theorem Blames.mono {c c' : Cursor} {ls : List Token.Lexeme} {e : ParseError}
    (hreads : Reads c ls c') (h : c'.Blames e) : c.Blames e := by
  obtain ⟨token, htoken, he⟩ := h
  obtain ⟨hsource, hline⟩ := hreads.source_eq
  refine ⟨token, hreads.subset htoken, ?_⟩
  rwa [errorAt, ← hsource, ← hline]

/-- A complaint about a token of the line is located in the line. -/
theorem Blames.locates {c : Cursor} {e : ParseError} (h : c.Blames e) (hc : c.Placed) :
    (Error.parse e).Locates c.source c.line := by
  obtain ⟨token, htoken, he⟩ := h
  rw [he]
  exact ⟨rfl, rfl, hc token htoken, by simp [Error.character?]⟩

/-- To go past the next token, if there is one. -/
theorem exists_reads_consume (c : Cursor) : ∃ ls, Reads c ls c.consume := by
  obtain ⟨rest, eof, source, line⟩ := c
  cases rest with
  | nil => exact ⟨[], .refl _⟩
  | cons token tokens => exact ⟨[token.lexeme], [token], rfl, rfl⟩

/-- The reading goes forward from `c`, or complains about what is ahead there. -/
inductive Stays {α : Type} (c : Cursor) : Except ParseError (α × Cursor) → Prop
  | ok {x : α} {c' : Cursor} {ls : List Token.Lexeme} (h : Reads c ls c') : Stays c (.ok (x, c'))
  | error {e : ParseError} (h : c.Blames e) : Stays c (.error e)

namespace Stays

variable {α β : Type} {c c' : Cursor} {ls : List Token.Lexeme}

/-- A reading from farther on in the line. -/
theorem mono {r : Except ParseError (α × Cursor)} (hreads : Reads c ls c') (h : Stays c' r) :
    Stays c r := by
  cases h with
  | ok h => exact .ok (hreads.append h)
  | error h => exact .error (h.mono hreads)

/-- A reading from behind the next token is a reading from here. -/
theorem consume {r : Except ParseError (α × Cursor)} (h : Stays c.consume r) : Stays c r := by
  obtain ⟨ls, hreads⟩ := c.exists_reads_consume
  exact h.mono hreads

/-- One reading after the other. -/
theorem bind {r : Except ParseError (α × Cursor)}
    {f : α × Cursor → Except ParseError (β × Cursor)} (h : Stays c r)
    (hf : ∀ x c', Stays c' (f (x, c'))) : Stays c (r >>= f) := by
  cases h with
  | ok h => exact (hf _ _).mono h
  | error h => exact .error h

/-- A reading and then one that gives no place. -/
theorem blames_bind {r : Except ParseError (α × Cursor)} {f : α × Cursor → Except ParseError β}
    {e : ParseError} (h : Stays c r) (hf : ∀ x c', f (x, c') = .error e → c'.Blames e)
    (he : (r >>= f) = .error e) : c.Blames e := by
  cases h with
  | ok h => exact (hf _ _ he).mono h
  | error h =>
      cases he
      exact h

end Stays

/-! ### The readers of operands -/

/-- What reads one token goes behind it, or complains about it. -/
theorem stays_of_expect (c : Cursor) (wanted : Token.Kind) : Stays c (c.expect wanted) := by
  unfold expect
  split
  · obtain ⟨ls, hreads⟩ := c.exists_reads_consume
    exact .ok hreads
  · exact .error (c.blames_error _)

variable {inner : InnerReader}

/-- The complaint about a number comes behind it, and is about it all the same. -/
theorem blames_of_number {c : Cursor} {e : ParseError}
    (h : c.consume.number (c.peek 0) = .error e) : c.Blames e := by
  rw [number_eq] at h
  split at h
  · cases h
  · split at h
    · cases h
    · cases h
      exact blames_errorAt c.peek_mem _

/-- The first operand goes forward or complains about what is ahead, if the inner reader does. -/
theorem stays_of_primary (hinner : ∀ least c, Stays c (inner least c)) (c : Cursor) :
    Stays c (primary inner c) := by
  obtain ⟨ls, hreads⟩ := c.exists_reads_consume
  unfold primary
  dsimp only
  split
  -- A prefix operator has been read, and its operand goes on from there.
  · exact (hinner _ _).consume.bind fun _ c' => .ok (.refl c')
  · split
    · cases hnumber : c.consume.number (c.peek 0) with
      | ok x => exact .ok hreads
      | error e => exact .error (blames_of_number hnumber)
    · exact .ok hreads
    · exact .ok hreads
    · exact .ok hreads
    · exact .ok hreads
    · exact (stays_of_expect _ _).consume.bind fun _ c' => .ok (.refl c')
    · refine (hinner _ _).consume.bind fun _ c₁ => ?_
      exact (stays_of_expect _ _).bind fun _ c' => .ok (.refl c')
    · exact .error (blames_errorAt c.peek_mem _)

/-- So do the arguments of a call up to its closing parenthesis. -/
theorem stays_of_argumentsFrom (hinner : ∀ least c, Stays c (inner least c)) (steps : Nat) :
    ∀ c, Stays c (argumentsFrom inner steps c) := by
  induction steps with
  | zero => exact fun c => .error (c.blames_error _)
  | succ steps ih =>
      intro c
      rw [argumentsFrom]
      refine (hinner _ _).bind fun x c₁ => ?_
      dsimp only
      split
      · exact (ih _).consume.bind fun _ c' => .ok (.refl c')
      · obtain ⟨ls, hreads⟩ := c₁.exists_reads_consume
        exact .ok hreads
      · exact .error (c₁.blames_error _)

/-- So do the arguments behind an opening parenthesis, where none at all are allowed. -/
theorem stays_of_arguments (hinner : ∀ least c, Stays c (inner least c)) (c : Cursor) :
    Stays c (arguments inner c) := by
  unfold arguments
  split
  · obtain ⟨ls, hreads⟩ := c.exists_reads_consume
    exact .ok hreads
  · exact stays_of_argumentsFrom hinner _ c

/-- So do the operators behind an operand. -/
theorem stays_of_climb (hinner : ∀ least c, Stays c (inner least c)) (least : Nat)
    (steps : Nat) : ∀ left c, Stays c (climb inner steps least left c) := by
  induction steps with
  | zero => exact fun left c => .ok (.refl c)
  | succ steps ih =>
      intro left c
      rw [climb]
      split
      · split
        · exact .ok (.refl c)
        · exact (ih _ _).consume
      · split
        · exact .error (c.blames_error _)
        · exact (stays_of_arguments hinner _).consume.bind fun _ _ => ih _ _
      · split
        · exact .ok (.refl c)
        · exact (hinner _ _).consume.bind fun _ _ => ih _ _
      · split
        · exact .ok (.refl c)
        · exact (hinner _ _).consume.bind fun _ _ => ih _ _
      · exact .ok (.refl c)

/-- So does an expression at any depth, by induction on the depth. -/
theorem stays_of_expressionWithin (depth : Nat) :
    ∀ least c, Stays c (expressionWithin depth least c) := by
  induction depth with
  | zero => exact fun least c => .error (c.blames_error _)
  | succ depth ih =>
      intro least c
      rw [expressionWithin]
      exact (stays_of_primary ih c).bind fun _ _ => stays_of_climb ih least _ _ _

/-- So do the operands in a row. -/
theorem stays_of_operandsWithin (steps : Nat) : ∀ c, Stays c (operandsWithin steps c) := by
  induction steps with
  | zero => exact fun c => .ok (.refl c)
  | succ steps ih =>
      intro c
      rw [operandsWithin]
      split
      · exact .ok (.refl c)
      · refine (stays_of_expressionWithin _ _ _).bind fun x c₁ => ?_
        refine Stays.bind ?_ fun _ c' => .ok (.refl c')
        split
        · exact (ih _).consume
        · exact ih _

/-- So do the operands of a line, with the number of tokens ahead as the bound. -/
theorem stays_of_operands (c : Cursor) : Stays c c.operands := stays_of_operandsWithin _ c

end PicAssembly.Cursor
