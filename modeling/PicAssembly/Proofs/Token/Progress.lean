import PicAssembly.Proofs.Token.Partition

/-!
# `PicAssembly.Proofs.Token.Progress`: loops that end, and the one that cuts a line into tokens

A loop takes turns, each of which ends it or changes its state (`Loop`). Nothing bounds the number
of turns. A function with a bound on its steps does the same as a loop if each turn makes the state
smaller and a state of size zero ends the loop: then the loop ends, after no more turns than the
size of its state, with what the function gives (`exists_loop`).

A token covers at least one character (`Scanner.next_progress`), so the loop that reads tokens to
the end of a line takes no more turns than there are characters (`Scanner.exists_loop_run`).
-/

set_option autoImplicit false

namespace PicAssembly

section

variable {σ ρ : Type} {turn : σ → ρ ⊕ σ}

/-- From the state `s` the loop goes on for some turns, and the turn after these ends it with the
result `r`. -/
inductive Loop (turn : σ → ρ ⊕ σ) : (turns : Nat) → (s : σ) → (r : ρ) → Prop where
  | stop {s : σ} {r : ρ} : turn s = .inl r → Loop turn 0 s r
  | again {turns : Nat} {s s' : σ} {r : ρ} : turn s = .inr s' → Loop turn turns s' r →
      Loop turn (turns + 1) s r

/-- A loop whose turns make its state smaller ends, and a function with enough steps gives its
result. -/
theorem exists_loop (size : σ → Nat) (Valid : σ → Prop) (bounded : Nat → σ → ρ)
    (hzero : ∀ s, Valid s → size s = 0 → turn s = .inl (bounded 0 s))
    (hsucc : ∀ steps s, Valid s → bounded (steps + 1) s = (turn s).elim id (bounded steps))
    (hturn : ∀ s s', Valid s → turn s = .inr s' → Valid s' ∧ size s' < size s) (steps : Nat) :
    ∀ s, Valid s → size s ≤ steps → ∃ turns ≤ size s, Loop turn turns s (bounded steps s) := by
  induction steps with
  | zero =>
      intro s hs hsize
      exact ⟨0, Nat.zero_le _, .stop (hzero s hs (Nat.le_zero.mp hsize))⟩
  | succ steps ih =>
      intro s hs hsize
      rw [hsucc steps s hs]
      cases h : turn s with
      | inl r => exact ⟨0, Nat.zero_le _, .stop h⟩
      | inr s' =>
          obtain ⟨hs', hlt⟩ := hturn s s' hs h
          obtain ⟨turns, hturns, hloop⟩ := ih s' hs' (by omega)
          exact ⟨turns + 1, by omega, .again h hloop⟩

end

namespace Scanner

variable {s after : Scanner} {token : Token}

/-- The column behind all that is to be read. -/
def endColumn (s : Scanner) : Nat := s.column + s.rest.length

/-- A scanner over a part of a line ends where the part does, or with the line. -/
theorem endColumn_within (source : Text) (line start stop : Nat) :
    (within source line start stop).endColumn = min stop source.length := by
  simp only [endColumn, within, List.length_drop, List.length_take]
  omega

/-- The end stays where it is. A token that is not the end lies in front of it and has at least one
character. -/
theorem next_progress (h : s.next = .ok (token, after)) :
    after.endColumn = s.endColumn ∧ s.column ≤ after.column ∧
      (token.kind ≠ .eof → s.column < after.column) := by
  obtain ⟨blanks, trimmed, hrest, -, -, hcolumn, hafter, hne, -⟩ := next_split h
  have hlength : s.rest.length
      = blanks.length + token.text.length + (trimmed.length + after.rest.length) := by
    simp only [hrest, List.length_append]
  rw [Token.stop] at hafter
  refine ⟨by simp only [endColumn]; omega, by omega, fun hk => ?_⟩
  have hpos : 0 < token.text.length := List.length_pos_iff.mpr (hne hk)
  omega

/-- What is left to read becomes less with every token. -/
theorem length_rest_lt (h : s.next = .ok (token, after)) (hk : token.kind ≠ .eof) :
    after.rest.length < s.rest.length := by
  obtain ⟨hend, -, hlt⟩ := next_progress h
  have := hlt hk
  simp only [endColumn] at hend
  omega

/-- One turn of the loop that reads tokens: the tokens so far, and where the scanner is. -/
def tokenTurn : List Token × Scanner → (List Token × Except LexError Token) ⊕ (List Token × Scanner)
  | (tokens, s) =>
    match s.next with
    | .error e => .inl (tokens, .error e)
    | .ok (token, after) =>
      if token.kind = .eof then .inl (tokens, .ok token) else .inr (tokens ++ [token], after)

/-- The loop that reads tokens ends with the tokens of the line, in no more turns than there are
characters. -/
theorem exists_loop_run (s : Scanner) :
    ∃ turns ≤ s.rest.length, Loop tokenTurn turns ([], s) s.run := by
  -- A turn that goes on takes a token with at least one character.
  refine exists_loop (fun p => p.2.rest.length) (fun _ => True)
    (fun steps p => (p.1 ++ (runFor steps p.2).1, (runFor steps p.2).2)) ?_ ?_ ?_
    s.rest.length ([], s) trivial le_rfl
  · rintro ⟨tokens, s⟩ - hsize
    have hnil : s.rest = [] := List.length_eq_zero_iff.mp hsize
    simp [tokenTurn, next_of_rest_eq_nil hnil, runFor_of_rest_eq_nil hnil]
  · rintro steps ⟨tokens, s⟩ -
    cases hnext : s.next with
    | error e => simp [tokenTurn, hnext, runFor_of_error hnext]
    | ok pair =>
        obtain ⟨token, after⟩ := pair
        by_cases hk : token.kind = .eof
        · simp [tokenTurn, hnext, runFor_of_eof hnext (.inl hk), hk]
        · simp [tokenTurn, hnext, runFor_succ hnext hk, hk]
  · rintro ⟨tokens, s⟩ ⟨tokens', after⟩ - h
    refine ⟨trivial, ?_⟩
    cases hnext : s.next with
    | error e => simp [tokenTurn, hnext] at h
    | ok pair =>
        obtain ⟨token, behind⟩ := pair
        by_cases hk : token.kind = .eof
        · simp [tokenTurn, hnext, hk] at h
        · simp only [tokenTurn, hnext, if_neg hk, Sum.inr.injEq, Prod.mk.injEq] at h
          exact h.2 ▸ length_rest_lt hnext hk

end Scanner

end PicAssembly
