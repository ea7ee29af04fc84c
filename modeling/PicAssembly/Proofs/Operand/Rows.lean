import PicAssembly.Proofs.Operand.Climbing
import PicAssembly.Proofs.Operand.Lexemes

/-!
# `PicAssembly.Proofs.Operand.Rows`: reading operands in a row

`Cursor.Standalone x ls` says that the tokens `ls` are read as the operand `x` wherever an
expression may begin. The readers of rows take such operands one by one: the arguments of a
call (`arguments_of_standalone`, `Enters.call`) and the operands of a line
(`operandsWithin_of_standalone`), with a comma between neighbours in both.
-/

set_option autoImplicit false

namespace PicAssembly

open Token (Lexeme headKind)

/-- Whether a token of this kind may begin an operand in a row: it does not end the row, and
it is no colon, which would belong to a label before the row. -/
def Token.Kind.BeginsOperand (k : Token.Kind) : Prop :=
  k ≠ .comment ∧ k ≠ .closeParen ∧ k ≠ .eof ∧ k ≠ .colon

/-- What begins like an operand is not empty. -/
theorem Token.ne_nil_of_beginsOperand {ls : List Lexeme} (h : (headKind ls).BeginsOperand) :
    ls ≠ [] := by
  rintro rfl
  exact h.2.2.1 rfl

/-- What begins like an operand does so with anything behind it. -/
theorem Token.headKind_append {ls : List Lexeme} (h : (headKind ls).BeginsOperand)
    (r : List Lexeme) : headKind (ls ++ r) = headKind ls := by
  cases ls with
  | nil => exact absurd rfl (Token.ne_nil_of_beginsOperand h)
  | cons l ls => rfl

/-- A row of operands begins like the first of them. -/
theorem Token.headKind_commaSeparated {ls : List Lexeme} (h : (headKind ls).BeginsOperand)
    (lss : List (List Lexeme)) (r : List Lexeme) :
    headKind (Operand.commaSeparated (ls :: lss) ++ r) = headKind ls := by
  cases lss with
  | nil => rw [Operand.commaSeparated_singleton, Token.headKind_append h]
  | cons ms lss =>
      rw [Operand.commaSeparated_cons_cons, List.append_assoc, Token.headKind_append h]

/-- Parentheses leave the beginning of an operand one. -/
theorem Operand.beginsOperand_groupedLexemes {ls : List Lexeme}
    (h : (headKind ls).BeginsOperand) (wrap : Bool) (r : List Lexeme) :
    (headKind (groupedLexemes wrap ls ++ r)).BeginsOperand := by
  cases wrap with
  | false =>
      show (headKind (ls ++ r)).BeginsOperand
      rwa [Token.headKind_append h]
  | true =>
      show Token.Kind.BeginsOperand .openParen
      simp [Token.Kind.BeginsOperand]

namespace Cursor

/-- The tokens are read as this operand wherever an expression may begin, up to the first
token that does not extend it. -/
structure Standalone (x : Operand) (ls : List Lexeme) : Prop where
  begins : (headKind ls).BeginsOperand
  completes : ∀ r, ¬ (headKind r).Extends 0 → Completes x ls 0 r

/-- Parentheses around an operand. -/
theorem Standalone.group {x : Operand} {ls : List Lexeme} (h : Standalone x ls) (wrap : Bool) :
    Standalone x (Operand.groupedLexemes wrap ls) := by
  cases wrap with
  | false => exact h
  | true =>
      have hinner := fun r => h.completes (Token.Kind.closeParen.lexeme :: r) (fun hr => hr)
      exact ⟨by simpa using Operand.beginsOperand_groupedLexemes h.begins true [],
        fun r hr => (Enters.group (hinner r) 0).completes (by simp) hr⟩

/-! ### Operands in a row -/

/-- The arguments of a call, up to its closing parenthesis. -/
theorem argumentsFrom_of_standalone {pairs : List (Operand × List Lexeme)} (hne : pairs ≠ [])
    (h : ∀ p ∈ pairs, Standalone p.1 p.2) {depth : Nat} {r : List Lexeme} :
    ∀ (steps : Nat) (c : Cursor), c.eof.kind = .eof →
      c.lexemes = Operand.commaSeparated (pairs.map Prod.snd) ++ Token.Kind.closeParen.lexeme :: r →
      c.rest.length ≤ depth → c.rest.length ≤ steps →
      ∃ c', Reads c (Operand.commaSeparated (pairs.map Prod.snd) ++
          [Token.Kind.closeParen.lexeme]) c' ∧
        argumentsFrom (expressionWithin depth) steps c = .ok (pairs.map Prod.fst, c') := by
  induction pairs with
  | nil => exact absurd rfl hne
  | cons p pairs ih =>
      intro steps c heof hc hdepth hsteps
      have hp := h p (by simp)
      -- A closing parenthesis is ahead at least, and so there are steps.
      cases steps with
      | zero =>
          have hpos : 0 < c.lexemes.length := by
            rw [hc, List.length_append, List.length_cons]
            omega
          rw [length_lexemes] at hpos
          omega
      | succ steps =>
          cases pairs with
          | nil =>
              -- The last argument ends at the parenthesis.
              simp only [List.map_cons, List.map_nil, Operand.commaSeparated_singleton] at hc ⊢
              obtain ⟨c₁, hreads, hok⟩ :=
                hp.completes (Token.Kind.closeParen.lexeme :: r) (fun hr => hr) depth c heof hc
                  hdepth
              have hleft := hreads.lexemes_eq hc
              have hkind : c₁.kind = .closeParen := kind_of_lexemes hleft
              refine ⟨c₁.consume, hreads.append (reads_of_lexemes hleft).1, ?_⟩
              simp [argumentsFrom, hok, hkind, bind, Except.bind]
              rfl
          | cons q pairs =>
              -- Any other ends at its comma, and behind that the arguments go on.
              simp only [List.map_cons, Operand.commaSeparated_cons_cons, List.append_assoc,
                List.cons_append] at hc ih ⊢
              obtain ⟨c₁, hreads, hok⟩ :=
                hp.completes (Token.Kind.comma.lexeme :: _) (fun hr => hr) depth c heof hc hdepth
              have hleft := hreads.lexemes_eq hc
              have hkind : c₁.kind = .comma := kind_of_lexemes hleft
              obtain ⟨hcomma, -⟩ := reads_of_lexemes hleft
              have hlen := hreads.length
              have hlen₁ := hcomma.length_succ
              obtain ⟨c', hreads', hok'⟩ := ih (by simp) (fun p' hp' => h p' (by simp [hp'])) steps
                c₁.consume (hcomma.eof ▸ hreads.eof ▸ heof) (hcomma.tail_eq hleft)
                (by omega) (by omega)
              refine ⟨c', hreads.append (hcomma.cons hreads'), ?_⟩
              simp [argumentsFrom, hok, hkind, hok', bind, Except.bind]
              rfl

/-- The arguments of a call, behind its opening parenthesis. -/
theorem arguments_of_standalone {pairs : List (Operand × List Lexeme)}
    (h : ∀ p ∈ pairs, Standalone p.1 p.2) {depth : Nat} {r : List Lexeme} {c : Cursor}
    (heof : c.eof.kind = .eof)
    (hc : c.lexemes = Operand.commaSeparated (pairs.map Prod.snd) ++
      Token.Kind.closeParen.lexeme :: r) (hdepth : c.rest.length ≤ depth) :
    ∃ c', Reads c (Operand.commaSeparated (pairs.map Prod.snd) ++
        [Token.Kind.closeParen.lexeme]) c' ∧
      arguments (expressionWithin depth) c = .ok (pairs.map Prod.fst, c') := by
  cases pairs with
  | nil => exact ⟨c.consume, (reads_of_lexemes hc).1, if_pos (kind_of_lexemes hc)⟩
  | cons p pairs =>
      have hp := h p (by simp)
      -- The first argument begins here, so the call is not closed yet.
      have hkind : c.kind ≠ .closeParen := by
        rw [kind_eq_headKind heof, hc, List.map_cons, Token.headKind_commaSeparated hp.begins]
        exact hp.begins.2.1
      obtain ⟨c', hreads, hok⟩ :=
        argumentsFrom_of_standalone (by simp) h _ c heof hc hdepth (Nat.le_refl _)
      exact ⟨c', hreads, (if_neg hkind).trans hok⟩

/-- A name with arguments. -/
theorem Enters.call {name : Text} {pairs : List (Operand × List Lexeme)}
    {r : List Lexeme} {least : Nat} {ls : List Lexeme}
    (hname : Enters (.identifier name) ls least (Token.Kind.openParen.lexeme ::
      Operand.commaSeparated (pairs.map Prod.snd) ++ [Token.Kind.closeParen.lexeme] ++ r))
    (h : ∀ p ∈ pairs, Standalone p.1 p.2) :
    Enters (.call (.identifier name) (pairs.map Prod.fst))
      (ls ++ (Token.Kind.openParen.lexeme ::
        Operand.commaSeparated (pairs.map Prod.snd) ++ [Token.Kind.closeParen.lexeme]))
      least r := by
  refine hname.turn (by simp) fun depth steps c heof hc hlen => ?_
  rw [List.cons_append, List.cons_append, List.append_assoc] at hc
  obtain ⟨hopen, -⟩ := reads_of_lexemes hc
  -- The parenthesis is one token less ahead, so arguments may be read one level deeper.
  have hdepth : c.consume.rest.length ≤ depth := by
    have := hopen.length_succ
    omega
  obtain ⟨c', hreads, hok⟩ := arguments_of_standalone h (hopen.eof ▸ heof)
    (hopen.tail_eq hc) hdepth
  have hkind : c.kind = .openParen := kind_of_lexemes hc
  refine ⟨c', hopen.cons hreads, ?_⟩
  rw [climb, hkind]
  simp [Operand.name?, hok, bind, Except.bind]

/-- Operands in a row, up to a comment or the end of the line. -/
theorem operandsWithin_of_standalone {pairs : List (Operand × List Lexeme)}
    (h : ∀ p ∈ pairs, Standalone p.1 p.2) {r : List Lexeme}
    (hr : headKind r = .comment ∨ headKind r = .eof) :
    ∀ (steps : Nat) (c : Cursor), c.eof.kind = .eof →
      c.lexemes = Operand.commaSeparated (pairs.map Prod.snd) ++ r → c.rest.length ≤ steps →
      ∃ c', Reads c (Operand.commaSeparated (pairs.map Prod.snd)) c' ∧
        operandsWithin steps c = .ok (pairs.map Prod.fst, c') := by
  induction pairs with
  | nil =>
      intro steps c heof hc _
      refine ⟨c, .refl c, ?_⟩
      cases steps with
      | zero => rfl
      | succ steps =>
          have hkind : c.kind = .comment ∨ c.kind = .eof := by
            rw [kind_eq_headKind heof, hc]
            exact hr
          rw [operandsWithin, if_pos hkind]
          rfl
  | cons p pairs ih =>
      intro steps c heof hc hsteps
      have hp := h p (by simp)
      have hends : ¬ (headKind r).Extends 0 := by
        rcases hr with hr | hr <;> rw [hr] <;> exact fun hx => hx
      -- The list of tokens is the first operand and what stands behind it.
      obtain ⟨ms, hms, hmskind⟩ : ∃ ms, Operand.commaSeparated ((p :: pairs).map Prod.snd)
          = p.2 ++ ms ∧ ((ms = [] ∧ pairs = []) ∨
            ms = Token.Kind.comma.lexeme :: Operand.commaSeparated (pairs.map Prod.snd)) := by
        cases pairs with
        | nil => exact ⟨[], by simp [Operand.commaSeparated_singleton], Or.inl ⟨rfl, rfl⟩⟩
        | cons q pairs => exact ⟨_, Operand.commaSeparated_cons_cons _ _ _, Or.inr rfl⟩
      rw [hms, List.append_assoc] at hc
      have hkind : ¬ (c.kind = .comment ∨ c.kind = .eof) := by
        rw [kind_eq_headKind heof, hc, Token.headKind_append hp.begins]
        exact not_or.mpr ⟨hp.begins.1, hp.begins.2.2.1⟩
      cases steps with
      | zero =>
          have hpos := length_pos_of_lexemes hc (Token.ne_nil_of_beginsOperand hp.begins)
          omega
      | succ steps =>
          have hfirst : ¬ (headKind (ms ++ r)).Extends 0 := by
            rcases hmskind with ⟨rfl, -⟩ | rfl
            · exact hends
            · exact fun hx => hx
          obtain ⟨c₁, hreads, hok⟩ :=
            hp.completes _ hfirst c.rest.length c heof hc (Nat.le_refl _)
          have hleft := hreads.lexemes_eq hc
          have heof₁ : c₁.eof.kind = .eof := hreads.eof ▸ heof
          have hlen := hreads.length
          have hpos : 0 < p.2.length :=
            List.length_pos_iff.mpr (Token.ne_nil_of_beginsOperand hp.begins)
          rw [hms]
          rcases hmskind with ⟨rfl, rfl⟩ | rfl
          -- Behind the last operand the row ends, as the induction hypothesis for no operands
          -- says.
          · have hcomma : c₁.kind ≠ .comma := by
              rw [kind_eq_headKind heof₁, hleft]
              rcases hr with hr | hr <;> simp [hr]
            obtain ⟨c', hreads', hok'⟩ :=
              ih (by simp) steps c₁ heof₁ hleft (by omega)
            refine ⟨c', hreads.append hreads', ?_⟩
            simp [operandsWithin, hkind, expression, hok, hcomma, hok', bind, Except.bind]
            rfl
          · obtain ⟨hcomma, -⟩ := reads_of_lexemes hleft
            have hlen₁ := hcomma.length_succ
            obtain ⟨c', hreads', hok'⟩ := ih (fun p' hp' => h p' (by simp [hp'])) steps
              c₁.consume (hcomma.eof ▸ heof₁) (hcomma.tail_eq hleft) (by omega)
            refine ⟨c', hreads.append (hcomma.cons hreads'), ?_⟩
            have hkind₁ : c₁.kind = .comma := kind_of_lexemes hleft
            simp [operandsWithin, hkind, expression, hok, hkind₁, hok', bind, Except.bind]
            rfl

end Cursor

end PicAssembly
