import PicAssembly.Proofs.Operand.Decoding
import PicAssembly.Proofs.Operand.Lexemes
import PicAssembly.Proofs.Token.Reading

/-!
# `PicAssembly.Proofs.Operand.Reading`: what the reader of operands reads

`Operand.Spells x ls` says that the tokens `ls` spell the operand `x`, with any parentheses
and without regard to which operator binds tighter. `spells_of_expressionWithin` is the
soundness of the reader: an operand that it answers with is spelled by the tokens that it
has read. So a reader that dropped a token, or took one twice, would not pass.

The reader of a first operand is taken apart once, by the token that it begins with
(`Cursor.First`).
-/

set_option autoImplicit false

namespace PicAssembly

open Token (Lexeme)

namespace Operand

/-- The tokens spell the operand. -/
inductive Spells : Operand → List Lexeme → Prop where
  | number {literal : Text} (unquoted : literal.head? ≠ some '\'')
      (fits : (decode literal).2 < Numeral.limit) :
      Spells (.number (decode literal).2 (decode literal).1 literal) [⟨.number, literal⟩]
  | character {text : Text} (quoted : text.head? = some '\'') :
      Spells (.string text) [⟨.number, text⟩]
  | string {text : Text} (quoted : text.head? = some '"') :
      Spells (.string text) [⟨.string, text⟩]
  | chipId (text : Text) : Spells (.chipId text) [⟨.chipId, text⟩]
  | programCounter : Spells .programCounter [Token.Kind.programCounter.lexeme]
  | identifier {name : Text} (hk : UnaryOp.keyword? name = none) :
      Spells (.identifier name) [⟨.identifier, name⟩]
  | group {x : Operand} {ls : List Lexeme} (h : Spells x ls) :
      Spells x (Token.Kind.openParen.lexeme :: ls ++ [Token.Kind.closeParen.lexeme])
  | pound (name : Text) :
      Spells (.unary .pound UnaryOp.pound.lexeme (.identifier name))
        [Token.Kind.pound.lexeme, ⟨.identifier, name⟩]
  | unary {op : UnaryOp} {spelling : Text} {x : Operand} {ls : List Lexeme} (hop : op ≠ .pound)
      (hs : op.IsSpelling spelling) (h : Spells x ls) :
      Spells (.unary op spelling x) (⟨op.tokenKind, spelling⟩ :: ls)
  | stepped {op : StepOp} {x : Operand} {ls : List Lexeme} (h : Spells x ls) :
      Spells (.stepped op x) (ls ++ [(Token.Kind.step op).lexeme])
  | binary {op : BinaryOp} {x y : Operand} {ls ms : List Lexeme} (hx : Spells x ls)
      (hy : Spells y ms) : Spells (.binary op x y) (ls ++ (Token.Kind.binary op).lexeme :: ms)
  | assign {op : AssignOp} {x y : Operand} {ls ms : List Lexeme} (hx : Spells x ls)
      (hy : Spells y ms) : Spells (.assign op x y) (ls ++ (Token.Kind.assign op).lexeme :: ms)
  | call {name : Text} {ls : List Lexeme} {pairs : List (Operand × List Lexeme)}
      (hname : Spells (.identifier name) ls) (hargs : ∀ p ∈ pairs, Spells p.1 p.2) :
      Spells (.call (.identifier name) (pairs.map Prod.fst))
        (ls ++ (Token.Kind.openParen.lexeme :: commaSeparated (pairs.map Prod.snd) ++
          [Token.Kind.closeParen.lexeme]))

/-- The tokens spell operands in a row, where a comma may stand behind each. -/
inductive SpellsRow : List Operand → List Lexeme → Prop where
  | nil : SpellsRow [] []
  | cons {x : Operand} {xs : List Operand} {ls ms : List Lexeme} (h : Spells x ls)
      (hrow : SpellsRow xs ms) : SpellsRow (x :: xs) (ls ++ ms)
  | consComma {x : Operand} {xs : List Operand} {ls ms : List Lexeme} (h : Spells x ls)
      (hrow : SpellsRow xs ms) : SpellsRow (x :: xs) (ls ++ Token.Kind.comma.lexeme :: ms)

end Operand

namespace Cursor

open Operand (Spells SpellsRow)

/-- A reader that answers with operands that the tokens it has read spell. -/
def Sound (inner : InnerReader) : Prop :=
  ∀ (least : Nat) (c c' : Cursor) (x : Operand), c.Proper → inner least c = .ok (x, c') →
    ∃ ls, Reads c ls c' ∧ Spells x ls

/-- An expression behind a symbol. -/
theorem Sound.behind {inner : InnerReader} (hinner : Sound inner) {least : Nat} {c c' : Cursor}
    {x : Operand} {k : Token.Kind} {text : Text} (hc : c.Proper) (hk : c.kind = k)
    (hs : k.symbol? = some text) (h : inner least c.consume = .ok (x, c')) :
    ∃ ls, Reads c (k.lexeme :: ls) c' ∧ Spells x ls := by
  have hhead := hc.reads_symbol hk hs
  obtain ⟨ls, hreads, hspells⟩ := hinner _ _ _ _ (hhead.proper hc) h
  exact ⟨ls, hhead.cons hreads, hspells⟩

/-- The token of a prefix operator. -/
theorem reads_of_prefixOp? {c : Cursor} {op : UnaryOp} (hc : c.Proper)
    (h : Operand.prefixOp? (c.peek 0) = some op) :
    op ≠ .pound ∧ op.IsSpelling (c.peek 0).text ∧
      Reads c [⟨op.tokenKind, (c.peek 0).text⟩] c.consume := by
  unfold Operand.prefixOp? at h
  split at h
  -- A keyword is told by its spelling, every other operator by its kind alone.
  · next hk =>
    have hreads := hc.reads hk (by simp)
    rcases Operand.eq_of_keyword? h with rfl | rfl | rfl
    · exact ⟨by simp, h, hreads⟩
    · exact ⟨by simp, h, hreads⟩
    · exact ⟨by simp, h, hreads⟩
  case h_6 => cases h
  all_goals
    rename_i hk
    cases h
    exact ⟨by simp, hc.text_eq hk rfl, hc.reads hk (by simp [UnaryOp.tokenKind])⟩

/-- A number token is a number or a character. -/
theorem spells_of_number {c : Cursor} {token : Token} {x : Operand}
    (h : c.number token = .ok x) : Spells x [⟨.number, token.text⟩] := by
  rw [number_eq] at h
  split at h
  · next hq =>
    cases h
    exact .character hq
  · next hq =>
    split at h
    · next hfits =>
      cases h
      exact .number hq hfits
    · cases h

/-- The first operand of an expression, by the token that it begins with, and the cursor behind
it. -/
inductive First (inner : InnerReader) (c : Cursor) : Operand → Cursor → Prop where
  | unary {op : UnaryOp} {x : Operand} {c' : Cursor}
      (hop : Operand.prefixOp? (c.peek 0) = some op)
      (hx : inner op.operandPower c.consume = .ok (x, c')) :
      First inner c (.unary op (c.peek 0).text x) c'
  | number {x : Operand} (hk : c.kind = .number)
      (hx : c.consume.number (c.peek 0) = .ok x) : First inner c x c.consume
  | string (hk : c.kind = .string) : First inner c (.string (c.peek 0).text) c.consume
  | chipId (hk : c.kind = .chipId) : First inner c (.chipId (c.peek 0).text) c.consume
  | programCounter (hk : c.kind = .programCounter) : First inner c .programCounter c.consume
  | identifier (hk : c.kind = .identifier) (hop : Operand.prefixOp? (c.peek 0) = none) :
      First inner c (.identifier (c.peek 0).text) c.consume
  | pound {name : Token} {c' : Cursor} (hk : c.kind = .pound)
      (hname : c.consume.expect .identifier = .ok (name, c')) :
      First inner c (.unary .pound (c.peek 0).text (.identifier name.text)) c'
  | group {x : Operand} {c₁ c' : Cursor} {close : Token} (hk : c.kind = .openParen)
      (hx : inner 0 c.consume = .ok (x, c₁))
      (hclose : c₁.expect .closeParen = .ok (close, c')) : First inner c x c'

/-- The first operand by the token it begins with. Every fact on first operands is read off from the
cases of `First`. -/
theorem first_of_primary {inner : InnerReader} {c c' : Cursor} {x : Operand}
    (h : primary inner c = .ok (x, c')) : First inner c x c' := by
  unfold primary at h
  dsimp only at h
  -- The operators come first, since a keyword is an identifier token too.
  split at h
  · next op hop =>
    obtain ⟨⟨y, c₁⟩, hy, h⟩ := bind_eq_ok_iff.mp h
    cases h
    exact .unary hop hy
  · next hop =>
    split at h
    · next hk =>
      obtain ⟨y, hy, h⟩ := bind_eq_ok_iff.mp h
      cases h
      exact .number hk hy
    · next hk =>
      cases h
      exact .string hk
    · next hk =>
      cases h
      exact .chipId hk
    · next hk =>
      cases h
      exact .programCounter hk
    · next hk =>
      cases h
      exact .identifier hk hop
    · next hk =>
      obtain ⟨⟨name, c₁⟩, hname, h⟩ := bind_eq_ok_iff.mp h
      cases h
      exact .pound hk hname
    · next hk =>
      obtain ⟨⟨y, c₁⟩, hy, h⟩ := bind_eq_ok_iff.mp h
      obtain ⟨⟨close, c₂⟩, hclose, h⟩ := bind_eq_ok_iff.mp h
      cases h
      exact .group hk hy hclose
    · cases h

/-- The first operand is spelled by the tokens that were read for it. -/
theorem spells_of_primary {inner : InnerReader} (hinner : Sound inner) {c c' : Cursor}
    {x : Operand} (hc : c.Proper) (h : primary inner c = .ok (x, c')) :
    ∃ ls, Reads c ls c' ∧ Spells x ls := by
  cases first_of_primary h with
  | unary hop hx =>
      obtain ⟨hne, hs, hreads⟩ := reads_of_prefixOp? hc hop
      obtain ⟨ls, hreads', hspells⟩ := hinner _ _ _ _ (hreads.proper hc) hx
      exact ⟨_, hreads.cons hreads', .unary hne hs hspells⟩
  | number hk hx => exact ⟨_, hc.reads hk (by simp), spells_of_number hx⟩
  | string hk =>
      obtain ⟨body, -, hbody⟩ := (hc.spelled_peek hk (by simp)).exists_string
      exact ⟨_, hc.reads hk (by simp), .string (by simp [hbody])⟩
  | chipId hk => exact ⟨_, hc.reads hk (by simp), .chipId _⟩
  | programCounter hk => exact ⟨_, hc.reads_symbol hk rfl, .programCounter⟩
  | identifier hk hop =>
      -- A keyword would have been read as an operator.
      have hname : UnaryOp.keyword? (c.peek 0).text = none := by
        have hkind : (c.peek 0).kind = .identifier := hk
        simpa [Operand.prefixOp?, hkind] using hop
      exact ⟨_, hc.reads hk (by simp), .identifier hname⟩
  | pound hk hname =>
      have hreads := hc.reads_symbol hk rfl
      obtain ⟨hreads', -⟩ := (hreads.proper hc).reads_of_expect (by simp) hname
      rw [hc.text_eq hk rfl]
      exact ⟨_, hreads.cons hreads', .pound _⟩
  | group hk hx hclose =>
      obtain ⟨ls, hreads, hspells⟩ := hinner.behind hc hk rfl hx
      have hc₁ := hreads.proper hc
      obtain ⟨-, hclosing, rfl⟩ := hc₁.reads_of_expect (by simp) hclose
      exact ⟨_, hreads.append (hc₁.reads_symbol hclosing rfl), .group hspells⟩

/-- The arguments of a call, with the tokens of each. -/
theorem spells_of_argumentsFrom {inner : InnerReader} (hinner : Sound inner) :
    ∀ (steps : Nat) (c c' : Cursor) (xs : List Operand), c.Proper →
      argumentsFrom inner steps c = .ok (xs, c') →
      ∃ pairs : List (Operand × List Lexeme), xs = pairs.map Prod.fst ∧
        (∀ p ∈ pairs, Spells p.1 p.2) ∧ pairs ≠ [] ∧
        Reads c (Operand.commaSeparated (pairs.map Prod.snd) ++
          [Token.Kind.closeParen.lexeme]) c' := by
  intro steps
  induction steps with
  | zero =>
      intro c c' xs _ h
      cases h
  | succ steps ih =>
      intro c c' xs hc h
      rw [argumentsFrom] at h
      obtain ⟨⟨x, c₁⟩, hx, h⟩ := bind_eq_ok_iff.mp h
      obtain ⟨ls, hreads, hspells⟩ := hinner _ _ _ _ hc hx
      have hc₁ := hreads.proper hc
      dsimp only at h
      -- A comma and more arguments follow, or the closing parenthesis.
      split at h
      · next hk =>
        obtain ⟨⟨ys, c₂⟩, hys, h⟩ := bind_eq_ok_iff.mp h
        cases h
        have hcomma := hc₁.reads_symbol hk rfl
        obtain ⟨pairs, rfl, hpairs, hne, hreads'⟩ := ih _ _ _ (hcomma.proper hc₁) hys
        obtain ⟨p, pairs, rfl⟩ := List.exists_cons_of_ne_nil hne
        refine ⟨(x, ls) :: p :: pairs, rfl, ?_, by simp, ?_⟩
        · exact List.forall_mem_cons.mpr ⟨hspells, hpairs⟩
        · simpa [Operand.commaSeparated_cons_cons] using hreads.append (hcomma.cons hreads')
      · next hk =>
        cases h
        refine ⟨[(x, ls)], rfl, by simpa using hspells, by simp, ?_⟩
        simpa [Operand.commaSeparated_singleton] using
          hreads.append (hc₁.reads_symbol hk rfl)
      · cases h

/-- The arguments of a call are spelled by the tokens between its parentheses, with a comma between
neighbours. -/
theorem spells_of_arguments {inner : InnerReader} (hinner : Sound inner) {c c' : Cursor}
    {xs : List Operand} (hc : c.Proper) (h : arguments inner c = .ok (xs, c')) :
    ∃ pairs : List (Operand × List Lexeme), xs = pairs.map Prod.fst ∧
      (∀ p ∈ pairs, Spells p.1 p.2) ∧
      Reads c (Operand.commaSeparated (pairs.map Prod.snd) ++
        [Token.Kind.closeParen.lexeme]) c' := by
  unfold arguments at h
  split at h
  · next hk =>
    cases h
    exact ⟨[], rfl, by simp, hc.reads_symbol hk rfl⟩
  · obtain ⟨pairs, hxs, hpairs, -, hreads⟩ := spells_of_argumentsFrom hinner _ _ _ _ hc h
    exact ⟨pairs, hxs, hpairs, hreads⟩

/-- The loop goes on with the operand that it was given. -/
theorem spells_of_climb {inner : InnerReader} (hinner : Sound inner) (least : Nat) :
    ∀ (steps : Nat) (left : Operand) (ls : List Lexeme) (c c' : Cursor) (x : Operand),
      c.Proper → Spells left ls → climb inner steps least left c = .ok (x, c') →
      ∃ ms, Reads c ms c' ∧ Spells x (ls ++ ms) := by
  intro steps
  induction steps with
  | zero =>
      intro left ls c c' x _ hleft h
      cases h
      exact ⟨[], .refl c, by simpa using hleft⟩
  | succ steps ih =>
      -- A turn of the loop reads some tokens and makes another operand of the left one.
      have hturn : ∀ {left : Operand} {ls ms : List Lexeme} {c c₁ c' : Cursor} {x : Operand},
          c.Proper → Reads c ms c₁ → Spells left (ls ++ ms) →
          climb inner steps least left c₁ = .ok (x, c') →
          ∃ ms, Reads c ms c' ∧ Spells x (ls ++ ms) := by
        intro left ls ms c c₁ c' x hc hreads hleft h
        obtain ⟨ms', hreads', hx⟩ := ih _ _ _ _ _ (hreads.proper hc) hleft h
        exact ⟨ms ++ ms', hreads.append hreads', by simpa using hx⟩
      intro left ls c c' x hc hleft h
      -- What the loop leaves alone ends the expression.
      have hstop : (Except.ok (left, c) : Except ParseError _) = .ok (x, c') →
          ∃ ms, Reads c ms c' ∧ Spells x (ls ++ ms) := by
        intro hok
        cases hok
        exact ⟨[], .refl c, by simpa using hleft⟩
      rw [climb] at h
      split at h
      · next op hk =>
        split at h
        · exact hstop h
        · exact hturn hc (hc.reads_symbol hk rfl) (.stepped hleft) h
      · next hk =>
        split at h
        · cases h
        · next hname =>
          obtain ⟨⟨xs, c₁⟩, hargs, h⟩ := bind_eq_ok_iff.mp h
          have hopen := hc.reads_symbol hk rfl
          obtain ⟨pairs, rfl, hpairs, hreads⟩ :=
            spells_of_arguments hinner (hopen.proper hc) hargs
          -- The loop has asked for a name, and that is the only operand with one.
          cases left with
          | identifier name => exact hturn hc (hopen.cons hreads) (.call hleft hpairs) h
          | _ => simp [Operand.name?] at hname
      · next op hk =>
        split at h
        · exact hstop h
        · obtain ⟨⟨y, c₁⟩, hy, h⟩ := bind_eq_ok_iff.mp h
          obtain ⟨ms, hreads, hspells⟩ := hinner.behind hc hk rfl hy
          exact hturn hc hreads (.assign hleft hspells) h
      · next op hk =>
        split at h
        · exact hstop h
        · obtain ⟨⟨y, c₁⟩, hy, h⟩ := bind_eq_ok_iff.mp h
          obtain ⟨ms, hreads, hspells⟩ := hinner.behind hc hk rfl hy
          exact hturn hc hreads (.binary hleft hspells) h
      · exact hstop h

/-- The line is accepted as finished just if no token is left on it. -/
theorem endOfLine_eq_ok_iff {c : Cursor} : c.endOfLine = .ok () ↔ c.kind = .eof := by
  simp [endOfLine, atEnd]

/-- The reader of expressions is sound. -/
theorem spells_of_expressionWithin (depth : Nat) : Sound (expressionWithin depth) := by
  induction depth with
  | zero =>
      intro least c c' x _ h
      cases h
  | succ depth ih =>
      intro least c c' x hc h
      rw [expressionWithin] at h
      obtain ⟨⟨left, c₁⟩, hleft, h⟩ := bind_eq_ok_iff.mp h
      obtain ⟨ls, hreads, hspells⟩ := spells_of_primary ih hc hleft
      obtain ⟨ms, hreads', hx⟩ :=
        spells_of_climb ih least _ _ _ _ _ _ (hreads.proper hc) hspells h
      exact ⟨ls ++ ms, hreads.append hreads', hx⟩

/-- The operands of a line are spelled in a row. -/
theorem spellsRow_of_operandsWithin :
    ∀ (steps : Nat) (c c' : Cursor) (xs : List Operand), c.Proper →
      operandsWithin steps c = .ok (xs, c') → ∃ ls, Reads c ls c' ∧ SpellsRow xs ls := by
  intro steps
  induction steps with
  | zero =>
      intro c c' xs _ h
      cases h
      exact ⟨[], .refl c, .nil⟩
  | succ steps ih =>
      intro c c' xs hc h
      rw [operandsWithin] at h
      split at h
      · cases h
        exact ⟨[], .refl c, .nil⟩
      · obtain ⟨⟨x, c₁⟩, hx, h⟩ := bind_eq_ok_iff.mp h
        obtain ⟨⟨ys, c₂⟩, hys, h⟩ := bind_eq_ok_iff.mp h
        cases h
        obtain ⟨ls, hreads, hspells⟩ := spells_of_expressionWithin _ _ _ _ _ hc hx
        have hc₁ := hreads.proper hc
        -- The comma is no condition for a further operand.
        split at hys
        · next hk =>
          have hcomma := hc₁.reads_symbol hk rfl
          obtain ⟨ms, hreads', hrow⟩ := ih _ _ _ (hcomma.proper hc₁) hys
          exact ⟨_, hreads.append (hcomma.cons hreads'), .consComma hspells hrow⟩
        · obtain ⟨ms, hreads', hrow⟩ := ih _ _ _ hc₁ hys
          exact ⟨_, hreads.append hreads', .cons hspells hrow⟩

end Cursor

end PicAssembly
