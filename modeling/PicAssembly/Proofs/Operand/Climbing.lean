import PicAssembly.Proofs.Operand.Decoding
import PicAssembly.Proofs.Token.Reading

/-!
# `PicAssembly.Proofs.Operand.Climbing`: one step of the reader of expressions

The reader of an expression reads a first operand and then loops over the operators behind
it. Two notions cut its runs into steps:

* `Cursor.Enters x ls least r`: where the tokens `ls` and then `r` stand, the reader comes to
  the loop with the operand `x` in its hand and `r` ahead.
* `Cursor.Completes x ls least r`: there, it answers with `x` and leaves `r`.

Between the two stands `Enters.completes`: the loop ends if `r` does not begin with a token
that extends an operand at this power (`Token.Kind.Extends`). All other lemmas say what one
operator does to these two notions. No lemma speaks of spaces or of the printer, and none
asks where parentheses are needed.
-/

set_option autoImplicit false

namespace PicAssembly

open Token (Lexeme)

/-- Whether an expression of operators of power `least` or more goes on with a token of this
kind when an operand of it is complete. -/
def Token.Kind.Extends (least : Nat) : Token.Kind → Prop
  | .step _ => least ≤ Power.postfixed
  | .openParen => True
  | .assign _ => least ≤ Power.assignment
  | .binary op => least ≤ op.power
  | _ => False

/-- A tighter expression goes on with fewer tokens. -/
theorem Token.Kind.Extends.mono {least least' : Nat} {k : Token.Kind} (h : k.Extends least')
    (hle : least ≤ least') : k.Extends least := by
  cases k with
  | step op => exact Nat.le_trans hle h
  | assign op => exact Nat.le_trans hle h
  | binary op => exact Nat.le_trans hle h
  | openParen => trivial
  | _ => exact h.elim

namespace Cursor

/-- The reader comes to the loop behind `x`. -/
def Enters (x : Operand) (ls : List Lexeme) (least : Nat) (r : List Lexeme) : Prop :=
  ∀ (depth : Nat) (c : Cursor), c.eof.kind = .eof → c.lexemes = ls ++ r →
    c.rest.length ≤ depth + 1 →
    ∃ steps c', Reads c ls c' ∧ c'.rest.length ≤ steps ∧
      expressionWithin (depth + 1) least c = climb (expressionWithin depth) steps least x c'

/-- The reader answers with `x`. -/
def Completes (x : Operand) (ls : List Lexeme) (least : Nat) (r : List Lexeme) : Prop :=
  ∀ (depth : Nat) (c : Cursor), c.eof.kind = .eof → c.lexemes = ls ++ r →
    c.rest.length ≤ depth →
    ∃ c', Reads c ls c' ∧ expressionWithin depth least c = .ok (x, c')

/-- The loop leaves a token alone that does not extend the operand. -/
theorem climb_of_not_extends {inner : InnerReader} {least : Nat} {x : Operand} {c : Cursor}
    (h : ¬ c.kind.Extends least) (steps : Nat) : climb inner steps least x c = .ok (x, c) := by
  cases steps with
  | zero => rfl
  | succ steps =>
      rw [climb]
      split
      · next hk =>
        rw [hk] at h
        exact if_pos (Nat.lt_of_not_le h)
      · next hk =>
        rw [hk] at h
        exact absurd trivial h
      · next hk =>
        rw [hk] at h
        exact if_pos (Nat.lt_of_not_le h)
      · next hk =>
        rw [hk] at h
        exact if_pos (Nat.lt_of_not_le h)
      · rfl

/-- The loop begins behind the first operand. -/
theorem expressionWithin_of_primary {depth least : Nat} {x : Operand} {c c' : Cursor}
    (h : primary (expressionWithin depth) c = .ok (x, c')) :
    expressionWithin (depth + 1) least c
      = climb (expressionWithin depth) c'.rest.length least x c' := by
  rw [expressionWithin, h]
  rfl

/-- An operand that is a first operand at every depth comes to the loop at every power. -/
theorem Enters.of_primary {x : Operand} {ls r : List Lexeme}
    (h : ∀ (depth : Nat) (c : Cursor), c.eof.kind = .eof → c.lexemes = ls ++ r →
      c.rest.length ≤ depth + 1 →
      ∃ c', Reads c ls c' ∧ primary (expressionWithin depth) c = .ok (x, c'))
    (least : Nat) : Enters x ls least r := by
  intro depth c heof hc hlen
  obtain ⟨c', hreads, hprimary⟩ := h depth c heof hc hlen
  exact ⟨c'.rest.length, c', hreads, Nat.le_refl _, expressionWithin_of_primary hprimary⟩

/-- An expression ends where nothing extends it. -/
theorem Enters.completes {x : Operand} {ls r : List Lexeme} {least : Nat}
    (h : Enters x ls least r) (hne : ls ≠ []) (hr : ¬ (Token.headKind r).Extends least) :
    Completes x ls least r := by
  intro depth c heof hc hlen
  -- Without depth there would be no token either, but there is one.
  cases depth with
  | zero =>
      have hpos := length_pos_of_lexemes hc hne
      omega
  | succ depth =>
      obtain ⟨steps, c', hreads, -, hclimb⟩ := h depth c heof hc hlen
      refine ⟨c', hreads, ?_⟩
      rw [hclimb]
      refine climb_of_not_extends ?_ steps
      rwa [kind_eq_headKind (hreads.eof ▸ heof), hreads.lexemes_eq hc]

/-! ### First operands -/

/-- An operand of one token that holds no expression. -/
theorem Enters.leaf {x : Operand} {k : Token.Kind} {text : Text}
    (h : ∀ (inner : InnerReader) (c : Cursor), (c.peek 0).kind = k → (c.peek 0).text = text →
      primary inner c = .ok (x, c.consume)) (least : Nat) (r : List Lexeme) :
    Enters x [⟨k, text⟩] least r := by
  refine .of_primary (fun depth c _ hc _ => ?_) least
  exact ⟨c.consume, (reads_of_lexemes hc).1, h _ c (kind_of_lexemes hc) (text_of_lexemes hc)⟩

/-- A number comes to the loop if its literal is no character in quotes and its value fits. -/
theorem Enters.number {literal : Text} (unquoted : literal.head? ≠ some '\'')
    (fits : (Operand.decode literal).2 < Numeral.limit) (least : Nat) (r : List Lexeme) :
    Enters (.number (Operand.decode literal).2 (Operand.decode literal).1 literal)
      [⟨.number, literal⟩] least r := by
  refine .leaf (fun inner c hkind htext => ?_) least r
  rw [primary_eq_number inner hkind, number_eq, htext, if_neg unquoted, if_pos fits]
  rfl

/-- A character in quotes is text. -/
theorem Enters.character {text : Text} (quoted : text.head? = some '\'') (least : Nat)
    (r : List Lexeme) : Enters (.string text) [⟨.number, text⟩] least r := by
  refine .leaf (fun inner c hkind htext => ?_) least r
  rw [primary_eq_number inner hkind, number_eq, htext, if_pos quoted]
  rfl

/-- A string comes to the loop, whatever follows it. -/
theorem Enters.string (text : Text) (least : Nat) (r : List Lexeme) :
    Enters (.string text) [⟨.string, text⟩] least r := by
  refine .leaf (fun inner c hkind htext => ?_) least r
  simp [primary, Operand.prefixOp?, hkind, htext]

/-- The name of a device comes to the loop, whatever follows it. -/
theorem Enters.chipId (text : Text) (least : Nat) (r : List Lexeme) :
    Enters (.chipId text) [⟨.chipId, text⟩] least r := by
  refine .leaf (fun inner c hkind htext => ?_) least r
  simp [primary, Operand.prefixOp?, hkind, htext]

/-- The program counter comes to the loop, whatever follows it. -/
theorem Enters.programCounter (least : Nat) (r : List Lexeme) :
    Enters .programCounter [Token.Kind.programCounter.lexeme] least r := by
  refine .leaf (fun inner c hkind _ => ?_) least r
  simp [primary, Operand.prefixOp?, hkind]

/-- A name that is no keyword is an operand. -/
theorem Enters.identifier {name : Text} (hk : UnaryOp.keyword? name = none) (least : Nat)
    (r : List Lexeme) : Enters (.identifier name) [⟨.identifier, name⟩] least r := by
  refine .leaf (fun inner c hkind htext => ?_) least r
  simp [primary, Operand.prefixOp?, hkind, htext, hk]

/-- An operand in parentheses is read as the operand, at the lowest power. -/
theorem primary_group {inner : InnerReader} {x : Operand} {c c' : Cursor}
    (hk : c.kind = .openParen) (h : inner 0 c.consume = .ok (x, c'))
    (hk' : c'.kind = .closeParen) : primary inner c = .ok (x, c'.consume) := by
  have hkind : (c.peek 0).kind = .openParen := hk
  simp [primary, Operand.prefixOp?, hkind, h, expect, hk', advance, bind, Except.bind]
  rfl

/-- A prefix operator takes what it takes at its own power. -/
theorem primary_unary {inner : InnerReader} {op : UnaryOp} {x : Operand} {c c' : Cursor}
    (hop : Operand.prefixOp? (c.peek 0) = some op)
    (h : inner op.operandPower c.consume = .ok (x, c')) :
    primary inner c = .ok (.unary op (c.peek 0).text x, c') := by
  simp [primary, hop, h, bind, Except.bind]
  rfl

/-- An expression in parentheses. -/
theorem Enters.group {x : Operand} {ls r : List Lexeme}
    (h : Completes x ls 0 (Token.Kind.closeParen.lexeme :: r)) (least : Nat) :
    Enters x (Token.Kind.openParen.lexeme :: ls ++ [Token.Kind.closeParen.lexeme]) least r := by
  refine .of_primary (fun depth c heof hc hlen => ?_) least
  rw [List.cons_append, List.cons_append, List.append_assoc] at hc
  obtain ⟨hopen, -⟩ := reads_of_lexemes hc
  have hinner := hopen.tail_eq hc
  have hdepth : c.consume.rest.length ≤ depth := by
    have := hopen.length_succ
    omega
  obtain ⟨c₁, hreads, hok⟩ := h depth c.consume (hopen.eof ▸ heof) hinner hdepth
  have hleft := hreads.lexemes_eq hinner
  obtain ⟨hclose, -⟩ := reads_of_lexemes hleft
  exact ⟨c₁.consume, hopen.cons (hreads.append hclose),
    primary_group (kind_of_lexemes hc) hok (kind_of_lexemes hleft)⟩

/-- A prefix operator and its operand. -/
theorem Enters.unary {op : UnaryOp} {l : Lexeme} {x : Operand} {ls r : List Lexeme}
    (hop : ∀ token : Token, token.lexeme = l → Operand.prefixOp? token = some op)
    (h : Completes x ls op.operandPower r) (least : Nat) :
    Enters (.unary op l.text x) (l :: ls) least r := by
  refine .of_primary (fun depth c heof hc hlen => ?_) least
  obtain ⟨hhead, hpeek⟩ := reads_of_lexemes hc
  have hdepth : c.consume.rest.length ≤ depth := by
    have := hhead.length_succ
    omega
  obtain ⟨c', hreads, hok⟩ :=
    h depth c.consume (hhead.eof ▸ heof) (hhead.tail_eq hc) hdepth
  exact ⟨c', hhead.cons hreads, text_of_lexemes hc ▸ primary_unary (hop _ hpeek) hok⟩

/-- A pound sign and a name. -/
theorem Enters.pound (name : Text) (least : Nat) (r : List Lexeme) :
    Enters (.unary .pound UnaryOp.pound.lexeme (.identifier name))
      [Token.Kind.pound.lexeme, ⟨.identifier, name⟩] least r := by
  refine .of_primary (fun depth c heof hc hlen => ?_) least
  obtain ⟨hpound, hpeek⟩ := reads_of_lexemes hc
  have hleft := hpound.tail_eq hc
  obtain ⟨hname, hpeek'⟩ := reads_of_lexemes hleft
  refine ⟨c.consume.consume, hpound.cons hname, ?_⟩
  have hkind : (c.peek 0).kind = .pound := congrArg Lexeme.kind hpeek
  have htext : (c.peek 0).text = UnaryOp.pound.lexeme := congrArg Lexeme.text hpeek
  have htext' : (c.consume.peek 0).text = name := congrArg Lexeme.text hpeek'
  have hexpect : c.consume.expect .identifier = _ := expect_of_lexemes hleft
  simp [primary, Operand.prefixOp?, hkind, htext, htext', hexpect, bind, Except.bind]
  rfl

/-! ### One turn of the loop -/

/-- A turn of the loop that reads the tokens `ms` and makes `y` of `x`. -/
theorem Enters.turn {x y : Operand} {ls ms r : List Lexeme} {least : Nat}
    (h : Enters x ls least (ms ++ r)) (hne : ms ≠ [])
    (hturn : ∀ (depth steps : Nat) (c : Cursor), c.eof.kind = .eof → c.lexemes = ms ++ r →
      c.rest.length ≤ depth + 1 →
      ∃ c', Reads c ms c' ∧ climb (expressionWithin depth) (steps + 1) least x c
        = climb (expressionWithin depth) steps least y c') :
    Enters y (ls ++ ms) least r := by
  intro depth c heof hc hlen
  rw [List.append_assoc] at hc
  obtain ⟨steps, c₁, hreads, hsteps, hclimb⟩ := h depth c heof hc hlen
  have hleft := hreads.lexemes_eq hc
  -- A turn takes at least one token, so there is a step for it and there are steps enough for
  -- what is left.
  have hturns := length_pos_of_lexemes hleft hne
  have hpos : 0 < ms.length := List.length_pos_iff.mpr hne
  have hlen₁ := hreads.length
  cases steps with
  | zero => omega
  | succ steps =>
      obtain ⟨c', hreads', hstep⟩ :=
        hturn depth steps c₁ (hreads.eof ▸ heof) hleft (by omega)
      have hlen' := hreads'.length
      exact ⟨steps, c', hreads.append hreads', by omega, hclimb.trans hstep⟩

/-- A step operator behind its operand. -/
theorem Enters.stepped {op : StepOp} {x : Operand} {ls r : List Lexeme} {least : Nat}
    (h : Enters x ls least ((Token.Kind.step op).lexeme :: r))
    (hle : least ≤ Power.postfixed) :
    Enters (.stepped op x) (ls ++ [(Token.Kind.step op).lexeme]) least r := by
  refine h.turn (List.cons_ne_nil _ []) fun depth steps c heof hc _ => ?_
  refine ⟨c.consume, (reads_of_lexemes hc).1, ?_⟩
  have hkind : c.kind = .step op := kind_of_lexemes hc
  rw [climb, hkind]
  exact if_neg (Nat.not_lt_of_le hle)

/-- An operator between two operands and its right side. -/
theorem Enters.joined {k : Token.Kind} {x y : Operand} {join : Operand → Operand → Operand}
    {ls ms r : List Lexeme} {least rightPower : Nat}
    (h : Enters x ls least (k.lexeme :: ms ++ r)) (hright : Completes y ms rightPower r)
    (hk : ∀ (inner : InnerReader) (steps : Nat) (c : Cursor), c.kind = k →
      climb inner (steps + 1) least x c = (do
        let (right, c) ← inner rightPower c.consume
        climb inner steps least (join x right) c)) :
    Enters (join x y) (ls ++ k.lexeme :: ms) least r := by
  refine Enters.turn h (by simp) fun depth steps c heof hc hlen => ?_
  obtain ⟨hhead, -⟩ := reads_of_lexemes hc
  -- The operator is one token less ahead, so the right side may be read one level deeper.
  have hdepth : c.consume.rest.length ≤ depth := by
    have := hhead.length_succ
    omega
  obtain ⟨c', hreads, hok⟩ :=
    hright depth c.consume (hhead.eof ▸ heof) (hhead.tail_eq hc) hdepth
  refine ⟨c', hhead.cons hreads, ?_⟩
  rw [hk _ steps c (kind_of_lexemes hc), hok]
  rfl

/-- A binary operator that binds tightly enough makes its two sides one operand, and the loop goes
on behind it. Its right side is read at the next higher power, so it groups to the left. -/
theorem Enters.binary {op : BinaryOp} {x y : Operand} {ls ms r : List Lexeme} {least : Nat}
    (h : Enters x ls least ((Token.Kind.binary op).lexeme :: ms ++ r)) (hle : least ≤ op.power)
    (hright : Completes y ms (op.power + 1) r) :
    Enters (.binary op x y) (ls ++ (Token.Kind.binary op).lexeme :: ms) least r :=
  h.joined hright fun inner steps c hk => by
    rw [climb, hk]
    exact if_neg (Nat.not_lt_of_le hle)

/-- An assignment makes its two sides one operand. Its right side is read at the same power, so it
groups to the right. -/
theorem Enters.assign {op : AssignOp} {x y : Operand} {ls ms r : List Lexeme} {least : Nat}
    (h : Enters x ls least ((Token.Kind.assign op).lexeme :: ms ++ r))
    (hle : least ≤ Power.assignment) (hright : Completes y ms Power.assignment r) :
    Enters (.assign op x y) (ls ++ (Token.Kind.assign op).lexeme :: ms) least r :=
  h.joined hright fun inner steps c hk => by
    rw [climb, hk]
    exact if_neg (Nat.not_lt_of_le hle)

end Cursor

end PicAssembly
