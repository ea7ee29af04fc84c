import PicAssembly.Proofs.Operand.Rows

/-!
# `PicAssembly.Proofs.Operand.RoundTrip`: the reader gives back the printed operand

`enters_lexemes` and `standalone_lexemes`: from the tokens of a well-formed operand the
reader builds the operand again. This is the statement about the parentheses of the printer.

What an operand must be told about its surroundings is how tightly it binds on either side.
On the left that is `Operand.power`, on the right `Operand.edge?`: the power at which its
last part was read, if that part can still grow. An operand without parentheses is safe
before an operator that binds looser than its edge, and `power_le_of_mem_edge?` is why the
printer gets along with the power alone.
-/

set_option autoImplicit false

namespace PicAssembly

open Token (Lexeme headKind)

namespace Operand

open Cursor (Enters Completes Standalone)

/-- The power at which the last part of an operand is read, if it ends in a part that a
following operator could take. -/
def edge? : Operand → Option Nat
  | .binary op _ _ => some (op.power + 1)
  | .assign .. => some Power.assignment
  | .unary op _ _ => some op.operandPower
  | _ => none

/-- An operand binds at least as tightly on the right as on the left. -/
theorem power_le_of_mem_edge? {x : Operand} {e : Nat} (h : e ∈ x.edge?) : x.power ≤ e := by
  cases x with
  | binary op l r =>
      cases h
      exact Nat.le_succ _
  | assign op l r =>
      cases h
      exact Nat.le_refl _
  | unary op s x =>
      cases h
      exact Nat.le_refl _
  | _ => cases h

/-- Operands with an edge bind looser than a step operator. -/
theorem power_lt_postfixed {x : Operand} {e : Nat} (h : e ∈ x.edge?) :
    x.power < Power.postfixed := by
  cases x with
  | binary op l r =>
      show op.power < Power.postfixed
      cases op <;> decide
  | assign op l r =>
      show Power.assignment < Power.postfixed
      decide
  | unary op s x =>
      show op.operandPower < Power.postfixed
      cases op <;> simp [UnaryOp.operandPower, Power.unary, Power.postfixed]
  | _ => cases h

/-- An operand that needs no parentheses before a binary operator is not extended by it. -/
theorem power_lt_edge {x : Operand} {op : BinaryOp} {e : Nat} (h : e ∈ x.edge?)
    (hle : op.power ≤ x.power) : op.power < e := by
  -- A binary operator has not the power of an assignment, and binds tighter than the operand of a
  -- step operator, which may be anything.
  have hop : 0 < op.power ∧ op.power < Power.unary ∧ op.power ≠ Power.assignment := by
    cases op <;> decide
  have he := power_le_of_mem_edge? h
  cases x with
  | binary op' l r =>
      cases h
      exact Nat.lt_succ_of_le hle
  | assign op' l r => exact Nat.lt_of_le_of_ne (Nat.le_trans hle he) (by cases h; exact hop.2.2)
  | unary op' s x =>
      cases h
      cases op' with
      | step op' => exact absurd hle (Nat.not_le_of_lt hop.1)
      | _ => exact hop.2.1
  | _ => cases h

/-- The tokens of the operand lead the reader to the loop behind it, before everything that
does not extend its edge. -/
def Resumes (x : Operand) : Prop :=
  ∀ (least : Nat) (r : List Lexeme), least ≤ x.power →
    (∀ e ∈ x.edge?, ¬ (headKind r).Extends e) → Enters x x.lexemes least r

/-- Every operand begins with the beginning of one. -/
theorem beginsOperand_lexemes {x : Operand} (h : WellFormed x) :
    (headKind x.lexemes).BeginsOperand := by
  induction h with
  | @string text h =>
      show Token.Kind.BeginsOperand (if text.head? = some '"' then .string else .number)
      split <;> simp [Token.Kind.BeginsOperand]
  | @unary op _ _ hop hs _ _ =>
      show Token.Kind.BeginsOperand op.tokenKind
      cases op <;> simp [Token.Kind.BeginsOperand, UnaryOp.tokenKind]
  | stepped _ ih => exact beginsOperand_groupedLexemes ih _ _
  | binary _ _ ihl _ => exact beginsOperand_groupedLexemes ihl _ _
  | assign _ _ ihl _ => exact beginsOperand_groupedLexemes ihl _ _
  | _ => simp [Token.Kind.BeginsOperand, lexemes, headKind, UnaryOp.tokenKind]

/-- In parentheses an operand meets nothing that could extend it. -/
theorem Resumes.enters {x : Operand} (h : Resumes x) (hb : (headKind x.lexemes).BeginsOperand)
    {wrap : Bool} {least : Nat} {r : List Lexeme} (hp : wrap = false → least ≤ x.power)
    (hr : wrap = false → ∀ e ∈ x.edge?, ¬ (headKind r).Extends e) :
    Enters x (groupedLexemes wrap x.lexemes) least r := by
  cases wrap with
  | false => exact h least r (hp rfl) (hr rfl)
  | true =>
      have hinner := h 0 (Token.Kind.closeParen.lexeme :: r) (Nat.zero_le _) fun _ _ hx => hx
      exact .group (hinner.completes (Token.ne_nil_of_beginsOperand hb) fun hx => hx) least

/-- At the end of an expression the power alone decides about parentheses. -/
theorem Resumes.completes {x : Operand} (h : Resumes x)
    (hb : (headKind x.lexemes).BeginsOperand) (wrap : Bool) {least : Nat} {r : List Lexeme}
    (hp : wrap = false → least ≤ x.power) (hr : ¬ (headKind r).Extends least) :
    Completes x (groupedLexemes wrap x.lexemes) least r := by
  have hedge : wrap = false → ∀ e ∈ x.edge?, ¬ (headKind r).Extends e := fun hw e he hx =>
    hr (hx.mono (Nat.le_trans (hp hw) (power_le_of_mem_edge? he)))
  have hne : groupedLexemes wrap x.lexemes ≠ [] := by
    have hbegins := beginsOperand_groupedLexemes hb wrap []
    rw [List.append_nil] at hbegins
    exact Token.ne_nil_of_beginsOperand hbegins
  exact (h.enters hb hp hedge).completes hne hr

/-- The tokens of an operand that may be extended at power zero are read as it. -/
theorem Resumes.standalone {x : Operand} (h : Resumes x)
    (hb : (headKind x.lexemes).BeginsOperand) : Standalone x x.lexemes :=
  ⟨hb, fun _ hr => h.completes hb false (fun _ => Nat.zero_le _) hr⟩

/-- A prefix operator is told by its token. -/
theorem prefixOp?_of_isSpelling {op : UnaryOp} {spelling : Text} (hop : op ≠ .pound)
    (hs : op.IsSpelling spelling) (token : Token)
    (ht : token.lexeme = ⟨op.tokenKind, spelling⟩) : prefixOp? token = some op := by
  obtain ⟨kind, text, line, column⟩ := token
  cases ht
  cases op with
  | pound => exact absurd rfl hop
  | high => exact hs
  | low => exact hs
  | upper => exact hs
  | _ => rfl

/-- The tokens of a well-formed operand lead the reader to the loop behind it. -/
theorem resumes {x : Operand} (h : WellFormed x) : Resumes x := by
  induction h with
  | @number value radix literal _ unquoted decodes fits =>
      intro least r _ _
      have hvalue : (decode literal).2 = value := congrArg Prod.snd decodes
      have hnumber := Enters.number unquoted (hvalue ▸ fits) least r
      rwa [decodes] at hnumber
  | @string text h =>
      intro least r _ _
      rcases h with ⟨body, -, rfl⟩ | ⟨ch, rfl⟩
      · exact .string _ least r
      · exact .character rfl least r
  | chipId _ => exact fun least r _ _ => .chipId _ least r
  | programCounter => exact fun least r _ _ => .programCounter least r
  | identifier _ hk => exact fun least r _ _ => .identifier hk least r
  | pound _ => exact fun least r _ _ => .pound _ least r
  | @unary op spelling x hop hs h ih =>
      intro least r _ hr
      refine .unary (l := ⟨op.tokenKind, spelling⟩) (prefixOp?_of_isSpelling hop hs) ?_ least
      -- A step operator needs no parentheses behind it, since it takes operators of every power.
      refine ih.completes (beginsOperand_lexemes h) _ (fun hw => ?_) (hr _ rfl)
      cases op with
      | step op => exact Nat.zero_le _
      | _ => exact Nat.le_of_not_lt (of_decide_eq_false hw)
  | @stepped op x h ih =>
      intro least r hle _
      -- Without parentheses the operand binds tighter than every operand with an edge.
      have htight : (decide (x.power < Power.postfixed)) = false → Power.postfixed ≤ x.power :=
        fun hw => Nat.le_of_not_lt (of_decide_eq_false hw)
      exact .stepped (ih.enters (beginsOperand_lexemes h) (fun hw => Nat.le_trans hle (htight hw))
        fun hw e he _ => absurd (power_lt_postfixed he) (Nat.not_lt_of_le (htight hw))) hle
  | @binary op left right hl hr ihl ihr =>
      intro least r hle hedge
      -- The operator must not extend the left operand. The right one is read at a higher power
      -- than the operator's, which is also the edge of the whole.
      have hleft : (decide (left.power < op.power)) = false → op.power ≤ left.power :=
        fun hw => Nat.le_of_not_lt (of_decide_eq_false hw)
      have hright : (decide (right.power ≤ op.power)) = false → op.power + 1 ≤ right.power :=
        fun hw => Nat.lt_of_not_le (of_decide_eq_false hw)
      exact .binary
        (ihl.enters (beginsOperand_lexemes hl) (fun hw => Nat.le_trans hle (hleft hw))
          fun hw e he hx => absurd hx (Nat.not_le_of_lt (power_lt_edge he (hleft hw))))
        hle (ihr.completes (beginsOperand_lexemes hr) _ hright (hedge _ rfl))
  | @assign op left right hl hr ihl ihr =>
      intro least r hle hedge
      -- Here the right operand is read at the operator's own power, so it is the left one that
      -- must bind tighter.
      have hleft : (decide (left.power ≤ Power.assignment)) = false →
          Power.assignment < left.power :=
        fun hw => Nat.lt_of_not_le (of_decide_eq_false hw)
      have hright : (decide (right.power < Power.assignment)) = false →
          Power.assignment ≤ right.power :=
        fun hw => Nat.le_of_not_lt (of_decide_eq_false hw)
      exact .assign
        (ihl.enters (beginsOperand_lexemes hl)
          (fun hw => Nat.le_trans hle (Nat.le_of_lt (hleft hw)))
          fun hw e he hx =>
            absurd hx (Nat.not_le_of_lt (Nat.lt_of_lt_of_le (hleft hw) (power_le_of_mem_edge? he))))
        hle (ihr.completes (beginsOperand_lexemes hr) _ hright (hedge _ rfl))
  | @call name args hn hk hargs ih =>
      intro least r _ _
      have hpairs : ∀ p ∈ args.map fun arg => (arg, arg.lexemes), Standalone p.1 p.2 := by
        intro p hp
        obtain ⟨arg, harg, rfl⟩ := List.mem_map.mp hp
        exact (ih arg harg).standalone (beginsOperand_lexemes (hargs arg harg))
      have hcall := Enters.call (Enters.identifier hk least _) hpairs (r := r)
      simpa [lexemes, lexemesAll_eq_map, Function.comp_def] using hcall

/-- The tokens of a well-formed operand are read as it. -/
theorem standalone_lexemes {x : Operand} (h : WellFormed x) : Standalone x x.lexemes :=
  (resumes h).standalone (beginsOperand_lexemes h)

end Operand

end PicAssembly
