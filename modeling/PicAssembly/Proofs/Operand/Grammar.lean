import PicAssembly.Proofs.Operand.Reading
import PicAssembly.Proofs.Operand.RoundTrip

/-!
# `PicAssembly.Proofs.Operand.Grammar`: the language of the reader of operands

`Operand.Derives` is the grammar of operands as one would write it down, without precedences
and ambiguous. `parse_isOk_iff_derives` says that the reader accepts just that language: to
leave an operator to the caller, or to take everything behind a step operator, never loses a
derivation.

One direction is `derives_of_spells`, by the soundness of the reader. For the other the
grammar is turned into one that is read from left to right, in `Opens` and `Follows`: what
may come where an operand is expected, and what may come behind one. A derivation is such a
reading whatever is behind it (`Derives.opens`), and the reader goes along with it at every
power (`accepts_expressionWithin`).
-/

set_option autoImplicit false

namespace PicAssembly

open Token (Lexeme headKind)

namespace Operand

/-- What can be called: a name that is no keyword, in any number of parentheses. -/
inductive Callee : List Lexeme → Prop where
  | name {name : Text} (hk : UnaryOp.keyword? name = none) : Callee [⟨.identifier, name⟩]
  | group {ls : List Lexeme} (h : Callee ls) :
      Callee (Token.Kind.openParen.lexeme :: ls ++ [Token.Kind.closeParen.lexeme])

/-- The grammar of operands. -/
inductive Derives : List Lexeme → Prop where
  | number (text : Text) : Derives [⟨.number, text⟩]
  | chipId (text : Text) : Derives [⟨.chipId, text⟩]
  | string (text : Text) : Derives [⟨.string, text⟩]
  | programCounter : Derives [Token.Kind.programCounter.lexeme]
  | identifier {name : Text} (hk : UnaryOp.keyword? name = none) :
      Derives [⟨.identifier, name⟩]
  | pound (name : Text) : Derives [Token.Kind.pound.lexeme, ⟨.identifier, name⟩]
  | stepped {ls : List Lexeme} (h : Derives ls) (op : StepOp) :
      Derives (ls ++ [(Token.Kind.step op).lexeme])
  | binary {ls ms : List Lexeme} (hx : Derives ls) (op : BinaryOp) (hy : Derives ms) :
      Derives (ls ++ (Token.Kind.binary op).lexeme :: ms)
  | assign {ls ms : List Lexeme} (hx : Derives ls) (op : AssignOp) (hy : Derives ms) :
      Derives (ls ++ (Token.Kind.assign op).lexeme :: ms)
  | unary {op : UnaryOp} {spelling : Text} {ls : List Lexeme} (hop : op ≠ .pound)
      (hs : op.IsSpelling spelling) (h : Derives ls) : Derives (⟨op.tokenKind, spelling⟩ :: ls)
  | call {ls : List Lexeme} {args : List (List Lexeme)} (hc : Callee ls)
      (hargs : ∀ ms ∈ args, Derives ms) :
      Derives (ls ++ (Token.Kind.openParen.lexeme :: commaSeparated args ++
        [Token.Kind.closeParen.lexeme]))
  | group {ls : List Lexeme} (h : Derives ls) :
      Derives (Token.Kind.openParen.lexeme :: ls ++ [Token.Kind.closeParen.lexeme])

/-! ### What is read is derived -/

/-- What spells a name can be called. -/
theorem callee_of_spells {name : Text} {ls : List Lexeme} (h : Spells (.identifier name) ls) :
    Callee ls := by
  generalize hx : Operand.identifier name = x at h
  induction h with
  | identifier hk => exact .name hk
  | group h ih => exact .group (ih hx)
  | _ => cases hx

/-- What spells an operand is derived. -/
theorem derives_of_spells {x : Operand} {ls : List Lexeme} (h : Spells x ls) : Derives ls := by
  induction h with
  | number _ _ => exact .number _
  | character _ => exact .number _
  | string _ => exact .string _
  | chipId text => exact .chipId text
  | programCounter => exact .programCounter
  | identifier hk => exact .identifier hk
  | group _ ih => exact .group ih
  | pound name => exact .pound name
  | unary hop hs _ ih => exact .unary hop hs ih
  | stepped _ ih => exact .stepped ih _
  | binary _ _ ihx ihy => exact .binary ihx _ ihy
  | assign _ _ ihx ihy => exact .assign ihx _ ihy
  | call hname _ _ ihargs =>
      refine .call (callee_of_spells hname) fun ms hms => ?_
      obtain ⟨p, hp, rfl⟩ := List.mem_map.mp hms
      exact ihargs p hp

/-! ### The grammar from left to right -/

mutual

/-- What may stand where an operand is expected, if `r` is to be left in the end. -/
inductive Opens : (r ts : List Lexeme) → Prop where
  | number {r us : List Lexeme} (text : Text) (h : Follows false r us) :
      Opens r (⟨.number, text⟩ :: us)
  | chipId {r us : List Lexeme} (text : Text) (h : Follows false r us) :
      Opens r (⟨.chipId, text⟩ :: us)
  | string {r us : List Lexeme} (text : Text) (h : Follows false r us) :
      Opens r (⟨.string, text⟩ :: us)
  | programCounter {r us : List Lexeme} (h : Follows false r us) :
      Opens r (Token.Kind.programCounter.lexeme :: us)
  | pound {r us : List Lexeme} (name : Text) (h : Follows false r us) :
      Opens r (Token.Kind.pound.lexeme :: ⟨.identifier, name⟩ :: us)
  | unary {op : UnaryOp} {spelling : Text} {r us : List Lexeme} (hop : op ≠ .pound)
      (hs : op.IsSpelling spelling) (h : Opens r us) : Opens r (⟨op.tokenKind, spelling⟩ :: us)
  | callee {ls r us : List Lexeme} (hc : Callee ls) (h : Follows true r us) : Opens r (ls ++ us)
  | group {r us ts : List Lexeme} (h : Opens (Token.Kind.closeParen.lexeme :: us) ts)
      (hr : Follows false r us) : Opens r (Token.Kind.openParen.lexeme :: ts)

/-- What may stand behind an operand, which may be called or not, if `r` is to be left. -/
inductive Follows : (callable : Bool) → (r us : List Lexeme) → Prop where
  | done (callable : Bool) (r : List Lexeme) : Follows callable r r
  | stepped {callable : Bool} {r us : List Lexeme} (op : StepOp) (h : Follows false r us) :
      Follows callable r ((Token.Kind.step op).lexeme :: us)
  | binary {callable : Bool} {r us : List Lexeme} (op : BinaryOp) (h : Opens r us) :
      Follows callable r ((Token.Kind.binary op).lexeme :: us)
  | assign {callable : Bool} {r us : List Lexeme} (op : AssignOp) (h : Opens r us) :
      Follows callable r ((Token.Kind.assign op).lexeme :: us)
  | call {r us ts : List Lexeme} (hargs : OpensArguments us ts) (h : Follows false r us) :
      Follows true r (Token.Kind.openParen.lexeme :: ts)

/-- What may stand behind the opening parenthesis of a call, if `us` is to be left. -/
inductive OpensArguments : (us ts : List Lexeme) → Prop where
  | none (us : List Lexeme) : OpensArguments us (Token.Kind.closeParen.lexeme :: us)
  | some {us ts : List Lexeme} (h : OpensArgument us ts) : OpensArguments us ts

/-- What may stand where an argument is expected, if `us` is to be left behind the call. -/
inductive OpensArgument : (us ts : List Lexeme) → Prop where
  | last {us ts : List Lexeme} (h : Opens (Token.Kind.closeParen.lexeme :: us) ts) :
      OpensArgument us ts
  | more {us vs ts : List Lexeme} (h : Opens (Token.Kind.comma.lexeme :: vs) ts)
      (hvs : OpensArgument us vs) : OpensArgument us ts

end

/-- What can be called begins an operand in a row: a name does, and a parenthesis does. -/
theorem Callee.beginsOperand {ls : List Lexeme} (h : Callee ls) :
    (headKind ls).BeginsOperand := by
  cases h <;> simp [headKind, Token.Kind.BeginsOperand]

/-- What is expected to be an operand begins like one. -/
theorem Opens.beginsOperand {r ts : List Lexeme} (h : Opens r ts) :
    (headKind ts).BeginsOperand := by
  cases h with
  | @unary op =>
      show Token.Kind.BeginsOperand op.tokenKind
      cases op <;> simp [Token.Kind.BeginsOperand, UnaryOp.tokenKind]
  | callee hc _ =>
      rw [Token.headKind_append hc.beginsOperand]
      exact hc.beginsOperand
  | _ => simp [headKind, Token.Kind.BeginsOperand]

/-- Whatever can follow can follow a name. -/
theorem Follows.weaken {r us : List Lexeme} (h : Follows false r us) (callable : Bool) :
    Follows callable r us := by
  cases h with
  | done => exact .done _ _
  | stepped op h => exact .stepped op h
  | binary op h => exact .binary op h
  | assign op h => exact .assign op h

/-- All that only a name can have behind it is an opening parenthesis. -/
theorem Follows.unname {callable : Bool} {r us : List Lexeme} (h : Follows callable r us)
    {least : Nat} (hk : ¬ (headKind us).Extends least) : Follows false r us := by
  cases h with
  | done => exact .done _ _
  | stepped op h => exact .stepped op h
  | binary op h => exact .binary op h
  | assign op h => exact .assign op h
  | call hargs h => exact absurd trivial hk

/-- Behind a whole expression there is only what is to be left. -/
theorem Follows.eq_of_not_extends {callable : Bool} {r us : List Lexeme} (h : Follows callable r us)
    (hk : ¬ (headKind us).Extends 0) : us = r := by
  cases h with
  | done => rfl
  | stepped op h => exact absurd (Nat.zero_le _) hk
  | binary op h => exact absurd (Nat.zero_le _) hk
  | assign op h => exact absurd (Nat.zero_le _) hk
  | call hargs h => exact absurd trivial hk

/-- Arguments that can be read one by one can be read in a row. -/
theorem opensArguments_of_opens {args : List (List Lexeme)}
    (h : ∀ ms ∈ args, ∀ r us, Follows false r us → Opens r (ms ++ us)) (us : List Lexeme) :
    OpensArguments us (commaSeparated args ++ Token.Kind.closeParen.lexeme :: us) := by
  cases args with
  | nil => exact .none us
  | cons ms args =>
      -- The first argument is told apart from the rest, and the rest may be missing.
      refine .some ?_
      induction args generalizing ms with
      | nil =>
          rw [commaSeparated_singleton]
          exact .last (h ms (by simp) _ _ (.done _ _))
      | cons ms' args ih =>
          rw [commaSeparated_cons_cons, List.append_assoc, List.cons_append]
          exact .more (h ms (by simp) _ _ (.done _ _))
            (ih ms' fun ms₁ hms₁ => h ms₁ (List.mem_cons_of_mem _ hms₁))

/-- A derivation can be read from left to right, whatever may follow it. -/
theorem Derives.opens {ls : List Lexeme} (h : Derives ls) :
    ∀ r us, Follows false r us → Opens r (ls ++ us) := by
  -- The text behind is variable, so that an operator and its right side can stand behind the left
  -- one.
  induction h with
  | number text => exact fun r us hf => .number text hf
  | chipId text => exact fun r us hf => .chipId text hf
  | string text => exact fun r us hf => .string text hf
  | programCounter => exact fun r us hf => .programCounter hf
  | identifier hk => exact fun r us hf => .callee (.name hk) (hf.weaken true)
  | pound name => exact fun r us hf => .pound name hf
  | stepped _ op ih =>
      intro r us hf
      rw [List.append_assoc]
      exact ih r _ (.stepped op hf)
  | binary _ op _ ihx ihy =>
      intro r us hf
      rw [List.append_assoc]
      exact ihx r _ (.binary op (ihy r us hf))
  | assign _ op _ ihx ihy =>
      intro r us hf
      rw [List.append_assoc]
      exact ihx r _ (.assign op (ihy r us hf))
  | unary hop hs _ ih => exact fun r us hf => .unary hop hs (ih r us hf)
  | call hc _ ihargs =>
      intro r us hf
      rw [List.append_assoc, List.cons_append, List.cons_append, List.append_assoc]
      exact .callee hc (.call (opensArguments_of_opens ihargs us) hf)
  | group _ ih =>
      intro r us hf
      rw [List.cons_append, List.cons_append, List.append_assoc]
      exact .group (ih _ _ (.done _ _)) hf

/-- The numbers among some tokens fit in a word of 64 bits. Characters in quotes do. -/
def NumbersFit (ls : List Lexeme) : Prop :=
  ∀ l ∈ ls, l.kind = .number → l.text.head? ≠ some '\'' → (decode l.text).2 < Numeral.limit

instance : DecidablePred NumbersFit := fun ls =>
  inferInstanceAs (Decidable (∀ l ∈ ls, l.kind = .number → l.text.head? ≠ some '\'' →
    (decode l.text).2 < Numeral.limit))

end Operand

namespace Cursor

open Operand (Callee Derives Follows NumbersFit Opens OpensArgument OpensArguments)

/-- What the reader can rely on ahead of it: the numbers fit, and so many tokens are left. -/
structure Within (c : Cursor) (depth : Nat) : Prop where
  eof : c.eof.kind = .eof
  fit : NumbersFit c.lexemes
  length : c.rest.length ≤ depth

/-- Reading leaves less to read. -/
theorem Within.of_reads {c c' : Cursor} {depth depth' : Nat} {ls : List Lexeme}
    (h : c.Within depth) (hreads : Reads c ls c') (hle : depth ≤ depth' + ls.length) :
    c'.Within depth' := by
  refine ⟨hreads.eof ▸ h.eof, fun l hl => h.fit l ?_, ?_⟩
  · rw [hreads.lexemes]
    exact List.mem_append_right ls hl
  · have := hreads.length
    have := h.length
    omega

/-- The inner reader accepts every expression of at most `depth` tokens, and at every power
it leaves only what an expression of that power does not go on with. -/
def Accepts (inner : InnerReader) (depth : Nat) : Prop :=
  ∀ (least : Nat) (c : Cursor) (r : List Lexeme), c.Within depth → ¬ (headKind r).Extends 0 →
    Opens r c.lexemes →
    ∃ x c' ls, inner least c = .ok (x, c') ∧ Reads c ls c' ∧ Follows false r c'.lexemes ∧
      ¬ (headKind c'.lexemes).Extends least

/-- An expression that may take every operator is read to its end. -/
theorem Accepts.reads_all {inner : InnerReader} {depth : Nat} (h : Accepts inner depth)
    {c : Cursor} {r : List Lexeme} (hc : c.Within depth) (hr : ¬ (headKind r).Extends 0)
    (hopens : Opens r c.lexemes) :
    ∃ x c' ls, inner 0 c = .ok (x, c') ∧ Reads c ls c' ∧ c'.lexemes = r := by
  obtain ⟨x, c', ls, hok, hreads, hfollows, hends⟩ := h 0 c r hc hr hopens
  exact ⟨x, c', ls, hok, hreads, hfollows.eq_of_not_extends hends⟩

/-! ### Arguments -/

/-- Where an operand is expected there is a token. -/
theorem length_pos_of_opens {c : Cursor} {r : List Lexeme} (h : Opens r c.lexemes) :
    0 < c.rest.length := by
  rw [← length_lexemes]
  exact List.length_pos_iff.mpr (Token.ne_nil_of_beginsOperand h.beginsOperand)

/-- Where the arguments of a call may stand, they are read, and what is to be left is left. -/
theorem accepts_argumentsFrom {inner : InnerReader} {depth : Nat} (h : Accepts inner depth) :
    ∀ (steps : Nat) (c : Cursor) (us : List Lexeme), c.Within depth → c.rest.length ≤ steps →
      OpensArgument us c.lexemes →
      ∃ args c' ls, argumentsFrom inner steps c = .ok (args, c') ∧ Reads c ls c' ∧
        c'.lexemes = us := by
  intro steps
  induction steps with
  | zero =>
      intro c us _ hsteps hopens
      cases hopens with
      | last hx => exact absurd (length_pos_of_opens hx) (Nat.not_lt_of_le hsteps)
      | more hx _ => exact absurd (length_pos_of_opens hx) (Nat.not_lt_of_le hsteps)
  | succ steps ih =>
      intro c us hc hsteps hopens
      -- The argument is the last one, or more of them follow behind a comma.
      cases hopens with
      | last hx =>
          obtain ⟨x, c₁, ls, hok, hreads, hleft⟩ :=
            h.reads_all (r := Token.Kind.closeParen.lexeme :: us) hc (fun hx => hx) hx
          obtain ⟨hclose, -⟩ := reads_of_lexemes hleft
          have hkind : c₁.kind = .closeParen := kind_of_lexemes hleft
          refine ⟨[x], c₁.consume, _, ?_, hreads.append hclose,
            hclose.tail_eq hleft⟩
          simp [argumentsFrom, hok, hkind, bind, Except.bind]
          rfl
      | more hx hvs =>
          obtain ⟨x, c₁, ls, hok, hreads, hleft⟩ :=
            h.reads_all (r := Token.Kind.comma.lexeme :: _) hc (fun hx => hx) hx
          obtain ⟨hcomma, -⟩ := reads_of_lexemes hleft
          have hkind : c₁.kind = .comma := kind_of_lexemes hleft
          have hboth := hreads.append hcomma
          have hlen := hboth.length
          simp only [List.length_append, List.length_cons, List.length_nil] at hlen
          rw [← hcomma.tail_eq hleft] at hvs
          obtain ⟨args, c', ms, hok', hreads', hus⟩ :=
            ih c₁.consume us (hc.of_reads hboth (Nat.le_add_right _ _)) (by omega) hvs
          refine ⟨x :: args, c', _, ?_, hboth.append hreads', hus⟩
          simp [argumentsFrom, hok, hkind, hok', bind, Except.bind]
          rfl

/-- Where a call may go on behind its opening parenthesis, its arguments are read. -/
theorem accepts_arguments {inner : InnerReader} {depth : Nat} (h : Accepts inner depth)
    {c : Cursor} {us : List Lexeme} (hc : c.Within depth) (hopens : OpensArguments us c.lexemes) :
    ∃ args c' ls, arguments inner c = .ok (args, c') ∧ Reads c ls c' ∧ c'.lexemes = us := by
  generalize hts : c.lexemes = ts at hopens
  cases hopens with
  | none =>
      obtain ⟨hclose, -⟩ := reads_of_lexemes hts
      exact ⟨[], c.consume, _, if_pos (kind_of_lexemes hts), hclose,
        hclose.tail_eq hts⟩
  | some hsome =>
      have hbegins : (headKind ts).BeginsOperand := by
        cases hsome with
        | last hx => exact hx.beginsOperand
        | more hx _ => exact hx.beginsOperand
      -- An operand begins here, so the call is not closed yet.
      have hkind : c.kind ≠ .closeParen := by
        rw [kind_eq_headKind hc.eof, hts]
        exact hbegins.2.1
      obtain ⟨args, c', ls, hok, hreads, hus⟩ :=
        accepts_argumentsFrom h _ c us hc (Nat.le_refl _) (hts ▸ hsome)
      exact ⟨args, c', ls, (if_neg hkind).trans hok, hreads, hus⟩

/-! ### Expressions -/

/-- The loop ends well, at a place where nothing extends the expression and from which what
is to be left can still be reached. -/
def Climbs (inner : InnerReader) (steps least : Nat) (left : Operand) (c : Cursor)
    (r : List Lexeme) : Prop :=
  ∃ x c' ls, climb inner steps least left c = .ok (x, c') ∧ Reads c ls c' ∧
    Follows false r c'.lexemes ∧ ¬ (headKind c'.lexemes).Extends least

/-- The loop ends at once if nothing extends the operand. -/
theorem Climbs.done {inner : InnerReader} {least : Nat} {left : Operand} {c : Cursor}
    {callable : Bool} {r : List Lexeme} (heof : c.eof.kind = .eof)
    (hends : ¬ (headKind c.lexemes).Extends least) (h : Follows callable r c.lexemes)
    (steps : Nat) : Climbs inner steps least left c r := by
  refine ⟨left, c, [], climb_of_not_extends ?_ steps, .refl c, h.unname hends, hends⟩
  rwa [kind_eq_headKind heof]

/-- A turn of the loop before the others. -/
theorem Climbs.turn {inner : InnerReader} {steps least : Nat} {left left' : Operand}
    {c c₁ : Cursor} {ls r : List Lexeme} (hreads : Reads c ls c₁)
    (hstep : climb inner (steps + 1) least left c = climb inner steps least left' c₁)
    (h : Climbs inner steps least left' c₁ r) : Climbs inner (steps + 1) least left c r := by
  obtain ⟨x, c', ms, hclimb, hreads', hrest⟩ := h
  exact ⟨x, c', ls ++ ms, hstep.trans hclimb, hreads.append hreads', hrest⟩

/-- The loop takes what may follow an operand, down to its power. -/
theorem accepts_climb {inner : InnerReader} {depth : Nat} (h : Accepts inner depth)
    (least : Nat) {r : List Lexeme} (hr : ¬ (headKind r).Extends 0) :
    ∀ (steps : Nat) (left : Operand) (c : Cursor), c.Within depth → c.rest.length ≤ steps →
      Follows left.name?.isSome r c.lexemes → Climbs inner steps least left c r := by
  intro steps
  induction steps with
  | zero =>
      intro left c hc hsteps hfollows
      -- No steps are left, so no tokens are, and the end of the line extends nothing.
      have hnil : c.lexemes = [] := by
        simpa [lexemes, List.length_eq_zero_iff] using hsteps
      have hends : ¬ (headKind c.lexemes).Extends least := by
        rw [hnil]
        exact fun hx => hx
      exact .done hc.eof hends hfollows 0
  | succ steps ih =>
      intro left c hc hsteps hfollows
      by_cases hends : ¬ (headKind c.lexemes).Extends least
      · exact .done hc.eof hends hfollows _
      -- The loop takes the operator, and an inner expression or arguments if it has them.
      · have hext := Classical.not_not.mp hends
        generalize hts : c.lexemes = ts at hfollows hext
        generalize hcallable : left.name?.isSome = callable at hfollows
        have after {l : Lexeme} {us : List Lexeme} (hl : c.lexemes = l :: us) :
            Reads c [l] c.consume ∧ c.consume.Within depth ∧ c.consume.rest.length ≤ steps := by
          have hhead := (reads_of_lexemes hl).1
          have hlen := hhead.length_succ
          exact ⟨hhead, hc.of_reads hhead (Nat.le_add_right _ _), by omega⟩
        cases hfollows with
        -- Nothing is ahead but what is to be left, and that extends no expression.
        | done => exact absurd (hext.mono (Nat.zero_le _)) hr
        | @stepped _ _ us op hf =>
            obtain ⟨hhead, hc₁, hsteps₁⟩ := after hts
            refine .turn hhead ?_
              (ih (.stepped op left) c.consume hc₁ hsteps₁ (hhead.tail_eq hts ▸ hf))
            rw [climb, kind_of_lexemes hts]
            exact if_neg (Nat.not_lt_of_le hext)
        -- The right side may leave operators of lower power. They may follow it, and so they may
        -- follow the whole, where the loop finds them.
        | @binary _ _ us op hopens =>
            obtain ⟨hhead, hc₁, hsteps₁⟩ := after hts
            obtain ⟨y, c₁, ls, hok, hreads, hright, -⟩ :=
              h (op.power + 1) c.consume r hc₁ hr (hhead.tail_eq hts ▸ hopens)
            have hlen := hreads.length
            refine .turn (hhead.append hreads) ?_ (ih (.binary op left y) c₁
              (hc₁.of_reads hreads (Nat.le_add_right _ _)) (by omega) hright)
            rw [climb, kind_of_lexemes hts]
            refine (if_neg (Nat.not_lt_of_le hext)).trans ?_
            rw [hok]
            rfl
        | @assign _ _ us op hopens =>
            obtain ⟨hhead, hc₁, hsteps₁⟩ := after hts
            obtain ⟨y, c₁, ls, hok, hreads, hright, -⟩ :=
              h Power.assignment c.consume r hc₁ hr (hhead.tail_eq hts ▸ hopens)
            have hlen := hreads.length
            refine .turn (hhead.append hreads) ?_ (ih (.assign op left y) c₁
              (hc₁.of_reads hreads (Nat.le_add_right _ _)) (by omega) hright)
            rw [climb, kind_of_lexemes hts]
            refine (if_neg (Nat.not_lt_of_le hext)).trans ?_
            rw [hok]
            rfl
        -- Only behind a name does the grammar allow an opening parenthesis, and the loop asks for
        -- the same.
        | @call _ us ts hargs hf =>
            obtain ⟨hhead, hc₁, hsteps₁⟩ := after hts
            obtain ⟨args, c₁, ls, hok, hreads, hleft⟩ :=
              accepts_arguments h hc₁ (hhead.tail_eq hts ▸ hargs)
            have hlen := hreads.length
            refine .turn (hhead.append hreads) ?_ (ih (.call left args) c₁
              (hc₁.of_reads hreads (Nat.le_add_right _ _)) (by omega) (hleft ▸ hf))
            rw [climb, kind_of_lexemes hts]
            have hname : left.name?.isNone = false := by
              cases hl : left.name? with
              | none => simp [hl] at hcallable
              | some name => rfl
            simp only [Token.Kind.lexeme_kind, hname, hok, bind, Except.bind]
            rfl

/-- A name in parentheses is read as the name. -/
theorem enters_of_callee {ls : List Lexeme} (h : Callee ls) :
    ∃ name, ∀ least r, Enters (.identifier name) ls least r := by
  induction h with
  | @name name hk => exact ⟨name, .identifier hk⟩
  | @group ls h ih =>
      obtain ⟨name, ih⟩ := ih
      refine ⟨name, fun least r => .group ?_ least⟩
      exact (ih 0 (Token.Kind.closeParen.lexeme :: r)).completes
        (Token.ne_nil_of_beginsOperand h.beginsOperand) fun hx => hx

/-- The reader comes to the loop with some operand, behind at least one token, and what is
ahead may follow the operand. -/
def Begins (depth least : Nat) (c : Cursor) (r : List Lexeme) : Prop :=
  ∃ left c' ls steps, expressionWithin (depth + 1) least c
      = climb (expressionWithin depth) steps least left c' ∧
    Reads c ls c' ∧ ls ≠ [] ∧ c'.rest.length ≤ steps ∧
    Follows left.name?.isSome r c'.lexemes

/-- An operand that comes to the loop lets the expression begin, if what follows may follow it. -/
theorem Begins.of_enters {depth least : Nat} {left : Operand} {c : Cursor}
    {ls us r : List Lexeme} (h : Enters left ls least us) (hne : ls ≠ [])
    (hc : c.Within (depth + 1)) (hts : c.lexemes = ls ++ us)
    (hf : Follows left.name?.isSome r us) : Begins depth least c r := by
  obtain ⟨steps, c', hreads, hsteps, hclimb⟩ := h depth c hc.eof hts hc.length
  exact ⟨left, c', ls, steps, hclimb, hreads, hne, hsteps, hreads.lexemes_eq hts ▸ hf⟩

/-- A first operand that was read lets the expression begin at any power. -/
theorem Begins.of_primary {depth : Nat} {left : Operand} {c c' : Cursor} {ls r : List Lexeme}
    (h : primary (expressionWithin depth) c = .ok (left, c')) (hreads : Reads c ls c')
    (hne : ls ≠ []) (hf : Follows left.name?.isSome r c'.lexemes) (least : Nat) :
    Begins depth least c r :=
  ⟨left, c', ls, _, expressionWithin_of_primary h, hreads, hne, Nat.le_refl _, hf⟩

/-- The first operand is read, and what may follow it is left. -/
theorem accepts_first {depth : Nat} (h : Accepts (expressionWithin depth) depth) (least : Nat)
    {c : Cursor} {r : List Lexeme} (hc : c.Within (depth + 1)) (hr : ¬ (headKind r).Extends 0)
    (hopens : Opens r c.lexemes) : Begins depth least c r := by
  have hfit := hc.fit
  generalize hts : c.lexemes = ts at hopens hfit
  cases hopens with
  | number text hf =>
      by_cases hq : text.head? = some '\''
      · exact .of_enters (.character hq least _) (by simp) hc hts hf
      · have hvalue := hfit _ List.mem_cons_self rfl hq
        exact .of_enters (.number hq hvalue least _) (by simp) hc hts hf
  | chipId text hf => exact .of_enters (.chipId text least _) (by simp) hc hts hf
  | string text hf => exact .of_enters (.string text least _) (by simp) hc hts hf
  | programCounter hf => exact .of_enters (.programCounter least _) (by simp) hc hts hf
  | pound name hf => exact .of_enters (.pound name least _) (by simp) hc hts hf
  | callee hcallee hf =>
      obtain ⟨name, henters⟩ := enters_of_callee hcallee
      have hne := Token.ne_nil_of_beginsOperand hcallee.beginsOperand
      exact .of_enters (henters least _) hne hc hts hf
  -- What the operand leaves follows the prefix operator with it.
  | @unary op spelling _ us hop hs hopens =>
      obtain ⟨hhead, hpeek⟩ := reads_of_lexemes hts
      obtain ⟨x, c', ls, hok, hreads, hf, -⟩ := h op.operandPower c.consume r
        (hc.of_reads hhead (Nat.le_refl _)) hr (hhead.tail_eq hts ▸ hopens)
      have hprimary :=
        primary_unary (Operand.prefixOp?_of_isSpelling hop hs (c.peek 0) hpeek) hok
      exact .of_primary hprimary (hhead.cons hreads) (by simp) hf least
  -- In parentheses every operator is taken, so the closing one is next.
  | @group _ us ts hinner hf =>
      obtain ⟨hopen, -⟩ := reads_of_lexemes hts
      obtain ⟨x, c₁, ls, hok, hreads, hleft⟩ := h.reads_all
        (r := Token.Kind.closeParen.lexeme :: us) (hc.of_reads hopen (Nat.le_refl _))
        (fun hx => hx) (hopen.tail_eq hts ▸ hinner)
      obtain ⟨hclose, -⟩ := reads_of_lexemes hleft
      have hprimary := primary_group (kind_of_lexemes hts) hok (kind_of_lexemes hleft)
      refine .of_primary hprimary (hopen.cons (hreads.append hclose)) (by simp) ?_ least
      rw [hclose.tail_eq hleft]
      exact hf.weaken _

/-- At every depth the reader accepts what it has the depth for. -/
theorem accepts_expressionWithin (depth : Nat) : Accepts (expressionWithin depth) depth := by
  induction depth with
  | zero =>
      intro least c r hc _ hopens
      exact absurd (length_pos_of_opens hopens) (Nat.not_lt_of_le hc.length)
  | succ depth ih =>
      intro least c r hc hr hopens
      obtain ⟨left, c₁, ls, steps, hfirst, hreads, hne, hsteps, hfollows⟩ :=
        accepts_first ih least hc hr hopens
      have hpos : 0 < ls.length := List.length_pos_iff.mpr hne
      obtain ⟨x, c', ms, hclimb, hreads', hrest, hends⟩ := accepts_climb ih least hr steps left c₁
        (hc.of_reads hreads (by omega)) hsteps hfollows
      exact ⟨x, c', ls ++ ms, hfirst.trans hclimb, hreads.append hreads', hrest, hends⟩

end Cursor

namespace Operand

/-- The reader of one operand reads an expression up to the end of the text. -/
theorem parse_eq_ok_iff {text : Text} {x : Operand} :
    parse text = .ok x ↔ ∃ c c', Cursor.ofScanner (Scanner.ofLine text 0) = .ok c ∧
      c.expression 0 = .ok (x, c') ∧ c'.kind = .eof := by
  simp only [parse, bind_eq_ok_iff, mapError_eq_ok_iff]
  constructor
  · rintro ⟨c, hc, ⟨y, c'⟩, hy, ⟨⟩, hend, hx⟩
    cases hx
    exact ⟨c, c', hc, hy, Cursor.endOfLine_eq_ok_iff.mp hend⟩
  · rintro ⟨c, c', hc, hx, hend⟩
    exact ⟨c, hc, (x, c'), hx, (), Cursor.endOfLine_eq_ok_iff.mpr hend, rfl⟩

/-- No operand begins with a directive. -/
theorem Opens.headKind_ne_pragma {r ts : List Lexeme} (h : Opens r ts) :
    headKind ts ≠ .pragma := by
  cases h with
  | @unary op => cases op <;> simp [headKind, UnaryOp.tokenKind]
  | callee hc _ => cases hc <;> simp [headKind]
  | _ => simp [headKind]

/-- A pragma begins no expression. The grammar has no token of that kind, so the case is closed
here. -/
theorem expression_ne_ok_of_pragma {c : Cursor} (hk : c.kind = .pragma) (least : Nat)
    (result : Operand × Cursor) : c.expression least ≠ .ok result := by
  have hkind : (c.peek 0).kind = .pragma := hk
  unfold Cursor.expression
  cases c.rest.length with
  | zero => simp [Cursor.expressionWithin]
  | succ depth =>
      simp [Cursor.expressionWithin, Cursor.primary, prefixOp?, hkind, bind, Except.bind]

/-- The reader of one operand accepts the language of the grammar: a text that is cut into
tokens without a fault, and the numbers in which fit, is read just if its tokens are
derived. -/
theorem parse_isOk_iff_derives {text : Text} {tokens : List Token} {eof : Token}
    (hrun : (Scanner.ofLine text 0).run = (tokens, .ok eof))
    (hfit : NumbersFit (tokens.map Token.lexeme)) :
    (∃ x, parse text = .ok x) ↔ Derives (tokens.map Token.lexeme) := by
  have hcursor : Cursor.ofScanner (Scanner.ofLine text 0) = .ok ⟨tokens, eof, text, 0⟩ :=
    Cursor.ofScanner_eq_ok_iff.mpr ⟨hrun, rfl, rfl⟩
  constructor
  -- What was read begins with no directive, so the tokens have their forms, and all of them spell
  -- the operand.
  · rintro ⟨x, hx⟩
    obtain ⟨c, c', hc, hexpr, hend⟩ := parse_eq_ok_iff.mp hx
    obtain rfl : Cursor.mk tokens eof text 0 = c := Except.ok.inj (hcursor.symm.trans hc)
    have hpragma := fun hk => expression_ne_ok_of_pragma hk 0 _ hexpr
    obtain ⟨hproper, -⟩ := Cursor.proper_of_ofScanner hc (Or.inr hpragma)
    obtain ⟨ls, hreads, hspells⟩ :=
      Cursor.spells_of_expressionWithin _ 0 _ _ _ hproper hexpr
    have hall := hreads.lexemes
    rw [(hreads.proper hproper).lexemes_eq_nil hend, List.append_nil] at hall
    have hderives := derives_of_spells hspells
    rwa [← hall] at hderives
  -- A derivation is an expression with nothing to be left behind it.
  · intro hderives
    have hopens : Opens [] (tokens.map Token.lexeme) := by
      simpa using hderives.opens [] [] (.done false [])
    have hpragma : (Cursor.mk tokens eof text 0).kind ≠ .pragma := by
      obtain ⟨l, r, hl⟩ :=
        List.exists_cons_of_ne_nil (Token.ne_nil_of_beginsOperand hopens.beginsOperand)
      rw [Cursor.kind_of_lexemes (c := ⟨tokens, eof, text, 0⟩) hl]
      rw [hl] at hopens
      exact hopens.headKind_ne_pragma
    obtain ⟨hproper, -⟩ := Cursor.proper_of_ofScanner hcursor (Or.inr hpragma)
    have hends : ¬ (headKind []).Extends 0 := fun hx => hx
    obtain ⟨x, c', ls, hexpr, hreads, hleft⟩ :=
      (Cursor.accepts_expressionWithin tokens.length).reads_all
        ⟨hproper.eof, hfit, Nat.le_refl _⟩ hends hopens
    refine ⟨x, parse_eq_ok_iff.mpr ⟨_, c', hcursor, hexpr, ?_⟩⟩
    rw [Cursor.kind_eq_headKind (hreads.proper hproper).eof, hleft]
    rfl

/-- A sign, a call and a comparison. -/
theorem parse_isOk_iff_derives_call :
    (∃ x, parse "-f(1) < a".toList = .ok x) ∧
      Derives [⟨.binary .subtract, ['-']⟩, ⟨.identifier, ['f']⟩, ⟨.openParen, ['(']⟩,
        ⟨.number, ['1']⟩, ⟨.closeParen, [')']⟩, ⟨.binary .lessThan, ['<']⟩,
        ⟨.identifier, ['a']⟩] := by
  have hrun : (Scanner.ofLine "-f(1) < a".toList 0).run
      = ([⟨.binary .subtract, ['-'], 0, 0⟩, ⟨.identifier, ['f'], 0, 1⟩, ⟨.openParen, ['('], 0, 2⟩,
        ⟨.number, ['1'], 0, 3⟩, ⟨.closeParen, [')'], 0, 4⟩, ⟨.binary .lessThan, ['<'], 0, 6⟩,
        ⟨.identifier, ['a'], 0, 8⟩], .ok ⟨.eof, [], 0, 9⟩) := rfl
  have hparse : ∃ x, parse "-f(1) < a".toList = .ok x := ⟨_, rfl⟩
  exact ⟨hparse, (parse_isOk_iff_derives hrun (by decide)).mp hparse⟩

end Operand

end PicAssembly
