import PicAssembly.Proofs.Operand.Faults
import PicAssembly.Proofs.Operand.Reading
import PicAssembly.Proofs.Token.Progress

/-!
# `PicAssembly.Proofs.Operand.Progress`: the readers of operands come to an end

An expression takes at least one token (`Cursor.advances_of_expression`). So the reader of
expressions needs no bound of its own, and neither do the loops in it:

* An expression in an expression is read behind a token. Readers that agree where fewer tokens are
  left therefore make the same of an expression around them (`Cursor.level_congr`), and what is
  behind as many levels as there are tokens is never asked (`Cursor.nested_eq_expression`).
* A turn of a loop takes a token, so `exists_loop` applies to the operators behind an operand, to
  the arguments of a call and to the operands of a line.
-/

set_option autoImplicit false

namespace PicAssembly.Cursor

/-- `c'` is behind `c` by one token or more. -/
def Advances (c c' : Cursor) : Prop := ∃ ls, ls ≠ [] ∧ Reads c ls c'

section

variable {c c' c'' : Cursor} {ls : List Token.Lexeme}

/-- A cursor that advances has fewer tokens left. -/
theorem Advances.length_lt (h : Advances c c') : c'.rest.length < c.rest.length := by
  obtain ⟨ls, hne, hreads⟩ := h
  have hpos : 0 < ls.length := List.length_pos_iff.mpr hne
  rw [hreads.length]
  omega

/-- A cursor that advances keeps the end of its line. -/
theorem Advances.eof (h : Advances c c') : c'.eof = c.eof := by
  obtain ⟨ls, -, hreads⟩ := h
  exact hreads.eof

/-- What is read behind a token is behind that token. -/
theorem Advances.reads (h : Advances c c') (h' : Reads c' ls c'') : Advances c c'' := by
  obtain ⟨ls', hne, hreads⟩ := h
  exact ⟨ls' ++ ls, List.append_ne_nil_of_left_ne_nil hne ls, hreads.append h'⟩

/-- The cursor advances by a token if one is left. -/
theorem advances_consume_of_rest (h : c.rest ≠ []) : Advances c c.consume := by
  obtain ⟨rest, eof, source, line⟩ := c
  obtain ⟨token, tokens, rfl⟩ := List.exists_cons_of_ne_nil h
  exact ⟨[token.lexeme], by simp, [token], rfl, rfl⟩

/-- The cursor advances by any token but the one for the end of the line. -/
theorem advances_consume (h : c.eof.kind = .eof) (hk : c.kind ≠ .eof) : Advances c c.consume :=
  ⟨_, List.cons_ne_nil _ _, reads_consume h hk⟩

/-- With no tokens left the kind is that of the end. -/
theorem kind_of_rest_eq_nil (h : c.eof.kind = .eof) (hrest : c.rest = []) : c.kind = .eof := by
  rw [kind, peek, hrest]
  exact h

/-- A reading that succeeds goes behind some tokens. -/
theorem Stays.reads {α : Type} {r : Except ParseError (α × Cursor)} {x : α} (h : Stays c r)
    (hr : r = .ok (x, c')) : ∃ ls, Reads c ls c' := by
  cases h with
  | ok hreads =>
      cases hr
      exact ⟨_, hreads⟩
  | error _ => cases hr

end

/-! ### An expression takes a token -/

section

variable {inner : InnerReader} {c c' : Cursor} {x : Operand}

/-- The first operand of an expression is read with its first token. -/
theorem exists_reads_of_primary (hinner : ∀ least c, Stays c (inner least c))
    (h : primary inner c = .ok (x, c')) : ∃ ls, Reads c.consume ls c' := by
  cases first_of_primary h with
  | unary _ hx => exact (hinner _ c.consume).reads hx
  | number | string | chipId | programCounter | identifier => exact ⟨[], .refl _⟩
  | pound _ hname => exact (stays_of_expect c.consume .identifier).reads hname
  | @group _ c₁ _ _ _ hx hclose =>
      obtain ⟨ls, hreads⟩ := (hinner 0 c.consume).reads hx
      obtain ⟨ls', hreads'⟩ := (stays_of_expect c₁ .closeParen).reads hclose
      exact ⟨ls ++ ls', hreads.append hreads'⟩

/-- At any depth an expression takes a token: its first operand does, and what follows goes
forward. -/
theorem advances_of_expressionWithin {depth least : Nat} (hrest : c.rest ≠ [])
    (h : expressionWithin depth least c = .ok (x, c')) : Advances c c' := by
  cases depth with
  | zero => cases h
  | succ depth =>
      obtain ⟨⟨left, c₁⟩, hleft, h⟩ := bind_eq_ok_iff.mp h
      obtain ⟨_, hfirst⟩ := exists_reads_of_primary (stays_of_expressionWithin depth) hleft
      have hright := stays_of_expressionWithin depth
      obtain ⟨_, hrest'⟩ := (stays_of_climb hright least _ left c₁).reads h
      exact ((advances_consume_of_rest hrest).reads hfirst).reads hrest'

/-- An expression takes a token. It could not succeed with none left, since no operand begins
there. -/
theorem advances_of_expression {least : Nat} (h : c.expression least = .ok (x, c')) :
    Advances c c' := by
  refine advances_of_expressionWithin (fun hnil => ?_) h
  rw [expression, hnil] at h
  cases h

end

/-! ### The recursion -/

/-- One level of the recursion: an expression whose inner expressions are read by `inner`. -/
def level (inner : InnerReader) : InnerReader := fun least c =>
  primary inner c >>= fun p => climb inner p.2.rest.length least p.1 p.2

/-- Some levels of the recursion, with `beyond` in the place of all further ones. -/
def nested (beyond : InnerReader) : (depth : Nat) → InnerReader
  | 0 => beyond
  | depth + 1 => level (nested beyond depth)

/-- The readers agree where no more than `n` tokens are left. -/
def AgreeUpTo (n : Nat) (f g : InnerReader) : Prop :=
  ∀ least c, c.eof.kind = .eof → c.rest.length ≤ n → f least c = g least c

section

variable {f g : InnerReader} {n : Nat} {c : Cursor}

/-- Two inner readers that agree on the tokens ahead give the same arguments. -/
theorem argumentsFrom_congr (hfg : AgreeUpTo n f g) (hg : ∀ least c, Stays c (g least c))
    (steps : Nat) : ∀ c, c.eof.kind = .eof → c.rest.length ≤ n →
      argumentsFrom f steps c = argumentsFrom g steps c := by
  induction steps with
  | zero => exact fun c _ _ => rfl
  | succ steps ih =>
      intro c heof hn
      rw [argumentsFrom, argumentsFrom, hfg 0 c heof hn]
      cases hfirst : g 0 c with
      | error e => rfl
      | ok p =>
          obtain ⟨x, c₁⟩ := p
          obtain ⟨_, hreads⟩ := (hg 0 c).reads hfirst
          obtain ⟨_, hconsume⟩ := c₁.exists_reads_consume
          have hboth := hreads.append hconsume
          have hlength := hboth.length
          simp only [bind, Except.bind, ih c₁.consume (hboth.eof ▸ heof) (by omega)]

/-- Two inner readers that agree on the tokens ahead give the same call. -/
theorem arguments_congr (hfg : AgreeUpTo n f g) (hg : ∀ least c, Stays c (g least c))
    (heof : c.eof.kind = .eof) (hn : c.rest.length ≤ n) : arguments f c = arguments g c := by
  rw [arguments, arguments, argumentsFrom_congr hfg hg _ c heof hn]

/-- Two inner readers that agree on the tokens ahead give the same operators behind an operand. -/
theorem climb_congr (hfg : AgreeUpTo n f g) (hg : ∀ least c, Stays c (g least c)) (least : Nat)
    (steps : Nat) : ∀ left c, c.eof.kind = .eof → c.rest.length ≤ n →
      climb f steps least left c = climb g steps least left c := by
  induction steps with
  | zero => exact fun left c _ _ => rfl
  | succ steps ih =>
      intro left c heof hn
      obtain ⟨_, hconsume⟩ := c.exists_reads_consume
      have heof' : c.consume.eof.kind = .eof := heof
      have hlength := hconsume.length
      have hn' : c.consume.rest.length ≤ n := by omega
      -- The loop goes on behind what is read in this turn.
      have hturn {α : Type} {r : Except ParseError (α × Cursor)} (hr : Stays c.consume r)
          (make : α → Operand) : (r >>= fun p => climb f steps least (make p.1) p.2)
            = r >>= fun p => climb g steps least (make p.1) p.2 := by
        cases hr with
        | @ok x c₁ _ hreads =>
            have hlength := hreads.length
            exact ih (make x) c₁ (hreads.eof ▸ heof') (by omega)
        | error _ => rfl
      rw [climb, climb]
      split
      · rw [ih _ _ heof' hn']
      · split
        · rfl
        · rw [arguments_congr hfg hg heof' hn']
          exact hturn (stays_of_arguments hg _) _
      · split
        · rfl
        · rw [hfg _ _ heof' hn']
          exact hturn (hg _ _) _
      · split
        · rfl
        · rw [hfg _ _ heof' hn']
          exact hturn (hg _ _) _
      · rfl

/-- With no token left there is no first operand. -/
theorem primary_of_rest_eq_nil (inner : InnerReader) (heof : c.eof.kind = .eof)
    (hrest : c.rest = []) : primary inner c = .error (c.error (.unexpected .eof)) := by
  have hkind : (c.peek 0).kind = .eof := kind_of_rest_eq_nil heof hrest
  have hprefix : Operand.prefixOp? (c.peek 0) = none := by rw [Operand.prefixOp?, hkind]
  simp only [primary, hprefix, hkind]
  rfl

/-- An expression in an expression is read where a token less is left. -/
theorem level_congr (hfg : AgreeUpTo n f g) (hg : ∀ least c, Stays c (g least c)) :
    AgreeUpTo (n + 1) (level f) (level g) := by
  intro least c heof hn
  by_cases hrest : c.rest = []
  · rw [level, level, primary_of_rest_eq_nil f heof hrest, primary_of_rest_eq_nil g heof hrest]
    rfl
  · have hconsume := advances_consume_of_rest hrest
    have hlt := hconsume.length_lt
    -- The first operand takes a token, so its inner expressions have fewer ahead.
    have hprimary : primary f c = primary g c := by
      have hinner (least : Nat) : f least c.consume = g least c.consume :=
        hfg least c.consume heof (by omega)
      simp only [primary, hinner]
    rw [level, level, hprimary]
    cases hfirst : primary g c with
    | error e => rfl
    | ok p =>
        obtain ⟨left, c₁⟩ := p
        obtain ⟨_, hreads⟩ := exists_reads_of_primary hg hfirst
        have hlength := hreads.length
        exact climb_congr hfg hg least _ left c₁ (hreads.eof ▸ heof) (by omega)

/-- What stands for the further levels does not matter where there are more levels than tokens. -/
theorem agreeUpTo_nested (beyond : InnerReader) (n : Nat) :
    AgreeUpTo n (nested beyond (n + 1)) (expressionWithin n) := by
  induction n with
  | zero =>
      intro least c heof hn
      have hrest : c.rest = [] := List.length_eq_zero_iff.mp (Nat.le_zero.mp hn)
      rw [nested, level, primary_of_rest_eq_nil _ heof hrest, expressionWithin,
        kind_of_rest_eq_nil heof hrest]
      rfl
  | succ n ih => exact level_congr ih (stays_of_expressionWithin n)

/-- The reader with a bound on the depth is as many levels of the recursion over the reader that
fails. -/
theorem nested_expressionWithin (depth : Nat) :
    nested (expressionWithin 0) depth = expressionWithin depth := by
  induction depth with
  | zero => rfl
  | succ depth ih =>
      rw [nested, ih]
      rfl

/-- More levels than tokens make no difference. -/
theorem expressionWithin_eq_expression {least n : Nat} (heof : c.eof.kind = .eof)
    (hn : c.rest.length ≤ n) : expressionWithin n least c = c.expression least := by
  induction n, hn using Nat.le_induction with
  | base => rfl
  | succ n hn ih =>
      have hagree := agreeUpTo_nested (expressionWithin 0) n
      rw [nested_expressionWithin] at hagree
      rw [hagree least c heof hn, ih]

/-- With more levels than tokens it does not matter what is beyond them: the last level is never
reached. So the bound on the depth ends no reading that would otherwise go on. -/
theorem nested_eq_expression (beyond : InnerReader) {depth least : Nat} (heof : c.eof.kind = .eof)
    (hdepth : c.rest.length < depth) : nested beyond depth least c = c.expression least := by
  obtain ⟨n, rfl⟩ := Nat.exists_eq_succ_of_ne_zero (Nat.ne_zero_of_lt hdepth)
  have hn : c.rest.length ≤ n := Nat.le_of_lt_succ hdepth
  rw [agreeUpTo_nested beyond n least c heof hn, expressionWithin_eq_expression heof hn]

/-- The reader of expressions, which is its own reader of inner expressions. -/
def expressions : InnerReader := fun least c => c.expression least

/-- The reader without a bound on the depth goes forward or complains about what is ahead. -/
theorem stays_of_expressions (least : Nat) (c : Cursor) : Stays c (expressions least c) :=
  stays_of_expressionWithin _ least c

/-- The reader without a bound is one level of the recursion over itself. So the bound cannot be
told from outside. -/
theorem expression_eq_level (least : Nat) (heof : c.eof.kind = .eof) :
    c.expression least = level expressions least c := by
  have hagree : AgreeUpTo c.rest.length expressions (expressionWithin c.rest.length) :=
    fun _ _ heof' hn => (expressionWithin_eq_expression heof' hn).symm
  rw [level_congr hagree (stays_of_expressionWithin _) least c heof (Nat.le_succ _)]
  exact (expressionWithin_eq_expression (n := c.rest.length + 1) heof (Nat.le_succ _)).symm

end

/-! ### The loops -/

/-- A turn of a loop that reads something and goes on with it, or ends with the fault. -/
def readOn {α σ ρ : Type} (r : Except ParseError α) (go : α → Except ParseError ρ ⊕ σ) :
    Except ParseError ρ ⊕ σ :=
  match r with
  | .ok x => go x
  | .error e => .inl (.error e)

/-- One turn of the loop over the operators behind the operand `p.1`. -/
def operatorTurn (inner : InnerReader) (least : Nat) (p : Operand × Cursor) :
    Except ParseError (Operand × Cursor) ⊕ (Operand × Cursor) :=
  let (left, c) := p
  match c.kind with
  | .step op =>
    if Power.postfixed < least then .inl (.ok (left, c)) else .inr (.stepped op left, c.consume)
  | .openParen =>
    if left.name?.isNone then .inl (.error (c.error .notCallable))
    else readOn (arguments inner c.consume) fun q => .inr (.call left q.1, q.2)
  | .assign op =>
    if Power.assignment < least then .inl (.ok (left, c))
    else readOn (inner Power.assignment c.consume) fun q => .inr (.assign op left q.1, q.2)
  | .binary op =>
    if op.power < least then .inl (.ok (left, c))
    else readOn (inner (op.power + 1) c.consume) fun q => .inr (.binary op left q.1, q.2)
  | _ => .inl (.ok (left, c))

/-- One turn of the loop over the arguments of a call, of which `p.1` are read. -/
def argumentTurn (inner : InnerReader) (p : List Operand × Cursor) :
    Except ParseError (List Operand × Cursor) ⊕ (List Operand × Cursor) :=
  readOn (inner 0 p.2) fun (arg, c) =>
    match c.kind with
    | .comma => .inr (p.1 ++ [arg], c.consume)
    | .closeParen => .inl (.ok (p.1 ++ [arg], c.consume))
    | found => .inl (.error (c.error (.argumentEnd found)))

/-- One turn of the loop over the operands of a line, of which `p.1` are read. -/
def operandTurn (p : List Operand × Cursor) :
    Except ParseError (List Operand × Cursor) ⊕ (List Operand × Cursor) :=
  if p.2.kind = .comment ∨ p.2.kind = .eof then .inl (.ok p)
  else readOn (p.2.expression 0) fun (operand, c) =>
    .inr (p.1 ++ [operand], if c.kind = .comma then c.consume else c)

/-- What is read comes behind what is read already. -/
def putBehind (read : List Operand) (r : Except ParseError (List Operand × Cursor)) :
    Except ParseError (List Operand × Cursor) :=
  r.map fun p => (read ++ p.1, p.2)

section

variable {inner : InnerReader} {c : Cursor}

/-- A loop goes on only if what its turn reads was read. -/
theorem eq_of_readOn_eq_inr {α σ ρ : Type} {r : Except ParseError α}
    {go : α → Except ParseError ρ ⊕ σ} {s : σ} (h : readOn r go = .inr s) :
    ∃ x, r = .ok x ∧ go x = .inr s := by
  cases r with
  | ok x => exact ⟨x, rfl, h⟩
  | error e => cases h

/-- The end of a turn that reads something is the end of what the turn does with it. -/
theorem elim_readOn {α σ ρ : Type} (r : Except ParseError α)
    (go : α → Except ParseError ρ ⊕ σ) (again : σ → Except ParseError ρ) :
    (readOn r go).elim id again = r >>= fun x => (go x).elim id again := by
  cases r <;> rfl

/-- The loop over operators makes one turn and then the others. -/
theorem climb_succ (inner : InnerReader) (steps least : Nat) (left : Operand) (c : Cursor) :
    climb inner (steps + 1) least left c
      = (operatorTurn inner least (left, c)).elim id fun p => climb inner steps least p.1 p.2 := by
  rw [climb, operatorTurn]
  cases c.kind with
  | step op =>
      dsimp only
      split <;> rfl
  -- A turn that goes on reads an operand first, and an error there ends the loop as it ends the
  -- turn.
  | openParen =>
      dsimp only
      split
      · rfl
      · simp only [elim_readOn, Sum.elim_inr]
  | assign op =>
      dsimp only
      split
      · rfl
      · simp only [elim_readOn, Sum.elim_inr]
  | binary op =>
      dsimp only
      split
      · rfl
      · simp only [elim_readOn, Sum.elim_inr]
  | _ => rfl

/-- What is read behind a token is read behind the cursor. -/
theorem advances_of_readOn {α : Type} {r : Except ParseError (α × Cursor)} {make : α → Operand}
    {p : Operand × Cursor} (hconsume : Advances c c.consume) (hr : Stays c.consume r)
    (h : (readOn r fun q => .inr (make q.1, q.2) :
      Except ParseError (Operand × Cursor) ⊕ (Operand × Cursor)) = .inr p) : Advances c p.2 := by
  obtain ⟨q, hq, h⟩ := eq_of_readOn_eq_inr h
  cases h
  obtain ⟨_, hreads⟩ := hr.reads hq
  exact hconsume.reads hreads

/-- A turn that goes on has read the operator. -/
theorem advances_of_operatorTurn (hinner : ∀ least c, Stays c (inner least c)) {least : Nat}
    {left : Operand} {p : Operand × Cursor} (heof : c.eof.kind = .eof)
    (h : operatorTurn inner least (left, c) = .inr p) : Advances c p.2 := by
  have hconsume {k : Token.Kind} (hk : c.kind = k) (hne : k ≠ .eof) : Advances c c.consume :=
    advances_consume heof (hk ▸ hne)
  -- An operator or a parenthesis is ahead, and the turn takes it before anything else.
  rw [operatorTurn] at h
  split at h
  · next hk =>
    split at h
    · cases h
    · cases h
      exact hconsume hk (by simp)
  · next hk =>
    split at h
    · cases h
    · exact advances_of_readOn (hconsume hk (by simp)) (stays_of_arguments hinner c.consume) h
  · next hk =>
    split at h
    · cases h
    · exact advances_of_readOn (hconsume hk (by simp)) (hinner _ c.consume) h
  · next hk =>
    split at h
    · cases h
    · exact advances_of_readOn (hconsume hk (by simp)) (hinner _ c.consume) h
  · cases h

/-- The loop over the operators behind an operand ends. -/
theorem exists_loop_climb (hinner : ∀ least c, Stays c (inner least c)) (least : Nat)
    (left : Operand) (heof : c.eof.kind = .eof) :
    ∃ turns ≤ c.rest.length, Loop (operatorTurn inner least) turns (left, c)
      (climb inner c.rest.length least left c) := by
  refine exists_loop (fun p => p.2.rest.length) (fun p => p.2.eof.kind = .eof)
    (fun steps p => climb inner steps least p.1 p.2) ?_ ?_ ?_ c.rest.length (left, c) heof le_rfl
  · rintro ⟨left, c⟩ heof hrest
    have hkind := kind_of_rest_eq_nil heof (List.length_eq_zero_iff.mp hrest)
    simp [operatorTurn, hkind, climb]
  · rintro steps ⟨left, c⟩ -
    exact climb_succ inner steps least left c
  · rintro ⟨left, c⟩ p heof hturn
    have hadvances := advances_of_operatorTurn hinner heof hturn
    exact ⟨hadvances.eof ▸ heof, hadvances.length_lt⟩

/-- With no tokens left an expression is refused at the end of the line. -/
theorem expressions_of_rest_eq_nil (least : Nat) (hrest : c.rest = []) :
    expressions least c = .error (c.error (.unexpected c.kind)) := by
  rw [expressions, expression, hrest]
  rfl

/-- The loop over arguments makes one turn and then the others, with what is read so far in
front. -/
theorem argumentsFrom_succ (inner : InnerReader) (steps : Nat) (read : List Operand) (c : Cursor) :
    putBehind read (argumentsFrom inner (steps + 1) c)
      = (argumentTurn inner (read, c)).elim id fun p =>
          putBehind p.1 (argumentsFrom inner steps p.2) := by
  rw [argumentsFrom, argumentTurn]
  cases inner 0 c with
  | error e => rfl
  | ok p =>
      obtain ⟨arg, c₁⟩ := p
      simp only [bind, Except.bind, readOn]
      cases c₁.kind with
      | comma =>
          simp only [Sum.elim_inr]
          cases argumentsFrom inner steps c₁.consume with
          | error e => rfl
          | ok q => simp [putBehind, Except.map, pure, Except.pure]
      | _ => rfl

/-- The loop over the arguments of a call ends. -/
theorem exists_loop_argumentsFrom (heof : c.eof.kind = .eof) :
    ∃ turns ≤ c.rest.length, Loop (argumentTurn expressions) turns ([], c)
      (putBehind [] (argumentsFrom expressions c.rest.length c)) := by
  refine exists_loop (fun p => p.2.rest.length) (fun p => p.2.eof.kind = .eof)
    (fun steps p => putBehind p.1 (argumentsFrom expressions steps p.2)) ?_ ?_ ?_
    c.rest.length ([], c) heof le_rfl
  · rintro ⟨read, c⟩ - hrest
    rw [argumentTurn, expressions_of_rest_eq_nil 0 (List.length_eq_zero_iff.mp hrest)]
    rfl
  · rintro steps ⟨read, c⟩ -
    exact argumentsFrom_succ expressions steps read c
  · rintro ⟨read, c⟩ p heof hturn
    obtain ⟨⟨arg, c₁⟩, harg, hturn⟩ := eq_of_readOn_eq_inr hturn
    -- Only a comma makes another turn, and the argument before it took a token.
    have hadvances : Advances c c₁ := advances_of_expression harg
    dsimp only at hturn
    split at hturn
    · cases hturn
      obtain ⟨_, hconsume⟩ := c₁.exists_reads_consume
      have hadvances' := hadvances.reads hconsume
      exact ⟨hadvances'.eof ▸ heof, hadvances'.length_lt⟩
    · cases hturn
    · cases hturn

/-- The loop over operands makes one turn and then the others, with what is read so far in front. -/
theorem operandsWithin_succ (steps : Nat) (read : List Operand) (c : Cursor) :
    putBehind read (operandsWithin (steps + 1) c)
      = (operandTurn (read, c)).elim id fun p => putBehind p.1 (operandsWithin steps p.2) := by
  rw [operandsWithin, operandTurn]
  by_cases hk : c.kind = .comment ∨ c.kind = .eof
  · rw [if_pos hk, if_pos hk]
    simp [putBehind, Except.map]
  · rw [if_neg hk, if_neg hk]
    cases c.expression 0 with
    | error e => rfl
    | ok p =>
        obtain ⟨operand, c₁⟩ := p
        simp only [bind, Except.bind, readOn, Sum.elim_inr]
        cases operandsWithin steps (if c₁.kind = .comma then c₁.consume else c₁) with
        | error e => rfl
        | ok q => simp [putBehind, Except.map, pure, Except.pure]

/-- The loop over the operands of a line ends. -/
theorem exists_loop_operands (heof : c.eof.kind = .eof) :
    ∃ turns ≤ c.rest.length, Loop operandTurn turns ([], c) (putBehind [] c.operands) := by
  refine exists_loop (fun p => p.2.rest.length) (fun p => p.2.eof.kind = .eof)
    (fun steps p => putBehind p.1 (operandsWithin steps p.2)) ?_ ?_ ?_
    c.rest.length ([], c) heof le_rfl
  · rintro ⟨read, c⟩ heof hrest
    have hkind := kind_of_rest_eq_nil heof (List.length_eq_zero_iff.mp hrest)
    simp [operandTurn, hkind, operandsWithin, putBehind, Except.map]
  · rintro steps ⟨read, c⟩ -
    exact operandsWithin_succ steps read c
  · rintro ⟨read, c⟩ p heof hturn
    rw [operandTurn] at hturn
    split at hturn
    · cases hturn
    · obtain ⟨⟨operand, c₁⟩, hoperand, hturn⟩ := eq_of_readOn_eq_inr hturn
      cases hturn
      -- A comma may be taken besides, or none.
      obtain ⟨_, hcomma⟩ : ∃ ls, Reads c₁ ls (if c₁.kind = .comma then c₁.consume else c₁) := by
        split
        · exact c₁.exists_reads_consume
        · exact ⟨[], .refl c₁⟩
      have hadvances := (advances_of_expression hoperand).reads hcomma
      exact ⟨hadvances.eof ▸ heof, hadvances.length_lt⟩

end

/-- The readers of operands come to an end with what is ahead of the cursor, with the number of
tokens as a bound. -/
structure Ends (c : Cursor) : Prop where
  /-- An expression is read by the reader of expressions on itself, with no bound. -/
  equation : ∀ least, c.expression least = level expressions least c
  /-- The recursion is no deeper than there are tokens, and then one level. -/
  recursion : ∀ beyond depth least, c.rest.length < depth →
    nested beyond depth least c = c.expression least
  operators : ∀ least left, ∃ turns ≤ c.rest.length,
    Loop (operatorTurn expressions least) turns (left, c)
      (climb expressions c.rest.length least left c)
  arguments : ∃ turns ≤ c.rest.length, Loop (argumentTurn expressions) turns ([], c)
    (argumentsFrom expressions c.rest.length c)
  operands : ∃ turns ≤ c.rest.length, Loop operandTurn turns ([], c) c.operands

/-- With nothing read before, a result is what it is. -/
theorem putBehind_nil (r : Except ParseError (List Operand × Cursor)) : putBehind [] r = r := by
  cases r <;> rfl

/-- From any cursor at a line with an end the readers end, and the number of tokens ahead bounds
their turns. -/
theorem ends {c : Cursor} (heof : c.eof.kind = .eof) : c.Ends where
  equation := fun least => expression_eq_level least heof
  recursion := fun beyond _ _ hdepth => nested_eq_expression beyond heof hdepth
  operators := fun least left => exists_loop_climb stays_of_expressions least left heof
  arguments := putBehind_nil (argumentsFrom expressions c.rest.length c) ▸
    exists_loop_argumentsFrom heof
  operands := putBehind_nil c.operands ▸ exists_loop_operands heof

/-- Whatever is on a line, a token that is not its end takes at least one character of it, and the
scanner never goes behind the end. The tokens of a line are all read after a turn for each
character at most, and the end of the line stands behind them. An expression takes at least one of
the tokens ahead and none that is not there, and with this the recursion and all loops of the
readers of operands come to an end, with the number of tokens ahead as a bound. -/
theorem progress :
    (∀ (s after : Scanner) (token : Token), s.next = .ok (token, after) →
      after.endColumn = s.endColumn ∧ s.column ≤ after.column ∧
        (token.kind ≠ .eof → s.column < after.column)) ∧
    (∀ (source : Text) (line start stop : Nat),
      (Scanner.within source line start stop).endColumn = min stop source.length) ∧
    (∀ s : Scanner, ∃ turns ≤ s.rest.length, Loop Scanner.tokenTurn turns ([], s) s.run) ∧
    (∀ (s : Scanner) (c : Cursor), ofScanner s = .ok c → c.eof.kind = .eof) ∧
    (∀ (c c' : Cursor) (least : Nat) (x : Operand), c.expression least = .ok (x, c') →
      Advances c c') ∧
    ∀ c : Cursor, c.eof.kind = .eof → c.Ends :=
  ⟨fun _ _ _ => Scanner.next_progress, Scanner.endColumn_within, Scanner.exists_loop_run,
    fun _ _ => kind_eof_of_ofScanner, fun _ _ _ _ => advances_of_expression, fun _ => ends⟩

/-- A call behind a prefix operator, and an operand that no comma separates from it. -/
theorem progress_call :
    let s := Scanner.ofLine " -f(1, x) y".toList 0
    let after : Scanner := ⟨s.source, 0, 2, false, "f(1, x) y".toList⟩
    let c : Cursor := ⟨s.run.1, ⟨.eof, [], 0, 11⟩, s.source, 0⟩
    let c' : Cursor := { c with rest := [⟨.identifier, ['y'], 0, 10⟩] }
    let x : Operand := .unary .negate ['-'] (.call (.identifier ['f'])
      [.number 1 .hexadecimal ['1'], .identifier ['x']])
    (s.next = .ok (⟨.binary .subtract, ['-'], 0, 1⟩, after) ∧ after.endColumn = s.endColumn ∧
      s.column < after.column) ∧
    ofScanner s = .ok c ∧ c.eof.kind = .eof ∧ c.expression 0 = .ok (x, c') ∧ Advances c c' ∧
    c.Ends := by
  intro s after c c' x
  have hnext : s.next = .ok (⟨.binary .subtract, ['-'], 0, 1⟩, after) := by decide +kernel
  have hcursor : ofScanner s = .ok c := by decide +kernel
  have hexpression : c.expression 0 = .ok (x, c') := by decide +kernel
  obtain ⟨htoken, -, -, heof, hadvances, hends⟩ := progress
  obtain ⟨hend, -, hlt⟩ := htoken s after _ hnext
  have hkind := heof s c hcursor
  exact ⟨⟨hnext, hend, hlt (by simp)⟩, hcursor, hkind, hexpression,
    hadvances c c' 0 x hexpression, hends c hkind⟩

end PicAssembly.Cursor
