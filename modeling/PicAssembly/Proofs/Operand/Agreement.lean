import PicAssembly.Proofs.Operand.Climbing

/-!
# `PicAssembly.Proofs.Operand.Agreement`: reading depends on the tokens only

Two cursors over the same tokens may be in different lines, at different columns, and one of
them may have a comment behind the tokens that the other has not (`Cursor.Agrees`). The readers
of operands do not notice: both readings give the same operands and leave cursors that agree
again, or both fail (`Cursor.Alike`). Without a comment they also complain about the same.

The bounds on the depth and on the turns of the loops need not be the same in the two
readings, only large enough. So the induction is on those of one, for any of the other.
-/

set_option autoImplicit false

namespace PicAssembly

open Token (Lexeme headKind)

/-- What a token stands for in front of an operand is told by its kind and its text. -/
theorem Operand.prefixOp?_congr {token token' : Token} (h : token.lexeme = token'.lexeme) :
    prefixOp? token = prefixOp? token' := by
  have hkind : token.kind = token'.kind := congrArg Lexeme.kind h
  have htext : token.text = token'.text := congrArg Lexeme.text h
  rw [prefixOp?, prefixOp?, hkind, htext]

namespace Cursor

/-- The tokens ahead of `c` are those ahead of `d` and then `tail`. -/
structure Agrees (tail : List Lexeme) (c d : Cursor) : Prop where
  lexemes : c.lexemes = d.lexemes ++ tail
  eof_left : c.eof.kind = .eof
  eof_right : d.eof.kind = .eof

/-- Both readings fail, or both give the same and leave cursors that agree, with at most `n`
tokens ahead. -/
inductive Alike {α : Type} (tail : List Lexeme) (n : Nat) :
    Except ParseError (α × Cursor) → Except ParseError (α × Cursor) → Prop
  | ok {x : α} {c d : Cursor} (h : Agrees tail c d) (hn : d.rest.length ≤ n) :
      Alike tail n (.ok (x, c)) (.ok (x, d))
  | error {e e' : ParseError} (h : tail = [] → e.cause = e'.cause) :
      Alike tail n (.error e) (.error e')

variable {tail : List Lexeme} {c d : Cursor}

namespace Alike

variable {α β : Type} {n m : Nat} {r r' : Except ParseError (α × Cursor)}

/-- A larger bound on the tokens ahead says less. -/
theorem mono (h : Alike tail n r r') (hle : n ≤ m) : Alike tail m r r' := by
  cases h with
  | ok h hn => exact .ok h (hn.trans hle)
  | error h => exact .error h

/-- One reading after the other. -/
theorem bind {f g : α × Cursor → Except ParseError (β × Cursor)} (h : Alike tail n r r')
    (hfg : ∀ x c d, Agrees tail c d → d.rest.length ≤ n →
      Alike tail m (f (x, c)) (g (x, d))) : Alike tail m (r >>= f) (r' >>= g) := by
  cases h with
  | ok h hn => exact hfg _ _ _ h hn
  | error h => exact .error h

/-- If the one reading succeeds, so does the other. -/
theorem exists_right {x : α} (h : Alike tail n r r') (hr : r = .ok (x, c)) :
    ∃ d, r' = .ok (x, d) ∧ Agrees tail c d := by
  cases h with
  | ok h hn =>
      cases hr
      exact ⟨_, rfl, h⟩
  | error => cases hr

/-- If the shorter line is read, the longer one is, with the same result. -/
theorem exists_left {x : α} (h : Alike tail n r r') (hr : r' = .ok (x, d)) :
    ∃ c, r = .ok (x, c) ∧ Agrees tail c d := by
  cases h with
  | ok h hn =>
      cases hr
      exact ⟨_, rfl, h⟩
  | error => cases hr

end Alike

namespace Agrees

/-- The one cursor has as many tokens more as the tail has. -/
theorem length (h : Agrees tail c d) : c.rest.length = d.rest.length + tail.length := by
  rw [← length_lexemes c, h.lexemes, List.length_append, length_lexemes]

/-- Where nothing is ahead of the one cursor, the tail is ahead of the other. -/
theorem kind_of_nil (h : Agrees tail c d) (hd : d.lexemes = []) :
    c.kind = headKind tail ∧ d.kind = .eof := by
  rw [kind_eq_headKind h.eof_left, kind_eq_headKind h.eof_right, h.lexemes, hd]
  exact ⟨rfl, rfl⟩

/-- Anywhere else the same token is ahead of both, and behind it they agree again. -/
theorem ahead (h : Agrees tail c d) (hd : d.lexemes ≠ []) :
    (c.peek 0).lexeme = (d.peek 0).lexeme ∧ Agrees tail c.consume d.consume ∧
      d.rest.length = d.consume.rest.length + 1 := by
  obtain ⟨l, r, hr⟩ := List.exists_cons_of_ne_nil hd
  have hc : c.lexemes = l :: (r ++ tail) := by rw [h.lexemes, hr, List.cons_append]
  obtain ⟨hleft, hpeek⟩ := reads_of_lexemes hc
  obtain ⟨hright, hpeek'⟩ := reads_of_lexemes hr
  refine ⟨hpeek.trans hpeek'.symm, ⟨?_, hleft.eof ▸ h.eof_left, hright.eof ▸ h.eof_right⟩,
    hright.length_succ⟩
  rw [hleft.tail_eq hc, hright.tail_eq hr]

end Agrees

/-- A cursor with nothing left has no tokens ahead. This is where the tail of the other begins. -/
theorem lexemes_eq_nil_of_length (h : d.rest.length = 0) : d.lexemes = [] := by
  rw [lexemes, List.length_eq_zero_iff.mp h, List.map_nil]

/-- The tail is nothing or a comment. -/
def IsTail (tail : List Lexeme) : Prop := headKind tail = .comment ∨ headKind tail = .eof

/-- The reading fails because of the token ahead. -/
def Refused {α : Type} (c : Cursor) (r : Except ParseError α) : Prop :=
  ∃ e, r = .error e ∧ e.cause = .unexpected c.kind

/-- The reader of expressions fails where the operands end. -/
def Refuses (inner : InnerReader) : Prop :=
  ∀ (least : Nat) (c : Cursor), c.kind = .comment ∨ c.kind = .eof → c.Refused (inner least c)

/-- No operand begins with a comment or with the end of the line, whatever reads the inner
expressions. -/
theorem refused_primary {c : Cursor} (hk : c.kind = .comment ∨ c.kind = .eof)
    (inner : InnerReader) : c.Refused (primary inner c) := by
  have hprimary : primary inner c
      = .error (c.consume.errorAt (c.peek 0) (.unexpected (c.peek 0).kind)) := by
    rcases hk with hk | hk <;> rw [kind] at hk <;> simp [primary, Operand.prefixOp?, hk]
  exact ⟨_, hprimary, rfl⟩

/-- At any depth an expression is refused where the operands end. -/
theorem refuses_expressionWithin (depth : Nat) : Refuses (expressionWithin depth) := by
  intro least c hk
  cases depth with
  | zero => exact ⟨_, rfl, rfl⟩
  | succ depth =>
      obtain ⟨e, he, hcause⟩ := refused_primary hk (expressionWithin depth)
      refine ⟨e, ?_, hcause⟩
      rw [expressionWithin, he]
      rfl

/-- The arguments of a call are refused there too: at least one is wanted. -/
theorem Refuses.argumentsFrom {inner : InnerReader} (hinner : Refuses inner) {c : Cursor}
    (hk : c.kind = .comment ∨ c.kind = .eof) (steps : Nat) :
    c.Refused (argumentsFrom inner steps c) := by
  cases steps with
  | zero => exact ⟨_, rfl, rfl⟩
  | succ steps =>
      obtain ⟨e, he, hcause⟩ := hinner 0 c hk
      refine ⟨e, ?_, hcause⟩
      rw [Cursor.argumentsFrom, he]
      rfl

/-- Where nothing is ahead of the one cursor, the operands end for both. -/
theorem Agrees.closing (h : Agrees tail c d) (ht : IsTail tail) (hd : d.lexemes = []) :
    (c.kind = .comment ∨ c.kind = .eof) ∧ (d.kind = .comment ∨ d.kind = .eof) := by
  obtain ⟨hc, hd⟩ := h.kind_of_nil hd
  exact ⟨hc ▸ ht, Or.inr hd⟩

/-- Two readings that fail where the operands end are alike there. -/
theorem Agrees.alike_of_refused {α : Type} {r r' : Except ParseError (α × Cursor)} {n : Nat}
    (h : Agrees tail c d) (ht : IsTail tail) (hnil : d.lexemes = [])
    (hr : c.kind = .comment ∨ c.kind = .eof → c.Refused r)
    (hr' : d.kind = .comment ∨ d.kind = .eof → d.Refused r') : Alike tail n r r' := by
  obtain ⟨hclosing, hclosing'⟩ := h.closing ht hnil
  obtain ⟨e, rfl, he⟩ := hr hclosing
  obtain ⟨e', rfl, he'⟩ := hr' hclosing'
  obtain ⟨hc, hd⟩ := h.kind_of_nil hnil
  refine .error fun hempty => ?_
  subst hempty
  rw [he, he', hc, hd]
  rfl

/-- The two readers of expressions read alike where at most `n` tokens are ahead, and they take
a token or fail. -/
structure InnerAlike (tail : List Lexeme) (n : Nat) (inner inner' : InnerReader) : Prop where
  alike : ∀ (least : Nat) (c d : Cursor), Agrees tail c d → d.rest.length ≤ n →
    Alike tail (d.rest.length - 1) (inner least c) (inner' least d)
  left : Refuses inner
  right : Refuses inner'

/-- Readers that read alike with more tokens ahead read alike with fewer. -/
theorem InnerAlike.mono {n m : Nat} {inner inner' : InnerReader}
    (h : InnerAlike tail n inner inner') (hle : m ≤ n) : InnerAlike tail m inner inner' :=
  ⟨fun least c d hcd hd => h.alike least c d hcd (hd.trans hle), h.left, h.right⟩

/-! ### The readers, one by one -/

/-- Either what is expected is ahead of both cursors, or of none. -/
theorem Agrees.expect_cases (h : Agrees tail c d) (ht : IsTail tail) (wanted : Token.Kind)
    (hcomment : wanted ≠ .comment) (heof : wanted ≠ .eof) :
    (c.expect wanted = .ok (c.peek 0, c.consume) ∧ d.expect wanted = .ok (d.peek 0, d.consume) ∧
      (c.peek 0).lexeme = (d.peek 0).lexeme ∧ Agrees tail c.consume d.consume ∧
      d.rest.length = d.consume.rest.length + 1) ∨
    ∃ e e', c.expect wanted = .error e ∧ d.expect wanted = .error e' ∧
      (tail = [] → e.cause = e'.cause) := by
  -- Where one cursor has nothing ahead, a comment or the end is ahead of the other.
  by_cases hd : d.lexemes = []
  · obtain ⟨hc, hd⟩ := h.kind_of_nil hd
    have hleft : c.kind ≠ wanted := by
      rw [hc]
      rcases ht with ht | ht <;> rw [ht]
      · exact hcomment.symm
      · exact heof.symm
    have hright : d.kind ≠ wanted := hd ▸ heof.symm
    refine Or.inr ⟨_, _, if_neg hleft, if_neg hright, fun hnil => ?_⟩
    subst hnil
    show ParseCause.expected wanted c.kind = .expected wanted d.kind
    rw [hc, hd]
    rfl
  · obtain ⟨hpeek, hconsume, hlength⟩ := h.ahead hd
    have hkind : c.kind = d.kind := congrArg Lexeme.kind hpeek
    by_cases hw : d.kind = wanted
    · exact Or.inl ⟨if_pos (hkind.trans hw), if_pos hw, hpeek, hconsume, hlength⟩
    · refine Or.inr ⟨_, _, if_neg (hkind ▸ hw), if_neg hw, fun _ => ?_⟩
      show ParseCause.expected wanted c.kind = .expected wanted d.kind
      rw [hkind]

/-- What a number token stands for, or that it is too large, is told by its text. -/
theorem number_cases (c d : Cursor) {token token' : Token} (h : token.text = token'.text) :
    (∃ x, c.number token = .ok x ∧ d.number token' = .ok x) ∨
      ∃ e e', c.number token = .error e ∧ d.number token' = .error e' ∧ e.cause = e'.cause := by
  rw [number_eq, number_eq, h]
  split
  · exact Or.inl ⟨_, rfl, rfl⟩
  · split
    · exact Or.inl ⟨_, rfl, rfl⟩
    · exact Or.inr ⟨_, _, rfl, rfl, by simp [errorAt]⟩

variable {inner inner' : InnerReader} {n : Nat}

/-- The first operand is read alike. It takes a token, so what follows has one token less ahead. -/
theorem Agrees.alike_primary (ht : IsTail tail) (hinner : InnerAlike tail n inner inner')
    (h : Agrees tail c d) (hd : d.rest.length = n + 1) :
    Alike tail n (primary inner c) (primary inner' d) := by
  have hne : d.lexemes ≠ [] := by
    rintro hnil
    rw [← length_lexemes, hnil] at hd
    cases hd
  obtain ⟨hpeek, hconsume, hlength⟩ := h.ahead hne
  have hkind : (c.peek 0).kind = (d.peek 0).kind := congrArg Lexeme.kind hpeek
  have htext : (c.peek 0).text = (d.peek 0).text := congrArg Lexeme.text hpeek
  have hn : d.consume.rest.length ≤ n := by omega
  -- The same token is ahead of both readers, so they take the same branch.
  unfold primary
  dsimp only
  rw [Operand.prefixOp?_congr hpeek, hkind, htext]
  cases Operand.prefixOp? (d.peek 0) with
  | some op =>
      exact (hinner.alike _ _ _ hconsume hn).bind fun x c' d' h' hn' =>
        .ok h' (hn'.trans (by omega))
  | none =>
      cases (d.peek 0).kind with
      | number =>
          rcases number_cases c.consume d.consume htext with ⟨x, hc, hd⟩ | ⟨e, e', hc, hd, he⟩
          · simp only [hc, hd]
            exact .ok hconsume hn
          · simp only [hc, hd]
            exact .error fun _ => he
      | string => exact .ok hconsume hn
      | chipId => exact .ok hconsume hn
      | programCounter => exact .ok hconsume hn
      | identifier => exact .ok hconsume hn
      | pound =>
          rcases hconsume.expect_cases ht .identifier (by simp) (by simp) with
            ⟨hc, hd, hname, hconsume', hlength'⟩ | ⟨e, e', hc, hd, he⟩
          · have hname : (c.consume.peek 0).text = (d.consume.peek 0).text :=
              congrArg Lexeme.text hname
            simp only [hc, hd, bind, Except.bind, hname]
            exact .ok hconsume' (by omega)
          · simp only [hc, hd]
            exact .error he
      | openParen =>
          refine (hinner.alike _ _ _ hconsume hn).bind fun x c₁ d₁ h₁ hn₁ => ?_
          rcases h₁.expect_cases ht .closeParen (by simp) (by simp) with
            ⟨hc, hd, -, hconsume', hlength'⟩ | ⟨e, e', hc, hd, he⟩
          · simp only [hc, hd, bind, Except.bind]
            exact .ok hconsume' (by omega)
          · simp only [hc, hd]
            exact .error he
      | _ => exact .error fun _ => rfl

/-- The arguments are read alike, by induction on the bound of the longer line. The bounds differ
because each cursor counts its own tokens. -/
theorem alike_argumentsFrom (ht : IsTail tail) (hinner : InnerAlike tail n inner inner')
    (steps' : Nat) : ∀ steps c d, Agrees tail c d → d.rest.length ≤ n →
      c.rest.length ≤ steps → d.rest.length ≤ steps' →
      Alike tail d.rest.length (argumentsFrom inner steps c) (argumentsFrom inner' steps' d) := by
  induction steps' with
  | zero =>
      intro steps c d h _ _ hsteps'
      exact h.alike_of_refused ht (lexemes_eq_nil_of_length (Nat.le_zero.mp hsteps'))
        (hinner.left.argumentsFrom · _) (hinner.right.argumentsFrom · _)
  | succ steps' ih =>
      intro steps c d h hn hsteps hsteps'
      by_cases hnil : d.lexemes = []
      · exact h.alike_of_refused ht hnil (hinner.left.argumentsFrom · _)
          (hinner.right.argumentsFrom · _)
      · have hlength := h.length
        obtain ⟨-, -, hpos⟩ := h.ahead hnil
        obtain ⟨steps, rfl⟩ := Nat.exists_eq_succ_of_ne_zero (n := steps) (by omega)
        rw [argumentsFrom, argumentsFrom]
        refine (hinner.alike _ _ _ h hn).bind fun x c₁ d₁ h₁ hn₁ => ?_
        dsimp only
        by_cases hnil₁ : d₁.lexemes = []
        -- The list of arguments is not closed.
        · obtain ⟨hc₁, hd₁⟩ := h₁.kind_of_nil hnil₁
          rw [hd₁, hc₁]
          rcases ht with htail | htail <;> rw [htail]
          · refine .error fun hempty => ?_
            rw [hempty] at htail
            cases htail
          · exact .error fun _ => rfl
        · obtain ⟨hpeek, hconsume, hpos₁⟩ := h₁.ahead hnil₁
          have hkind : c₁.kind = d₁.kind := congrArg Lexeme.kind hpeek
          have hlength₁ := hconsume.length
          rw [hkind]
          cases d₁.kind with
          | comma =>
              exact (ih steps _ _ hconsume (by omega) (by omega) (by omega)).bind
                fun xs c₂ d₂ h₂ hn₂ => .ok h₂ (hn₂.trans (by omega))
          | closeParen => exact .ok hconsume (by omega)
          | _ => exact .error fun _ => rfl

/-- The arguments of a call are read alike, with the number of tokens ahead as the bound. -/
theorem Agrees.alike_arguments (ht : IsTail tail) (hinner : InnerAlike tail n inner inner')
    (h : Agrees tail c d) (hn : d.rest.length ≤ n) :
    Alike tail d.rest.length (arguments inner c) (arguments inner' d) := by
  unfold arguments
  by_cases hnil : d.lexemes = []
  · obtain ⟨hc, hd⟩ := h.closing ht hnil
    rw [if_neg (by rcases hc with hc | hc <;> simp [hc]),
      if_neg (by rcases hd with hd | hd <;> simp [hd])]
    exact alike_argumentsFrom ht hinner _ _ _ _ h hn (Nat.le_refl _) (Nat.le_refl _)
  · obtain ⟨hpeek, hconsume, hpos⟩ := h.ahead hnil
    have hkind : c.kind = d.kind := congrArg Lexeme.kind hpeek
    rw [hkind]
    split
    · exact .ok hconsume (by omega)
    · exact alike_argumentsFrom ht hinner _ _ _ _ h hn (Nat.le_refl _) (Nat.le_refl _)

/-- The operators behind an operand are read alike, whatever stands to the left of them. -/
theorem alike_climb (ht : IsTail tail) (hinner : InnerAlike tail n inner inner') (least : Nat)
    (steps' : Nat) : ∀ steps left c d, Agrees tail c d → d.rest.length ≤ n →
      c.rest.length ≤ steps → d.rest.length ≤ steps' →
      Alike tail d.rest.length (climb inner steps least left c)
        (climb inner' steps' least left d) := by
  -- With nothing ahead of the one cursor, neither loop goes on.
  have hstop : ∀ steps steps' left c d, Agrees tail c d → d.lexemes = [] →
      Alike tail d.rest.length (climb inner steps least left c)
        (climb inner' steps' least left d) := by
    intro steps steps' left c d h hnil
    obtain ⟨hc, hd⟩ := h.kind_of_nil hnil
    rw [climb_of_not_extends, climb_of_not_extends]
    · exact .ok h (Nat.le_refl _)
    · rw [hd]
      exact fun hx => hx
    · rw [hc]
      rcases ht with htail | htail <;> rw [htail] <;> exact fun hx => hx
  induction steps' with
  | zero =>
      intro steps left c d h _ _ hsteps'
      exact hstop _ _ _ _ _ h (lexemes_eq_nil_of_length (Nat.le_zero.mp hsteps'))
  | succ steps' ih =>
      intro steps left c d h hn hsteps hsteps'
      by_cases hnil : d.lexemes = []
      · exact hstop _ _ _ _ _ h hnil
      · obtain ⟨hpeek, hconsume, hpos⟩ := h.ahead hnil
        have hkind : c.kind = d.kind := congrArg Lexeme.kind hpeek
        have hlength := h.length
        have hlength' := hconsume.length
        obtain ⟨steps, rfl⟩ := Nat.exists_eq_succ_of_ne_zero (n := steps) (by omega)
        -- A turn of the loop takes the token ahead and what the inner reader takes.
        have hturn {α : Type} {r r' : Except ParseError (α × Cursor)} {f : α → Operand}
            (hr : Alike tail d.consume.rest.length r r') :
            Alike tail d.rest.length (r >>= fun p => climb inner steps least (f p.1) p.2)
              (r' >>= fun p => climb inner' steps' least (f p.1) p.2) :=
          hr.bind fun x c₁ d₁ h₁ hn₁ => by
            have hlength₁ := h₁.length
            exact (ih steps (f x) c₁ d₁ h₁ (by omega) (by omega) (by omega)).mono (by omega)
        rw [climb, climb, hkind]
        cases d.kind with
        | step op =>
            dsimp only
            split
            · exact .ok h (Nat.le_refl _)
            · exact (ih _ _ _ _ hconsume (by omega) (by omega) (by omega)).mono (by omega)
        | openParen =>
            dsimp only
            split
            · exact .error fun _ => rfl
            · exact hturn (hconsume.alike_arguments ht hinner (by omega))
        | assign op =>
            dsimp only
            split
            · exact .ok h (Nat.le_refl _)
            · exact hturn ((hinner.alike _ _ _ hconsume (by omega)).mono (by omega))
        | binary op =>
            dsimp only
            split
            · exact .ok h (Nat.le_refl _)
            · exact hturn ((hinner.alike _ _ _ hconsume (by omega)).mono (by omega))
        | _ => exact .ok h (Nat.le_refl _)

/-- The readers of expressions read alike, each with any depth that is enough for it. -/
theorem innerAlike_expressionWithin (ht : IsTail tail) (depth' : Nat) :
    ∀ depth, depth' + tail.length ≤ depth →
      InnerAlike tail depth' (expressionWithin depth) (expressionWithin depth') := by
  -- An inner expression comes after a token, so a depth less is enough for what is left.
  induction depth' with
  | zero =>
      intro depth _
      refine ⟨fun least c d h hn => ?_, refuses_expressionWithin _, refuses_expressionWithin _⟩
      exact h.alike_of_refused ht (lexemes_eq_nil_of_length (Nat.le_zero.mp hn))
        (refuses_expressionWithin _ _ _) (refuses_expressionWithin _ _ _)
  | succ depth' ih =>
      intro depth hdepth
      refine ⟨fun least c d h hn => ?_, refuses_expressionWithin _, refuses_expressionWithin _⟩
      by_cases hnil : d.lexemes = []
      · exact h.alike_of_refused ht hnil (refuses_expressionWithin _ _ _)
          (refuses_expressionWithin _ _ _)
      · obtain ⟨-, -, hpos⟩ := h.ahead hnil
        obtain ⟨depth, rfl⟩ := Nat.exists_eq_succ_of_ne_zero (n := depth) (by omega)
        have hinner := (ih depth (by omega)).mono (m := d.consume.rest.length) (by omega)
        rw [expressionWithin, expressionWithin]
        refine (h.alike_primary ht hinner hpos).bind fun x c₁ d₁ h₁ hn₁ => ?_
        exact (alike_climb ht hinner least _ _ x _ _ h₁ hn₁ (Nat.le_refl _)
          (Nat.le_refl _)).mono (by omega)

/-- An expression is read alike with a comment behind it. The tail is read by none of the readers,
since no operand begins with it and no operator is one. -/
theorem Agrees.alike_expression (h : Agrees tail c d) (ht : IsTail tail) (least : Nat) :
    Alike tail (d.rest.length - 1) (c.expression least) (d.expression least) := by
  have hlength := h.length
  exact (innerAlike_expressionWithin ht d.rest.length c.rest.length (by omega)).alike least c d h
    (Nat.le_refl _)

/-! ### Operands in a row -/

/-- The comma behind an operand is ahead of both cursors or of none. -/
theorem Agrees.skipComma (h : Agrees tail c d) (ht : IsTail tail) :
    Agrees tail (if c.kind = .comma then c.consume else c)
        (if d.kind = .comma then d.consume else d) ∧
      (if d.kind = .comma then d.consume else d).rest.length ≤ d.rest.length := by
  by_cases hnil : d.lexemes = []
  · obtain ⟨hc, hd⟩ := h.closing ht hnil
    rw [if_neg (by rcases hc with hc | hc <;> simp [hc]),
      if_neg (by rcases hd with hd | hd <;> simp [hd])]
    exact ⟨h, Nat.le_refl _⟩
  · obtain ⟨hpeek, hconsume, hpos⟩ := h.ahead hnil
    have hkind : c.kind = d.kind := congrArg Lexeme.kind hpeek
    rw [hkind]
    split
    · exact ⟨hconsume, by omega⟩
    · exact ⟨h, Nat.le_refl _⟩

/-- Where the operands end, there are none. -/
theorem operandsWithin_of_closing {c : Cursor} (hk : c.kind = .comment ∨ c.kind = .eof)
    (steps : Nat) : operandsWithin steps c = .ok ([], c) := by
  cases steps with
  | zero => rfl
  | succ steps =>
      rw [operandsWithin]
      exact if_pos hk

/-- The operands of a line are read alike, by induction on the bound of the longer line. -/
theorem alike_operandsWithin (ht : IsTail tail) (steps' : Nat) :
    ∀ steps c d, Agrees tail c d → c.rest.length ≤ steps → d.rest.length ≤ steps' →
      Alike tail d.rest.length (operandsWithin steps c) (operandsWithin steps' d) := by
  induction steps' with
  | zero =>
      intro steps c d h _ hsteps'
      have hnil := lexemes_eq_nil_of_length (Nat.le_zero.mp hsteps')
      obtain ⟨hc, hd⟩ := h.closing ht hnil
      rw [operandsWithin_of_closing hc, operandsWithin_of_closing hd]
      exact .ok h (Nat.le_refl _)
  | succ steps' ih =>
      intro steps c d h hsteps hsteps'
      by_cases hnil : d.lexemes = []
      · obtain ⟨hc, hd⟩ := h.closing ht hnil
        rw [operandsWithin_of_closing hc, operandsWithin_of_closing hd]
        exact .ok h (Nat.le_refl _)
      · obtain ⟨hpeek, -, hpos⟩ := h.ahead hnil
        have hkind : c.kind = d.kind := congrArg Lexeme.kind hpeek
        have hlength := h.length
        obtain ⟨steps, rfl⟩ := Nat.exists_eq_succ_of_ne_zero (n := steps) (by omega)
        rw [operandsWithin, operandsWithin, hkind]
        split
        · exact .ok h (Nat.le_refl _)
        · refine (h.alike_expression ht 0).bind fun x c₁ d₁ h₁ hn₁ => ?_
          -- Both readers take the comma, or neither does.
          obtain ⟨hskip, hle⟩ := h₁.skipComma ht
          have hlength₁ := hskip.length
          exact (ih steps _ _ hskip (by omega) (by omega)).bind fun xs c₂ d₂ h₂ hn₂ =>
            .ok h₂ (hn₂.trans (by omega))

/-- Operands in a row are read alike, whether or not a comment follows. -/
theorem Agrees.alike_operands (h : Agrees tail c d) (ht : IsTail tail) :
    Alike tail d.rest.length c.operands d.operands :=
  alike_operandsWithin ht _ _ c d h (Nat.le_refl _) (Nat.le_refl _)

end Cursor

end PicAssembly
