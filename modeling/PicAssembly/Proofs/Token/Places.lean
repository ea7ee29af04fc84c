import PicAssembly.Proofs.Token.Reading

/-!
# `PicAssembly.Proofs.Token.Places`: where tokens and faults stand

A scanner counts columns on its own, apart from the characters that it takes. `Scanner.Placed`
says that the count is right: the column is the number of characters of the line before the
place. It holds at the start of a line and at the start of a part of one, and every step keeps
it (`Scanner.next_placed`). So all columns lie in the line, and a fault that is about a
character has the column of just that character (`Scanner.locates_of_next`).

`Error.Locates` is what a reader may rely on to put a caret under a fault. For the tokens of a
line it becomes `Cursor.Placed`.
-/

set_option autoImplicit false

namespace PicAssembly

/-- The character that an error is about, where the scanner has found one. -/
def Error.character? : Error → Option Char
  | .lex e => e.cause.character?
  | .parse _ => none

/-- The error names a place of a line: its number, its text, and a column that is not behind
its end. A character that the error is about stands in this column. -/
structure Error.Locates (e : Error) (text : Text) (index : Nat) : Prop where
  line : e.line = index + 1
  source : e.source = text
  column : e.column ≤ text.length
  character : ∀ c ∈ e.character?, text[e.column]? = some c

namespace Token

/-! ### Faults inside a token -/

/-- The fault lies in the text, and what it is about stands there. -/
structure Fault.Within (f : Fault) (t : Text) : Prop where
  offset : f.offset ≤ t.length
  character : ∀ c ∈ f.cause.character?, t[f.offset]? = some c

/-- A fault at the first character. -/
theorem Fault.Within.head {cause : LexCause} {c : Char} (h : ∀ d ∈ cause.character?, d = c)
    (t : Text) : Fault.Within ⟨0, cause⟩ (c :: t) := by
  refine ⟨Nat.zero_le _, fun d hd => ?_⟩
  rw [h d hd]
  rfl

/-- Where a closing quote is missed, the character in its place is found, or nothing. -/
theorem within_of_closeQuote (before : Text) {what : Literal} {t : Text} {f : Fault}
    (h : closeQuote what before.length t = .error f) : f.Within (before ++ t) := by
  unfold closeQuote at h
  split at h
  · cases h
  · cases h
    refine ⟨by simp, fun d hd => ?_⟩
    cases hd
    simp
  · cases h
    exact ⟨Nat.zero_le _, by simp [LexCause.character?]⟩

/-- A fault of a string lies inside what is left of the line from its quote on. -/
theorem within_of_stringExtent {t : Text} {f : Fault} (h : stringExtent t = .error f) :
    f.Within ('"' :: t) := by
  unfold stringExtent at h
  dsimp only at h
  split at h
  · cases h
    exact .head (by simp [LexCause.character?]) t
  · cases h

/-- A fault of a character literal lies inside what is left of the line from its quote on. -/
theorem within_of_characterExtent {t : Text} {f : Fault} (h : characterExtent t = .error f) :
    f.Within ('\'' :: t) := by
  cases t with
  | nil =>
      cases h
      exact .head (by simp [LexCause.character?]) []
  | cons c t => exact within_of_closeQuote ['\'', c] h

/-- A fault of a quoted number lies inside what is left of the line from its letter on. -/
theorem within_of_quotedExtent {letter : Char} {t : Text} {f : Fault}
    (h : quotedExtent letter t = .error f) : f.Within (letter :: '\'' :: t) := by
  unfold quotedExtent at h
  split at h
  · cases t with
    | nil =>
        cases h
        exact .head (by simp [LexCause.character?]) ['\'']
    | cons c t => exact within_of_closeQuote [letter, '\'', c] h
  · obtain ⟨digits, rest, rfl, htake, -⟩ := exists_run (isQuotedDigit letter) t
    simp only [htake, List.drop_left] at h
    exact within_of_closeQuote (letter :: '\'' :: digits) h

/-- A fault lies in what is left of the line. -/
theorem within_of_extent {fresh : Bool} {c : Char} {t : Text} {f : Fault}
    (h : extent fresh c t = .error f) : f.Within (c :: t) := by
  by_cases hc : c ∈ openers
  -- Of the characters that tell a token by themselves, only the two quotes can be at fault.
  · simp only [openers, List.mem_cons, List.not_mem_nil, or_false] at hc
    rcases hc with rfl | rfl | rfl | rfl | rfl | rfl | rfl | rfl | rfl
    · cases h
    · cases fresh <;> cases h
    · exact within_of_stringExtent h
    · exact within_of_characterExtent h
    all_goals cases h
  · rw [extent_of_not_mem_openers hc] at h
    split at h
    · next hquote =>
      obtain ⟨-, hhead⟩ := Bool.and_eq_true_iff.mp hquote
      obtain ⟨rest, rfl⟩ := List.head?_eq_some_iff.mp (beq_iff_eq.mp hhead)
      exact within_of_quotedExtent h
    · split at h
      · cases h
      · split at h
        · cases h
        · split at h
          · cases h
          · cases h
            exact .head (by simp [LexCause.character?]) t

/-- A token covers some of what is left of the line. -/
theorem length_of_extent {fresh : Bool} {c : Char} {t : Text} {k : Kind} {n : Nat}
    (h : extent fresh c t = .ok (k, n)) : n ≤ t.length + 1 := by
  rcases extent_cases h with ⟨-, -, -, rfl⟩ | ⟨ds, rest, rfl, rfl, -, -⟩
  · exact Nat.succ_le_succ (List.takeWhile_prefix _).length_le
  · simp

end Token

namespace Scanner

/-- The column of the scanner is the number of characters before it. -/
def Placed (s : Scanner) : Prop :=
  ∃ before after, s.source = before ++ s.rest ++ after ∧ before.length = s.column

/-- What is left does not reach over the end of the line. -/
theorem Placed.column_le {s : Scanner} (h : s.Placed) :
    s.column + s.rest.length ≤ s.source.length := by
  obtain ⟨before, after, hsource, hcolumn⟩ := h
  rw [hsource, ← hcolumn]
  simp only [List.length_append]
  omega

/-- At the beginning of a line no character precedes the scanner. -/
theorem placed_ofLine (source : Text) (index : Nat) : (ofLine source index).Placed :=
  ⟨[], [], by simp [ofLine], rfl⟩

/-- Also the scanner of a part of a line counts from the start of the line. -/
theorem placed_within (source : Text) (index start stop : Nat) :
    (within source index start stop).Placed := by
  have hstop : min stop source.length ≤ source.length := Nat.min_le_right _ _
  have hstart : min start (min stop source.length) ≤ min stop source.length :=
    Nat.min_le_right _ _
  refine ⟨source.take (min start (min stop source.length)),
    source.drop (min stop source.length), ?_, List.length_take_of_le (hstart.trans hstop)⟩
  calc source
      = source.take (min stop source.length) ++ source.drop (min stop source.length) :=
        (List.take_append_drop _ _).symm
    _ = (source.take (min stop source.length)).take (min start (min stop source.length)) ++
          (source.take (min stop source.length)).drop (min start (min stop source.length)) ++
          source.drop (min stop source.length) :=
        congrArg (· ++ _) (List.take_append_drop _ _).symm
    _ = _ := by
        rw [List.take_take, Nat.min_eq_left hstart]
        rfl

/-- Farther on in the line. -/
theorem Placed.forward {s s' : Scanner} (taken : Text) (h : s.Placed)
    (hrest : s.rest = taken ++ s'.rest) (hsource : s'.source = s.source)
    (hcolumn : s'.column = s.column + taken.length) : s'.Placed := by
  obtain ⟨before, after, hline, hlength⟩ := h
  refine ⟨before ++ taken, after, ?_, ?_⟩
  · rw [hsource, hline, hrest]
    simp only [List.append_assoc]
  · rw [List.length_append, hcolumn, hlength]

/-- The scanner stays in its place on the line when it passes over blanks. -/
theorem Placed.skipBlanks {s : Scanner} (h : s.Placed) : s.skipBlanks.Placed := by
  obtain ⟨blanks, t, hrest, -, hskip⟩ := s.exists_skipBlanks
  rw [hskip]
  exact h.forward blanks hrest rfl rfl

/-- A step of the scanner keeps its count of columns, and the token has the column where the
step began. -/
theorem next_placed {s after : Scanner} {token : Token} (hs : s.Placed)
    (h : s.next = .ok (token, after)) :
    after.Placed ∧ after.source = s.source ∧ after.line = s.line ∧
      token.column ≤ s.source.length := by
  have hskip := hs.skipBlanks
  have hcolumn : s.skipBlanks.column ≤ s.source.length :=
    (Nat.le_add_right _ _).trans hskip.column_le
  simp only [next, take] at h
  split at h
  · cases h
    exact ⟨hskip, rfl, rfl, hcolumn⟩
  · next c cs hrest =>
    split at h
    · cases h
    · next k n hextent =>
      cases h
      refine ⟨hskip.forward ((c :: cs).take n) ?_ rfl ?_, rfl, rfl, hcolumn⟩
      · rw [hrest, List.take_append_drop]
      · rw [List.length_take_of_le (Token.length_of_extent hextent)]

/-- A fault of the scanner is located. -/
theorem locates_of_next {s : Scanner} {e : LexError} (hs : s.Placed) (h : s.next = .error e) :
    (Error.lex e).Locates s.source s.line := by
  have hskip := hs.skipBlanks
  simp only [next, take] at h
  split at h
  · cases h
  · next c cs hrest =>
    split at h
    · next f hfault =>
      cases h
      obtain ⟨hoffset, hcharacter⟩ := Token.within_of_extent hfault
      rw [← hrest] at hoffset hcharacter
      have hcolumn := hskip.column_le
      obtain ⟨before, after, hline, hlength⟩ := hskip
      refine ⟨rfl, rfl, ?_, fun d hd => ?_⟩
      · exact (Nat.add_le_add_left hoffset _).trans hcolumn
      -- The character is counted from the beginning of the token, and so is put behind all that is
      -- before the token.
      · have hat := hcharacter d hd
        have hlt : f.offset < s.skipBlanks.rest.length := (List.getElem?_eq_some_iff.mp hat).1
        show s.skipBlanks.source[s.skipBlanks.column + f.offset]? = some d
        rw [hline, ← hlength, List.append_assoc, List.getElem?_append_right (by omega),
          Nat.add_sub_cancel_left, List.getElem?_append_left hlt, hat]
    · cases h

/-- All tokens of a run have columns of the line, and the fault that ends it is located. -/
theorem runFor_placed (steps : Nat) {s : Scanner} (hs : s.Placed) :
    (∀ token ∈ (runFor steps s).1, token.column ≤ s.source.length) ∧
      (∀ eof, (runFor steps s).2 = .ok eof → eof.column ≤ s.source.length) ∧
      ∀ e, (runFor steps s).2 = .error e → (Error.lex e).Locates s.source s.line := by
  -- Every step leaves the scanner placed, so what holds of one step holds of all.
  induction steps generalizing s with
  | zero =>
      cases hnext : s.next with
      | error e =>
          rw [runFor_of_error hnext]
          simpa using locates_of_next hs hnext
      | ok pair =>
          obtain ⟨token, after⟩ := pair
          obtain ⟨-, -, -, hcolumn⟩ := next_placed hs hnext
          rw [runFor_of_eof hnext (.inr rfl)]
          simpa using hcolumn
  | succ steps ih =>
      cases hnext : s.next with
      | error e =>
          rw [runFor_of_error hnext]
          simpa using locates_of_next hs hnext
      | ok pair =>
          obtain ⟨token, after⟩ := pair
          obtain ⟨hafter, hsource, hline, hcolumn⟩ := next_placed hs hnext
          by_cases hk : token.kind = .eof
          · rw [runFor_of_eof hnext (.inl hk)]
            simpa using hcolumn
          · obtain ⟨htokens, heof, hfault⟩ := ih hafter
            rw [hsource] at htokens heof hfault
            rw [hline] at hfault
            rw [runFor_succ hnext hk]
            exact ⟨List.forall_mem_cons.mpr ⟨hcolumn, htokens⟩, heof, hfault⟩

end Scanner

namespace Cursor

/-- The tokens ahead and the end of the line have columns of the line. -/
def Placed (c : Cursor) : Prop := ∀ token ∈ c.eof :: c.rest, token.column ≤ c.source.length

/-- The tokens ahead later were ahead before. -/
theorem Reads.subset {c c' : Cursor} {ls : List Token.Lexeme} (h : Reads c ls c') :
    c'.eof :: c'.rest ⊆ c.eof :: c.rest := by
  obtain ⟨tokens, hc, -⟩ := h
  rw [hc]
  exact List.cons_subset_cons _ (List.subset_append_right tokens c'.rest)

/-- Reading tokens does not change the line they are on. -/
theorem Reads.source_eq {c c' : Cursor} {ls : List Token.Lexeme} (h : Reads c ls c') :
    c'.source = c.source ∧ c'.line = c.line := by
  obtain ⟨tokens, hc, -⟩ := h
  rw [hc]
  exact ⟨rfl, rfl⟩

/-- The tokens that are left have the columns they had. -/
theorem Reads.placed {c c' : Cursor} {ls : List Token.Lexeme} (h : Reads c ls c')
    (hc : c.Placed) : c'.Placed := by
  intro token htoken
  rw [h.source_eq.1]
  exact hc token (h.subset htoken)

/-- The tokens of a line are in the line, and a fault that keeps the line from being cut into
tokens is located. -/
theorem ofScanner_placed {s : Scanner} (hs : s.Placed) :
    (∀ c, ofScanner s = .ok c → c.Placed ∧ c.source = s.source ∧ c.line = s.line) ∧
      ∀ e, ofScanner s = .error e → (Error.lex e).Locates s.source s.line := by
  obtain ⟨htokens, heof, hfault⟩ := Scanner.runFor_placed s.rest.length hs
  refine ⟨fun c hc => ?_, fun e he => ?_⟩
  · obtain ⟨hrun, hsource, hline⟩ := ofScanner_eq_ok_iff.mp hc
    rw [← Scanner.run, hrun] at htokens heof
    refine ⟨?_, hsource, hline⟩
    rw [Placed, hsource]
    exact List.forall_mem_cons.mpr ⟨heof _ rfl, htokens⟩
  · rw [← Scanner.run] at hfault
    unfold ofScanner at he
    dsimp only at he
    split at he
    · cases he
    · next hout =>
      cases he
      exact hfault _ hout

end Cursor

end PicAssembly
