import PicAssembly.Proofs.Token.Printing

/-!
# `PicAssembly.Proofs.Token.Remainder`: what stands behind the tokens of a text

A text may be cut out of a line, so that blanks and a comment stand behind it there. Its
tokens are the same on the line (`Token.Scans.extend`), and the scanner finds nothing behind
them but the comment (`Scanner.runFor_of_blanks`). The blanks are of any class. At one that
the scanner does not skip it stops.
-/

set_option autoImplicit false

namespace PicAssembly

namespace Token

/-- The blanks of the scanner are blanks. -/
theorem isBlank_of_isSeparator {c : Char} (h : isSeparator c) : Text.isBlank c := by
  simp only [isSeparator, Bool.or_eq_true, beq_iff_eq] at h
  rcases h with ((rfl | rfl) | rfl) | rfl <;> decide

/-- Whether a character ends all tokens but comments: a blank or a semicolon. -/
def Ends (rest : Text) : Prop := ∀ c ∈ rest.head?, Text.isBlank c ∨ c = ';'

/-- A text that begins with a blank or a semicolon makes no longer name or number of what precedes
it. -/
theorem Ends.detached {rest : Text} (h : Ends rest) : Detached rest := by
  intro c hc
  rcases h c hc with hblank | rfl
  · exact Bool.eq_false_iff.mpr fun hglue => by simp [isBlank_of_isGlue hglue] at hblank
  · decide

/-- Neither a blank nor a semicolon begins an operator, so it makes no longer one either. -/
theorem Ends.not_mem_operatorOpeners {rest : Text} (h : Ends rest) :
    ∀ c ∈ rest.head?, c ∉ operatorOpeners := by
  have hall : ∀ d ∈ operatorOpeners, Text.isBlank d = false :=
    List.all_iff_forall_prop.mp (by decide)
  intro c hc hop
  rcases h c hc with hblank | rfl
  · simp [hall c hop] at hblank
  · exact absurd hop (by decide)

/-- A text without comments has its tokens also before blanks and comments. -/
theorem Scans.extend {t u : Text} {ls : List Lexeme} (h : Scans t ls [])
    (hls : ∀ l ∈ ls, l.kind ≠ .comment) (hu : Ends u) : Scans (t ++ u) ls u := by
  -- The end of the scan has to be a variable for the induction on it.
  generalize hrest : ([] : Text) = rest at h
  induction h with
  | done t =>
      subst hrest
      exact .done u
  | blank hc _ ih => exact .blank hc (ih hls hrest)
  | @lexeme l t rest ls hl he _ ih =>
      obtain ⟨hk, hls⟩ := List.forall_mem_cons.mp hls
      rw [List.append_assoc]
      refine .lexeme hl ?_ (ih hls hrest)
      -- Only for the last token does what follows change.
      cases t with
      | nil => exact endsBefore_of_not_mem hl.ne_nil hk hu.detached hu.not_mem_operatorOpeners
      | cons c cs => exact he.congr hk rfl

/-- Of the token forms, only comments begin with a semicolon. -/
theorem Spelled.eq_comment {k : Kind} {cs : Text} (h : Spelled k (';' :: cs)) : k = .comment := by
  have hok := extent_of_spelled h (endsBefore_nil _ _)
  have hcomment : extent false ';' (cs ++ []) = .ok (.comment, (cs ++ []).length + 1) := rfl
  rw [hcomment] at hok
  exact (congrArg Prod.fst (Except.ok.inj hok)).symm

end Token

namespace Scanner

/-- To skip blanks is to get to what stands first behind them. -/
theorem head_eq_semicolon {blanks gap tail u : Text} {d : Char}
    (h : blanks ++ d :: u = gap ++ tail) (hblanks : ∀ c ∈ blanks, Text.isBlank c)
    (hd : Text.isBlank d = false) (hgap : ∀ c ∈ gap, Text.isBlank c)
    (htail : ∀ c ∈ tail.head?, c = ';') : d = ';' := by
  have hleft : (blanks ++ d :: u).dropWhile Text.isBlank = d :: u := by
    rw [List.dropWhile_append_of_pos hblanks, List.dropWhile_cons_of_neg (by simp [hd])]
  rw [h, List.dropWhile_append_of_pos hgap] at hleft
  cases tail with
  | nil => cases hleft
  | cons c cs =>
      obtain rfl : c = ';' := htail c rfl
      rw [List.dropWhile_cons_of_neg (by decide)] at hleft
      exact (List.cons.inj hleft).1.symm

/-- Behind blanks of any class there is nothing to read but a comment. -/
theorem runFor_of_blanks {s : Scanner} {gap tail : Text} (hs : s.rest = gap ++ tail)
    (hfresh : s.fresh = false) (hgap : ∀ c ∈ gap, Text.isBlank c)
    (htail : ∀ c ∈ tail.head?, c = ';') (steps : Nat) :
    ∀ token ∈ (runFor steps s).1, token.kind = .comment := by
  cases hnext : s.next with
  | error e => simp [runFor_of_error hnext]
  | ok pair =>
      obtain ⟨token, after⟩ := pair
      by_cases hk : token.kind = .eof
      · simp [runFor_of_eof hnext (.inl hk)]
      · cases steps with
        | zero =>
            simp [runFor_of_eof hnext (.inr rfl)]
        | succ steps =>
            rw [runFor_succ hnext hk]
            obtain ⟨blanks, t, hrest, hblanks, hcases⟩ := next_cases hnext
            rcases hcases with ⟨-, heof, -⟩ | ⟨rest, rfl, hspelled, hends, hafter, -⟩ |
              ⟨-, hfresh', -⟩
            · exact absurd heof hk
            -- Whatever token there is begins with the semicolon, so it is a comment and the last.
            · obtain ⟨d, ds, htext⟩ := List.exists_cons_of_ne_nil hspelled.ne_nil
              rw [htext] at hspelled hrest
              obtain rfl := head_eq_semicolon (hrest.symm.trans hs)
                (fun c hc => Token.isBlank_of_isSeparator (hblanks c hc))
                hspelled.head_not_isBlank hgap htail
              have hcomment := hspelled.eq_comment
              rw [hcomment] at hends
              rw [runFor_of_rest_eq_nil (hafter.trans hends)]
              simpa using hcomment
            · rw [hfresh] at hfresh'
              cases hfresh'

end Scanner

end PicAssembly
