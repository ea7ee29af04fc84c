import PicAssembly.Token.Cursor
import PicAssembly.Proofs.Token.Spelling

/-!
# `PicAssembly.Proofs.Token.Scanning`: a text and its tokens

`Token.Scans t ls rest` says that `t` consists of blanks and of the tokens `ls`, in this
order, up to `rest`. Each token is checked with what really follows it, so two scans put
end to end are a scan (`Scans.append`) and no token is split or merged by that.

The scanner agrees with the relation in both directions, on lines without a directive:

* `Scanner.run_of_scans`: a text with a scan to its end is cut into just these tokens.
* `Scanner.scans_of_run`: what the scanner cuts a line into is a scan of the line.

The relation forgets where the tokens stand. All that the reader of a line asks about a
place is whether the first token stands in column zero, which `Scanner.column_of_run`
answers by the blanks before it.

A line that begins with a directive is split by `Scanner.run_directive`: the directive is
everything up to the first semicolon, trimmed, and the rest is a comment.
-/

set_option autoImplicit false

namespace PicAssembly

/-- The token without its place. -/
def Token.lexeme (t : Token) : Token.Lexeme := ⟨t.kind, t.text⟩

namespace Token

/-- A text consists of blanks and of some tokens, in order, up to `rest`. -/
inductive Scans : Text → List Lexeme → Text → Prop where
  | done (t : Text) : Scans t [] t
  | blank {c : Char} {t rest : Text} {ls : List Lexeme} (hc : isSeparator c)
      (h : Scans t ls rest) : Scans (c :: t) ls rest
  | lexeme {l : Lexeme} {t rest : Text} {ls : List Lexeme} (hl : Spelled l.kind l.text)
      (he : EndsBefore l.kind l.text t) (h : Scans t ls rest) :
      Scans (l.text ++ t) (l :: ls) rest

namespace Scans

/-- Scans can be put end to end. -/
theorem append {t u rest : Text} {ls ms : List Lexeme} (h : Scans t ls u)
    (h' : Scans u ms rest) : Scans t (ls ++ ms) rest := by
  induction h with
  | done => exact h'
  | blank hc _ ih => exact .blank hc (ih h')
  | lexeme hl he _ ih => exact .lexeme hl he (ih h')

/-- Blanks in front of a text do not change its tokens. -/
theorem blanks {run t rest : Text} {ls : List Lexeme} (hrun : ∀ c ∈ run, isSeparator c)
    (h : Scans t ls rest) : Scans (run ++ t) ls rest := by
  induction run with
  | nil => exact h
  | cons c cs ih =>
      exact .blank (hrun c (by simp)) (ih fun d hd => hrun d (by simp [hd]))

/-- One token alone. -/
theorem single {k : Kind} {text rest : Text} (h : Spelled k text)
    (he : EndsBefore k text rest) : Scans (text ++ rest) [⟨k, text⟩] rest :=
  .lexeme (l := ⟨k, text⟩) h he (.done rest)

/-- Nothing has no tokens. -/
theorem eq_nil {ls : List Lexeme} (h : Scans [] ls []) : ls = [] := by
  generalize ht : ([] : Text) = t at h
  cases h with
  | done => rfl
  | blank => cases ht
  | lexeme hl _ _ => exact absurd (List.append_eq_nil_iff.mp ht.symm).1 hl.ne_nil

/-- A text that begins with no blank begins with its first token. -/
theorem exists_eq_append {t rest : Text} {l : Lexeme} {ls : List Lexeme}
    (h : Scans t (l :: ls) rest) (ht : ∀ c ∈ t.head?, isSeparator c = false) :
    ∃ t', t = l.text ++ t' := by
  cases h with
  | blank hc _ =>
      have := ht _ rfl
      rw [hc] at this
      cases this
  | lexeme _ _ _ => exact ⟨_, rfl⟩

/-- Every token has the form of its kind. -/
theorem spelled {t rest : Text} {ls : List Lexeme} (h : Scans t ls rest) :
    ∀ l ∈ ls, Spelled l.kind l.text := by
  induction h with
  | done => simp
  | blank _ _ ih => exact ih
  | lexeme hl _ _ ih =>
      intro l hmem
      rcases List.mem_cons.mp hmem with rfl | hmem
      · exact hl
      · exact ih l hmem

/-- The characters of the tokens are characters of the text. -/
theorem mem_of_mem_text {t rest : Text} {ls : List Lexeme} (h : Scans t ls rest) :
    ∀ l ∈ ls, ∀ c ∈ l.text, c ∈ t := by
  induction h with
  | done => simp
  | blank _ _ ih => exact fun l hl c hc => List.mem_cons_of_mem _ (ih l hl c hc)
  | lexeme _ _ _ ih =>
      intro l hmem c hc
      rcases List.mem_cons.mp hmem with rfl | hmem
      · exact List.mem_append_left _ hc
      · exact List.mem_append_right _ (ih l hmem c hc)

end Scans

/-! ### Kinds that no token form has, and blanks that begin no token -/

/-- No token has the kind of the end of a line. -/
theorem Spelled.kind_ne_eof {k : Kind} {text : Text} (h : Spelled k text) : k ≠ .eof := by
  rintro rfl
  rcases h.forms with ⟨hk, -⟩ | ⟨hk, -⟩ | ⟨hk, -⟩ | ⟨hk, -⟩ | ⟨hk, -⟩ | ⟨hk | hk, -⟩ | hk
  all_goals cases hk

/-- No token of a text has the kind of a pragma: a pragma is cut off before the line is scanned. -/
theorem Spelled.kind_ne_pragma {k : Kind} {text : Text} (h : Spelled k text) : k ≠ .pragma := by
  rintro rfl
  rcases h.forms with ⟨hk, -⟩ | ⟨hk, -⟩ | ⟨hk, -⟩ | ⟨hk, -⟩ | ⟨hk, -⟩ | ⟨hk | hk, -⟩ | hk
  all_goals cases hk

/-- No token begins with a blank. -/
theorem extent_ne_ok_of_isSeparator {fresh : Bool} {c : Char} {t : Text} (hc : isSeparator c)
    (e : Extent) : extent fresh c t ≠ .ok e := by
  have hc : c ∈ [' ', '\t', '\r', '\n'] := by
    simpa [isSeparator, Bool.or_eq_true, or_assoc] using hc
  have hall : ∀ d ∈ [' ', '\t', '\r', '\n'], d ∉ openers ∧ isRadixLetter d = false ∧
      isIdentifierStart d = false ∧ (d.isDigit || d == '.') = false ∧
      d ∉ operatorOpeners := List.all_iff_forall_prop.mp (by decide)
  obtain ⟨hopen, hradix, hstart, hrun, hop⟩ := hall c hc
  -- The last test is the search for an operator, and no operator begins with a blank.
  have hnone : operatorExtent? (c :: t) = none := by
    refine Option.eq_none_iff_forall_ne_some.mpr ?_
    rintro ⟨k, n⟩ hk
    obtain ⟨text, rest, htext, -, hkind, -⟩ := exists_of_operatorExtent? hk
    have hlen := length_of_operatorKind? hkind
    cases text with
    | nil => simp at hlen
    | cons d ds =>
        cases htext
        exact hop (head_mem_operatorOpeners hkind c rfl)
  rw [extent_of_not_mem_openers hopen, hradix, hstart, hrun, hnone]
  simp

/-- No token begins with a blank, so the scanner passes over the same blanks whatever follows
them. -/
theorem Spelled.head_not_isSeparator {k : Kind} {c : Char} {cs : Text}
    (h : Spelled k (c :: cs)) : isSeparator c = false := by
  have hok := extent_of_spelled h (endsBefore_nil _ _)
  exact Bool.eq_false_iff.mpr fun hc => extent_ne_ok_of_isSeparator hc _ hok

/-- Of the token forms, only the pound sign begins with one. -/
theorem Spelled.eq_pound {k : Kind} {cs : Text} (h : Spelled k ('#' :: cs)) : k = .pound := by
  have hok := extent_of_spelled h (endsBefore_nil _ _)
  have hpound : extent false '#' (cs ++ []) = .ok (.pound, 1) := rfl
  rw [hpound] at hok
  exact (congrArg Prod.fst (Except.ok.inj hok)).symm

/-- What the scanner takes at a character: a directive at a fresh place, or a token of one of
the forms. -/
theorem extent_cases {fresh : Bool} {c : Char} {t : Text} {k : Kind} {n : Nat}
    (h : extent fresh c t = .ok (k, n)) :
    (fresh = true ∧ c = '#' ∧ k = .pragma ∧ n = (t.takeWhile (· != ';')).length + 1) ∨
      Taken k n c t := by
  by_cases hc : fresh = true ∧ c = '#'
  · obtain ⟨rfl, rfl⟩ := hc
    cases h
    exact .inl ⟨rfl, rfl, rfl, rfl⟩
  -- Everywhere else freshness is not looked at.
  · refine .inr (spelled_of_extent ?_)
    rw [← h]
    cases fresh with
    | false => rfl
    | true =>
        have hpound : c ≠ '#' := fun heq => hc ⟨rfl, heq⟩
        simp [extent, hpound]

end Token

namespace Scanner

open Token

/-! ### One step of the scanner -/

/-- The blanks that are skipped, and what is left behind them. -/
theorem exists_skipBlanks (s : Scanner) :
    ∃ blanks t, s.rest = blanks ++ t ∧ (∀ c ∈ blanks, isSeparator c) ∧
      s.skipBlanks = { s with column := s.column + blanks.length, rest := t } := by
  obtain ⟨blanks, t, hrest, htake, hblanks, -⟩ := exists_run isSeparator s.rest
  refine ⟨blanks, t, hrest, hblanks, ?_⟩
  simp only [skipBlanks, htake]
  rw [hrest, List.drop_left]

/-- At the end of the line the scanner gives the token for it and stays where it is. -/
theorem next_of_rest_eq_nil {s : Scanner} (h : s.rest = []) :
    s.next = .ok (⟨.eof, [], s.line, s.column⟩, s) := by
  obtain ⟨source, line, column, fresh, rest⟩ := s
  subst h
  rfl

/-- A blank is skipped. -/
theorem next_of_isSeparator {s : Scanner} {c : Char} {t : Text} (h : s.rest = c :: t)
    (hc : isSeparator c) : s.next = { s with column := s.column + 1, rest := t }.next := by
  simp only [next, skipBlanks, h, List.takeWhile_cons, hc, if_true, List.length_cons,
    List.drop_succ_cons]
  rw [Nat.add_right_comm, Nat.add_assoc]

/-- Whether a `#` at the next token would be read as an operator. -/
def ReadsPound (s : Scanner) (k : Kind) : Prop := s.fresh = false ∨ k ≠ .pound

/-- A token is taken off the front. -/
theorem next_of_spelled {s : Scanner} {l : Lexeme} {t : Text} (h : s.rest = l.text ++ t)
    (hl : Spelled l.kind l.text) (he : EndsBefore l.kind l.text t)
    (hf : s.ReadsPound l.kind) :
    s.next = .ok (⟨l.kind, l.text, s.line, s.column⟩,
      { s with column := s.column + l.text.length, fresh := false, rest := t }) := by
  obtain ⟨k, text⟩ := l
  cases text with
  | nil => exact absurd rfl hl.ne_nil
  | cons c cs =>
      have hskip : s.skipBlanks = s := by
        obtain ⟨source, line, column, fresh, rest⟩ := s
        cases h
        simp [skipBlanks, hl.head_not_isSeparator]
      -- A fresh place makes a difference to `#` only.
      have hextent : extent s.fresh c (cs ++ t) = .ok (k, cs.length + 1) := by
        have hfalse := extent_of_spelled hl he
        cases hfresh : s.fresh with
        | false => exact hfalse
        | true =>
            have hc : c ≠ '#' := by
              rintro rfl
              rcases hf with hf | hf
              · simp [hfresh] at hf
              · exact hf hl.eq_pound
            simpa [extent, hc] using hfalse
      have htext : textOf k (c :: cs) = c :: cs := by
        simp [textOf, hl.kind_ne_pragma]
      simp only [next, hskip, take, h, List.cons_append, hextent]
      simp [htext]

/-- A run ends with the fault of its next token. -/
theorem runFor_of_error {s : Scanner} {e : LexError} (h : s.next = .error e) (steps : Nat) :
    runFor steps s = ([], .error e) := by
  rw [runFor, h]

/-- A run that may take no step more, or need not, answers with what it has found. -/
theorem runFor_of_eof {s after : Scanner} {token : Token} {steps : Nat}
    (h : s.next = .ok (token, after)) (hend : token.kind = .eof ∨ steps = 0) :
    runFor steps s = ([], .ok token) := by
  rw [runFor, h]
  rcases hend with hk | rfl
  · simp only [hk]
  · dsimp only
    split <;> simp_all

/-- A step that gives a token goes on behind it. -/
theorem runFor_succ {s after : Scanner} {token : Token} (h : s.next = .ok (token, after))
    (hk : token.kind ≠ .eof) (steps : Nat) :
    runFor (steps + 1) s = (token :: (runFor steps after).1, (runFor steps after).2) := by
  rw [runFor, h]
  simp only

/-! ### A run over a scanned text -/

/-- With enough steps, the tokens of a scan are cut off first, and then what the scan
leaves. -/
theorem runFor_of_scans {t rest : Text} {ls : List Lexeme} (h : Scans t ls rest) :
    ∀ (steps : Nat) (s : Scanner), s.rest = t → t.length ≤ steps →
      (∀ l ∈ ls.head?, s.ReadsPound l.kind) →
      ∃ tokens steps' s', runFor steps s
          = (tokens ++ (runFor steps' s').1, (runFor steps' s').2) ∧
        tokens.map Token.lexeme = ls ∧ s'.rest = rest ∧ (s.fresh = false → s'.fresh = false) := by
  -- A blank takes no step of the run. A token takes one and covers a character, so there are
  -- steps enough for the rest.
  induction h with
  | done => exact fun steps s hs _ _ => ⟨[], steps, s, rfl, rfl, hs, id⟩
  | blank hc _ ih =>
      intro steps s hs hlen hf
      obtain ⟨tokens, steps', s', hrun, hls, hrest⟩ :=
        ih steps { s with column := s.column + 1, rest := _ } rfl
          (by simp only [List.length_cons] at hlen; omega) hf
      refine ⟨tokens, steps', s', ?_, hls, hrest⟩
      rw [← hrun, runFor, next_of_isSeparator hs hc, ← runFor]
  | @lexeme l t rest ls hl he _ ih =>
      intro steps s hs hlen hf
      have hpos : l.text.length ≠ 0 := by
        simpa [List.length_eq_zero_iff] using hl.ne_nil
      cases steps with
      | zero => simp only [List.length_append] at hlen; omega
      | succ steps =>
          obtain ⟨tokens, steps', s', hrun, hls, hrest, hfresh⟩ :=
            ih steps { s with column := s.column + l.text.length, fresh := false, rest := t }
              rfl (by simp only [List.length_append] at hlen; omega) fun _ _ => Or.inl rfl
          refine ⟨⟨l.kind, l.text, s.line, s.column⟩ :: tokens, steps', s', ?_, ?_, hrest,
            fun _ => hfresh rfl⟩
          · rw [runFor_succ (next_of_spelled hs hl he (hf l rfl)) hl.kind_ne_eof, hrun]
            rfl
          · simp [Token.lexeme, hls]

/-- A run at the end of the line has no tokens but the one for the end. -/
theorem runFor_of_rest_eq_nil {s : Scanner} (h : s.rest = []) (steps : Nat) :
    runFor steps s = ([], .ok ⟨.eof, [], s.line, s.column⟩) := by
  rw [runFor, next_of_rest_eq_nil h]

/-- A text with a scan to its end is cut into the tokens of the scan. -/
theorem run_of_scans {s : Scanner} {ls : List Lexeme} (h : Scans s.rest ls [])
    (hf : ∀ l ∈ ls.head?, s.ReadsPound l.kind) :
    ∃ tokens eof, s.run = (tokens, .ok eof) ∧ tokens.map Token.lexeme = ls ∧
      eof.kind = .eof := by
  obtain ⟨tokens, steps, s', hrun, hls, hrest, -⟩ := runFor_of_scans h _ s rfl (Nat.le_refl _) hf
  rw [runFor_of_rest_eq_nil hrest, List.append_nil] at hrun
  exact ⟨tokens, _, hrun, hls, rfl⟩

/-! ### A scan of the text of a run -/

/-- What the scanner takes next: nothing, or a token of one of the forms, or a directive. -/
theorem next_cases {s after : Scanner} {token : Token} (h : s.next = .ok (token, after)) :
    ∃ blanks t, s.rest = blanks ++ t ∧ (∀ c ∈ blanks, isSeparator c) ∧
      ((t = [] ∧ token.kind = .eof ∧ after.rest = []) ∨
        (∃ rest, t = token.text ++ rest ∧ Spelled token.kind token.text ∧
          EndsBefore token.kind token.text rest ∧ after.rest = rest ∧ after.fresh = false) ∨
        (token.kind = .pragma ∧ s.fresh = true ∧ (∃ cs, t = '#' :: cs) ∧
          after.rest.length < t.length ∧ after.fresh = false)) := by
  obtain ⟨blanks, t, hrest, hblanks, hskip⟩ := s.exists_skipBlanks
  refine ⟨blanks, t, hrest, hblanks, ?_⟩
  simp only [next, hskip, take] at h
  cases t with
  | nil =>
      cases h
      exact Or.inl ⟨rfl, rfl, rfl⟩
  | cons c cs =>
      simp only at h
      split at h
      · cases h
      · next k n hextent =>
        cases h
        -- What is taken is a directive at the beginning of its part, or a token as it is spelled.
        rcases extent_cases hextent with
          ⟨hfresh, rfl, rfl, rfl⟩ | ⟨ds, rest, rfl, rfl, hspelled, hends⟩
        · refine Or.inr (Or.inr ⟨rfl, hfresh, ⟨cs, rfl⟩, ?_, rfl⟩)
          simp only [List.length_drop, List.length_cons]
          omega
        · have htext : textOf k (c :: ds) = c :: ds := by
            simp [textOf, hspelled.kind_ne_pragma]
          exact Or.inr (Or.inl ⟨rest, by simp [htext], by simpa [htext] using hspelled,
            by simpa [htext] using hends, by simp, rfl⟩)

/-- A run that ends well takes one step, or stops at the end of the text. -/
theorem runFor_cases {steps : Nat} {s : Scanner} {tokens : List Token} {eof : Token}
    (h : runFor steps s = (tokens, .ok eof)) (hsteps : s.rest.length ≤ steps) :
    ∃ token after, s.next = .ok (token, after) ∧
      ((token.kind = .eof ∧ tokens = [] ∧ eof = token) ∨
        (token.kind ≠ .eof ∧ ∃ steps' tokens', steps = steps' + 1 ∧ tokens = token :: tokens' ∧
          runFor steps' after = (tokens', .ok eof))) := by
  cases hnext : s.next with
  | error e =>
      rw [runFor_of_error hnext] at h
      cases h
  | ok pair =>
      obtain ⟨token, after⟩ := pair
      refine ⟨token, after, rfl, ?_⟩
      by_cases hk : token.kind = .eof
      · rw [runFor_of_eof hnext (.inl hk)] at h
        cases h
        exact Or.inl ⟨hk, rfl, rfl⟩
      -- A run with no step left has no character left either, so only the end can be next.
      · cases steps with
        | zero =>
            have hnil : s.rest = [] := List.length_eq_zero_iff.mp (Nat.le_zero.mp hsteps)
            rw [next_of_rest_eq_nil hnil] at hnext
            cases hnext
            exact absurd rfl hk
        | succ steps =>
            rw [runFor_succ hnext hk] at h
            have htokens := congrArg Prod.fst h
            have hout := congrArg Prod.snd h
            exact Or.inr ⟨hk, steps, _, rfl, htokens.symm, Prod.ext rfl hout⟩

/-- Only a fresh place can have a directive, and a place behind a token is not fresh. -/
theorem scans_of_runFor :
    ∀ (steps : Nat) (s : Scanner) (tokens : List Token) (eof : Token),
      runFor steps s = (tokens, .ok eof) → s.rest.length ≤ steps →
      (s.fresh = false ∨ ∀ token ∈ tokens.head?, token.kind ≠ .pragma) →
      Scans s.rest (tokens.map Token.lexeme) [] ∧ eof.kind = .eof := by
  intro steps
  -- There are at least as many steps as characters, so no run ends for want of steps. After a
  -- step this holds again, since a token covers a character.
  induction steps with
  | zero =>
      intro s tokens eof h hsteps _
      obtain ⟨token, after, -, ⟨hk, rfl, rfl⟩ | ⟨-, steps', -, hsucc, -⟩⟩ :=
        runFor_cases h hsteps
      · have hnil : s.rest = [] := List.length_eq_zero_iff.mp (Nat.le_zero.mp hsteps)
        rw [hnil]
        exact ⟨.done [], hk⟩
      · cases hsucc
  | succ steps ih =>
      intro s tokens eof h hsteps hpragma
      obtain ⟨token, after, hnext, hstep⟩ := runFor_cases h hsteps
      obtain ⟨blanks, t, hrest, hblanks, hcases⟩ := next_cases hnext
      rw [hrest] at hsteps ⊢
      rcases hstep with ⟨hk, rfl, rfl⟩ | ⟨hk, steps', tokens', hsucc, rfl, hrun⟩
      -- The run is at its end: only blanks are left.
      · rcases hcases with ⟨rfl, -, -⟩ | ⟨rest, -, hspelled, -⟩ | ⟨hp, -⟩
        · exact ⟨.blanks hblanks (.done []), hk⟩
        · exact absurd hk hspelled.kind_ne_eof
        · rw [hp] at hk
          cases hk
      -- The run takes a token, which is no directive, and goes on behind it.
      · cases hsucc
        rcases hcases with ⟨-, heof, -⟩ | ⟨rest, rfl, hspelled, hends, hafter, hfresh⟩ |
          ⟨hp, hfresh, -⟩
        · exact absurd heof hk
        · have hlen : after.rest.length ≤ steps := by
            have hpos : token.text.length ≠ 0 := by
              simpa [List.length_eq_zero_iff] using hspelled.ne_nil
            simp only [List.length_append] at hsteps
            rw [hafter]
            omega
          obtain ⟨htail, heof⟩ := ih after tokens' eof hrun hlen (Or.inl hfresh)
          rw [hafter] at htail
          exact ⟨.blanks hblanks (.lexeme (l := token.lexeme) hspelled hends htail), heof⟩
        · rcases hpragma with hf | hne
          · simp [hfresh] at hf
          · exact absurd hp (hne token rfl)

/-- A line that is cut into tokens and does not begin with a directive has a scan into
these tokens. -/
theorem scans_of_run {s : Scanner} {tokens : List Token} {eof : Token}
    (h : s.run = (tokens, .ok eof))
    (hpragma : s.fresh = false ∨ ∀ token ∈ tokens.head?, token.kind ≠ .pragma) :
    Scans s.rest (tokens.map Token.lexeme) [] ∧ eof.kind = .eof :=
  scans_of_runFor _ s tokens eof h (Nat.le_refl _) hpragma

/-- The first token stands behind the blanks. -/
theorem column_of_run {s : Scanner} {token : Token} {tokens : List Token}
    {outcome : Except LexError Token} (h : s.run = (token :: tokens, outcome)) :
    token.column = s.column + (s.rest.takeWhile isSeparator).length := by
  have hnext : ∃ after, s.next = .ok (token, after) := by
    cases hn : s.next with
    | error e =>
        rw [run, runFor, hn] at h
        cases h
    | ok pair =>
        obtain ⟨first, after⟩ := pair
        rw [run, runFor, hn] at h
        simp only at h
        split at h
        · cases h
        · cases h
        · cases h
          exact ⟨after, rfl⟩
  obtain ⟨after, hnext⟩ := hnext
  -- Whatever the token is, it begins where the blanks end.
  simp only [next, take] at hnext
  split at hnext
  · cases hnext
    rfl
  · split at hnext
    · cases hnext
    · cases hnext
      rfl

/-! ### Lines with a directive -/

/-- A line that begins with a directive: the directive up to the first semicolon, without
the blanks before that, and a comment if there is a semicolon. -/
theorem run_directive (index : Nat) {blanks body tail : Text}
    (hblanks : ∀ c ∈ blanks, isSeparator c) (hbody : ∀ c ∈ body, c ≠ ';')
    (htail : ∀ c ∈ tail.head?, c = ';') :
    ∃ tokens eof, (ofLine (blanks ++ '#' :: body ++ tail) index).run
        = (⟨.pragma, Text.trimEnd ('#' :: body), index, blanks.length⟩ :: tokens, .ok eof) ∧
      tokens.map Token.lexeme = (if tail = [] then [] else [⟨.comment, tail⟩]) ∧
      eof.kind = .eof := by
  have htake : (blanks ++ '#' :: body ++ tail).takeWhile isSeparator = blanks := by
    rw [List.append_assoc]
    exact takeWhile_append_of_head hblanks (by simp [isSeparator])
  have hstop : (body ++ tail).takeWhile (· != ';') = body :=
    takeWhile_append_of_head (by simpa using hbody) (by simpa using htail)
  -- The first step takes the directive, and the semicolon that ends it is left.
  have hnext : (ofLine (blanks ++ '#' :: body ++ tail) index).next
      = .ok (⟨.pragma, Text.trimEnd ('#' :: body), index, blanks.length⟩,
        ⟨blanks ++ '#' :: body ++ tail, index, blanks.length + (body.length + 1), false,
          tail⟩) := by
    simp only [next, skipBlanks, ofLine, htake]
    simp [take, extent, hstop, textOf]
  -- What is left is nothing or a single comment.
  have hscan : Scans tail (if tail = [] then [] else [⟨.comment, tail⟩]) [] := by
    cases tail with
    | nil => exact .done []
    | cons c cs =>
        obtain rfl : c = ';' := htail c rfl
        simpa using Scans.single (.comment cs) (endsBefore_nil _ _)
  obtain ⟨tokens, steps, s', hrun, hls, hrest, -⟩ := runFor_of_scans hscan
    (blanks ++ body ++ tail).length
    ⟨blanks ++ '#' :: body ++ tail, index, blanks.length + (body.length + 1), false, tail⟩ rfl
    (by simp only [List.length_append]; omega) fun _ _ => Or.inl rfl
  rw [runFor_of_rest_eq_nil hrest, List.append_nil] at hrun
  refine ⟨tokens, ⟨.eof, [], s'.line, s'.column⟩, ?_, hls, rfl⟩
  have hlen : (ofLine (blanks ++ '#' :: body ++ tail) index).rest.length
      = (blanks ++ body ++ tail).length + 1 := by
    simp [ofLine]
    omega
  rw [run, hlen, runFor_succ hnext (by simp), hrun]

end Scanner

end PicAssembly
