import PicAssembly.Proofs.Line.Tokens

/-!
# `PicAssembly.Proofs.Line.Spacing`: a line is read whatever its spacing

`Token.Respaced` is a line made from the tokens of another: their texts in order, with spaces,
tabs and carriage returns between any two of them and at both ends. It is cut into the same
tokens again (`Cursor.exists_ofScanner_of_respaced`), but for the blanks that a comment at the end
of the line takes in. Only at the beginning of the line does it matter that there are blanks,
since in column zero a name is a label.

So such lines are read alike (`Line.readAlike_of_respaced`).
-/

set_option autoImplicit false

namespace PicAssembly

open Token (Lexeme Scans Spelled Ends isSeparator)

namespace Token

/-- The blanks that a line can be spaced with. -/
def isSpacing (c : Char) : Bool := c == ' ' || c == '\t' || c == '\r'

/-- The scanner passes over every blank that lines can be spaced with. -/
theorem isSeparator_of_isSpacing {c : Char} (h : isSpacing c) : isSeparator c := by
  rw [isSeparator, ← isSpacing, h, Bool.true_or]

/-- Trimming takes away every blank that lines can be spaced with. -/
theorem isBlank_of_isSpacing {c : Char} (h : isSpacing c) : Text.isBlank c :=
  isBlank_of_isSeparator (isSeparator_of_isSpacing h)

/-- The texts of the tokens in order, with spacing between any two and maybe behind the last. -/
inductive Spread : List Token → Text → Prop where
  | nil : Spread [] []
  | cons {token : Token} {tokens : List Token} {t : Text} (gap : Text)
      (hgap : ∀ c ∈ gap, isSpacing c) (hne : tokens ≠ [] → gap ≠ []) (h : Spread tokens t) :
      Spread (token :: tokens) (token.text ++ (gap ++ t))

/-- A line with these tokens, spaced anew. Spacing stands before the first token unless that was
in column zero. -/
def Respaced (tokens : List Token) (line : Text) : Prop :=
  ∃ lead t, line = lead ++ t ∧ (∀ c ∈ lead, isSpacing c) ∧
    (∀ first ∈ tokens.head?, lead = [] ↔ first.column = 0) ∧ Spread tokens t

/-- Without tokens there is nothing to space. -/
theorem Spread.eq_nil {t : Text} (h : Spread [] t) : t = [] := by
  cases h
  rfl

/-- Trimming does not change the kind of a token. -/
theorem Lexeme.kind_trimmed (l : Lexeme) : l.trimmed.kind = l.kind := by
  unfold Lexeme.trimmed
  split <;> rfl

/-- Trimming does not change the kind that comes first. -/
theorem headKind_map_trimmed (ls : List Lexeme) :
    headKind (ls.map Lexeme.trimmed) = headKind ls := by
  cases ls with
  | nil => rfl
  | cons l ls => exact l.kind_trimmed

/-- A comment takes in what stands behind it. -/
theorem Spelled.comment_append {text : Text} (h : Spelled .comment text) (u : Text) :
    Spelled .comment (text ++ u) := by
  obtain ⟨body, rfl⟩ := h.exists_comment
  exact .comment (body ++ u)

/-- Blanks behind a comment are lost when it is trimmed. -/
theorem Lexeme.trimmed_comment_append {text u : Text} (hu : ∀ c ∈ u, Text.isBlank c) :
    (⟨.comment, text ++ u⟩ : Lexeme).trimmed = (⟨.comment, text⟩ : Lexeme).trimmed := by
  simp [Lexeme.trimmed, Text.trimEnd_append_of_isBlank hu]

/-- Blanks behind the tail of a line are lost when its comment is trimmed. An empty tail has no
comment that could take them. -/
theorem tailLexemes_append {tail u : Text} (htail : tail ≠ []) (hu : ∀ c ∈ u, Text.isBlank c) :
    (tailLexemes (tail ++ u)).map Lexeme.trimmed = (tailLexemes tail).map Lexeme.trimmed := by
  rw [tailLexemes, tailLexemes, if_neg htail, if_neg (by simp [htail]), List.map_singleton,
    List.map_singleton, Lexeme.trimmed_comment_append hu]

/-- The first token of a scan, and the scan of the others. A comment is the last. -/
theorem Scans.head {t : Text} {l : Lexeme} {ls : List Lexeme} (h : Scans t (l :: ls) []) :
    Spelled l.kind l.text ∧ (l.kind = .comment → ls = []) ∧ ∃ u, Scans u ls [] := by
  generalize hms : l :: ls = ms, hrest : ([] : Text) = rest at h
  induction h with
  | done => cases hms
  | blank _ _ ih => exact ih hms hrest
  | @lexeme l' u rest ls' hl he h =>
      subst hrest
      cases hms
      refine ⟨hl, fun hk => ?_, u, h⟩
      rw [hk] at he
      obtain rfl : u = [] := he
      exact h.eq_nil

/-- Tokens of a line are tokens again where they are spread. -/
theorem Spread.scans {tokens : List Token} {t : Text} (h : Spread tokens t) :
    ∀ {u : Text}, Scans u (tokens.map Token.lexeme) [] → ∃ ls, Scans t ls [] ∧
      ls.map Lexeme.trimmed = (tokens.map Token.lexeme).map Lexeme.trimmed := by
  induction h with
  | nil => exact fun _ => ⟨[], .done [], rfl⟩
  | @cons token tokens t gap hgap hne h ih =>
      intro u hu
      obtain ⟨hspelled, hlast, v, hv⟩ := Scans.head hu
      by_cases hk : token.kind = .comment
      -- A comment takes in what stands behind it, and nothing but spacing does.
      · obtain rfl : tokens = [] := List.map_eq_nil_iff.mp (hlast hk)
        obtain rfl := h.eq_nil
        have hblank : ∀ c ∈ gap, Text.isBlank c := fun c hc => isBlank_of_isSpacing (hgap c hc)
        have hspelled : Spelled .comment token.text := hk ▸ hspelled
        refine ⟨[⟨.comment, token.text ++ gap⟩], ?_, ?_⟩
        · simpa using Scans.single (hspelled.comment_append gap) rfl
        · simp [Token.lexeme, hk, Lexeme.trimmed_comment_append hblank]
      -- Any other token ends where a blank follows, and where nothing does.
      · obtain ⟨ls, hls, htrimmed⟩ := ih hv
        have hends : Ends (gap ++ t) := by
          cases gap with
          | nil =>
              obtain rfl : tokens = [] := Classical.not_not.mp fun htokens => hne htokens rfl
              simp [h.eq_nil, Ends]
          | cons c cs =>
              rintro d ⟨⟩
              exact .inl (isBlank_of_isSpacing (hgap c List.mem_cons_self))
        refine ⟨token.lexeme :: ls, .lexeme (l := token.lexeme) hspelled ?_ (.blanks ?_ hls), ?_⟩
        · exact endsBefore_of_not_mem hspelled.ne_nil hk hends.detached
            hends.not_mem_operatorOpeners
        · exact fun c hc => isSeparator_of_isSpacing (hgap c hc)
        · rw [List.map_cons, List.map_cons, List.map_cons, htrimmed]

/-- The tokens of a text are tokens also before blanks, which a comment takes in. -/
theorem Scans.append_blanks {t u : Text} {ls : List Lexeme} (h : Scans t ls [])
    (hu : ∀ c ∈ u, isSeparator c) : ∃ ms, Scans (t ++ u) ms [] ∧
      ms.map Lexeme.trimmed = ls.map Lexeme.trimmed := by
  have hblank : ∀ c ∈ u, Text.isBlank c := fun c hc => isBlank_of_isSeparator (hu c hc)
  generalize hrest : ([] : Text) = rest at h
  induction h with
  | done t =>
      subst hrest
      exact ⟨[], by simpa using Scans.blanks hu (.done []), rfl⟩
  | blank hc _ ih =>
      obtain ⟨ms, hms, htrimmed⟩ := ih hrest
      exact ⟨ms, .blank hc hms, htrimmed⟩
  | @lexeme l t rest ls hl he h ih =>
      subst hrest
      obtain ⟨kind, text⟩ := l
      by_cases hk : kind = .comment
      · subst hk
        obtain rfl : t = [] := he
        obtain rfl := h.eq_nil
        refine ⟨[⟨.comment, text ++ u⟩], ?_, ?_⟩
        · simpa using Scans.single (hl.comment_append u) rfl
        · simp [Lexeme.trimmed_comment_append hblank]
      -- The token ends as it did, since what is behind it begins as before, or with a blank.
      · obtain ⟨ms, hms, htrimmed⟩ := ih rfl
        refine ⟨⟨kind, text⟩ :: ms, ?_, by rw [List.map_cons, List.map_cons, htrimmed]⟩
        rw [List.append_assoc]
        refine .lexeme (l := ⟨kind, text⟩) hl ?_ hms
        cases t with
        | nil =>
            have hends : Ends u := fun c hc => .inl (hblank c (List.mem_of_mem_head? hc))
            exact endsBefore_of_not_mem hl.ne_nil hk hends.detached hends.not_mem_operatorOpeners
        | cons c cs => exact he.congr hk rfl

/-- Tokens that are spread begin where the first of them does. -/
theorem Spread.head_not_isSeparator {first : Token} {tokens : List Token} {t : Text}
    (h : Spread (first :: tokens) t) (hfirst : Spelled first.kind first.text) :
    ∀ c ∈ t.head?, isSeparator c = false := by
  cases h with
  | cons gap hgap hne h =>
      obtain ⟨c, cs, htext⟩ := List.exists_cons_of_ne_nil hfirst.ne_nil
      rw [htext] at hfirst ⊢
      rintro d ⟨⟩
      exact hfirst.head_not_isSeparator

/-- Behind a directive stands a comment or nothing, also where it is spread. -/
theorem Spread.comment {tokens : List Token} {t tail : Text} (h : Spread tokens t)
    (htokens : tokens.map Token.lexeme = tailLexemes tail) (htail : ∀ c ∈ tail.head?, c = ';') :
    (∀ c ∈ t.head?, c = ';') ∧
      (tailLexemes tail).map Lexeme.trimmed = (tailLexemes t).map Lexeme.trimmed := by
  unfold tailLexemes at htokens
  split_ifs at htokens with hnil
  · obtain rfl := List.map_eq_nil_iff.mp htokens
    rw [hnil, h.eq_nil]
    simp
  -- The tail is one comment, and what is behind it are blanks.
  · obtain ⟨token, rfl, htoken⟩ := List.map_eq_singleton_iff.mp htokens
    obtain ⟨c, cs, rfl⟩ := List.exists_cons_of_ne_nil hnil
    obtain rfl := htail c rfl
    have htext : token.text = ';' :: cs := congrArg Lexeme.text htoken
    cases h with
    | @cons _ _ t gap hgap _ h =>
        have hblank : ∀ c ∈ gap, Text.isBlank c := fun c hc => isBlank_of_isSpacing (hgap c hc)
        rw [h.eq_nil, htext, List.append_nil]
        exact ⟨by simp, (tailLexemes_append hnil hblank).symm⟩

end Token

/-- Blanks behind a line with a directive belong to the comment, or they end the directive. -/
theorem DirectiveLine.append_blanks {text blanks front gap tail u : Text}
    (h : DirectiveLine text blanks front gap tail) (hu : ∀ c ∈ u, isSeparator c) :
    ∃ gap' tail', DirectiveLine (text ++ u) blanks front gap' tail' ∧
      (Token.tailLexemes tail).map Lexeme.trimmed
        = (Token.tailLexemes tail').map Lexeme.trimmed := by
  have hblank : ∀ c ∈ u, Text.isBlank c := fun c hc => Token.isBlank_of_isSeparator (hu c hc)
  cases tail with
  | nil =>
      refine ⟨gap ++ u, [], ⟨?_, h.blanks, h.pound, h.solid, h.body, ?_, by simp⟩, rfl⟩
      · rw [h.eq]
        simp
      · exact List.forall_mem_append.mpr ⟨h.gap, hblank⟩
  -- Behind a comment blanks are a part of it, and without one they are a part of the gap.
  | cons c cs =>
      refine ⟨gap, c :: cs ++ u, ⟨?_, h.blanks, h.pound, h.solid, h.body, h.gap, ?_⟩, ?_⟩
      · rw [h.eq]
        simp
      · simpa using h.tail
      · exact (Token.tailLexemes_append (List.cons_ne_nil c cs) hblank).symm

namespace Cursor

open Token (isSpacing Spread Respaced)

/-- At the beginning of a line a pound sign is no operator. -/
theorem kind_ne_pound {text : Text} {index : Nat} {c : Cursor}
    (h : ofScanner (.ofLine text index) = .ok c) : c.kind ≠ .pound := by
  intro hk
  obtain ⟨hrun, -, -⟩ := ofScanner_eq_ok_iff.mp h
  obtain ⟨token, after, hnext, hcases⟩ := Scanner.runFor_cases hrun (Nat.le_refl _)
  have htoken : token.kind = .pound := by
    rcases hcases with ⟨-, hrest, heof⟩ | ⟨-, steps, tokens, -, hrest, -⟩
    · rwa [kind, peek, hrest, List.getD_nil, heof] at hk
    · rwa [kind, peek, hrest, List.getD_cons_zero] at hk
  obtain ⟨blanks, t, htext, hblanks, ⟨-, heof, -⟩ | ⟨rest, rfl, hspelled, -⟩ | ⟨hp, -⟩⟩ :=
    Scanner.next_cases hnext
  · rw [htoken] at heof
    cases heof
  -- A line that begins like that is one with a directive.
  · rw [htoken] at hspelled
    obtain ⟨body, tail, rfl, -, hbody, htail⟩ := Token.exists_run (· != ';') rest
    have hline : text = blanks ++ '#' :: body ++ tail := by
      rw [hspelled.eq_symbol rfl] at htext
      simpa [Scanner.ofLine] using htext
    obtain ⟨tokens, eof, hpragma, -⟩ := Scanner.run_directive index hblanks
      (by simpa using hbody) (by simpa using htail)
    rw [← hline, hrun] at hpragma
    have hrest := congrArg Prod.fst hpragma
    dsimp only at hrest
    rw [kind, peek, hrest, List.getD_cons_zero] at hk
    cases hk
  · rw [htoken] at hp
    cases hp

/-- The first token of a line stands in column zero if no blank is before it. -/
theorem column_eq_zero_iff {text : Text} {index : Nat} {c : Cursor}
    (hc : ofScanner (.ofLine text index) = .ok c) (hne : c.rest ≠ []) :
    (c.peek 0).column = 0 ↔ text.takeWhile isSeparator = [] := by
  obtain ⟨hrun, -, -⟩ := ofScanner_eq_ok_iff.mp hc
  obtain ⟨token, tokens, hrest⟩ := List.exists_cons_of_ne_nil hne
  rw [hrest] at hrun
  have hcolumn := Scanner.column_of_run hrun
  rw [Scanner.ofLine, Nat.zero_add] at hcolumn
  rw [peek, hrest, List.getD_cons_zero, hcolumn, List.length_eq_zero_iff]

/-- A directive is no name. -/
theorem AtDirective.kind_ne_identifier {c : Cursor} {text front tail : Text}
    {index column : Nat} (h : c.AtDirective text index column front tail) :
    c.kind ≠ .identifier := by
  rw [kind, h.head]
  simp

/-- What it takes for a line to be read like the one that `c` was made from: the tokens of `c`
are those of the line, and both begin with a blank or neither does. -/
theorem exists_ofScanner_of_scans {text line : Text} {index : Nat} {c : Cursor}
    (hc : ofScanner (.ofLine text index) = .ok c) (hk : c.kind ≠ .pragma) {ls : List Lexeme}
    (hls : Scans line ls []) (htrimmed : ls.map Lexeme.trimmed = c.lexemes.map Lexeme.trimmed)
    (hlead : c.rest ≠ [] → (text.takeWhile isSeparator = [] ↔ line.takeWhile isSeparator = []))
    (index' : Nat) :
    ∃ d, ofScanner (.ofLine line index') = .ok d ∧ c.SameTokens d := by
  obtain ⟨hproper, -⟩ := proper_of_ofScanner hc (.inr hk)
  -- A pound sign in front of the new line would be one in front of the old line.
  have hpound : ∀ l ∈ ls.head?, l.kind ≠ .pound := by
    intro l hl hpound
    obtain ⟨ls, rfl⟩ := List.head?_eq_some_iff.mp hl
    refine kind_ne_pound hc ?_
    rw [kind_eq_headKind hproper.eof, ← Token.headKind_map_trimmed, ← htrimmed]
    exact (Token.headKind_map_trimmed (l :: ls)).trans hpound
  obtain ⟨d, hd, -, rfl, heof⟩ := ofScanner_of_scans (s := .ofLine line index') hls
    fun l hl => .inr (hpound l hl)
  refine ⟨d, hd, htrimmed.symm, fun hidentifier => ?_⟩
  have hdne : d.rest ≠ [] := fun hnil => by
    rw [kind_eq_headKind heof, lexemes, hnil] at hidentifier
    cases hidentifier
  have hcne : c.rest ≠ [] := fun hnil => hdne <| by
    simpa [lexemes, hnil] using htrimmed
  rw [column_eq_zero_iff hc hcne, column_eq_zero_iff hd hdne, hlead hcne]

/-- A directive stays one between other blanks, and its comment stays one. -/
theorem exists_ofScanner_of_pragma {text lead t : Text} {index : Nat} {c : Cursor}
    (hc : ofScanner (.ofLine text index) = .ok c) (hk : c.kind = .pragma)
    (hlead : ∀ ch ∈ lead, isSpacing ch) (hspread : Spread c.rest t) (index' : Nat) :
    ∃ d, ofScanner (.ofLine (lead ++ t) index') = .ok d ∧ c.SameTokens d := by
  obtain ⟨_, front, _, tail, hline, hat⟩ := exists_directiveLine hc hk
  have hlexemes := hat.lexemes
  obtain ⟨rest, eof, source, line⟩ := c
  cases hspread with
  | nil => cases hlexemes
  | @cons token tokens t gap hgap _ h =>
      obtain ⟨htoken, htokens⟩ := List.cons.inj hlexemes
      have htext : token.text = front := congrArg Lexeme.text htoken
      obtain ⟨hsemicolon, htrimmed⟩ := h.comment htokens hline.tail
      -- The line that is spaced anew has the same directive, with another gap.
      have hline' : DirectiveLine (lead ++ (token.text ++ (gap ++ t))) lead front gap t := by
        refine ⟨by simp [htext], fun ch hch => ?_, hline.pound, hline.solid, hline.body,
          fun ch hch => ?_, hsemicolon⟩
        · exact Token.isSeparator_of_isSpacing (hlead ch hch)
        · exact Token.isBlank_of_isSpacing (hgap ch hch)
      obtain ⟨d, hd, hat'⟩ := exists_atDirective hline' index'
      refine ⟨d, hd, ?_, fun hk => absurd hk hat'.kind_ne_identifier⟩
      rw [hat'.lexemes, hlexemes, List.map_cons, List.map_cons, htrimmed]

/-- A line spaced anew is cut into the same tokens. -/
theorem exists_ofScanner_of_respaced {text line : Text} {index : Nat} {c : Cursor}
    (hc : ofScanner (.ofLine text index) = .ok c) (h : Respaced c.rest line) (index' : Nat) :
    ∃ d, ofScanner (.ofLine line index') = .ok d ∧ c.SameTokens d := by
  obtain ⟨lead, t, rfl, hlead, hcolumn, hspread⟩ := h
  by_cases hk : c.kind = .pragma
  · exact exists_ofScanner_of_pragma hc hk hlead hspread index'
  -- The blanks in front are just `lead`, so there are some where there were some.
  · have hblanks : ∀ ch ∈ lead, isSeparator ch := fun ch hch =>
      Token.isSeparator_of_isSpacing (hlead ch hch)
    obtain ⟨hproper, hscans⟩ := proper_of_ofScanner hc (.inr hk)
    obtain ⟨ls, hls, htrimmed⟩ := hspread.scans hscans
    refine exists_ofScanner_of_scans hc hk (.blanks hblanks hls) htrimmed (fun hne => ?_) index'
    obtain ⟨first, tokens, hrest⟩ := List.exists_cons_of_ne_nil hne
    have htake : (lead ++ t).takeWhile isSeparator = lead := by
      refine Token.takeWhile_append_of_head hblanks ?_
      have hspelled : Spelled first.kind first.text :=
        hproper.spelled first.lexeme (by simp [lexemes, hrest])
      simpa using (hrest ▸ hspread).head_not_isSeparator hspelled
    rw [← column_eq_zero_iff hc hne, htake, hcolumn first (by rw [hrest]; rfl), peek, hrest,
      List.getD_cons_zero]

/-- Blanks behind a line change nothing either. -/
theorem exists_ofScanner_append_blanks {text u : Text} {index : Nat} {c : Cursor}
    (hc : ofScanner (.ofLine text index) = .ok c) (hu : ∀ ch ∈ u, isSeparator ch)
    (index' : Nat) :
    ∃ d, ofScanner (.ofLine (text ++ u) index') = .ok d ∧ c.SameTokens d := by
  by_cases hk : c.kind = .pragma
  · obtain ⟨blanks, front, gap, tail, hline, hat⟩ := exists_directiveLine hc hk
    obtain ⟨gap', tail', hline', htail⟩ := hline.append_blanks hu
    obtain ⟨d, hd, hat'⟩ := exists_atDirective hline' index'
    refine ⟨d, hd, ?_, fun hk => absurd hk hat'.kind_ne_identifier⟩
    rw [hat.lexemes, hat'.lexemes, List.map_cons, List.map_cons, htail]
  · have hscans : Scans text c.lexemes [] := (proper_of_ofScanner hc (.inr hk)).2
    obtain ⟨ls, hls, htrimmed⟩ := hscans.append_blanks hu
    refine exists_ofScanner_of_scans hc hk hls htrimmed (fun hne => ?_) index'
    -- The line begins as before, unless it has no tokens.
    have htext : text ≠ [] := fun hnil => hne <| by
      rw [hnil] at hscans
      exact List.map_eq_nil_iff.mp hscans.eq_nil
    obtain ⟨ch, chs, rfl⟩ := List.exists_cons_of_ne_nil htext
    rw [List.cons_append, List.takeWhile_cons, List.takeWhile_cons]
    split <;> simp

end Cursor

/-- A line that is cut into tokens and a line made from these tokens with other spacing are read
alike: as the same line, or with the same complaint. -/
theorem Line.readAlike_of_respaced {text line : Text} {index : Nat} {c : Cursor}
    (hc : Cursor.ofScanner (.ofLine text index) = .ok c) (h : Token.Respaced c.rest line)
    (index' : Nat) :
    ReadAlike Error.SameCause Eq (parse text index) (parse line index') := by
  obtain ⟨d, hd, hsame⟩ := Cursor.exists_ofScanner_of_respaced hc h index'
  exact readAlike_of_tokens hc hd hsame

/-- A line that is cut into tokens is read the same with blanks behind it. -/
theorem Line.readAlike_append_blanks {text u : Text} {index : Nat} {c : Cursor}
    (hc : Cursor.ofScanner (.ofLine text index) = .ok c) (hu : ∀ ch ∈ u, isSeparator ch)
    (index' : Nat) :
    ReadAlike Error.SameCause Eq (parse text index) (parse (text ++ u) index') := by
  obtain ⟨d, hd, hsame⟩ := Cursor.exists_ofScanner_append_blanks hc hu index'
  exact readAlike_of_tokens hc hd hsame

end PicAssembly
