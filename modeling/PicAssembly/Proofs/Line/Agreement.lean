import PicAssembly.Proofs.Line.Directive
import PicAssembly.Proofs.Operand.Agreement
import PicAssembly.Proofs.Token.Splitting

/-!
# `PicAssembly.Proofs.Line.Agreement`: operands in definitions and in statements

Behind its name a definition holds what a statement holds behind its mnemonic. They are read in
two ways: a statement is cut into tokens once, and a definition is cut out of its line as text,
up to the first semicolon and without the blanks before that, and then into tokens.

`Line.parse_definition_iff_statement` says when the two ways agree. A semicolon in a literal
is the end of a definition but not of a statement, so the statement must have none. The blanks
before the semicolon are cut off a definition whatever their class, and in a statement those
that the scanner does not skip are a fault. So the statement is one without these blanks.
-/

set_option autoImplicit false

namespace PicAssembly

open Token (Lexeme Scans Spelled tailLexemes)

namespace Cursor

/-- A comment up to the end of the line, as a list of tokens. -/
theorem comment_eq_ok_iff_lexemes {c : Cursor} (hc : c.Proper) {comment : Option Text} :
    c.comment = .ok comment ↔ (c.lexemes = [] ∧ comment = none) ∨
      ∃ t, c.lexemes = [⟨.comment, t⟩] ∧ comment = commentText t := by
  refine ⟨lexemes_of_comment hc, fun h => comment_eq_ok_iff.mpr ?_⟩
  rcases h with ⟨hnil, rfl⟩ | ⟨t, ht, rfl⟩
  · refine Or.inr ⟨?_, rfl⟩
    rw [kind_eq_headKind hc.eof, hnil]
    rfl
  · obtain ⟨hreads, -⟩ := reads_of_lexemes ht
    refine Or.inl ⟨kind_of_lexemes ht, ?_, by rw [text_of_lexemes ht]⟩
    rw [kind_eq_headKind (hreads.proper hc).eof, hreads.tail_eq ht]
    rfl

/-- The tokens of a tail are one comment or none, as a tail of a line should be. -/
theorem isTail_tailLexemes (tail : Text) : IsTail (tailLexemes tail) := by
  unfold tailLexemes
  split
  · exact Or.inr rfl
  · exact Or.inl rfl

/-- The rest of the longer line is its comment just if nothing is left of the shorter one. -/
theorem comment_append_iff {c d : Cursor} {tail : Text} {comment : Option Text}
    (h : Agrees (tailLexemes tail) c d) (hc : c.Proper)
    (hcomment : ∀ l ∈ d.lexemes, l.kind ≠ .comment) :
    c.comment = .ok comment ↔ d.lexemes = [] ∧ comment = commentText tail := by
  rw [comment_eq_ok_iff_lexemes hc, h.lexemes]
  cases hd : d.lexemes with
  | nil =>
      by_cases htail : tail = []
      · subst htail
        have hnone : commentText [] = none := rfl
        simp [tailLexemes, hnone]
      · simp [tailLexemes, htail]
  | cons l ls =>
      rw [hd] at hcomment
      -- A token that is no comment is ahead of both, so neither line is at its end.
      refine iff_of_false ?_ fun h => List.cons_ne_nil _ _ h.1
      rintro (⟨hl, -⟩ | ⟨t, hl, -⟩)
      · cases hl
      · obtain ⟨rfl, -⟩ := List.cons.inj hl
        exact hcomment ⟨.comment, t⟩ List.mem_cons_self rfl

/-- A cursor stands before operands in a row and then a comment or nothing. -/
def Answers (c : Cursor) (xs : List Operand) (comment : Option Text) : Prop :=
  ∃ c', c.operands = .ok (xs, c') ∧ c'.comment = .ok comment

/-- The operands before a comment are those of the tokens before it. -/
theorem operands_append_iff {c d : Cursor} {tail : Text} {xs : List Operand}
    {comment : Option Text} (h : Agrees (tailLexemes tail) c d) (hc : c.Proper) (hd : d.Proper)
    (hcomment : ∀ l ∈ d.lexemes, l.kind ≠ .comment) :
    c.Answers xs comment ↔
      (∃ d', d.operands = .ok (xs, d') ∧ d'.kind = .eof) ∧ comment = commentText tail := by
  have halike := h.alike_operands (isTail_tailLexemes tail)
  constructor
  · rintro ⟨c', hxs, hok⟩
    obtain ⟨d', hxs', h'⟩ := halike.exists_right hxs
    obtain ⟨ls, hreads, -⟩ := spellsRow_of_operandsWithin _ _ _ _ hc hxs
    obtain ⟨ms, hreads', -⟩ := spellsRow_of_operandsWithin _ _ _ _ hd hxs'
    -- What is left behind the operands was on the line before, where no comment is.
    have hrest : ∀ l ∈ d'.lexemes, l.kind ≠ .comment := fun l hl =>
      hcomment l (hreads'.lexemes ▸ List.mem_append_right ms hl)
    obtain ⟨hnil, rfl⟩ := (comment_append_iff h' (hreads.proper hc) hrest).mp hok
    refine ⟨⟨d', hxs', ?_⟩, rfl⟩
    rw [kind_eq_headKind h'.eof_right, hnil]
    rfl
  · rintro ⟨⟨d', hxs', hend⟩, rfl⟩
    obtain ⟨c', hxs, h'⟩ := halike.exists_left hxs'
    obtain ⟨ls, hreads, -⟩ := spellsRow_of_operandsWithin _ _ _ _ hc hxs
    obtain ⟨ms, hreads', -⟩ := spellsRow_of_operandsWithin _ _ _ _ hd hxs'
    have hnil := (hreads'.proper hd).lexemes_eq_nil hend
    exact ⟨c', hxs, (comment_append_iff h' (hreads.proper hc) (by simp [hnil])).mpr ⟨hnil, rfl⟩⟩

/-- What a cursor stands before depends on its tokens only. -/
theorem Answers.congr {c d : Cursor} {xs : List Operand} {comment : Option Text}
    (h : c.Answers xs comment) (hc : c.Proper) (hd : d.Proper)
    (heq : c.lexemes = d.lexemes) : d.Answers xs comment := by
  obtain ⟨c', hxs, hok⟩ := h
  have hagree : Agrees [] c d := ⟨by rw [heq, List.append_nil], hc.eof, hd.eof⟩
  obtain ⟨d', hxs', h'⟩ := (hagree.alike_operands (Or.inr rfl)).exists_right hxs
  obtain ⟨ls, hreads, -⟩ := spellsRow_of_operandsWithin _ _ _ _ hc hxs
  obtain ⟨ms, hreads', -⟩ := spellsRow_of_operandsWithin _ _ _ _ hd hxs'
  have hlexemes : c'.lexemes = d'.lexemes := by rw [h'.lexemes, List.append_nil]
  rw [comment_eq_ok_iff_lexemes (hreads.proper hc), hlexemes,
    ← comment_eq_ok_iff_lexemes (hreads'.proper hd)] at hok
  exact ⟨d', hxs', hok⟩

/-- There is a cursor over the tokens of any scan. -/
theorem exists_proper {t : Text} {ls : List Lexeme} (h : Scans t ls []) :
    ∃ c : Cursor, c.Proper ∧ c.lexemes = ls := by
  obtain ⟨c, -, -, hlexemes, heof⟩ :=
    ofScanner_of_scans (s := ⟨t, 0, 0, false, t⟩) h fun _ _ => Or.inl rfl
  exact ⟨c, ⟨heof, hlexemes ▸ h.spelled⟩, hlexemes⟩

end Cursor

namespace Line

/-- The blanks of any class before the first semicolon of a text, or at its end if it has
none. -/
def gap (t : Text) : Text := (t.takeWhile (· != ';')).rtakeWhile Text.isBlank

/-- The text without these blanks. -/
def closed (t : Text) : Text := Text.trimEnd (t.takeWhile (· != ';')) ++ t.dropWhile (· != ';')

/-- The three parts of a text: up to the blanks before the first semicolon, the blanks, and
from the semicolon on. -/
structure Parts (t u tail : Text) : Prop where
  eq : t = u ++ (gap t ++ tail)
  closed_eq : closed t = u ++ tail
  solid : Text.Solid u
  not_mem : ';' ∉ u
  gap : ∀ c ∈ gap t, Text.isBlank c
  tail : ∀ c ∈ tail.head?, c = ';'

/-- Every text has its three parts. The cut is at the first semicolon, or at the end if there is
none. -/
theorem exists_parts (t : Text) : ∃ u tail, Parts t u tail := by
  obtain ⟨body, tail, ht, htake, hbody, htail⟩ := Token.exists_run (· != ';') t
  have hdrop : t.dropWhile (· != ';') = tail := by
    have hsplit := List.takeWhile_append_dropWhile (p := (· != ';')) (l := t)
    rw [htake] at hsplit
    exact List.append_cancel_left (hsplit.trans ht)
  refine ⟨Text.trimEnd body, tail, ?_, ?_, Text.solid_trimEnd body, fun hmem => ?_, ?_, ?_⟩
  · rw [gap, htake, ← List.append_assoc, Text.trimEnd_eq_rdropWhile,
      List.rdropWhile_append_rtakeWhile]
    exact ht
  · rw [closed, htake, hdrop]
  · simpa using hbody ';' (Text.mem_of_mem_trimEnd hmem)
  · rw [gap, htake]
    exact fun c hc => List.mem_rtakeWhile_imp hc
  · simpa using htail

/-- No token of the line but a comment has a semicolon in it. -/
def SemicolonFree (text : Text) (index : Nat) : Prop :=
  ∀ token ∈ (Scanner.ofLine text index).run.1, token.kind ≠ .comment → ';' ∉ token.text

instance (text : Text) (index : Nat) : Decidable (SemicolonFree text index) :=
  inferInstanceAs (Decidable (∀ token ∈ (Scanner.ofLine text index).run.1,
    token.kind ≠ .comment → ';' ∉ token.text))

/-- A definition of this name, with a text behind it. -/
def defining (name t : Text) : Text := "#define".toList ++ ' ' :: (name ++ ' ' :: t)

/-- A statement with this mnemonic and a text behind it. -/
def stating (mnemonic t : Text) : Text := ' ' :: mnemonic ++ ' ' :: t

/-! ### Statements -/

/-- A line that begins with a blank and a name does not begin with a directive. -/
theorem kind_ne_pragma_of_stating {mnemonic t : Text} {index : Nat} {c : Cursor}
    (hm : Token.IsName mnemonic)
    (hc : Cursor.ofScanner (.ofLine (stating mnemonic t) index) = .ok c) : c.kind ≠ .pragma := by
  intro hk
  obtain ⟨blanks, front, gap, tail, hline, -⟩ := Cursor.exists_directiveLine hc hk
  obtain ⟨u, hfront⟩ := hline.pound
  cases mnemonic with
  | nil => exact hm
  | cons d ds =>
      have hspelled : Spelled .identifier (d :: ds) := .identifier hm
      -- Behind the blanks stands the name, and no name begins with a pound sign.
      have hskip := congrArg (List.dropWhile Token.isSeparator) hline.eq
      rw [hfront, List.append_assoc, List.append_assoc,
        List.dropWhile_append_of_pos hline.blanks, List.cons_append,
        List.dropWhile_cons_of_neg (by decide), stating, List.cons_append,
        List.dropWhile_cons_of_pos (by decide), List.cons_append,
        List.dropWhile_cons_of_neg (by simp [hspelled.head_not_isSeparator])] at hskip
      obtain rfl := (List.cons.inj hskip).1
      exact absurd hm.1 (by decide)

/-- A statement is scanned as its mnemonic and the tokens of the text behind it. -/
theorem scans_stating_iff {mnemonic t : Text} (hm : Token.IsName mnemonic) {ms : List Lexeme} :
    Scans (stating mnemonic t) ms [] ↔
      ∃ ls, ms = ⟨.identifier, mnemonic⟩ :: ls ∧ Scans t ls [] := by
  have hdetached : Token.Detached (' ' :: t) := Token.detached_cons (by decide) t
  rw [stating, List.cons_append, Token.scans_name_iff hm hdetached]
  simp only [Token.scans_blank_iff (c := ' ') (by decide)]

/-- The name stands behind a blank, so it is no label. -/
theorem statement_stating_iff {mnemonic t : Text} {index : Nat} {c : Cursor} {ls : List Lexeme}
    (hc : Cursor.ofScanner (.ofLine (stating mnemonic t) index) = .ok c)
    (hls : c.lexemes = ⟨.identifier, mnemonic⟩ :: ls) {s : Statement} :
    c.statement = .ok s ↔ ∃ xs comment, c.consume.Answers xs comment ∧
      s = ⟨none, some mnemonic, xs, comment⟩ := by
  -- A blank stands before the mnemonic, so it is not taken for a label.
  have hcolumn : (c.peek 0).column ≠ 0 := by
    obtain ⟨hrun, -, -⟩ := Cursor.ofScanner_eq_ok_iff.mp hc
    obtain ⟨token, tokens, hrest⟩ : ∃ token tokens, c.rest = token :: tokens := by
      refine List.exists_cons_of_ne_nil fun hnil => ?_
      rw [Cursor.lexemes, hnil] at hls
      cases hls
    rw [hrest] at hrun
    rw [Cursor.peek, hrest, List.getD_cons_zero, Scanner.column_of_run hrun]
    simp [Scanner.ofLine, stating, Token.isSeparator]
  have hlabel : c.label = (none, c) := if_neg fun h => hcolumn h.2
  have hmnemonic : c.mnemonic = (some mnemonic, c.consume) := by
    rw [Cursor.mnemonic, if_pos (Cursor.kind_of_lexemes hls), Cursor.text_of_lexemes hls]
  obtain ⟨label, mnemonic', xs, comment⟩ := s
  rw [Cursor.statement_eq_ok_iff]
  constructor
  · rintro ⟨c₁, c₂, c₃, h₁, h₂, hxs, hcomment⟩
    cases hlabel.symm.trans h₁
    cases hmnemonic.symm.trans h₂
    exact ⟨xs, comment, ⟨c₃, hxs, hcomment⟩, rfl⟩
  · rintro ⟨xs', comment', ⟨c₃, hxs, hcomment⟩, hs⟩
    cases hs
    exact ⟨c, c.consume, c₃, hlabel, hmnemonic, hxs, hcomment⟩

/-- A name in front of a text is the mnemonic of a statement, and the text is the rest. -/
theorem parse_stating_iff {mnemonic t : Text} (hm : Token.IsName mnemonic) {index : Nat}
    {line : Line} : parse (stating mnemonic t) index = .ok line ↔
      ∃ (c : Cursor) (xs : List Operand) (comment : Option Text), c.Proper ∧
        Scans t c.lexemes [] ∧ c.Answers xs comment ∧
        line = .statement ⟨none, some mnemonic, xs, comment⟩ := by
  constructor
  · intro h
    obtain ⟨c, hc, h⟩ := bind_eq_ok_iff.mp h
    have hc := mapError_eq_ok_iff.mp hc
    have hpragma := kind_ne_pragma_of_stating hm hc
    obtain ⟨hproper, hwhole⟩ := Cursor.proper_of_ofScanner hc (Or.inr hpragma)
    obtain ⟨ls, hls, ht⟩ := (scans_stating_iff hm).mp hwhole
    obtain ⟨hreads, -⟩ := Cursor.reads_of_lexemes hls
    rw [← hreads.tail_eq hls] at ht
    rw [if_neg hpragma] at h
    obtain ⟨s, hs, h⟩ := bind_eq_ok_iff.mp h
    cases h
    obtain ⟨xs, comment, hanswers, rfl⟩ :=
      (statement_stating_iff hc hls).mp (mapError_eq_ok_iff.mp hs)
    exact ⟨c.consume, xs, comment, hreads.proper hproper, ht, hanswers, rfl⟩
  -- The cursor behind the mnemonic is another one, but it stands before the same tokens.
  · rintro ⟨d, xs, comment, hd, ht, hanswers, rfl⟩
    have hwhole := (scans_stating_iff hm).mpr ⟨_, rfl, ht⟩
    obtain ⟨c, hc, -, hls, heof⟩ := Cursor.ofScanner_of_scans
      (s := .ofLine (stating mnemonic t) index) hwhole fun l hl => by
        cases hl
        exact Or.inr (by simp)
    have hpragma := kind_ne_pragma_of_stating hm hc
    obtain ⟨hproper, -⟩ := Cursor.proper_of_ofScanner hc (Or.inr hpragma)
    obtain ⟨hreads, -⟩ := Cursor.reads_of_lexemes hls
    have hleft := hanswers.congr hd (hreads.proper hproper) (hreads.tail_eq hls).symm
    exact parse_eq_statement_iff.mpr
      ⟨c, hc, hpragma, (statement_stating_iff hc hls).mpr ⟨xs, comment, hleft, rfl⟩⟩

/-- The tokens of such a line have no semicolon but in a comment just if those of the text have
none. -/
theorem semicolonFree_stating_iff {mnemonic t : Text} (hm : Token.IsName mnemonic) {index : Nat}
    {ls : List Lexeme} (ht : Scans t ls []) :
    SemicolonFree (stating mnemonic t) index ↔ ∀ l ∈ ls, l.kind ≠ .comment → ';' ∉ l.text := by
  have hwhole := (scans_stating_iff hm).mpr ⟨_, rfl, ht⟩
  obtain ⟨tokens, eof, hrun, hls, -⟩ := Scanner.run_of_scans
    (s := .ofLine (stating mnemonic t) index) hwhole fun l hl => by
      cases hl
      exact Or.inr (by simp)
  have hname : ';' ∉ mnemonic := fun hmem =>
    absurd (hm.isIdentifierPart ';' hmem) (by decide)
  have htokens : (∀ token ∈ tokens, token.kind ≠ .comment → ';' ∉ token.text) ↔
      ∀ l ∈ tokens.map Token.lexeme, l.kind ≠ .comment → ';' ∉ l.text := by
    rw [List.forall_mem_map]
    rfl
  rw [SemicolonFree, hrun, htokens, hls, List.forall_mem_cons]
  exact and_iff_right fun _ => hname

/-! ### Definitions -/

/-- The part of a definition behind its word. -/
def definedFront (name u : Text) : Text := ' ' :: (name ++ if u = [] then [] else ' ' :: u)

/-- A definition behind its word is scanned as its name and the tokens of the text behind that. -/
theorem scans_definedFront_iff {name u : Text} (hname : Token.IsName name)
    {ms : List Lexeme} : Scans (definedFront name u) ms [] ↔
      ∃ ls, ms = ⟨.identifier, name⟩ :: ls ∧ Scans u ls [] := by
  unfold definedFront
  split
  · next hnil => rw [hnil, Token.scans_name_iff hname Token.detached_nil]
  · rw [Token.scans_name_iff hname (Token.detached_cons (by decide) u)]
    simp only [Token.scans_blank_iff (c := ' ') (by decide)]

/-- A definition has no semicolon in it if the text behind its name has none. -/
theorem not_mem_definedFront {name u : Text} (hname : Token.IsName name) (hu : ';' ∉ u) :
    ';' ∉ definedFront name u := by
  intro hmem
  rcases List.mem_cons.mp hmem with hmem | hmem
  · cases hmem
  · rcases List.mem_append.mp hmem with hmem | hmem
    · exact absurd (hname.isIdentifierPart ';' hmem) (by decide)
    · split at hmem
      · cases hmem
      · rcases List.mem_cons.mp hmem with hmem | hmem
        · cases hmem
        · exact hu hmem

/-- A definition ends in no blank if the text behind its name does not. -/
theorem solid_definedFront {name u : Text} (hname : Token.IsName name) (hu : Text.Solid u) :
    Text.Solid (definedFront name u) := by
  have hspelled : Spelled .identifier name := .identifier hname
  unfold definedFront
  split
  · rw [List.append_nil]
    exact (hspelled.solid (by simp)).append hspelled.ne_nil [' ']
  · next hne =>
    have hsolid := hu.append hne (' ' :: (name ++ [' ']))
    rwa [List.cons_append, List.append_assoc, List.singleton_append] at hsolid

/-- Without operands, the blank behind the name is one of those that are cut off. -/
theorem exists_defining_eq (name : Text) {t u tail : Text} (ht : Parts t u tail) :
    ∃ blanks, (∀ c ∈ blanks, Text.isBlank c) ∧ ∀ word : Text,
      word ++ ' ' :: (name ++ ' ' :: t)
        = [] ++ (word ++ definedFront name u) ++ blanks ++ tail := by
  unfold definedFront
  split
  · next hu =>
    refine ⟨' ' :: gap t, List.forall_mem_cons.mpr ⟨by decide, ht.gap⟩, fun word => ?_⟩
    have heq : t = gap t ++ tail := by
      rw [← List.nil_append (gap t), List.append_assoc, ← hu, ← ht.eq]
    simpa using heq
  · refine ⟨gap t, ht.gap, fun word => ?_⟩
    simpa using ht.eq

/-- The line is one with a directive, up to the blanks before the first semicolon. -/
theorem exists_directiveLine_defining {name t u tail : Text} (hname : Token.IsName name)
    (ht : Parts t u tail) : ∃ blanks,
      DirectiveLine (defining name t) [] ("#define".toList ++ definedFront name u) blanks tail := by
  have hword : ∀ c ∈ "#define".toList, c ≠ ';' := List.all_iff_forall_prop.mp (by decide)
  have hfront : ∀ c ∈ definedFront name u, c ≠ ';' := fun c hc heq =>
    not_mem_definedFront hname ht.not_mem (heq ▸ hc)
  have hsolid := solid_definedFront hname ht.solid
  obtain ⟨blanks, hblanks, heq⟩ := exists_defining_eq name ht
  exact ⟨blanks, heq _, by simp, ⟨_, rfl⟩, hsolid.append (List.cons_ne_nil _ _) _,
    List.forall_mem_append.mpr ⟨hword, hfront⟩, hblanks, ht.tail⟩

/-- A name in front of a text is the name of a definition. What stands before the first
semicolon is its operands, and the rest is a comment. -/
theorem parse_defining_iff {name t u tail : Text} (hname : Token.IsName name)
    (ht : Parts t u tail) {index : Nat} {line : Line} :
    parse (defining name t) index = .ok line ↔
      ∃ (d : Cursor) (xs : List Operand), d.Proper ∧ Scans u d.lexemes [] ∧
        (∃ d', d.operands = .ok (xs, d') ∧ d'.kind = .eof) ∧
        line = .definition ⟨name, xs, Cursor.commentText tail⟩ := by
  obtain ⟨blanks, hline⟩ := exists_directiveLine_defining hname ht
  have hhead : directiveWord ("#define".toList ++ definedFront name u) = "#define".toList :=
    directiveWord_append (List.all_iff_forall_prop.mp (by decide)) (by
      intro c hc
      cases hc
      decide)
  have hparse := hline.parse_eq index
  rw [hhead, if_pos (by decide), List.drop_left] at hparse
  rw [hparse]
  simp only [bind_eq_ok_iff, mapError_eq_ok_iff]
  -- The body is scanned as a whole, name included. Its operands are those of a scan that begins
  -- behind the name, since the tokens there are the same.
  constructor
  · rintro ⟨c, hc, ⟨name', xs⟩, hbody, h⟩
    cases h
    obtain ⟨hproper, hscans⟩ := Cursor.proper_of_ofScanner hc (Or.inl rfl)
    obtain ⟨ls, hls, hu⟩ := (scans_definedFront_iff hname).mp hscans
    obtain ⟨hreads, -⟩ := Cursor.reads_of_lexemes hls
    obtain ⟨token, c₁, c₂, hexpect, htext, hxs, hend⟩ :=
      Cursor.definitionBody_eq_ok_iff.mp hbody
    cases (Cursor.expect_of_lexemes hls).symm.trans hexpect
    rw [Cursor.text_of_lexemes hls] at htext
    subst htext
    rw [← hreads.tail_eq hls] at hu
    exact ⟨c.consume, xs, hreads.proper hproper, hu, ⟨c₂, hxs, hend⟩, rfl⟩
  · rintro ⟨d, xs, hd, hu, ⟨d', hxs, hend⟩, rfl⟩
    have hscans := (scans_definedFront_iff hname).mpr ⟨_, rfl, hu⟩
    obtain ⟨c, hc, -, hls, heof⟩ := Cursor.ofScanner_of_scans
      (s := ⟨defining name t, index, ([] : Text).length + "#define".toList.length, false,
        definedFront name u⟩) hscans fun _ _ => Or.inl rfl
    obtain ⟨hreads, -⟩ := Cursor.reads_of_lexemes hls
    have hagree : Cursor.Agrees [] c.consume d :=
      ⟨by rw [hreads.tail_eq hls, List.append_nil], hreads.eof ▸ heof, hd.eof⟩
    obtain ⟨c', hxs', h'⟩ := (hagree.alike_operands (Or.inr rfl)).exists_left hxs
    have hend' : c'.kind = .eof := by
      rw [Cursor.kind_eq_headKind h'.eof_left, h'.lexemes, List.append_nil,
        ← Cursor.kind_eq_headKind h'.eof_right]
      exact hend
    exact ⟨c, hc, (name, xs), Cursor.definitionBody_eq_ok_iff.mpr ⟨c.peek 0, c.consume, c',
      Cursor.expect_of_lexemes hls, Cursor.text_of_lexemes hls, hxs', hend'⟩, rfl⟩

/-! ### Both -/

/-- A statement without semicolons but in the comment is read from what stands before the
comment, as a definition is. -/
theorem parse_stating_iff_of_semicolonFree {mnemonic u blanks tail : Text}
    (hm : Token.IsName mnemonic) (hu : ';' ∉ u) (hblanks : ∀ c ∈ blanks, Token.isSeparator c)
    (htail : ∀ c ∈ tail.head?, c = ';') {index : Nat} {line : Line} :
    (SemicolonFree (stating mnemonic (u ++ (blanks ++ tail))) index ∧
        parse (stating mnemonic (u ++ (blanks ++ tail))) index = .ok line) ↔
      ∃ (d : Cursor) (xs : List Operand), d.Proper ∧ Scans u d.lexemes [] ∧
        (∃ d', d.operands = .ok (xs, d') ∧ d'.kind = .eof) ∧
        line = .statement ⟨none, some mnemonic, xs, Cursor.commentText tail⟩ := by
  rw [parse_stating_iff hm]
  constructor
  · rintro ⟨hfree, c, xs, comment, hc, ht, hanswers, rfl⟩
    -- The line is free of semicolons up to the comment, so the tokens end where the tail begins.
    obtain ⟨ls, hls, hscans⟩ := (Token.scans_append_iff hu hblanks htail).mp
      ⟨ht, (semicolonFree_stating_iff hm ht).mp hfree⟩
    obtain ⟨d, hd, rfl⟩ := Cursor.exists_proper hscans
    obtain ⟨hxs, rfl⟩ := (Cursor.operands_append_iff ⟨hls, hc.eof, hd.eof⟩ hc hd
      (hscans.kind_ne_comment hu)).mp hanswers
    exact ⟨d, xs, hd, hscans, hxs, rfl⟩
  · rintro ⟨d, xs, hd, hscans, hxs, rfl⟩
    obtain ⟨ht, hfree⟩ := (Token.scans_append_iff hu hblanks htail).mpr ⟨_, rfl, hscans⟩
    obtain ⟨c, hc, hls⟩ := Cursor.exists_proper ht
    have hanswers := (Cursor.operands_append_iff ⟨hls, hc.eof, hd.eof⟩ hc hd
      (hscans.kind_ne_comment hu)).mpr ⟨hxs, rfl⟩
    exact ⟨(semicolonFree_stating_iff hm ht).mpr hfree, c, xs, _, hc, hls ▸ ht, hanswers, rfl⟩

/-- A definition is read just if the statement without the blanks before its comment is, and no
token of this but the comment has a semicolon in it. Then the operands and the comments are the
same. If the blanks are those that the scanner skips, they need not be taken away. -/
theorem parse_definition_iff_statement {name mnemonic : Text} (hname : Token.IsName name)
    (hm : Token.IsName mnemonic) (t : Text) (index : Nat) :
    (∀ line, parse (defining name t) index = .ok line ↔
      ∃ xs comment, line = .definition ⟨name, xs, comment⟩ ∧
        SemicolonFree (stating mnemonic (closed t)) index ∧
        parse (stating mnemonic (closed t)) index
          = .ok (.statement ⟨none, some mnemonic, xs, comment⟩)) ∧
    (∀ line, parse (stating mnemonic t) index = .ok line →
      ∃ xs comment, line = .statement ⟨none, some mnemonic, xs, comment⟩) ∧
    ((∀ c ∈ gap t, Token.isSeparator c) → ∀ line,
      (SemicolonFree (stating mnemonic (closed t)) index ∧
          parse (stating mnemonic (closed t)) index = .ok line) ↔
        SemicolonFree (stating mnemonic t) index ∧
          parse (stating mnemonic t) index = .ok line) := by
  obtain ⟨u, tail, ht⟩ := exists_parts t
  have hclosed : closed t = u ++ ([] ++ tail) := ht.closed_eq
  have hnone : ∀ c ∈ ([] : Text), Token.isSeparator c := by simp
  refine ⟨fun line => ?_, fun line h => ?_, fun hgap line => ?_⟩
  -- The definition and the closed statement are read from the same three parts of the text.
  · simp only [hclosed, parse_stating_iff_of_semicolonFree hm ht.not_mem hnone ht.tail,
      parse_defining_iff hname ht]
    constructor
    · rintro ⟨d, xs, hd, hu, hxs, rfl⟩
      exact ⟨xs, _, rfl, d, xs, hd, hu, hxs, rfl⟩
    · rintro ⟨xs, comment, rfl, d, xs', hd, hu, hxs, hs⟩
      cases hs
      exact ⟨d, xs, hd, hu, hxs, rfl⟩
  · obtain ⟨c, xs, comment, -, -, -, hs⟩ := (parse_stating_iff hm).mp h
    exact ⟨xs, comment, hs⟩
  · rw [hclosed, parse_stating_iff_of_semicolonFree hm ht.not_mem hnone ht.tail]
    conv_rhs => rw [ht.eq]
    rw [parse_stating_iff_of_semicolonFree hm ht.not_mem hgap ht.tail]

/-- The blank before the comment is not one that the scanner skips. -/
theorem parse_definition_iff_statement_blank :
    Token.IsName "LED".toList ∧ Token.IsName "m".toList ∧
      SemicolonFree (stating "m".toList (closed "PORTB, 3\u00a0; on".toList)) 0 ∧
      parse (defining "LED".toList "PORTB, 3\u00a0; on".toList) 0
        = .ok (.definition ⟨"LED".toList,
          [.identifier "PORTB".toList, .number 3 .hexadecimal ['3']], some "on".toList⟩) := by
  have hname : Token.IsName "LED".toList := by decide
  have hm : Token.IsName "m".toList := by decide
  have hfree : SemicolonFree (stating "m".toList (closed "PORTB, 3\u00a0; on".toList)) 0 := by
    decide +kernel
  refine ⟨hname, hm, hfree, ?_⟩
  refine ((parse_definition_iff_statement hname hm _ 0).1 _).mpr ⟨_, _, rfl, hfree, ?_⟩
  decide +kernel

/-- A semicolon in a string ends a definition, but not a statement. -/
theorem not_parse_definition_iff_statement :
    ¬ ∀ t : Text, '\n' ∉ t → ((∃ line, parse (defining ['N'] t) 0 = .ok line) ↔
      ∃ line, parse (stating ['m'] t) 0 = .ok line) := by
  intro h
  have hstatement : parse (stating ['m'] ['"', ';', '"']) 0
      = .ok (.statement ⟨none, some ['m'], [.string ['"', ';', '"']], none⟩) := by
    decide +kernel
  have hdefinition : parse (defining ['N'] ['"', ';', '"']) 0
      = .error (.lex ⟨1, 10, .unterminated .string (some '"'),
        defining ['N'] ['"', ';', '"']⟩) := by
    decide +kernel
  obtain ⟨line, hline⟩ := (h ['"', ';', '"'] (by decide)).mpr ⟨_, hstatement⟩
  rw [hdefinition] at hline
  cases hline

end Line

end PicAssembly
