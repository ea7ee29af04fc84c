import PicAssembly.Proofs.Token.Places
import PicAssembly.Proofs.Token.Remainder

/-!
# `PicAssembly.Proofs.Token.Partition`: a line is its tokens and the blanks between them

A scanner that comes to the end of a line has lost no character on the way. `Token.Tiles` says so
of a text: it is gaps and tokens in turn, each token in the column where its characters stand. A
gap consists of separators, and behind a directive, which is trimmed, of any blanks.

One step takes a gap and a token off the front (`Scanner.next_split`), so a run lays tiles over
all that it reads (`Scanner.tiles_of_runFor`). The order of the tokens, their places in the line
and what is between them follow from the tiles alone, and `Scanner.partition_of_run` puts them
together.
-/

set_option autoImplicit false

namespace PicAssembly

namespace Token

/-- The column behind the token. -/
def stop (token : Token) : Nat := token.column + token.text.length

/-- Whether a character may stand in a gap behind a token of this kind. -/
def isGap (before : Option Kind) (c : Char) : Bool :=
  isSeparator c || before == some .pragma && Text.isBlank c

/-- The text is gaps and tokens in turn, and each token is in its column. The text begins in
`column` and follows a token of the kind `before`, if it follows one. -/
inductive Tiles : (before : Option Kind) → (column : Nat) → Text → List Token → Prop where
  | done {before : Option Kind} {column : Nat} {gap : Text} (hgap : ∀ c ∈ gap, isGap before c) :
      Tiles before column gap []
  | token {before : Option Kind} {column : Nat} {gap t : Text} {token : Token}
      {tokens : List Token} (hgap : ∀ c ∈ gap, isGap before c)
      (hcolumn : token.column = column + gap.length) (hne : token.text ≠ [])
      (h : Tiles (some token.kind) token.stop t tokens) :
      Tiles before column (gap ++ token.text ++ t) (token :: tokens)

/-- The blanks that the scanner passes over may stand in every gap. -/
theorem isGap_of_isSeparator {c : Char} (h : isSeparator c) (before : Option Kind) :
    isGap before c :=
  Bool.or_eq_true_iff.mpr (.inl h)

/-- A directive is what is left when blanks are trimmed, any other token is all it covers. -/
theorem exists_textOf (k : Kind) (covered : Text) :
    ∃ trimmed, covered = textOf k covered ++ trimmed ∧ ∀ c ∈ trimmed, isGap (some k) c := by
  rw [textOf]
  split
  · next hk =>
    obtain ⟨blanks, hcovered, hblanks⟩ := Text.exists_trimEnd covered
    exact ⟨blanks, hcovered, fun c hc => by simp [isGap, hk, hblanks c hc]⟩
  · exact ⟨[], (List.append_nil covered).symm, by simp⟩

/-- A token has at least its first character, and is not the end of the line. -/
theorem textOf_ne_nil {fresh : Bool} {c : Char} {t : Text} {k : Kind} {n : Nat}
    (h : extent fresh c t = .ok (k, n)) : textOf k ((c :: t).take n) ≠ [] ∧ k ≠ .eof := by
  rcases extent_cases h with ⟨-, rfl, rfl, rfl⟩ | ⟨ds, rest, rfl, rfl, hspelled, -⟩
  · refine ⟨?_, by simp⟩
    rw [textOf, if_pos rfl, List.take_succ_cons]
    obtain ⟨blanks, hcovered, hblanks⟩ :=
      Text.exists_trimEnd ('#' :: t.take (t.takeWhile (· != ';')).length)
    intro hnil
    rw [hnil, List.nil_append] at hcovered
    exact absurd (hblanks '#' (hcovered ▸ List.mem_cons_self)) (by decide)
  · rw [textOf, if_neg hspelled.kind_ne_pragma]
    exact ⟨by simp, hspelled.kind_ne_eof⟩

namespace Tiles

variable {before : Option Kind} {column : Nat} {t : Text} {tokens : List Token}

/-- More blanks in front make the first gap longer. -/
theorem prepend {gap : Text} (hgap : ∀ c ∈ gap, isGap before c)
    (h : Tiles none (column + gap.length) t tokens) : Tiles before column (gap ++ t) tokens := by
  have hwiden {blanks : Text} (hblanks : ∀ c ∈ blanks, isGap none c) :
      ∀ c ∈ gap ++ blanks, isGap before c := by
    intro c hc
    rcases List.mem_append.mp hc with hc | hc
    · exact hgap c hc
    · exact isGap_of_isSeparator (by simpa [isGap] using hblanks c hc) before
  generalize hnone : (none : Option Kind) = first at h
  generalize hstart : column + gap.length = start at h
  cases h with
  | done hblanks =>
      subst hnone
      exact .done (hwiden hblanks)
  | token hblanks hcolumn hne h =>
      subst hnone hstart
      rw [← List.append_assoc, ← List.append_assoc]
      exact .token (hwiden hblanks) (by rw [hcolumn, List.length_append, Nat.add_assoc]) hne h

/-- Tokens lie where their text is. -/
theorem bounds (h : Tiles before column t tokens) :
    ∀ token ∈ tokens, column ≤ token.column ∧ token.stop ≤ column + t.length ∧
      token.text ≠ [] := by
  induction h with
  | done => simp
  | @token _ column gap t first _ _ hcolumn hne _ ih =>
      have hstop : first.stop = column + gap.length + first.text.length := by
        rw [stop, hcolumn]
      have hlength : (gap ++ first.text ++ t).length
          = gap.length + first.text.length + t.length := by
        simp only [List.length_append]
      rw [hlength]
      refine List.forall_mem_cons.mpr ⟨⟨by omega, by omega, hne⟩, fun token htoken => ?_⟩
      obtain ⟨hstart, hend, hne⟩ := ih token htoken
      exact ⟨by omega, by omega, hne⟩

/-- Tokens come one after the other and do not overlap. -/
theorem pairwise (h : Tiles before column t tokens) :
    tokens.Pairwise fun a b => a.column < b.column ∧ a.stop ≤ b.column := by
  induction h with
  | done => exact .nil
  | @token _ _ _ _ first _ _ _ hne h ih =>
      refine .cons (fun token htoken => ?_) ih
      have hstop := (h.bounds token htoken).1
      have hpos : 0 < first.text.length := List.length_pos_iff.mpr hne
      exact ⟨by rw [stop] at hstop; omega, hstop⟩

/-- A token is the slice of the line that begins in its column. -/
theorem slice (h : Tiles before column t tokens) {front back : Text}
    (hfront : front.length = column) : ∀ token ∈ tokens,
      ((front ++ t ++ back).drop token.column).take token.text.length = token.text := by
  induction h generalizing front with
  | done => simp
  | @token _ column gap t first _ _ hcolumn _ _ ih =>
      have hbehind : (front ++ (gap ++ first.text ++ t) ++ back)
          = (front ++ gap ++ first.text) ++ t ++ back := by simp only [List.append_assoc]
      refine List.forall_mem_cons.mpr ⟨?_, fun token htoken => ?_⟩
      · have hlength : first.column = (front ++ gap).length := by
          rw [hcolumn, List.length_append, hfront]
        rw [hbehind, List.append_assoc, List.append_assoc (front ++ gap), hlength, List.drop_left,
          List.take_left]
      · rw [hbehind]
        refine ih ?_ token htoken
        rw [stop, hcolumn, List.length_append, List.length_append, hfront]

/-- A character that is in no token is in the gap behind the last token before it. -/
theorem exists_gap (h : Tiles before column t tokens) {i : Nat} {c : Char}
    (hc : t[i]? = some c)
    (hfree : ∀ token ∈ tokens, ¬ (token.column ≤ column + i ∧ column + i < token.stop)) :
    ∃ front back, tokens = front ++ back ∧ (∀ token ∈ front, token.stop ≤ column + i) ∧
      (∀ token ∈ back, column + i < token.column) ∧
      isGap ((front.getLast?.map Token.kind).or before) c := by
  induction h generalizing i with
  | done hgap => exact ⟨[], [], rfl, by simp, by simp, hgap c (List.mem_of_getElem? hc)⟩
  | @token before column gap t first tokens hgap hcolumn hne h ih =>
      obtain ⟨hfirst, hrest⟩ := List.forall_mem_cons.mp hfree
      have hstop : first.stop = column + gap.length + first.text.length := by
        rw [stop, hcolumn]
      rcases Nat.lt_or_ge i gap.length with hi | hi
      -- The character is in the first gap, before all tokens.
      · rw [List.append_assoc, List.getElem?_append_left hi] at hc
        refine ⟨[], first :: tokens, rfl, by simp, ?_, hgap c (List.mem_of_getElem? hc)⟩
        refine List.forall_mem_cons.mpr ⟨by omega, fun token htoken => ?_⟩
        have hbehind := (h.bounds token htoken).1
        omega
      -- It is not in the first token, so it is behind it.
      · have hlength : (gap ++ first.text).length = gap.length + first.text.length :=
          List.length_append
        have hi' : first.stop + (i - (gap ++ first.text).length) = column + i := by omega
        rw [List.getElem?_append_right (by omega)] at hc
        obtain ⟨front, back, rfl, hfront, hback, hkind⟩ := ih hc (by rwa [hi'])
        rw [hi'] at hfront hback
        refine ⟨first :: front, back, rfl,
          List.forall_mem_cons.mpr ⟨by omega, hfront⟩, hback, ?_⟩
        rw [List.getLast?_cons]
        cases hlast : front.getLast? <;> simpa [hlast] using hkind

/-- A character is in a token, or it is a separator, or a blank behind a directive. -/
theorem covered_or_blank (h : Tiles none column t tokens) {i : Nat} {c : Char}
    (hc : t[i]? = some c) :
    (∃ token ∈ tokens, token.column ≤ column + i ∧ column + i < token.stop) ∨ isSeparator c ∨
      (Text.isBlank c ∧ ∃ front pragma back, tokens = front ++ pragma :: back ∧
        pragma.kind = .pragma ∧ pragma.stop ≤ column + i ∧
        ∀ token ∈ back, column + i < token.column) := by
  refine or_iff_not_imp_left.mpr fun hfree => ?_
  push Not at hfree
  obtain ⟨front, back, rfl, hfront, hback, hgap⟩ :=
    h.exists_gap hc fun token htoken hin => absurd (hfree token htoken hin.1) (by omega)
  rw [Option.or_none] at hgap
  refine (Bool.or_eq_true_iff.mp hgap).imp_right fun hgap => ?_
  obtain ⟨hkind, hblank⟩ := Bool.and_eq_true_iff.mp hgap
  obtain ⟨pragma, hlast, hpragma⟩ := Option.map_eq_some_iff.mp (beq_iff_eq.mp hkind)
  obtain ⟨front, rfl⟩ := List.getLast?_eq_some_iff.mp hlast
  exact ⟨hblank, front, pragma, back, by rw [List.append_assoc, List.singleton_append], hpragma,
    hfront pragma (by simp), hback⟩

end Tiles

end Token

namespace Scanner

open Token

/-- One step takes blanks and a token off the front, and what was trimmed from the token. -/
theorem next_split {s after : Scanner} {token : Token} (h : s.next = .ok (token, after)) :
    ∃ blanks trimmed, s.rest = blanks ++ token.text ++ (trimmed ++ after.rest) ∧
      (∀ c ∈ blanks, isSeparator c) ∧ (∀ c ∈ trimmed, isGap (some token.kind) c) ∧
      token.column = s.column + blanks.length ∧ after.column = token.stop + trimmed.length ∧
      (token.kind ≠ .eof → token.text ≠ []) ∧
      (token.kind = .eof → token.text = [] ∧ trimmed ++ after.rest = []) := by
  obtain ⟨blanks, t, hrest, hblanks, hskip⟩ := s.exists_skipBlanks
  simp only [next, hskip, take] at h
  -- The end of the line has no text. Any other token is cut off the front, and blanks at the end
  -- of a directive are left out of it.
  cases t with
  | nil =>
      cases h
      exact ⟨blanks, [], by simpa using hrest, hblanks, by simp, rfl, rfl, fun hk => absurd rfl hk,
        fun _ => ⟨rfl, rfl⟩⟩
  | cons c cs =>
      dsimp only at h
      split at h
      · cases h
      · next k n hextent =>
        cases h
        obtain ⟨hne, hk⟩ := textOf_ne_nil hextent
        obtain ⟨trimmed, hcovered, htrimmed⟩ := exists_textOf k ((c :: cs).take n)
        have hlength : (textOf k ((c :: cs).take n)).length + trimmed.length = n := by
          rw [← List.length_append, ← hcovered,
            List.length_take_of_le (Token.length_of_extent hextent)]
        refine ⟨blanks, trimmed, ?_, hblanks, htrimmed, rfl, ?_, fun _ => hne,
          fun heof => absurd heof hk⟩
        · rw [hrest, List.append_assoc, ← List.append_assoc _ trimmed, ← hcovered,
            List.take_append_drop]
        · show s.column + blanks.length + n = s.column + blanks.length + _ + trimmed.length
          rw [Nat.add_assoc (s.column + blanks.length), hlength]

/-- A run that comes to the end lays tiles over all that it reads. -/
theorem tiles_of_runFor (steps : Nat) {s : Scanner} {tokens : List Token} {eof : Token}
    (h : runFor steps s = (tokens, .ok eof)) (hsteps : s.rest.length ≤ steps) :
    Tiles none s.column s.rest tokens ∧ eof.kind = .eof ∧ eof.text = [] ∧
      eof.column = s.column + s.rest.length := by
  induction steps generalizing s tokens eof with
  | zero =>
      obtain hnil : s.rest = [] := List.length_eq_zero_iff.mp (Nat.le_zero.mp hsteps)
      rw [runFor_of_rest_eq_nil hnil] at h
      cases h
      rw [hnil]
      exact ⟨.done (by simp), rfl, rfl, rfl⟩
  | succ steps ih =>
      obtain ⟨token, after, hnext, hstep⟩ := runFor_cases h hsteps
      obtain ⟨blanks, trimmed, hrest, hblanks, htrimmed, hcolumn, hafter, hne, hend⟩ :=
        next_split hnext
      have hgap : ∀ c ∈ blanks, isGap none c := fun c hc =>
        isGap_of_isSeparator (hblanks c hc) none
      rcases hstep with ⟨hk, rfl, rfl⟩ | ⟨hk, _, tokens', hsucc, rfl, hrun⟩
      -- The run is at its end: only blanks are left.
      · obtain ⟨htext, hnothing⟩ := hend hk
        rw [htext, hnothing, List.append_nil, List.append_nil] at hrest
        rw [hrest]
        exact ⟨.done hgap, hk, htext, hcolumn⟩
      -- The run goes on behind the token and what was trimmed from it.
      · cases hsucc
        have hpos : 0 < token.text.length := List.length_pos_iff.mpr (hne hk)
        have hlength : s.rest.length
            = blanks.length + token.text.length + (trimmed.length + after.rest.length) := by
          rw [hrest]
          simp only [List.length_append]
        obtain ⟨htiles, heof, htext, hcolumn'⟩ := ih hrun (by omega)
        rw [hafter] at htiles hcolumn'
        refine ⟨?_, heof, htext, ?_⟩
        · rw [hrest]
          exact .token hgap hcolumn (hne hk) (htiles.prepend htrimmed)
        · rw [hcolumn', stop, hcolumn, hlength]
          omega

end Scanner

/-- A cursor that comes from a scanner has the end of a line behind its last token. -/
theorem Cursor.kind_eof_of_ofScanner {s : Scanner} {c : Cursor} (h : ofScanner s = .ok c) :
    c.eof.kind = .eof :=
  (Scanner.tiles_of_runFor s.rest.length (ofScanner_eq_ok_iff.mp h).1 (Nat.le_refl _)).2.1

namespace Scanner

open Token

/-- The scanner of a whole line is that of the part from its start to its end. -/
theorem ofLine_eq_within (source : Text) (index : Nat) :
    ofLine source index = within source index 0 source.length := by
  simp [ofLine, within]

/-- The tokens of a part of a line, and of a whole line, partition it. They come one after the
other and do not overlap, each is the slice of the line in its column, all are in the part, and
what is not in a token is a separator or, right behind a directive, a blank. The end of the line
stands where the part ends. -/
theorem partition_of_run (source : Text) (index : Nat) :
    ofLine source index = within source index 0 source.length ∧
    ∀ start stop tokens eof, (within source index start stop).run = (tokens, .ok eof) →
      (eof.kind = .eof ∧ eof.text = [] ∧ eof.column = min stop source.length) ∧
      tokens.Pairwise (fun a b => a.column < b.column ∧ a.stop ≤ b.column) ∧
      (∀ token ∈ tokens, min start (min stop source.length) ≤ token.column ∧
        token.stop ≤ min stop source.length ∧ token.text ≠ [] ∧
        (source.drop token.column).take token.text.length = token.text) ∧
      ∀ i c, source[i]? = some c → min start (min stop source.length) ≤ i →
        i < min stop source.length →
          (∃ token ∈ tokens, token.column ≤ i ∧ i < token.stop) ∨ isSeparator c ∨
          (Text.isBlank c ∧ ∃ front pragma back, tokens = front ++ pragma :: back ∧
            pragma.kind = .pragma ∧ pragma.stop ≤ i ∧ ∀ token ∈ back, i < token.column) := by
  refine ⟨ofLine_eq_within source index, fun start stop tokens eof h => ?_⟩
  obtain ⟨before, behind, hsource, hbefore⟩ := placed_within source index start stop
  obtain ⟨htiles, heof, htext, hcolumn⟩ := tiles_of_runFor _ h (Nat.le_refl _)
  have hend : (within source index start stop).column
      + (within source index start stop).rest.length = min stop source.length := by
    simp only [within, List.length_drop, List.length_take]
    omega
  refine ⟨⟨heof, htext, hcolumn.trans hend⟩, htiles.pairwise, fun token htoken => ?_,
    fun i c hc hstart hstop => ?_⟩
  · obtain ⟨hfirst, hlast, hne⟩ := htiles.bounds token htoken
    refine ⟨hfirst, hend ▸ hlast, hne, ?_⟩
    calc (source.drop token.column).take token.text.length
      _ = ((before ++ (within source index start stop).rest ++ behind).drop token.column).take
            token.text.length := by rw [← hsource]; rfl
      _ = token.text := htiles.slice hbefore token htoken
  · -- Seen from the start of the part, the character is among those that are read.
    have hcolumn : before.length + (i - before.length) = i := Nat.add_sub_cancel' (hbefore ▸ hstart)
    have hat : (within source index start stop).rest[i - before.length]? = some c := by
      rw [← hc]
      conv_rhs => rw [show source = _ from hsource]
      rw [List.append_assoc, List.getElem?_append_right (by omega),
        List.getElem?_append_left (by omega)]
    have hplace := htiles.covered_or_blank hat
    rwa [← hbefore, hcolumn] at hplace

/-- A part of a line with a directive and a blank that is no separator behind it. -/
theorem partition_of_run_directive :
    let source := " #define A 1\u00A0 ; x\u00A0".toList
    let directive : Token := ⟨.pragma, "#define A 1".toList, 0, 1⟩
    let comment : Token := ⟨.comment, "; x".toList, 0, 14⟩
    (within source 0 1 17).run = ([directive, comment], .ok ⟨.eof, [], 0, 17⟩) ∧
      [directive, comment].Pairwise (fun a b => a.column < b.column ∧ a.stop ≤ b.column) ∧
      (source.drop 14).take 3 = comment.text ∧
      ((∃ token ∈ [directive, comment], token.column ≤ 12 ∧ 12 < token.stop) ∨
        isSeparator '\u00A0' ∨
        (Text.isBlank '\u00A0' ∧ ∃ front pragma back,
          [directive, comment] = front ++ pragma :: back ∧ pragma.kind = .pragma ∧
            pragma.stop ≤ 12 ∧ ∀ token ∈ back, 12 < token.column)) := by
  intro source directive comment
  have hrun : (within source 0 1 17).run = ([directive, comment], .ok ⟨.eof, [], 0, 17⟩) := by
    decide +kernel
  obtain ⟨-, hpairwise, hplaces, hgaps⟩ := (partition_of_run source 0).2 1 17 _ _ hrun
  exact ⟨hrun, hpairwise, (hplaces comment (by simp)).2.2.2,
    hgaps 12 '\u00A0' (by decide) (by decide) (by decide)⟩

end Scanner

end PicAssembly
