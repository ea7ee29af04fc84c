import PicAssembly.Program.Parser
import PicAssembly.Proofs.Line.Statement
import PicAssembly.Proofs.Operand.Faults

/-!
# `PicAssembly.Proofs.Program.Faults`: the fault that stops the reading of a file

Every fault of a line is located in the line, whichever of the readers finds it
(`Line.locates_of_parse`). A definition is no exception: its operands are scanned a second
time, and from the start of the same line.

A file is read line by line, and the first line with a fault is the answer
(`Program.parse_line_by_line`).
-/

set_option autoImplicit false

namespace PicAssembly

/-- A reading in two parts fails in the first part or in the second. -/
theorem bind_eq_error_iff {ε α β : Type} {x : Except ε α} {f : α → Except ε β} {e : ε} :
    (x >>= f) = .error e ↔ x = .error e ∨ ∃ a, x = .ok a ∧ f a = .error e := by
  cases x <;> simp [bind, Except.bind]

/-- A fault that was changed comes from a fault before the change. -/
theorem mapError_eq_error_iff {ε ε' α : Type} {f : ε → ε'} {x : Except ε α} {e : ε'} :
    x.mapError f = .error e ↔ ∃ e', x = .error e' ∧ f e' = e := by
  cases x <;> simp [Except.mapError]

namespace Cursor

/-! ### The readers of a line -/

/-- What is refused as the end of a line is a token ahead. -/
theorem blames_of_endOfLine {c : Cursor} {e : ParseError} (h : c.endOfLine = .error e) :
    c.Blames e := by
  unfold endOfLine at h
  split at h
  · cases h
  · cases h
    exact c.blames_error _

/-- What is refused behind a comment is a token ahead. -/
theorem blames_of_comment {c : Cursor} {e : ParseError} (h : c.comment = .error e) :
    c.Blames e := by
  unfold comment at h
  split at h
  · rcases bind_eq_error_iff.mp h with hend | ⟨_, -, h⟩
    · obtain ⟨ls, hreads⟩ := c.exists_reads_consume
      exact (blames_of_endOfLine hend).mono hreads
    · cases h
  · rcases bind_eq_error_iff.mp h with hend | ⟨_, -, h⟩
    · exact blames_of_endOfLine hend
    · cases h

/-- The label and the mnemonic of a statement are behind it in the line. -/
theorem exists_reads_label (c : Cursor) : ∃ ls, Reads c ls c.label.2 := by
  unfold label
  split
  · obtain ⟨ls, hname⟩ := c.exists_reads_consume
    split
    · obtain ⟨ms, hcolon⟩ := c.consume.exists_reads_consume
      exact ⟨ls ++ ms, hname.append hcolon⟩
    · exact ⟨ls, hname⟩
  · exact ⟨[], .refl c⟩

/-- Reading a mnemonic reads some tokens, or none if there is no mnemonic. -/
theorem exists_reads_mnemonic (c : Cursor) : ∃ ls, Reads c ls c.mnemonic.2 := by
  unfold mnemonic
  split
  · exact c.exists_reads_consume
  · exact ⟨[], .refl c⟩

/-- A fault in a statement is about one of the tokens ahead, or about the end of the line. -/
theorem blames_of_statement {c : Cursor} {e : ParseError} (h : c.statement = .error e) :
    c.Blames e := by
  obtain ⟨ls, hlabel⟩ := c.exists_reads_label
  obtain ⟨ms, hmnemonic⟩ := c.label.2.exists_reads_mnemonic
  rw [statement_eq] at h
  have hrow : c.label.2.mnemonic.2.Blames e := by
    refine (stays_of_operands _).blames_bind (fun xs c' he => ?_) h
    rcases bind_eq_error_iff.mp he with hcomment | ⟨comment, -, he⟩
    · exact blames_of_comment hcomment
    · cases he
  exact (hrow.mono hmnemonic).mono hlabel

/-- A fault in a definition is about one of the tokens ahead, or about the end of the line. -/
theorem blames_of_definitionBody {c : Cursor} {e : ParseError}
    (h : c.definitionBody = .error e) : c.Blames e := by
  refine (stays_of_expect c _).blames_bind (fun name c₁ h => ?_) h
  refine (stays_of_operands c₁).blames_bind (fun xs c₂ h => ?_) h
  rcases bind_eq_error_iff.mp h with hend | ⟨_, -, h⟩
  · exact blames_of_endOfLine hend
  · cases h

/-- A fault in a directive lies on its line. The definition in it is scanned anew, and its columns
stay those of the whole line. -/
theorem locates_of_directive {c : Cursor} {token : Token} {e : Error} (hc : c.Placed)
    (h : c.directive token = .error e) : e.Locates c.source c.line := by
  have hcomment {e : Error} (h : c.comment.mapError .parse = .error e) :
      e.Locates c.source c.line := by
    obtain ⟨e', he', rfl⟩ := mapError_eq_error_iff.mp h
    exact (blames_of_comment he').locates hc
  unfold directive at h
  dsimp only at h
  -- A definition is scanned once more behind its keyword, as a part of the same line.
  split at h
  · obtain ⟨hbody, hfault⟩ := ofScanner_placed (Scanner.placed_within c.source c.line
      (token.column + (token.text.takeWhile fun ch => !Text.isBlank ch).length)
      (token.column + token.text.length))
    rcases bind_eq_error_iff.mp h with h | ⟨body, hok, h⟩
    · obtain ⟨e', he', rfl⟩ := mapError_eq_error_iff.mp h
      exact hfault e' he'
    · obtain ⟨hplaced, hsource, hline⟩ := hbody body (mapError_eq_ok_iff.mp hok)
      rcases bind_eq_error_iff.mp h with h | ⟨parts, -, h⟩
      · obtain ⟨e', he', rfl⟩ := mapError_eq_error_iff.mp h
        have hlocates := (blames_of_definitionBody he').locates hplaced
        rwa [hsource, hline] at hlocates
      · rcases bind_eq_error_iff.mp h with h | ⟨comment, -, h⟩
        · exact hcomment h
        · cases h
  · rcases bind_eq_error_iff.mp h with h | ⟨comment, -, h⟩
    · exact hcomment h
    · cases h

end Cursor

/-- The fault of a line is located in the line. -/
theorem Line.locates_of_parse {text : Text} {index : Nat} {e : Error}
    (h : parse text index = .error e) : e.Locates text index := by
  obtain ⟨hcursor, hfault⟩ := Cursor.ofScanner_placed (Scanner.placed_ofLine text index)
  rcases bind_eq_error_iff.mp h with h | ⟨c, hok, h⟩
  · obtain ⟨e', he', rfl⟩ := mapError_eq_error_iff.mp h
    exact hfault e' he'
  · obtain ⟨hplaced, hsource, hline⟩ := hcursor c (mapError_eq_ok_iff.mp hok)
    rw [show text = c.source from hsource.symm, show index = c.line from hline.symm]
    split at h
    · obtain ⟨ls, hreads⟩ := c.exists_reads_consume
      exact Cursor.locates_of_directive (c := c.consume) (hreads.placed hplaced) h
    · rcases bind_eq_error_iff.mp h with h | ⟨_, -, h⟩
      · obtain ⟨e', he', rfl⟩ := mapError_eq_error_iff.mp h
        exact (Cursor.blames_of_statement he').locates hplaced
      · cases h

namespace Program

/-! ### Line by line -/

/-- Lines are read if each of them is. -/
theorem parseLines_eq_ok_iff {texts : List Text} {index : Nat} {lines : List Line} :
    parseLines index texts = .ok lines ↔ lines.length = texts.length ∧
      ∀ i text, texts[i]? = some text →
        ∃ line, lines[i]? = some line ∧ Line.parse text (index + i) = .ok line := by
  induction texts generalizing index lines with
  | nil =>
      rw [parseLines]
      constructor
      · intro h
        cases h
        simp
      · intro h
        rw [List.length_eq_zero_iff.mp h.1]
  | cons text texts ih =>
      rw [parseLines]
      simp only [bind_eq_ok_iff]
      constructor
      -- The lines behind the first one are read with an index more.
      · rintro ⟨line, hline, lines', hlines, h⟩
        cases h
        obtain ⟨hlength, hat⟩ := ih.mp hlines
        refine ⟨congrArg (· + 1) hlength, fun i t ht => ?_⟩
        cases i with
        | zero =>
            cases ht
            exact ⟨line, rfl, hline⟩
        | succ i =>
            obtain ⟨line', hget, hparse⟩ := hat i t ht
            exact ⟨line', hget, by rwa [Nat.add_right_comm] at hparse⟩
      · rintro ⟨hlength, hat⟩
        obtain ⟨line, lines', rfl⟩ := List.exists_cons_of_length_eq_add_one hlength
        obtain ⟨line', hget, hline⟩ := hat 0 text rfl
        cases hget
        refine ⟨line, hline, lines', ih.mpr ⟨Nat.succ.inj hlength, fun i t ht => ?_⟩, rfl⟩
        obtain ⟨line', hget, hparse⟩ := hat (i + 1) t ht
        exact ⟨line', hget, by rwa [Nat.add_right_comm]⟩

/-- The fault is that of the first line with one. -/
theorem parseLines_eq_error_iff {texts : List Text} {index : Nat} {e : Error} :
    parseLines index texts = .error e ↔ ∃ i text, texts[i]? = some text ∧
      Line.parse text (index + i) = .error e ∧
      ∀ j < i, ∃ earlier line, texts[j]? = some earlier ∧
        Line.parse earlier (index + j) = .ok line := by
  induction texts generalizing index with
  | nil => simp [parseLines]
  | cons text texts ih =>
      rw [parseLines]
      simp only [bind_eq_error_iff]
      constructor
      -- The fault is in the first line, or that one is read and the fault is in the rest.
      · rintro (h | ⟨line, hline, h | ⟨_, -, h⟩⟩)
        · exact ⟨0, text, rfl, h, fun j hj => absurd hj (Nat.not_lt_zero j)⟩
        · obtain ⟨i, t, ht, hparse, hbefore⟩ := ih.mp h
          refine ⟨i + 1, t, ht, by rwa [Nat.add_right_comm] at hparse, fun j hj => ?_⟩
          cases j with
          | zero => exact ⟨text, line, rfl, hline⟩
          | succ j =>
              obtain ⟨earlier, line', hget, hearlier⟩ := hbefore j (Nat.lt_of_succ_lt_succ hj)
              exact ⟨earlier, line', hget, by rwa [Nat.add_right_comm] at hearlier⟩
        · cases h
      · rintro ⟨i, t, ht, hparse, hbefore⟩
        cases i with
        | zero =>
            cases ht
            exact Or.inl hparse
        | succ i =>
            obtain ⟨first, line, hget, hline⟩ := hbefore 0 (Nat.succ_pos i)
            cases hget
            refine Or.inr ⟨line, hline, Or.inl (ih.mpr ⟨i, t, ht, ?_, fun j hj => ?_⟩)⟩
            · rwa [Nat.add_right_comm]
            · obtain ⟨earlier, line', hget, hearlier⟩ := hbefore (j + 1) (Nat.succ_lt_succ hj)
              exact ⟨earlier, line', hget, by rwa [Nat.add_right_comm]⟩

/-- A file is read as its lines. -/
theorem parse_eq_ok_iff {text : Text} {p : Program} :
    parse text = .ok p ↔ parseLines 0 (Text.splitAt '\n' text) = .ok p.lines := by
  rw [parse, bind_eq_ok_iff]
  constructor
  · rintro ⟨lines, hlines, h⟩
    cases h
    exact hlines
  · exact fun h => ⟨p.lines, h, rfl⟩

/-- Every line that was read was read from the line of the text with the same index. -/
theorem exists_parse_of_getElem? {text : Text} {p : Program} (h : parse text = .ok p) {i : Nat}
    {line : Line} (hline : p.lines[i]? = some line) :
    ∃ source, (Text.splitAt '\n' text)[i]? = some source ∧ Line.parse source i = .ok line := by
  obtain ⟨hlength, hat⟩ := parseLines_eq_ok_iff.mp (parse_eq_ok_iff.mp h)
  obtain ⟨hi, -⟩ := List.getElem?_eq_some_iff.mp hline
  have hsource := List.getElem?_eq_getElem (hlength ▸ hi)
  obtain ⟨read, hread, hparse⟩ := hat i _ hsource
  rw [Nat.zero_add] at hparse
  obtain rfl : read = line := Option.some.inj (hread.symm.trans hline)
  exact ⟨_, hsource, hparse⟩

/-- A file is read just if each of its lines is, into what they are read as. If it is not,
the fault is that of the first line that is not read, and it is located in this line. -/
theorem parse_line_by_line (text : Text) :
    ((∃ e, parse text = .error e) ↔ ∃ i line e, (Text.splitAt '\n' text)[i]? = some line ∧
      Line.parse line i = .error e) ∧
    (∀ e, parse text = .error e ↔ ∃ i line, (Text.splitAt '\n' text)[i]? = some line ∧
      Line.parse line i = .error e ∧ e.Locates line i ∧
      ∀ j < i, ∃ earlier read, (Text.splitAt '\n' text)[j]? = some earlier ∧
        Line.parse earlier j = .ok read) ∧
    ∀ p, parse text = .ok p ↔ p.lines.length = (Text.splitAt '\n' text).length ∧
      ∀ i line, (Text.splitAt '\n' text)[i]? = some line →
        ∃ read, p.lines[i]? = some read ∧ Line.parse line i = .ok read := by
  have herror {e : Error} : parse text = .error e ↔
      parseLines 0 (Text.splitAt '\n' text) = .error e := by
    rw [parse, bind_eq_error_iff]
    refine or_iff_left ?_
    rintro ⟨lines, -, h⟩
    cases h
  simp only [parse_eq_ok_iff, herror, parseLines_eq_ok_iff, parseLines_eq_error_iff, Nat.zero_add]
  refine ⟨⟨?_, ?_⟩, fun e => ⟨?_, ?_⟩, fun _ => trivial⟩
  · rintro ⟨e, i, line, hget, hparse, -⟩
    exact ⟨i, line, e, hget, hparse⟩
  -- If some line is not read then the file is not read, or else all its lines would be.
  · rintro ⟨i, line, e, hget, hparse⟩
    cases hlines : parseLines 0 (Text.splitAt '\n' text) with
    | error e =>
        obtain ⟨j, first, hfirst⟩ := parseLines_eq_error_iff.mp hlines
        exact ⟨e, j, first, by simpa only [Nat.zero_add] using hfirst⟩
    | ok lines =>
        obtain ⟨read, -, hread⟩ := (parseLines_eq_ok_iff.mp hlines).2 i line hget
        rw [Nat.zero_add, hparse] at hread
        cases hread
  · rintro ⟨i, line, hget, hparse, hbefore⟩
    exact ⟨i, line, hget, hparse, Line.locates_of_parse hparse, hbefore⟩
  · rintro ⟨i, line, hget, hparse, -, hbefore⟩
    exact ⟨i, line, hget, hparse, hbefore⟩

/-- The place of a fault in a definition is one on its line, behind what is not ASCII. -/
example : parse " nop\n#define A \"é\", B'12'".toList
    = .error (.lex ⟨2, 18, .strayIn '2' .numeric, "#define A \"é\", B'12'".toList⟩) := by
  decide +kernel

end Program

end PicAssembly
