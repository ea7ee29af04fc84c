import PicAssembly.Proofs.Operand.Decoding
import PicAssembly.Proofs.Operand.Lexemes

/-!
# `PicAssembly.Proofs.Operand.Numerals`: the numbers that digits are read as

Digits can be spelled as a number in three ways (`Operand.SpellsDigits`): in quotes behind a
letter for their radix, behind a point if they are decimal, and behind a zero if they are
hexadecimal. All digits count then. Any other number without quotes is worth its leading digits
only, behind a point or `0x` (`Operand.bareForm`).

In both cases the reader takes one token, decodes it and looks whether the value fits.
`Cursor.primary_number` says what it makes of such a token at any place of a line and
`Operand.parse_number` what it makes of a text that is just one token. The rest is about the forms
of tokens: digits of a radix are characters that the scanner takes into the token.

* `Operand.number_exact`: the value of every such number, or the complaint that it does not fit.
-/

set_option autoImplicit false

namespace PicAssembly

open Token (Spelled)

/-- The letter that stands before quoted digits of a radix. -/
def Radix.letter : Radix → Char
  | .hexadecimal => 'H'
  | .decimal => 'D'
  | .octal => 'O'
  | .binary => 'B'

/-! ### Digits as characters of tokens -/

namespace Numeral

/-- A digit of a radix stands in quotes behind the letter of the radix, and in a bare number. -/
theorem digit?_classes {radix : Radix} {c : Char} (hc : (digit? radix.base c).isSome) :
    Token.isQuotedDigit radix.letter c ∧ Token.isRunPart c := by
  have hall : ∀ n : Fin 128, (digit? radix.base (Char.ofNat n)).isSome →
      Token.isQuotedDigit radix.letter (Char.ofNat n) ∧ Token.isRunPart (Char.ofNat n) := by
    cases radix <;> decide +kernel
  exact Token.forall_ascii (P := fun c => (digit? radix.base c).isSome →
    Token.isQuotedDigit radix.letter c ∧ Token.isRunPart c) hall (toNat_lt_of_digit? hc) hc

/-- Decimal digits are no letters. -/
theorem isLower_of_digit?_decimal {c : Char} (hc : (digit? Radix.decimal.base c).isSome) :
    c.isLower = false := by
  have hall : ∀ n : Fin 128, (digit? Radix.decimal.base (Char.ofNat n)).isSome →
      (Char.ofNat n).isLower = false := by
    decide +kernel
  exact Token.forall_ascii (P := fun c => (digit? Radix.decimal.base c).isSome →
    c.isLower = false) hall (toNat_lt_of_digit? hc) hc

end Numeral

namespace Operand

/-! ### A number token by itself -/

/-- What should be made of a text that is a number of some value: the number as it is spelled, or
a complaint about its first column if the value does not fit in 64 bits. -/
def numberOutcome (radix : Radix) (value : Nat) (text : Text) : Except Error Operand :=
  if value < 2 ^ 64 then .ok (.number value radix text)
  else .error (.parse ⟨1, 0, .numberTooLarge text, text⟩)

/-- The tokens of a text that is just one token. -/
theorem cursor_of_spelled {k : Token.Kind} {text : Text} (h : Spelled k text) (hk : k ≠ .pound) :
    Cursor.ofScanner (Scanner.ofLine text 0)
      = .ok ⟨[⟨k, text, 0, 0⟩], ⟨.eof, [], 0, text.length⟩, text, 0⟩ := by
  have hnext : (Scanner.ofLine text 0).next = .ok (⟨k, text, 0, 0⟩,
      { Scanner.ofLine text 0 with column := 0 + text.length, fresh := false, rest := [] }) :=
    Scanner.next_of_spelled (l := ⟨k, text⟩) (List.append_nil text).symm h
      (Token.endsBefore_nil k text) (Or.inr hk)
  obtain ⟨steps, hsteps⟩ : ∃ steps, text.length = steps + 1 :=
    Nat.exists_eq_succ_of_ne_zero fun hlen => h.ne_nil (List.length_eq_zero_iff.mp hlen)
  have hrun : (Scanner.ofLine text 0).run
      = ([⟨k, text, 0, 0⟩], .ok ⟨.eof, [], 0, 0 + text.length⟩) := by
    rw [Scanner.run, show (Scanner.ofLine text 0).rest.length = steps + 1 from hsteps,
      Scanner.runFor_succ hnext h.kind_ne_eof, Scanner.runFor_of_rest_eq_nil rfl]
    rfl
  rw [Cursor.ofScanner, hrun, Nat.zero_add]
  rfl

/-- A text that is one number token is worth what the token is decoded as. -/
theorem parse_number {text : Text} (h : Spelled .number text)
    (hquote : text.head? ≠ some '\'') :
    parse text = numberOutcome (decode text).1 (decode text).2 text := by
  -- The cursor at the one token of the text.
  let c : Cursor := ⟨[⟨.number, text, 0, 0⟩], ⟨.eof, [], 0, text.length⟩, text, 0⟩
  have hread : c.expression 0
      = if (decode text).2 < Numeral.limit then
          .ok (.number (decode text).2 (decode text).1 text, c.consume)
        else .error (c.error (.numberTooLarge text)) := by
    show (c.primary _ >>= _) = _
    rw [Cursor.primary_number _ (c := c) rfl hquote]
    show ((if (decode text).2 < Numeral.limit then _ else _) >>= _) = _
    split
    · rfl
    · rfl
  rw [parse, cursor_of_spelled h (by decide)]
  show (((c.expression 0).mapError Error.parse) >>= _) = _
  rw [hread, numberOutcome, show Numeral.limit = 2 ^ 64 from rfl]
  split
  · rfl
  · rfl

/-! ### Digits in quotes, behind a point and behind a zero -/

/-- The spellings in which digits of a radix are written out as a number. -/
inductive SpellsDigits : Radix → Text → Text → Prop where
  /-- Such as `H'1f'`. The letter may be of either case. -/
  | quoted (radix : Radix) (digits : Text) {letter : Char}
      (h : letter.toUpper = radix.letter) :
      SpellsDigits radix digits (letter :: '\'' :: digits ++ ['\''])
  /-- Such as `.14`. -/
  | point (digits : Text) : SpellsDigits .decimal digits ('.' :: digits)
  /-- Such as `01F`. With a letter in lower case it might be the name of a device. -/
  | zero {digits : Text} (h : ∀ c ∈ digits, c.isLower = false) :
      SpellsDigits .hexadecimal digits ('0' :: digits)

/-- The letter for a radix opens a quoted number, in either case. -/
theorem isRadixLetter_of_toUpper {radix : Radix} {letter : Char}
    (h : letter.toUpper = radix.letter) : Token.isRadixLetter letter := by
  rw [Token.isRadixLetter, h]
  cases radix <;> decide

/-- The letter and the quotes around digits tell their radix, and only the digits are read. -/
theorem numberForm_quoted {radix : Radix} {digits : Text} {letter : Char}
    (h : letter.toUpper = radix.letter) (hne : digits ≠ []) :
    numberForm (letter :: '\'' :: digits ++ ['\'']) = .digits radix digits := by
  obtain ⟨d, ds, rfl⟩ := List.exists_cons_of_ne_nil hne
  have hcons : letter :: '\'' :: (d :: ds) ++ ['\''] = letter :: '\'' :: d :: (ds ++ ['\'']) := rfl
  have hlast : (d :: (ds ++ ['\''])).dropLast = d :: ds := by
    show (d :: ds ++ ['\'']).dropLast = d :: ds
    exact List.dropLast_concat
  rw [hcons, numberForm, if_pos (isRadixLetter_of_toUpper h)]
  simp only [h, hlast]
  cases radix with
  | hexadecimal => rfl
  | decimal => rfl
  | octal => rfl
  | binary => rfl

/-- A bare number without lower-case letters is no name of a device. -/
theorem spelled_run {first : Char} {rest : Text} (hfirst : first.isDigit || first == '.')
    (hrest : ∀ c ∈ rest, Token.isRunPart c) (hlower : ∀ c ∈ rest, c.isLower = false) :
    Spelled .number (first :: rest) := by
  have hkind : (Token.runExtent first rest).1 = .number := by
    have hnone : (rest.takeWhile Token.isRunPart).any Char.isLower = false := by
      rw [List.takeWhile_eq_self_iff.mpr hrest]
      exact List.any_eq_false.mpr fun c hc => Bool.eq_false_iff.mp (hlower c hc)
    simp [Token.runExtent, hnone]
  exact hkind ▸ Spelled.run hfirst hrest

/-- Each of the spellings is a number token. -/
theorem spelled_of_spellsDigits {radix : Radix} {digits text : Text}
    (h : SpellsDigits radix digits text) (hd : Numeral.IsDigits radix.base digits) :
    Spelled .number text := by
  cases h with
  | quoted _ _ hl =>
      have hcode : radix.letter ≠ 'A' := by cases radix <;> decide
      have hupper : radix.letter.toUpper = radix.letter := by cases radix <;> decide
      refine .quoted (isRadixLetter_of_toUpper hl) (hl ▸ hcode) fun c hc => ?_
      -- The letter counts by its upper case only.
      have hdigit := (Numeral.digit?_classes (hd c hc)).1
      simpa only [Token.isQuotedDigit, hl, hupper] using hdigit
  | point =>
      exact spelled_run (by decide) (fun c hc => (Numeral.digit?_classes (hd c hc)).2)
        fun c hc => Numeral.isLower_of_digit?_decimal (hd c hc)
  | zero hlower =>
      exact spelled_run (by decide) (fun c hc => (Numeral.digit?_classes (hd c hc)).2) hlower

/-- A letter for a radix is no quote. -/
theorem head_ne_quote_of_spellsDigits {radix : Radix} {digits text : Text}
    (h : SpellsDigits radix digits text) : text.head? ≠ some '\'' := by
  cases h with
  | quoted _ _ hl =>
      intro hhead
      have hletter := isRadixLetter_of_toUpper hl
      rw [Option.some.inj hhead] at hletter
      exact absurd hletter (by decide)
  | point => simp
  | zero _ => simp

/-! ### Numbers without quotes -/

/-- The radix of a number without quotes, and the text behind its point or `0x`. -/
def bareForm : Text → Radix × Text
  | '.' :: rest => (.decimal, rest)
  | '0' :: 'x' :: rest => (.hexadecimal, rest)
  | text => (.hexadecimal, text)

/-- Without quotes a number is told by its point or its `0x`, and otherwise hexadecimal. -/
theorem numberForm_bare {text : Text} (h : '\'' ∉ text) :
    numberForm text = .digits (bareForm text).1 (bareForm text).2 := by
  unfold numberForm
  split
  · exact absurd (by simp) h
  · rfl
  · rfl
  · next hpoint hmark =>
    unfold bareForm
    split
    · exact absurd rfl (hpoint _)
    · exact absurd rfl (hmark _)
    · rfl

/-- A number without quotes is worth its leading digits. -/
theorem decode_bare {text : Text} (h : '\'' ∉ text) :
    decode text = ((bareForm text).1, Numeral.positional (bareForm text).1.base
      (Numeral.leadingDigits (bareForm text).1.base (bareForm text).2)) := by
  rw [decode, numberForm_bare h]
  exact congrArg (Prod.mk _) (Numeral.leadingValue_eq _ _)

/-- What consists of digits has no quotes in it. -/
theorem quote_not_mem_of_isDigits {radix : Radix} {digits : Text}
    (hd : Numeral.IsDigits radix.base digits) : '\'' ∉ digits := by
  intro hmem
  have hrun : Token.isRunPart '\'' := (Numeral.digit?_classes (hd _ hmem)).2
  exact absurd hrun (by decide)

/-- The value of digits that are written out is that of all of them. -/
theorem decode_of_spellsDigits {radix : Radix} {digits text : Text}
    (h : SpellsDigits radix digits text) (hne : digits ≠ [])
    (hd : Numeral.IsDigits radix.base digits) :
    decode text = (radix, Numeral.positional radix.base digits) := by
  have hquote := quote_not_mem_of_isDigits hd
  cases h with
  | quoted _ _ hl =>
      rw [decode, numberForm_quoted hl hne]
      show (radix, Numeral.leadingValue radix.base digits) = _
      rw [Numeral.leadingValue_eq, Numeral.leadingDigits_eq_self hd]
  | point =>
      rw [decode_bare (by simpa using hquote)]
      show (Radix.decimal, Numeral.positional Radix.decimal.base
        (Numeral.leadingDigits Radix.decimal.base digits)) = _
      rw [Numeral.leadingDigits_eq_self hd]
  | zero hlower =>
      -- There is no digit that would make the zero part of a prefix.
      have hform : bareForm ('0' :: digits) = (.hexadecimal, '0' :: digits) := by
        obtain ⟨d, ds, rfl⟩ := List.exists_cons_of_ne_nil hne
        unfold bareForm
        split
        · next heq => cases heq
        · next heq =>
          cases heq
          exact absurd (hd 'x' List.mem_cons_self) (by decide)
        · rfl
      have hall : Numeral.IsDigits 16 ('0' :: digits) :=
        List.forall_mem_cons.mpr ⟨by decide, hd⟩
      rw [decode_bare (by simpa using hquote), hform]
      show (Radix.hexadecimal, Numeral.positional 16 (Numeral.leadingDigits 16 _)) = _
      rw [Numeral.leadingDigits_eq_self hall, Numeral.positional_zero_cons (by decide)]
      rfl

/-- Numbers are read exactly. Digits that are written out in one of the ways of `SpellsDigits` are
worth what they are worth by their places, however many there are. Any other number without
quotes is worth its leading digits behind a point or `0x`, as a text of its own and wherever its
token stands. Only if the value does not fit in 64 bits there is a complaint, about the first
column of the token. -/
theorem number_exact :
    (∀ (radix : Radix) (digits text : Text), digits ≠ [] →
      Numeral.IsDigits radix.base digits → SpellsDigits radix digits text →
      parse text = numberOutcome radix (Numeral.positional radix.base digits) text) ∧
    (∀ text : Text, Token.IsToken .number text → '\'' ∉ text →
      parse text = numberOutcome (bareForm text).1 (Numeral.positional (bareForm text).1.base
        (Numeral.leadingDigits (bareForm text).1.base (bareForm text).2)) text) ∧
    ∀ (inner : Cursor.InnerReader) (c : Cursor) (text : Text), c.kind = .number →
      (c.peek 0).text = text → '\'' ∉ text →
      let value := Numeral.positional (bareForm text).1.base
        (Numeral.leadingDigits (bareForm text).1.base (bareForm text).2)
      c.primary inner =
        if value < 2 ^ 64 then .ok (.number value (bareForm text).1 text, c.consume)
        else .error (c.error (.numberTooLarge text)) := by
  -- A text without quotes does not begin with one, so it is no character.
  have hunquoted {text : Text} (hquote : '\'' ∉ text) : text.head? ≠ some '\'' :=
    fun h => hquote (List.mem_of_mem_head? h)
  refine ⟨?_, ?_, ?_⟩
  · intro radix digits text hne hd hspells
    have hspelled : Spelled .number text := spelled_of_spellsDigits hspells hd
    have hhead : text.head? ≠ some '\'' := head_ne_quote_of_spellsDigits hspells
    rw [parse_number hspelled hhead, decode_of_spellsDigits hspells hne hd]
  · intro text htoken hquote
    have hspelled : Spelled .number text := spelled_of_isToken htoken (by decide)
    rw [parse_number hspelled (hunquoted hquote), decode_bare hquote]
  · intro inner c text hk htext hquote
    subst htext
    rw [Cursor.primary_number inner hk (hunquoted hquote), decode_bare hquote]
    rfl

/-- The three spellings on numbers that fit, and one that is larger than a word can hold. -/
theorem number_exact_hexadecimal :
    parse "h'1f'".toList = .ok (.number 31 .hexadecimal "h'1f'".toList) ∧
      parse "H'10000000000000000'".toList = .error (.parse ⟨1, 0,
        .numberTooLarge "H'10000000000000000'".toList, "H'10000000000000000'".toList⟩) ∧
      parse "0x2A".toList = .ok (.number 42 .hexadecimal "0x2A".toList) := by
  have htoken : Token.IsToken .number "0x2A".toList :=
    ⟨⟨.number, "0x2A".toList, 0, 0⟩, ⟨.eof, [], 0, 4⟩, by decide +kernel, rfl⟩
  refine ⟨?_, ?_, ?_⟩
  · exact number_exact.1 .hexadecimal "1f".toList _ (by decide) (by decide)
      (.quoted .hexadecimal _ (by decide))
  · exact number_exact.1 .hexadecimal "10000000000000000".toList _ (by decide) (by decide)
      (.quoted .hexadecimal _ (by decide))
  · exact number_exact.2.1 "0x2A".toList htoken (by decide)

end Operand

end PicAssembly
