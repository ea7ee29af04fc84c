import PicAssembly.Operand.Parser
import PicAssembly.Proofs.Text.Numerals

/-!
# `PicAssembly.Proofs.Operand.Decoding`: the value of a number token

The reader of a number works in 64 bits and gives up as soon as a digit does not fit.
`Operand.decode` says what the number is worth without that limit, and `Cursor.number_eq` that the
reader gives up just if this does not fit.
-/

set_option autoImplicit false

namespace PicAssembly

namespace Operand

/-- The code of a character fits. -/
theorem lt_limit_of_numberForm {literal : Text} {value : Nat}
    (h : numberForm literal = .code value) : value < Numeral.limit := by
  have hcode (digits : Text) : (digits.head?.map Char.toNat).getD 0 < Numeral.limit := by
    cases digits with
    | nil => decide
    | cons c cs =>
        have hchar : c.toNat < 2 ^ 32 := c.val.toNat_lt
        exact Nat.lt_trans hchar (by decide)
  unfold numberForm at h
  split at h
  · split at h
    · -- Only behind the letter A a character is meant.
      dsimp only at h
      split at h
      · cases h
        exact hcode _
      all_goals cases h
    · cases h
  all_goals cases h

/-- A number is decoded just if it fits. -/
theorem decode?_eq (literal : Text) :
    decode? literal
      = if (decode literal).2 < Numeral.limit then some (decode literal) else none := by
  rw [decode?, decode]
  cases hform : numberForm literal with
  | code value => exact (if_pos (lt_limit_of_numberForm hform)).symm
  | digits radix run =>
      show (Numeral.leadingWord? radix.base run).map (radix, ·)
        = if Numeral.leadingValue radix.base run < Numeral.limit
          then some (radix, Numeral.leadingValue radix.base run) else none
      rw [Numeral.leadingWord?_eq]
      split
      · rfl
      · rfl

end Operand

/-- A number token is text if it opens with a quote. Any other is a number if it fits. -/
theorem Cursor.number_eq (c : Cursor) (token : Token) :
    c.number token =
      if token.text.head? = some '\'' then .ok (.string token.text)
      else if (Operand.decode token.text).2 < Numeral.limit then
        .ok (.number (Operand.decode token.text).2 (Operand.decode token.text).1 token.text)
      else .error (c.errorAt token (.numberTooLarge token.text)) := by
  rw [number, Operand.decode?_eq]
  by_cases hfits : (Operand.decode token.text).2 < Numeral.limit
  · rw [if_pos hfits, if_pos hfits]
  · rw [if_neg hfits, if_neg hfits]

/-- A number token is an operand by itself. -/
theorem Cursor.primary_eq_number (inner : InnerReader) {c : Cursor} (hk : c.kind = .number) :
    c.primary inner = (c.consume.number (c.peek 0)).map fun operand => (operand, c.consume) := by
  have hpeek : (c.peek 0).kind = .number := hk
  have hnone : Operand.prefixOp? (c.peek 0) = none := by
    unfold Operand.prefixOp?
    rw [hpeek]
  simp only [primary, hnone, hpeek]
  rfl

/-- What is made of a number token that is not text. -/
theorem Cursor.primary_number (inner : InnerReader) {c : Cursor} (hk : c.kind = .number)
    (hquote : (c.peek 0).text.head? ≠ some '\'') :
    c.primary inner =
      if (Operand.decode (c.peek 0).text).2 < Numeral.limit then
        .ok (.number (Operand.decode (c.peek 0).text).2 (Operand.decode (c.peek 0).text).1
          (c.peek 0).text, c.consume)
      else .error (c.error (.numberTooLarge (c.peek 0).text)) := by
  rw [primary_eq_number inner hk, number_eq, if_neg hquote]
  split
  · rfl
  · rfl

end PicAssembly
