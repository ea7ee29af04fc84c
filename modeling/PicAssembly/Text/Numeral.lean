import PicAssembly.Text.Basic

/-!
# `PicAssembly.Text.Numeral`: reading and writing magnitudes

Magnitudes are natural numbers. `value` reads a run of digits in a base from
two to sixteen, `write` spells a magnitude with the fewest digits, letters in
upper case. `limit` is the first magnitude that no longer fits in a word of 64
bits; the readers of literals and of records refuse it and everything above.
`leadingWord?` never leaves such a word: it gives up at the digit that would.
-/

set_option autoImplicit false

namespace PicAssembly.Numeral

/-- The first magnitude that does not fit in 64 bits. -/
def limit : Nat := 0x1_0000_0000_0000_0000

/-- The value of a digit in either letter case, if the base has that digit. -/
def digit? (base : Nat) (c : Char) : Option Nat :=
  let digit :=
    if '0' ≤ c ∧ c ≤ '9' then some (c.toNat - '0'.toNat)
    else if 'a' ≤ c ∧ c ≤ 'f' then some (c.toNat - 'a'.toNat + 10)
    else if 'A' ≤ c ∧ c ≤ 'F' then some (c.toNat - 'A'.toNat + 10)
    else none
  digit.filter (· < base)

/-- The positional value of the leading digits of a text. It ends at the first
character that is no digit of the base, and is zero if that is the first. -/
def leadingValue (base : Nat) (t : Text) : Nat :=
  go 0 t
where
  go (soFar : Nat) : Text → Nat
    | [] => soFar
    | c :: cs =>
      match digit? base c with
      | some d => go (soFar * base + d) cs
      | none => soFar

/-- The magnitude, if it fits in 64 bits. -/
def word? (n : Nat) : Option Nat := if n < limit then some n else none

/-- The magnitude with a digit put behind it, if it fits in 64 bits before and after the
digit is added. -/
def pushDigit? (base n d : Nat) : Option Nat := (word? (n * base)).bind fun m => word? (m + d)

/-- The positional value of the leading digits of a text, unless it grows out of 64
bits at one of them. -/
def leadingWord? (base : Nat) (t : Text) : Option Nat :=
  go 0 t
where
  go (soFar : Nat) : Text → Option Nat
    | [] => some soFar
    | c :: cs =>
      match digit? base c with
      | some d => (pushDigit? base soFar d).bind (go · cs)
      | none => some soFar

/-- The magnitude that a whole text spells: an optional `+`, then at least one
digit and nothing else, below `limit`. -/
def parse? (base : Nat) (t : Text) : Option Nat :=
  let digits := (Text.dropFront? ['+'] t).getD t
  if digits.isEmpty || digits.any (fun c => (digit? base c).isNone) then none
  else (some (leadingValue base digits)).filter (· < limit)

/-- The shortest spelling of a magnitude, with upper-case letters. -/
def write (base : Nat) (n : Nat) : Text := (Nat.toDigits base n).map Char.toUpper

/-- The shortest decimal spelling of a magnitude. -/
def decimal (n : Nat) : Text := Nat.toDigits 10 n

end PicAssembly.Numeral
