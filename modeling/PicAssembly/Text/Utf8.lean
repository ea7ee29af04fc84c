import PicAssembly.Text.Basic

/-!
# `PicAssembly.Text.Utf8`: bytes and text

Files hold bytes. `encode` writes text as UTF-8. `decode?` reads well-formed
UTF-8 and refuses anything else. `decodeLossy` reads any bytes: a part that
cannot be continued to a character becomes one replacement character, where a
part is as long as it can be (the practice that the Unicode standard calls
substitution of maximal subparts).
-/

set_option autoImplicit false

namespace PicAssembly

/-- The content of a file. -/
abbrev Bytes := List UInt8

namespace Utf8

/-- The UTF-8 form of a text. -/
def encode (t : Text) : Bytes := t.flatMap String.utf8EncodeChar

/-- The character that stands for a part that cannot be read. -/
def replacement : Char := '\uFFFD'

/-- The bytes that may follow a first byte, as ranges of the second byte and a
count of further bytes in `0x80` to `0xBF`, with the bits the first byte gives.
A second byte is narrower after some first bytes: this is what keeps out
overlong forms, surrogates and values past the last code point. -/
structure Lead where
  bits : Nat
  secondFrom : Nat
  secondTo : Nat
  further : Nat

/-- What a first byte above `0x7F` announces. -/
def lead? (b : Nat) : Option Lead :=
  if 0xC2 ≤ b ∧ b ≤ 0xDF then some ⟨b - 0xC0, 0x80, 0xBF, 0⟩
  else if b = 0xE0 then some ⟨0, 0xA0, 0xBF, 1⟩
  else if b = 0xED then some ⟨0xD, 0x80, 0x9F, 1⟩
  else if 0xE1 ≤ b ∧ b ≤ 0xEF then some ⟨b - 0xE0, 0x80, 0xBF, 1⟩
  else if b = 0xF0 then some ⟨0, 0x90, 0xBF, 2⟩
  else if 0xF1 ≤ b ∧ b ≤ 0xF3 then some ⟨b - 0xF0, 0x80, 0xBF, 2⟩
  else if b = 0xF4 then some ⟨4, 0x80, 0x8F, 2⟩
  else none

/-- Reads up to `count` continuation bytes. Gives the value so far, how many
bytes were missing, and the bytes that follow. -/
def continuation (value : Nat) : Nat → Bytes → Nat × Nat × Bytes
  | 0, rest => (value, 0, rest)
  | count + 1, [] => (value, count + 1, [])
  | count + 1, b :: rest =>
    if 0x80 ≤ b.toNat ∧ b.toNat ≤ 0xBF then
      continuation (value * 64 + (b.toNat - 0x80)) count rest
    else (value, count + 1, b :: rest)

/-- The first character of a sequence of bytes, or `none` for a part that cannot
be read, and the bytes after it. -/
def step (first : UInt8) (rest : Bytes) : Option Char × Bytes :=
  if first.toNat < 0x80 then (some (Char.ofNat first.toNat), rest)
  else match lead? first.toNat, rest with
    | some lead, second :: more =>
      if lead.secondFrom ≤ second.toNat ∧ second.toNat ≤ lead.secondTo then
        match continuation (lead.bits * 64 + (second.toNat - 0x80)) lead.further more with
        | (value, 0, after) => (some (Char.ofNat value), after)
        | (_, _ + 1, after) => (none, after)
      else (none, rest)
    | _, _ => (none, rest)

/-- The characters and unreadable parts of a sequence of bytes, in order. The
first argument bounds the number of steps; a step takes at least one byte. -/
def steps : Nat → Bytes → List (Option Char)
  | 0, _ => []
  | _ + 1, [] => []
  | n + 1, b :: rest =>
    let (c, after) := step b rest
    c :: steps n after

/-- The text that bytes spell, every unreadable part as `replacement`. -/
def decodeLossy (bytes : Bytes) : Text :=
  (steps bytes.length bytes).map (·.getD replacement)

/-- The text that bytes spell, if every part can be read. -/
def decode? (bytes : Bytes) : Option Text :=
  (steps bytes.length bytes).mapM id

end Utf8

end PicAssembly
