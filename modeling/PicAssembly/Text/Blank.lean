import PicAssembly.Text.Basic

/-!
# `PicAssembly.Text.Blank`: the blank characters

Two classes of blank meet in a source line. The scanner skips space, tab,
carriage return and line feed (`Token.Scan`). Comments, directive words and
mapping files are trimmed of every character with the Unicode property
White_Space, which is `isBlank` here.

* `isBlank_of_isWhitespace`: the property covers the four ASCII blanks that
  core's `Char.isWhitespace` knows.
-/

set_option autoImplicit false

namespace PicAssembly.Text

/-- The ranges of the Unicode property White_Space, first and last code point. -/
def blankRanges : List (Nat × Nat) :=
  [(0x09, 0x0D), (0x20, 0x20), (0x85, 0x85), (0xA0, 0xA0), (0x1680, 0x1680), (0x2000, 0x200A),
   (0x2028, 0x2029), (0x202F, 0x202F), (0x205F, 0x205F), (0x3000, 0x3000)]

/-- Whether a character has the Unicode property White_Space. -/
def isBlank (c : Char) : Bool := inRanges blankRanges c

/-- The text without its leading blanks. -/
def trimStart (t : Text) : Text := t.dropWhile isBlank

/-- The text without its trailing blanks. -/
def trimEnd (t : Text) : Text := (t.reverse.dropWhile isBlank).reverse

/-- The text without blanks at either end. -/
def trim (t : Text) : Text := trimEnd (trimStart t)

/-- The blanks of ASCII are among the blanks. -/
theorem isBlank_of_isWhitespace {c : Char} (h : c.isWhitespace) : isBlank c := by
  simp only [Char.isWhitespace, Bool.or_eq_true, decide_eq_true_eq] at h
  rcases h with ((rfl | rfl) | rfl) | rfl <;> decide

end PicAssembly.Text
