import PicAssembly.Text.Blank
import PicAssembly.Text.Numeral
import PicAssembly.Text.Pattern

/-!
# `PicAssembly.PairFile`: lines of the form `key=value`

Mapping files hold one pair on a line. Both sides are trimmed, neither may be
empty, and there is exactly one equals sign. A blank line is skipped. Any other
line is malformed: it gives no pair and is reported.
-/

set_option autoImplicit false

namespace PicAssembly

/-- A line of input that was skipped, with its number counted from one. -/
structure SkippedLine where
  line : Nat
  text : Text
  deriving DecidableEq, Repr

namespace SkippedLine

/-- What is said about the line, which was to hold a `what`. -/
def message (what : Text) (skipped : SkippedLine) : Text :=
  "ignoring malformed ".toList ++ what ++ " on line ".toList ++ Numeral.decimal skipped.line ++
    ": `".toList ++ Text.trim skipped.text ++ ['`']

end SkippedLine

namespace PairFile

/-- One side of a pair, with blanks around it. It is captured as short as what
stands behind it allows, so without the blanks at its end. -/
def side : Pattern :=
  .both (.many Text.isBlank) <|
  .both (.group (.both (.one fun c => c != '=' && !Text.isBlank c) (.few (· != '=')))) <|
  .many Text.isBlank

/-- A line with a pair. -/
def pattern : Pattern := .both side (.both (.one (· == '=')) (.both side .finish))

/-- The pair on a line that is well formed. -/
def pair? (line : Text) : Option (Text × Text) :=
  match pattern.captures? line with
  | some [key, value] => some (key, value)
  | _ => none

/-- The pairs on some lines, the first of which has this number, and the
malformed lines among them. -/
def parseLines : (number : Nat) → List Text → List (Text × Text) × List SkippedLine
  | _, [] => ([], [])
  | number, line :: lines =>
    let (pairs, skipped) := parseLines (number + 1) lines
    if (Text.trim line).isEmpty then (pairs, skipped)
    else match pair? line with
      | some pair => (pair :: pairs, skipped)
      | none => (pairs, ⟨number, line⟩ :: skipped)

/-- The pairs in a text, in order, and its malformed lines. -/
def parse (text : Text) : List (Text × Text) × List SkippedLine :=
  parseLines 1 (Text.lines text)

end PairFile

end PicAssembly
