import PicAssembly.Text.Basic
import PicAssembly.Text.CaseTable

/-!
# `PicAssembly.Text.CaseMap`: upper and lower case for every character

Full case conversion as the Unicode standard gives it, without the conditions on
language. A character may become several. A capital sigma at the end of a word
becomes the final form: one with a cased character somewhere before it and none
after it, where case-ignorable characters in between do not count.
-/

set_option autoImplicit false

namespace PicAssembly.Text

/-- The other case of a character, from a table of runs and one of longer forms. -/
def convert (runs : List CaseTable.Run) (long : List (Nat × List Nat)) (c : Char) : Text :=
  match CaseTable.other? runs c.toNat with
  | some n => [Char.ofNat n]
  | none =>
    match long.lookup c.toNat with
    | some ns => ns.map Char.ofNat
    | none => [c]

/-- Whether the first character that is not case-ignorable is cased. -/
def startsCased (t : Text) : Bool :=
  match t.dropWhile (inRanges CaseTable.ignorableRanges) with
  | [] => false
  | c :: _ => inRanges CaseTable.casedRanges c

/-- The lower case of a text whose earlier characters, last first, are `before`. -/
def lowerFrom (before : Text) : Text → Text
  | [] => []
  | c :: cs =>
    let here :=
      if c = 'Σ' then (if startsCased before && !startsCased cs then ['ς'] else ['σ'])
      else convert CaseTable.lowerRuns CaseTable.lowerLong c
    here ++ lowerFrom (c :: before) cs

/-- The text in lower case. -/
def lower (t : Text) : Text := lowerFrom [] t

/-- The text in upper case. -/
def upper (t : Text) : Text := t.flatMap (convert CaseTable.upperRuns CaseTable.upperLong)

end PicAssembly.Text
