/-!
# `PicAssembly.Text.Basic`: text as a list of characters

Every column in the library counts characters, so text is a list of them: a
column is a length, a slice is `drop` and `take`, and a statement about all
texts is an induction on a list.

This module holds the operations that know nothing about assembly: comparing
without regard to case, stripping a fixed beginning or end, cutting at a
separator, and cutting into lines.

* `dropFront?_eq_some_iff`: a text begins with `front` just if something is left
  after `front` is stripped. `dropBack?_eq_some_iff` says the same of its end.
* `join_splitAt` and `not_mem_of_mem_splitAt`: the pieces of a text are free of
  the separator, and joined by it they are the text again.
-/

set_option autoImplicit false

namespace PicAssembly

/-- A run of characters. -/
abbrev Text := List Char

namespace Text

/-- The ASCII letters in lower case, every other character as it is. -/
def asciiLower (t : Text) : Text := t.map Char.toLower

/-- Equality up to the case of ASCII letters. -/
def sameIgnoringCase (a b : Text) : Bool := asciiLower a == asciiLower b

/-- Whether the code point of a character lies in one of some ranges, given by
their first and last members. -/
def inRanges (ranges : List (Nat × Nat)) (c : Char) : Bool :=
  ranges.any fun range => range.1 ≤ c.toNat && c.toNat ≤ range.2

/-- What follows `front` in a text that begins with it. -/
def dropFront? : (front t : Text) → Option Text
  | [], t => some t
  | _ :: _, [] => none
  | f :: fs, c :: cs => if f = c then dropFront? fs cs else none

/-- A text loses its beginning just if it begins so, and what is left is the rest. -/
theorem dropFront?_eq_some_iff {front t rest : Text} :
    dropFront? front t = some rest ↔ t = front ++ rest := by
  induction front generalizing t with
  | nil => simp [dropFront?]
  | cons f fs ih =>
    cases t with
    | nil => simp [dropFront?]
    | cons c cs =>
      by_cases h : f = c
      · subst h
        simp [dropFront?, ih]
      · simp [dropFront?, h, Ne.symm h]

/-- What precedes `back` in a text that ends with it. -/
def dropBack? (back t : Text) : Option Text :=
  (dropFront? back.reverse t.reverse).map List.reverse

/-- A text loses its end just if it ends so, and what is left is the rest. -/
theorem dropBack?_eq_some_iff {back t rest : Text} :
    dropBack? back t = some rest ↔ t = rest ++ back := by
  rw [dropBack?, Option.map_eq_some_iff]
  constructor
  · rintro ⟨reversed, h, rfl⟩
    rw [← List.reverse_inj, dropFront?_eq_some_iff.mp h]
    simp
  · rintro rfl
    exact ⟨rest.reverse, dropFront?_eq_some_iff.mpr List.reverse_append, List.reverse_reverse rest⟩

/-- Cuts a text at every `sep`. There is always one piece more than there are
separators, so the empty text is one empty piece. -/
def splitAt (sep : Char) : Text → List Text
  | [] => [[]]
  | c :: cs =>
    if c = sep then [] :: splitAt sep cs
    else match splitAt sep cs with
      | [] => [[c]]
      | piece :: pieces => (c :: piece) :: pieces

/-- The pieces with `sep` between neighbours. -/
def join (sep : Text) (pieces : List Text) : Text := sep.intercalate pieces

/-- A text has at least one piece, the empty text one that is empty. -/
theorem splitAt_ne_nil (sep : Char) (t : Text) : splitAt sep t ≠ [] := by
  cases t with
  | nil => simp [splitAt]
  | cons c cs =>
    rw [splitAt]
    split
    · simp
    · split <;> simp

/-- The pieces joined at the separator are the text again: nothing is lost and nothing is added. -/
theorem join_splitAt (sep : Char) (t : Text) : join [sep] (splitAt sep t) = t := by
  induction t with
  | nil => rfl
  | cons c cs ih =>
    obtain ⟨piece, pieces, h⟩ := List.exists_cons_of_ne_nil (splitAt_ne_nil sep cs)
    rw [h] at ih
    rw [splitAt, h]
    split
    · next hc =>
      -- The separator itself: an empty piece comes first, and joining puts it back.
      subst hc
      rw [← ih]
      rfl
    · rw [← ih]
      cases pieces <;> rfl

/-- No piece holds the separator. -/
theorem not_mem_of_mem_splitAt {sep : Char} {t piece : Text} (h : piece ∈ splitAt sep t) :
    sep ∉ piece := by
  induction t generalizing piece with
  | nil => simp_all [splitAt]
  | cons c cs ih =>
    rw [splitAt] at h
    split at h
    · rcases List.mem_cons.mp h with rfl | h
      · simp
      · exact ih h
    · next hc =>
      split at h
      · next hs => exact absurd hs (splitAt_ne_nil sep cs)
      · next first rest hs =>
        rcases List.mem_cons.mp h with rfl | h
        · have := ih (hs ▸ List.mem_cons_self : first ∈ splitAt sep cs)
          simp [this, Ne.symm hc]
        · exact ih (hs ▸ List.mem_cons_of_mem _ h)

/-- Cuts a text at the last `sep`, which neither side keeps. -/
def splitAtLast? (sep : Char) (t : Text) : Option (Text × Text) :=
  let after := t.reverse.takeWhile (· != sep)
  match t.reverse.drop after.length with
  | [] => none
  | _ :: before => some (before.reverse, after.reverse)

/-- The pieces of a text that a line feed ended, each without the carriage
return before that line feed, and the last piece if it is not empty. -/
def lines (t : Text) : List Text :=
  let pieces := splitAt '\n' t
  let ended := pieces.dropLast.map fun piece => (dropBack? ['\r'] piece).getD piece
  match pieces.getLast? with
  | none | some [] => ended
  | some rest => ended ++ [rest]

/-- Whether `part` occurs somewhere in the text. -/
def contains (part : Text) : Text → Bool
  | [] => part.isEmpty
  | c :: cs => part.isPrefixOf (c :: cs) || contains part cs

end Text

end PicAssembly
