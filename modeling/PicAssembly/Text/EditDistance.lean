import PicAssembly.Text.Basic

/-!
# `PicAssembly.Text.EditDistance`: how far apart two spellings are

The distance is the least number of characters to insert, delete or replace to
turn one text into the other. It is computed row by row: the row of a text `b`
against `a` holds the distance of every initial part of `a` to `b`, and one more
character of `b` gives the next row from the last.

Two rows are kept. The next row is written over the one before the last, and
then they change places.
-/

set_option autoImplicit false

namespace PicAssembly.EditDistance

/-- The last row, and the one before it, which is there to be written over. -/
structure Rows where
  last : List Nat
  spare : List Nat
  deriving DecidableEq, Repr

/-- Writes the rest of the row for one more character `c`. `left` is the entry
just written and `diagonal` the entry above it; the lists are the characters of
`a` still to come, the entries above them, and the entries to be written over. -/
def rowFrom (c : Char) (left diagonal : Nat) : Text → List Nat → List Nat → List Nat
  | x :: xs, above :: row, _ :: old =>
    let here := min (min (above + 1) (left + 1)) (diagonal + if x = c then 0 else 1)
    here :: rowFrom c here above xs row old
  | _, _, old => old

namespace Rows

/-- The row of the empty text: an initial part is as far away as it is long. -/
def first (a : Text) : Rows :=
  ⟨List.range (a.length + 1), List.replicate (a.length + 1) 0⟩

/-- The rows after one more character `c`, which `count` others came before. -/
def next (a : Text) (rows : Rows) (c : Char) (count : Nat) : Rows :=
  match rows.last, rows.spare with
  | diagonal :: above, _ :: old =>
    ⟨(count + 1) :: rowFrom c (count + 1) diagonal a above old, rows.last⟩
  | _, _ => rows

end Rows

/-- The distance between two texts: the last entry of the last row. -/
def distance (a b : Text) : Nat :=
  (b.zipIdx.foldl (fun rows next => rows.next a next.1 next.2) (Rows.first a)).last.getD a.length 0

end PicAssembly.EditDistance
