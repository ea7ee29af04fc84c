import Mathlib.Order.Bounds.Basic
import PicAssembly.Text.EditDistance

/-!
# `PicAssembly.Proofs.Text.Edits`: turning one text into another, character by character

`OneEdit a b` says that `b` is `a` with one character inserted, deleted or substituted, at any
place. `Edits n a b` says that `n` such edits in a row lead from `a` to `b`.

`fewest a b` computes how many are needed at least, by recursion on the first characters.

* `isLeast_fewest`: it is the least number of edits. Enough are found along the recursion
  (`edits_fewest`), and one edit changes `fewest` by one at most (`OneEdit.fewest_le`).
* `fewest_concat`: the same recursion on the last characters, which is how a table is filled that
  has a row for each initial part of `b`. Edits can be read from either end (`Edits.reverse`).
-/

set_option autoImplicit false

namespace PicAssembly.EditDistance

/-- A character is inserted, deleted, or substituted by another. -/
inductive OneEdit : Text → Text → Prop where
  | insertion (before after : Text) (c : Char) : OneEdit (before ++ after) (before ++ c :: after)
  | deletion (before after : Text) (c : Char) : OneEdit (before ++ c :: after) (before ++ after)
  | substitution (before after : Text) (c d : Char) :
      OneEdit (before ++ c :: after) (before ++ d :: after)

/-- Edits in a row, as many as the number says. -/
inductive Edits : Nat → Text → Text → Prop where
  | none (a : Text) : Edits 0 a a
  | more {n : Nat} {a b c : Text} : OneEdit a b → Edits n b c → Edits (n + 1) a c

variable {a b c : Text} {m n : Nat}

/-! ### Edits under a common beginning, backwards, and one after another -/

/-- An edit stays one under a common first character. -/
theorem OneEdit.cons (x : Char) (h : OneEdit a b) : OneEdit (x :: a) (x :: b) := by
  cases h with
  | insertion before after c => exact .insertion (x :: before) after c
  | deletion before after c => exact .deletion (x :: before) after c
  | substitution before after c d => exact .substitution (x :: before) after c d

/-- An edit can be undone by an edit: an insertion by a deletion, and a substitution by another. -/
theorem OneEdit.symm (h : OneEdit a b) : OneEdit b a := by
  cases h with
  | insertion before after c => exact .deletion before after c
  | deletion before after c => exact .insertion before after c
  | substitution before after c d => exact .substitution before after d c

/-- Read backwards, an edit is an edit. -/
theorem OneEdit.reverse (h : OneEdit a b) : OneEdit a.reverse b.reverse := by
  cases h with
  | insertion before after c =>
      simpa using OneEdit.insertion after.reverse before.reverse c
  | deletion before after c =>
      simpa using OneEdit.deletion after.reverse before.reverse c
  | substitution before after c d =>
      simpa using OneEdit.substitution after.reverse before.reverse c d

namespace Edits

/-- A row of edits stays one under a common first character. -/
theorem cons (x : Char) (h : Edits n a b) : Edits n (x :: a) (x :: b) := by
  induction h with
  | none a => exact .none (x :: a)
  | more hedit _ ih => exact .more (hedit.cons x) ih

/-- Two rows of edits, one after the other, are as many edits as both together. -/
theorem trans (hab : Edits m a b) (hbc : Edits n b c) : Edits (m + n) a c := by
  induction hab with
  | none a =>
      rw [Nat.zero_add]
      exact hbc
  | @more k a a' b hedit _ ih =>
      rw [show k + 1 + n = k + n + 1 by omega]
      exact .more hedit (ih hbc)

/-- A row of edits can be undone by as many. -/
theorem symm (h : Edits n a b) : Edits n b a := by
  induction h with
  | none a => exact .none a
  | more hedit _ ih => exact ih.trans (.more hedit.symm (.none _))

/-- Read backwards, a row of edits is one of as many. -/
theorem reverse (h : Edits n a b) : Edits n a.reverse b.reverse := by
  induction h with
  | none a => exact .none a.reverse
  | more hedit _ ih => exact .more hedit.reverse ih

/-- Of two numbers of edits, the smaller one is a number of edits. -/
theorem min (h : Edits m a b) (h' : Edits n a b) : Edits (min m n) a b := by
  rw [Nat.min_def]
  split
  · exact h
  · exact h'

/-- Without edits the text stays as it is. -/
theorem eq_of_zero (h : Edits 0 a b) : a = b := by
  cases h
  rfl

end Edits

/-! ### How many are needed -/

/-- The number of edits needed, by recursion on the first characters: the second text's is
inserted, the first text's deleted, or the one stands for the other. -/
def fewest : Text → Text → Nat
  | [], b => b.length
  | a, [] => a.length
  | x :: a, y :: b =>
    min (min (fewest (x :: a) b + 1) (fewest a (y :: b) + 1)) (fewest a b + if x = y then 0 else 1)
termination_by a b => a.length + b.length

/-- From the empty text every character is inserted. -/
theorem fewest_nil_left (b : Text) : fewest [] b = b.length := by
  rw [fewest]

/-- To the empty text every character is deleted. -/
theorem fewest_nil_right (a : Text) : fewest a [] = a.length := by
  cases a with
  | nil => rw [fewest_nil_left]
  | cons x a =>
      rw [fewest]
      exact List.cons_ne_nil x a

/-- The last edit at the beginning of two texts is an insertion, a deletion or a substitution, which
costs nothing if the characters are the same. This is the recurrence that rows are filled by. -/
theorem fewest_cons_cons (x y : Char) (a b : Text) :
    fewest (x :: a) (y :: b) =
      min (min (fewest (x :: a) b + 1) (fewest a (y :: b) + 1))
        (fewest a b + if x = y then 0 else 1) := by
  rw [fewest]

/-- A text needs no edits to become itself. -/
theorem fewest_self (a : Text) : fewest a a = 0 := by
  induction a with
  | nil => rw [fewest_nil_left, List.length_nil]
  | cons x a ih =>
      rw [fewest_cons_cons, ih, if_pos rfl]
      omega

/-- The edits are found along the recursion. -/
theorem edits_fewest (a b : Text) : Edits (fewest a b) a b := by
  induction a generalizing b with
  | nil =>
      rw [fewest_nil_left]
      induction b with
      | nil => exact .none []
      | cons y b ih => exact .more (.insertion [] [] y) (ih.cons y)
  | cons x a iha =>
      induction b with
      | nil =>
          have h := iha []
          rw [fewest_nil_right] at h ⊢
          exact .more (.deletion [] a x) h
      | cons y b ihb =>
          -- Three ways begin here, and `fewest` takes the number of the shortest.
          have hinsert : Edits (fewest (x :: a) b + 1) (x :: a) (y :: b) :=
            .more (.insertion [] (x :: a) y) (ihb.cons y)
          have hdelete : Edits (fewest a (y :: b) + 1) (x :: a) (y :: b) :=
            .more (.deletion [] a x) (iha (y :: b))
          have hreplace : Edits (fewest a b + if x = y then 0 else 1) (x :: a) (y :: b) := by
            split
            · next h => exact h ▸ (iha b).cons x
            · exact .more (.substitution [] a x y) ((iha b).cons y)
          rw [fewest_cons_cons]
          exact (hinsert.min hdelete).min hreplace

/-! ### No fewer will do -/

/-- One more character in the second text costs one more edit at most: it can be inserted. -/
theorem fewest_cons_right_le (y : Char) (a b : Text) : fewest a (y :: b) ≤ fewest a b + 1 := by
  cases a with
  | nil => rw [fewest_nil_left, fewest_nil_left, List.length_cons]
  | cons x a =>
      rw [fewest_cons_cons]
      omega

/-- One more character in the first text costs one more edit at most: it can be deleted. -/
theorem fewest_cons_left_le (x : Char) (a b : Text) : fewest (x :: a) b ≤ fewest a b + 1 := by
  cases b with
  | nil => rw [fewest_nil_right, fewest_nil_right, List.length_cons]
  | cons y b =>
      rw [fewest_cons_cons]
      omega

/-- One character less in the first text costs one more edit at most. It is the step for a deletion
in `Edits.fewest_le`, and the converse of `fewest_cons_left_le`. -/
theorem fewest_le_cons_left (x : Char) (a b : Text) : fewest a b ≤ fewest (x :: a) b + 1 := by
  induction b with
  | nil =>
      rw [fewest_nil_right, fewest_nil_right, List.length_cons]
      omega
  | cons y b ih =>
      have hright := fewest_cons_right_le y a b
      rw [fewest_cons_cons]
      omega

/-- Another first character costs one more edit at most. It is the step for a substitution. -/
theorem fewest_substitution_le (x y : Char) (a b : Text) :
    fewest (x :: a) b ≤ fewest (y :: a) b + 1 := by
  induction b with
  | nil =>
      rw [fewest_nil_right, fewest_nil_right, List.length_cons, List.length_cons]
      omega
  | cons z b ih =>
      rw [fewest_cons_cons, fewest_cons_cons]
      split <;> split <;> omega

/-- Under a common beginning two texts are no further apart. -/
theorem fewest_append_le {a a' : Text} (h : ∀ b, fewest a b ≤ fewest a' b + 1) (before b : Text) :
    fewest (before ++ a) b ≤ fewest (before ++ a') b + 1 := by
  induction before generalizing b with
  | nil => exact h b
  | cons x before ih =>
      rw [List.cons_append, List.cons_append]
      induction b with
      | nil =>
          have := ih []
          rw [fewest_nil_right, fewest_nil_right] at this ⊢
          rw [List.length_cons, List.length_cons]
          omega
      | cons y b ihb =>
          have hskip := ih (y :: b)
          have hboth := ih b
          rw [fewest_cons_cons, fewest_cons_cons]
          omega

/-- One edit saves one edit at most. -/
theorem OneEdit.fewest_le {a' : Text} (h : OneEdit a a') (b : Text) :
    fewest a b ≤ fewest a' b + 1 := by
  cases h with
  | insertion before after c => exact fewest_append_le (fewest_le_cons_left c after) before b
  | deletion before after c => exact fewest_append_le (fewest_cons_left_le c after) before b
  | substitution before after c d =>
      exact fewest_append_le (fewest_substitution_le c d after) before b

/-- No row of edits is shorter than the recursion says: each edit changes its value by one at
most. -/
theorem Edits.fewest_le (h : Edits n a b) : fewest a b ≤ n := by
  induction h with
  | none a => rw [fewest_self]
  | more hedit _ ih =>
      have hone := hedit.fewest_le
      exact (hone _).trans (Nat.succ_le_succ ih)

/-- The recursion says the least number of edits. There are that many by its own choices, and no
fewer by `Edits.fewest_le`. -/
theorem isLeast_fewest (a b : Text) : IsLeast {n | Edits n a b} (fewest a b) :=
  ⟨edits_fewest a b, fun _ h => Edits.fewest_le h⟩

/-! ### From the other end -/

/-- It does not matter from which end the texts are read. -/
theorem fewest_reverse (a b : Text) : fewest a.reverse b.reverse = fewest a b := by
  have hle (a b : Text) : fewest a.reverse b.reverse ≤ fewest a b :=
    (edits_fewest a b).reverse.fewest_le
  have hge := hle a.reverse b.reverse
  rw [List.reverse_reverse, List.reverse_reverse] at hge
  exact Nat.le_antisymm (hle a b) hge

/-- The recurrence at the last characters, which is the one the rows of the program are filled
by. -/
theorem fewest_concat (x y : Char) (a b : Text) :
    fewest (a ++ [x]) (b ++ [y]) =
      min (min (fewest (a ++ [x]) b + 1) (fewest a (b ++ [y]) + 1))
        (fewest a b + if x = y then 0 else 1) := by
  rw [← fewest_reverse (a ++ [x]) (b ++ [y]), ← fewest_reverse (a ++ [x]) b,
    ← fewest_reverse a (b ++ [y]), ← fewest_reverse a b, List.reverse_concat, List.reverse_concat,
    fewest_cons_cons]

end PicAssembly.EditDistance
