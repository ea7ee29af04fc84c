import Mathlib.Data.List.Induction
import PicAssembly.Proofs.Text.Edits

/-!
# `PicAssembly.Proofs.Text.EditDistance`: the table of distances

`Rows.Holds a b rows` is the invariant of the table: the last row holds the distances of all
initial parts of `a` to `b`, and the spare row is as long, whatever stands in it. Each entry is
written from three that are right already (`rowFrom_behind`), so that one more character keeps
the invariant (`Rows.Holds.next`) and all characters of a text do (`holds_foldl`).

* `isLeast_distance`: the distance is the least number of edits from one text to the other. So it
  is zero for equal texts only, the same in both directions, and no longer over a third text.
-/

set_option autoImplicit false

namespace PicAssembly.EditDistance

/-- The entries behind the one of the initial part `before`. -/
def behind (before : Text) : Text → Text → List Nat
  | [], _ => []
  | x :: after, b => fewest (before ++ [x]) b :: behind (before ++ [x]) after b

/-- The distances of the initial parts of `a` to `b`, beginning with the empty part. -/
def row (a b : Text) : List Nat := fewest [] b :: behind [] a b

/-- There is one entry for each character behind the initial part. -/
theorem length_behind (before after b : Text) : (behind before after b).length = after.length := by
  induction after generalizing before with
  | nil => rfl
  | cons x after ih => rw [behind, List.length_cons, List.length_cons, ih]

/-- The last entry of a row is for the whole of the text. It is read with a default, since the
program reads it so, and the default is not needed. -/
theorem getD_row (before after b : Text) :
    (fewest before b :: behind before after b).getD after.length 0
      = fewest (before ++ after) b := by
  induction after generalizing before with
  | nil => rw [List.append_nil, List.length_nil, List.getD_cons_zero]
  | cons x after ih =>
      rw [List.length_cons, List.getD_cons_succ, behind, ih, List.append_assoc,
        List.singleton_append]

/-- What was in the spare row does not matter, only its length. -/
theorem rowFrom_behind (c : Char) (before after b : Text) (old : List Nat)
    (hold : old.length = after.length) :
    rowFrom c (fewest before (b ++ [c])) (fewest before b) after (behind before after b) old
      = behind before after (b ++ [c]) := by
  induction after generalizing before old with
  | nil =>
      rw [List.length_nil] at hold
      rw [List.eq_nil_of_length_eq_zero hold]
      rfl
  | cons x after ih =>
      cases old with
      | nil => cases hold
      | cons stale old =>
          have hlength : old.length = after.length := Nat.succ.inj hold
          -- The three entries beside the new one are those that the recursion asks for.
          rw [behind, rowFrom, ← fewest_concat, ih _ _ hlength, behind]

namespace Rows

/-- The last row is the one of `b`, and the spare row is as long. -/
structure Holds (a b : Text) (rows : Rows) : Prop where
  last : rows.last = row a b
  spare : rows.spare.length = a.length + 1

variable {a b : Text} {rows : Rows}

/-- The row the program begins with is the row of the empty text: every initial part is deleted. -/
theorem holds_first (a : Text) : Holds a [] (first a) := by
  -- Every character of the first text is deleted, one more for each place.
  have hbehind (before after : Text) : behind before after []
      = (List.range after.length).map (before.length + 1 + ·) := by
    induction after generalizing before with
    | nil => rfl
    | cons x after ih =>
        rw [behind, ih, fewest_nil_right, List.length_cons, List.range_succ_eq_map, List.map_cons,
          List.map_map, List.length_append, List.length_singleton]
        congr 1
        exact List.map_congr_left fun i _ => by
          show before.length + 1 + 1 + i = before.length + 1 + (i + 1)
          omega
  refine ⟨?_, ?_⟩
  · show List.range (a.length + 1) = fewest [] [] :: behind [] a []
    rw [hbehind, fewest_nil_left, List.range_succ_eq_map]
    congr 1
    exact List.map_congr_left fun i _ => by
      show i + 1 = 0 + 1 + i
      omega
  · show (List.replicate (a.length + 1) 0).length = a.length + 1
    rw [List.length_replicate]

/-- One more character keeps the invariant. The rows have changed places. -/
theorem Holds.next (h : Holds a b rows) (c : Char) :
    Holds a (b ++ [c]) (rows.next a c b.length) := by
  obtain ⟨last, spare⟩ := rows
  obtain ⟨hlast, hspare⟩ := h
  subst hlast
  cases spare with
  | nil => cases hspare
  | cons stale old =>
      have hlength : old.length = a.length := Nat.succ.inj hspare
      refine ⟨?_, ?_⟩
      · show (b.length + 1) :: rowFrom c (b.length + 1) (fewest [] b) a (behind [] a b) old
          = fewest [] (b ++ [c]) :: behind [] a (b ++ [c])
        have hfirst : b.length + 1 = fewest [] (b ++ [c]) := by
          rw [fewest_nil_left, List.length_append, List.length_singleton]
        rw [hfirst, rowFrom_behind c [] a b old hlength]
      · show (fewest [] b :: behind [] a b).length = a.length + 1
        rw [List.length_cons, length_behind]

/-- After all characters of a text the last row is the one of the text. -/
theorem holds_foldl (a b : Text) :
    Holds a b (b.zipIdx.foldl (fun rows next => rows.next a next.1 next.2) (first a)) := by
  -- The row of `b` comes from the row of its initial parts, so the induction is from the end.
  induction b using List.reverseRecOn with
  | nil => exact holds_first a
  | append_singleton b c ih =>
      rw [List.zipIdx_append, List.foldl_append]
      show Holds a (b ++ [c]) (Rows.next a _ c (0 + b.length))
      rw [Nat.zero_add]
      exact ih.next c

end Rows

/-- The program with two rows computes what the recursion on the texts says. -/
theorem distance_eq_fewest (a b : Text) : distance a b = fewest a b := by
  show (Rows.last _).getD a.length 0 = fewest a b
  rw [(Rows.holds_foldl a b).last]
  exact getD_row [] a b

/-- The distance is the least number of characters to insert, delete or substitute, one after
another, on the way from one text to the other. -/
theorem isLeast_distance (a b : Text) :
    IsLeast {n | Edits n a b} (distance a b) ∧
    (distance a b = 0 ↔ a = b) ∧
    distance a b = distance b a ∧
    ∀ c, distance a c ≤ distance a b + distance b c := by
  have hleast (a b : Text) : IsLeast {n | Edits n a b} (distance a b) := by
    rw [distance_eq_fewest]
    exact isLeast_fewest a b
  refine ⟨hleast a b, ⟨fun h => ?_, fun h => ?_⟩, ?_, fun c => ?_⟩
  · have hedits : Edits (distance a b) a b := (hleast a b).1
    rw [h] at hedits
    exact hedits.eq_of_zero
  · subst h
    exact Nat.le_zero.mp ((hleast a a).2 (.none a))
  -- A way there is a way back, and two ways in a row are a way.
  · exact Nat.le_antisymm ((hleast a b).2 (hleast b a).1.symm) ((hleast b a).2 (hleast a b).1.symm)
  · exact (hleast a c).2 ((hleast a b).1.trans (hleast b c).1)

example : distance "kitten".toList "sitting".toList = 3 := by decide +kernel

end PicAssembly.EditDistance
