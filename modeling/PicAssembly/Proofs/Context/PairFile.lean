import PicAssembly.Proofs.Context.PairPattern
import PicAssembly.Proofs.Text.Lines

/-!
# `PicAssembly.Proofs.Context.PairFile`: files of pairs that are read as they were written

A pair is written as a line `key=value`. If both sides have the form that a reader gives them
(`PairFile.IsPart`), it is read as the same pair: `PairFile.parse_render_pairs`.
-/

set_option autoImplicit false

namespace PicAssembly

namespace PairFile

/-- The form of a key or a value that was read. -/
structure IsPart (t : Text) : Prop where
  ne_nil : t ≠ []
  trimmed : Text.Trimmed t
  noEquals : '=' ∉ t
  noLineFeed : '\n' ∉ t

instance (t : Text) : Decidable (IsPart t) :=
  decidable_of_iff (t ≠ [] ∧ Text.Trimmed t ∧ '=' ∉ t ∧ '\n' ∉ t)
    ⟨fun h => ⟨h.1, h.2.1, h.2.2.1, h.2.2.2⟩,
      fun h => ⟨h.ne_nil, h.trimmed, h.noEquals, h.noLineFeed⟩⟩

/-- A pair on a line. -/
def line (pair : Text × Text) : Text := pair.1 ++ '=' :: pair.2

/-- Pairs, each on a line of its own. -/
def render (pairs : List (Text × Text)) : Text := pairs.flatMap fun pair => line pair ++ ['\n']

variable {key value : Text} {pairs : List (Text × Text)}

/-- The pair on a line is read back. -/
theorem pair?_line (hkey : IsPart key) (hvalue : IsPart value) :
    pair? (line (key, value)) = some (key, value) := by
  have hpair := IsPair.sides hkey.noEquals hvalue.noEquals
  rw [Text.trim_eq_self hkey.trimmed, Text.trim_eq_self hvalue.trimmed] at hpair
  exact pair?_eq_some_iff.mpr (hpair hkey.ne_nil hvalue.ne_nil)

/-- A line with a pair has no blanks at its ends, since neither of its sides has. -/
theorem trimmed_line (hkey : IsPart key) (hvalue : IsPart value) :
    Text.Trimmed (line (key, value)) := by
  obtain ⟨c, cs, rfl⟩ := List.exists_cons_of_ne_nil hkey.ne_nil
  have hline : line (c :: cs, value) = (c :: cs ++ ['=']) ++ value := by simp [line]
  exact ⟨hkey.trimmed.head, hline ▸ hvalue.trimmed.solid.append hvalue.ne_nil _⟩

/-- A line with a pair is no blank one, so it is not skipped. -/
theorem trim_line_isEmpty (hkey : IsPart key) (hvalue : IsPart value) :
    (Text.trim (line (key, value))).isEmpty = false := by
  rw [Text.trim_eq_self (trimmed_line hkey hvalue), line]
  simp

/-- The lines of pairs are read as the pairs, and none is skipped. -/
theorem parseLines_map_line (number : Nat) (h : ∀ pair ∈ pairs, IsPart pair.1 ∧ IsPart pair.2) :
    parseLines number (pairs.map line) = (pairs, []) := by
  induction pairs generalizing number with
  | nil => rfl
  | cons pair pairs ih =>
      obtain ⟨⟨hkey, hvalue⟩, hpairs⟩ := List.forall_mem_cons.mp h
      rw [List.map_cons, parseLines, ih (number + 1) hpairs]
      dsimp only
      rw [trim_line_isEmpty hkey hvalue, pair?_line hkey hvalue]
      rfl

/-- Pairs are read as they were written. -/
theorem parse_render_pairs (h : ∀ pair ∈ pairs, IsPart pair.1 ∧ IsPart pair.2) :
    parse (render pairs) = (pairs, []) := by
  have hlines : Text.lines (render pairs) = pairs.map line := by
    have hrender : render pairs = (pairs.map line).flatMap (· ++ ['\n']) :=
      (List.flatMap_map line (· ++ ['\n']) pairs).symm
    rw [hrender]
    refine Text.lines_flatMap (List.forall_mem_map.mpr fun pair hpair => ?_)
    obtain ⟨hkey, hvalue⟩ := h pair hpair
    refine ⟨?_, fun hlast => ?_⟩
    · simp [line, hkey.noLineFeed, hvalue.noLineFeed]
    · have hblank := (trimmed_line hkey hvalue).solid _ hlast
      exact absurd hblank (by decide)
  rw [parse, hlines, parseLines_map_line 1 h]

end PairFile

end PicAssembly
