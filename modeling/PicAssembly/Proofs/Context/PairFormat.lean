import PicAssembly.Proofs.Context.PairFile

/-!
# `PicAssembly.Proofs.Context.PairFormat`: what a file of pairs holds

`PairFile.Reads` is the format, line by line: a blank line holds nothing, a line with one equals
sign and more than blanks on both sides holds a pair, and any other line is malformed and is
reported with its number. The parser gives what the format says and nothing else
(`PairFile.parseLines_eq_iff`).

* `PairFile.parse_eq_iff_reads`: the same for texts, whose lines may have both line ends; and
  pairs that are written on lines are read as they were written.
-/

set_option autoImplicit false

namespace PicAssembly

namespace PairFile

/-- The line has no characters but blanks. -/
def IsBlank (line : Text) : Prop := ∀ c ∈ line, Text.isBlank c

/-- The pairs that lines hold, the first of which has this number, and the malformed lines. -/
inductive Reads : Nat → List Text → List (Text × Text) → List SkippedLine → Prop where
  | nil {number : Nat} : Reads number [] [] []
  | blank {number : Nat} {line : Text} {lines : List Text} {pairs : List (Text × Text)}
      {skipped : List SkippedLine} : IsBlank line → Reads (number + 1) lines pairs skipped →
      Reads number (line :: lines) pairs skipped
  | pair {number : Nat} {line : Text} {lines : List Text} {pair : Text × Text}
      {pairs : List (Text × Text)} {skipped : List SkippedLine} : IsPair line pair →
      Reads (number + 1) lines pairs skipped → Reads number (line :: lines) (pair :: pairs) skipped
  | malformed {number : Nat} {line : Text} {lines : List Text} {pairs : List (Text × Text)}
      {skipped : List SkippedLine} : ¬ IsBlank line → (∀ pair, ¬ IsPair line pair) →
      Reads (number + 1) lines pairs skipped →
      Reads number (line :: lines) pairs (⟨number, line⟩ :: skipped)

section

variable {number : Nat} {line : Text} {lines : List Text} {pair : Text × Text}
  {pairs : List (Text × Text)} {skipped : List SkippedLine}

/-- A line is skipped as a blank one just if it has no characters but blanks. -/
theorem isBlank_iff : (Text.trim line).isEmpty ↔ IsBlank line := by
  rw [List.isEmpty_iff, Text.trim_eq_nil_iff]
  rfl

/-- The equals sign is no blank. -/
theorem IsPair.not_isBlank (h : IsPair line pair) : ¬ IsBlank line := by
  cases h with
  | sides _ _ _ _ =>
      intro hblank
      have hequals := hblank '=' (List.mem_append_right _ List.mem_cons_self)
      exact absurd hequals (by decide)

/-- One step of the parser, by what the line holds. -/
theorem parseLines_cons (number : Nat) (line : Text) (lines : List Text) :
    parseLines number (line :: lines) =
      if (Text.trim line).isEmpty then parseLines (number + 1) lines
      else match pair? line with
        | some pair =>
          (pair :: (parseLines (number + 1) lines).1, (parseLines (number + 1) lines).2)
        | none =>
          ((parseLines (number + 1) lines).1,
            ⟨number, line⟩ :: (parseLines (number + 1) lines).2) := rfl

/-- What the program makes of lines is what they hold. -/
theorem reads_parseLines (number : Nat) (lines : List Text) :
    Reads number lines (parseLines number lines).1 (parseLines number lines).2 := by
  induction lines generalizing number with
  | nil => exact .nil
  | cons line lines ih =>
      have hrest := ih (number + 1)
      rw [parseLines_cons]
      split
      · next hblank => exact .blank (isBlank_iff.mp hblank) hrest
      · next hblank =>
        split
        · next pair hpair => exact .pair (pair?_eq_some_iff.mp hpair) hrest
        · next hnone =>
          refine .malformed (fun h => hblank (isBlank_iff.mpr h)) (fun pair hpair => ?_) hrest
          rw [pair?_eq_some_iff.mpr hpair] at hnone
          cases hnone

/-- Lines hold no other pairs than the program reads, and no other lines are malformed. -/
theorem Reads.parseLines_eq (h : Reads number lines pairs skipped) :
    parseLines number lines = (pairs, skipped) := by
  induction h with
  | nil => rfl
  | blank hblank _ ih => rw [parseLines_cons, if_pos (isBlank_iff.mpr hblank), ih]
  | pair hpair _ ih =>
      have hblank := mt isBlank_iff.mp hpair.not_isBlank
      rw [parseLines_cons, if_neg hblank, pair?_eq_some_iff.mpr hpair, ih]
  | malformed hblank hnone _ ih =>
      have hpair : pair? _ = none := Option.eq_none_iff_forall_ne_some.mpr fun pair hpair =>
        hnone pair (pair?_eq_some_iff.mp hpair)
      rw [parseLines_cons, if_neg (mt isBlank_iff.mp hblank), hpair, ih]

/-- The program and the relation say the same of every list of lines. -/
theorem parseLines_eq_iff :
    parseLines number lines = (pairs, skipped) ↔ Reads number lines pairs skipped := by
  refine ⟨fun h => ?_, Reads.parseLines_eq⟩
  have hreads := reads_parseLines number lines
  rw [h] at hreads
  exact hreads

end

/-- A text is read as the format says, line by line. Pairs that are written on lines are read as
they were written, if their parts have the form of parts and whichever line ends they have. -/
theorem parse_eq_iff_reads (text : Text) :
    (∀ pairs skipped, parse text = (pairs, skipped) ↔
      ∃ lines, Text.IsLines lines text ∧ Reads 1 lines pairs skipped) ∧
    ∀ pairs, (∀ pair ∈ pairs, IsPart pair.1 ∧ IsPart pair.2) →
      Text.IsLines (pairs.map line) text → parse text = (pairs, []) := by
  refine ⟨fun pairs skipped => ?_, fun pairs hparts hlines => ?_⟩
  · rw [parse, parseLines_eq_iff]
    constructor
    · intro h
      exact ⟨Text.lines text, Text.isLines_lines text, h⟩
    · rintro ⟨lines, hlines, h⟩
      rw [Text.lines_eq_of_isLines hlines]
      exact h
  · rw [parse, Text.lines_eq_of_isLines hlines, parseLines_map_line 1 hparts]

/-- A file with all kinds of lines, and one with both line ends. -/
theorem parse_eq_iff_reads_mixed :
    let mixed := "STATUS.Z = ZERO\n\n  bad line\nA=B=C\n=x\nFSR1=FSR1L  \r\n".toList
    let written := "STATUS.Z=ZERO\r\nFSR1=FSR1L".toList
    let pairs := [("STATUS.Z".toList, "ZERO".toList), ("FSR1".toList, "FSR1L".toList)]
    (∃ lines, Text.IsLines lines mixed ∧ Reads 1 lines pairs
      [⟨3, "  bad line".toList⟩, ⟨4, "A=B=C".toList⟩, ⟨5, "=x".toList⟩]) ∧
    Text.IsLines (pairs.map line) written ∧ parse written = (pairs, []) := by
  intro mixed written pairs
  have hlines : Text.IsLines (pairs.map line) written :=
    .crlf (by decide) (.last (by decide) (by decide))
  refine ⟨((parse_eq_iff_reads mixed).1 _ _).mp (by decide +kernel), hlines,
    (parse_eq_iff_reads written).2 pairs ?_ hlines⟩
  show ∀ pair ∈ pairs, IsPart pair.1 ∧ IsPart pair.2
  decide

end PairFile

end PicAssembly
