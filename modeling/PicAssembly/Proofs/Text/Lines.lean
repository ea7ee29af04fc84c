import PicAssembly.Proofs.Text.Edges

/-!
# `PicAssembly.Proofs.Text.Lines`: texts and their lines

`IsLines ls t` says what the lines of a text are, with both line ends and with or without one at
the end of the text. `lines` finds these (`isLines_lines`) and no others (`lines_eq_of_isLines`).

A file of lines is written with a line feed behind each, and `lines` gives them back
(`lines_flatMap`) unless one ends in a carriage return, which would be taken for a part of the
line end.
-/

set_option autoImplicit false

namespace PicAssembly.Text

/-- A piece has no characters that are not in the text. -/
theorem subset_of_mem_splitAt {sep : Char} {t piece : Text} (h : piece ∈ splitAt sep t) :
    piece ⊆ t := by
  induction t generalizing piece with
  | nil =>
      rw [List.mem_singleton.mp h]
      exact List.nil_subset []
  | cons c cs ih =>
      rw [splitAt] at h
      split at h
      · rcases List.mem_cons.mp h with rfl | h
        · exact List.nil_subset _
        · exact List.subset_cons_of_subset c (ih h)
      · split at h
        · next hnil => exact absurd hnil (splitAt_ne_nil sep cs)
        · next first rest hpieces =>
          rcases List.mem_cons.mp h with rfl | h
          · exact List.cons_subset_cons c (ih (hpieces ▸ List.mem_cons_self))
          · exact List.subset_cons_of_subset c (ih (hpieces ▸ List.mem_cons_of_mem first h))

/-- A text that ends in another character does not lose its end. -/
theorem dropBack?_eq_none {c : Char} {t : Text} (h : t.getLast? ≠ some c) :
    dropBack? [c] t = none := by
  refine Option.eq_none_iff_forall_ne_some.mpr fun rest hrest => h ?_
  rw [dropBack?_eq_some_iff.mp hrest, List.getLast?_concat]

/-- The text is made of the lines. Each is ended by a line feed, or by a carriage return and a line
feed; the last one may have no end if it is not empty. -/
inductive IsLines : List Text → Text → Prop where
  | nil : IsLines [] []
  | last {line : Text} : line ≠ [] → '\n' ∉ line → IsLines [line] line
  | lf {line t : Text} {ls : List Text} : '\n' ∉ line → line.getLast? ≠ some '\r' → IsLines ls t →
      IsLines (line :: ls) (line ++ '\n' :: t)
  | crlf {line t : Text} {ls : List Text} : '\n' ∉ line → IsLines ls t →
      IsLines (line :: ls) (line ++ '\r' :: '\n' :: t)

/-- A text without line feeds is one line, or none if it is empty. -/
theorem lines_of_not_mem {t : Text} (h : '\n' ∉ t) : lines t = if t = [] then [] else [t] := by
  rw [lines, splitAt_of_not_mem h]
  cases t with
  | nil => rfl
  | cons c cs => rfl

/-- The first line ends at the first line feed. -/
theorem lines_append {line : Text} (h : '\n' ∉ line) (t : Text) :
    lines (line ++ '\n' :: t) = (dropBack? ['\r'] line).getD line :: lines t := by
  rw [lines, lines, splitAt_append h]
  obtain ⟨piece, pieces, hpieces⟩ := List.exists_cons_of_ne_nil (splitAt_ne_nil '\n' t)
  rw [hpieces, List.dropLast_cons_cons, List.getLast?_cons_cons, List.map_cons]
  split
  · rfl
  · rfl
  · rw [List.cons_append]

/-- The lines of a text are lines it is made of. -/
theorem isLines_lines (t : Text) : IsLines (lines t) t := by
  -- What stands behind a line feed is shorter than the text.
  induction hlength : t.length using Nat.strongRecOn generalizing t with
  | ind length ih =>
    by_cases hmem : '\n' ∈ t
    · obtain ⟨line, rest, rfl, hline⟩ := List.eq_append_cons_of_mem hmem
      have hrest : IsLines (lines rest) rest := by
        refine ih rest.length ?_ rest rfl
        rw [← hlength, List.length_append, List.length_cons]
        omega
      rw [lines_append hline]
      cases hdrop : dropBack? ['\r'] line with
      | none =>
          refine .lf hline (fun hlast => ?_) hrest
          obtain ⟨kept, rfl⟩ := List.getLast?_eq_some_iff.mp hlast
          rw [dropBack?_eq_some_iff.mpr rfl] at hdrop
          cases hdrop
      | some kept =>
          rw [dropBack?_eq_some_iff.mp hdrop] at hline ⊢
          rw [List.append_assoc]
          exact .crlf (fun h => hline (List.mem_append_left _ h)) hrest
    · rw [lines_of_not_mem hmem]
      split
      · next hnil =>
        rw [hnil]
        exact .nil
      · next hne => exact .last hne hmem

/-- A text is made of no other lines than its own, so the two conditions on lines are the same. -/
theorem lines_eq_of_isLines {ls : List Text} {t : Text} (h : IsLines ls t) : lines t = ls := by
  induction h with
  | nil => rfl
  | last hne hmem => rw [lines_of_not_mem hmem, if_neg hne]
  | lf hmem hlast _ ih => rw [lines_append hmem, dropBack?_eq_none hlast, ih, Option.getD_none]
  | @crlf line t ls hmem _ ih =>
      have hmem' : '\n' ∉ line ++ ['\r'] := by simpa using hmem
      rw [← List.singleton_append, ← List.append_assoc, lines_append hmem',
        dropBack?_eq_some_iff.mpr rfl, ih, Option.getD_some]

/-- A line has no line feed. -/
theorem IsLines.not_mem {ls : List Text} {t line : Text} (h : IsLines ls t) (hline : line ∈ ls) :
    '\n' ∉ line := by
  induction h with
  | nil => cases hline
  | last _ hmem => exact List.mem_singleton.mp hline ▸ hmem
  | lf hmem _ _ ih =>
      rcases List.mem_cons.mp hline with rfl | hline
      · exact hmem
      · exact ih hline
  | crlf hmem _ ih =>
      rcases List.mem_cons.mp hline with rfl | hline
      · exact hmem
      · exact ih hline

/-- No line holds a line feed. -/
theorem not_mem_of_mem_lines {t line : Text} (h : line ∈ lines t) : '\n' ∉ line :=
  (isLines_lines t).not_mem h

/-- Lines that are written out with line feeds are the lines of what is written. A carriage return
at the end of one would be taken for a part of its line end. -/
theorem isLines_flatMap {ts : List Text} (h : ∀ t ∈ ts, '\n' ∉ t ∧ t.getLast? ≠ some '\r') :
    IsLines ts (ts.flatMap (· ++ ['\n'])) := by
  induction ts with
  | nil => exact .nil
  | cons t ts ih =>
      obtain ⟨⟨hmem, hlast⟩, hts⟩ := List.forall_mem_cons.mp h
      rw [List.flatMap_cons, List.append_assoc]
      exact .lf hmem hlast (ih hts)

/-- What is written with a line feed behind each is read as lines. -/
theorem lines_flatMap {ts : List Text} (h : ∀ t ∈ ts, '\n' ∉ t ∧ t.getLast? ≠ some '\r') :
    lines (ts.flatMap (· ++ ['\n'])) = ts :=
  lines_eq_of_isLines (isLines_flatMap h)

end PicAssembly.Text
