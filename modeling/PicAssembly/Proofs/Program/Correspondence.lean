import PicAssembly.Outcome
import PicAssembly.Program.Walk

/-!
# `PicAssembly.Proofs.Program.Correspondence`: lines and what has become of them

An edit puts a block of lines in the place of each line: most often one line, and sometimes
two. `Corresponds R before after` says that `after` is such blocks in a row, and that each
line and its block stand in the relation `R`. It says so of the whole program: no line is
lost, none comes from nowhere, and their order stays.

Edits follow each other, and `Corresponds.trans` composes the relations: `Via R S` relates a
line to the blocks that stand for the lines that stand for it. If a relation is reflexive and
transitive in this sense, it holds over any number of edits (`Corresponds.trans_of`).
-/

set_option autoImplicit false

namespace PicAssembly

/-- What a line may become. -/
abbrev BlockRelation := Line → List Line → Prop

/-- The lines `after` are blocks in a row, one for each of the lines `before`, and each line
and its block stand in the relation `R`. -/
inductive Corresponds (R : BlockRelation) : List Line → List Line → Prop where
  | nil : Corresponds R [] []
  | cons {line : Line} {block before after : List Line} (h : R line block)
      (rest : Corresponds R before after) : Corresponds R (line :: before) (block ++ after)

/-- Every line has become one line, which stands in the relation `P` to it. -/
def OneLine (P : Line → Line → Prop) : BlockRelation :=
  fun line block => ∃ line', block = [line'] ∧ P line line'

/-- The line has become `middle`, and the lines of `middle` have become `block`. -/
def Via (R S : BlockRelation) : BlockRelation :=
  fun line block => ∃ middle, R line middle ∧ Corresponds S middle block

namespace Corresponds

variable {R S : BlockRelation} {before middle after : List Line}

/-- What becomes of every line may be told in a weaker relation. -/
theorem mono (h : Corresponds R before after) (hRS : ∀ line block, R line block → S line block) :
    Corresponds S before after := by
  induction h with
  | nil => exact .nil
  | cons h _ ih => exact .cons (hRS _ _ h) ih

/-- What follows for the lines that there are, follows for all of them. -/
theorem mono_of_mem (h : Corresponds R before after)
    (hRS : ∀ line ∈ before, ∀ block, R line block → S line block) :
    Corresponds S before after := by
  induction h with
  | nil => exact .nil
  | cons h _ ih =>
      obtain ⟨hline, hbefore⟩ := List.forall_mem_cons.mp hRS
      exact .cons (hline _ h) (ih hbefore)

/-- A line for a line. -/
theorem cons_one {line line' : Line} (h : R line [line']) (rest : Corresponds R before after) :
    Corresponds R (line :: before) (line' :: after) :=
  .cons h rest

/-- The block of a single line is all there is. -/
@[simp] theorem singleton_iff {line : Line} {block : List Line} :
    Corresponds R [line] block ↔ R line block := by
  constructor
  · intro h
    cases h with
    | cons h rest =>
        cases rest
        rwa [List.append_nil]
  · intro h
    simpa using Corresponds.cons h .nil

/-- Lines behind one another become their blocks behind one another. -/
theorem append {before' after' : List Line} (h : Corresponds R before after)
    (h' : Corresponds R before' after') : Corresponds R (before ++ before') (after ++ after') := by
  induction h with
  | nil => exact h'
  | cons h _ ih =>
      rw [List.cons_append, List.append_assoc]
      exact .cons h ih

/-- The lines of a beginning have become a beginning. -/
theorem exists_of_append {before' : List Line} (h : Corresponds R (before ++ before') after) :
    ∃ front back, after = front ++ back ∧ Corresponds R before front ∧
      Corresponds R before' back := by
  induction before generalizing after with
  | nil => exact ⟨[], after, rfl, .nil, h⟩
  | cons line before ih =>
      cases h with
      | cons h rest =>
          obtain ⟨front, back, rfl, hfront, hback⟩ := ih rest
          exact ⟨_ ++ front, back, (List.append_assoc ..).symm, .cons h hfront, hback⟩

/-- One correspondence after another. -/
theorem trans (h : Corresponds R before middle) (h' : Corresponds S middle after) :
    Corresponds (Via R S) before after := by
  induction h generalizing after with
  | nil =>
      cases h'
      exact .nil
  | cons h _ ih =>
      obtain ⟨front, back, rfl, hfront, hback⟩ := exists_of_append h'
      exact .cons ⟨_, h, hfront⟩ (ih hback)

/-- If the relation is transitive over blocks, two edits in a row are as good as one. Taken again
and again this gives any number of edits. -/
theorem trans_of (hR : ∀ line block, Via R R line block → R line block)
    (h : Corresponds R before middle) (h' : Corresponds R middle after) :
    Corresponds R before after :=
  (h.trans h').mono hR

/-- Lines that are changed all together. -/
theorem of_flatMap {f : Line → List Line} (h : ∀ line ∈ before, R line (f line)) :
    Corresponds R before (before.flatMap f) := by
  induction before with
  | nil => exact .nil
  | cons line before ih =>
      obtain ⟨hline, hbefore⟩ := List.forall_mem_cons.mp h
      rw [List.flatMap_cons]
      exact .cons hline (ih hbefore)

/-- Lines that are changed one by one. -/
theorem of_map {f : Line → Line} (h : ∀ line ∈ before, R line [f line]) :
    Corresponds R before (before.map f) := by
  rw [List.map_eq_flatMap]
  exact of_flatMap h

/-- Lines that have each become what a function says are changed one by one. -/
theorem eq_map {f : Line → Line}
    (h : Corresponds (OneLine fun line line' => line' = f line) before after) :
    after = before.map f := by
  induction h with
  | nil => rfl
  | cons h _ ih =>
      obtain ⟨_, rfl, rfl⟩ := h
      rw [ih, List.map_cons, List.singleton_append]

/-- Lines that stay as they are. -/
theorem refl (h : ∀ line, R line [line]) (lines : List Line) : Corresponds R lines lines := by
  have hmap : Corresponds R lines (lines.map id) := of_map fun line _ => h line
  rwa [List.map_id] at hmap

/-- Every line comes from one of the lines that there were. -/
theorem exists_of_mem {line : Line} (h : Corresponds R before after) (hline : line ∈ after) :
    ∃ origin ∈ before, ∃ block, R origin block ∧ line ∈ block := by
  induction h with
  | nil => simp at hline
  | cons h _ ih =>
      rcases List.mem_append.mp hline with hline | hline
      · exact ⟨_, List.mem_cons_self, _, h, hline⟩
      · obtain ⟨origin, horigin, block, hblock⟩ := ih hline
        exact ⟨origin, List.mem_cons_of_mem _ horigin, block, hblock⟩

end Corresponds

/-- A line for a line, and again a line for that. -/
theorem OneLine.of_via {P Q : Line → Line → Prop} {line : Line} {block : List Line}
    (h : Via (OneLine P) (OneLine Q) line block) :
    ∃ middle line', block = [line'] ∧ P line middle ∧ Q middle line' := by
  obtain ⟨_, ⟨middle, rfl, hP⟩, hrest⟩ := h
  obtain ⟨line', rfl, hQ⟩ := Corresponds.singleton_iff.mp hrest
  exact ⟨middle, line', rfl, hP, hQ⟩

/-- A change of lines up to a fault relates what the change of one line does. -/
theorem Outcome.corresponds_forEach {R : BlockRelation} {change : Line → Outcome Line}
    (hrefl : ∀ line, R line [line]) (h : ∀ line, R line [(change line).result])
    (lines : List Line) : Corresponds R lines (forEach change lines).result := by
  induction lines with
  | nil => exact .nil
  | cons line lines ih =>
      have hline := h line
      rw [forEach]
      rcases hchange : change line with ⟨line', fault | e⟩
      · rw [hchange] at hline
        exact .cons hline ih
      · rw [hchange] at hline
        exact .cons hline (.refl hrefl lines)

/-- No fault stops a change of a list if none stops the change of a member. -/
theorem Outcome.fault_forEach_eq_none_iff {α : Type} {change : α → Outcome α} {xs : List α} :
    (forEach change xs).fault = none ↔ ∀ x ∈ xs, (change x).fault = none := by
  induction xs with
  | nil => simp [forEach]
  | cons x xs ih =>
      rw [forEach, List.forall_mem_cons]
      rcases change x with ⟨y, fault | e⟩
      · exact ih.trans (and_iff_right rfl).symm
      · exact iff_of_false (by simp) (by simp)

/-- A change of lines that comes to its end has changed every line. -/
theorem Outcome.corresponds_of_forEach {change : Line → Outcome Line} {lines lines' : List Line}
    (h : forEach change lines = done lines') :
    Corresponds (OneLine fun line line' => change line = done line') lines lines' := by
  induction lines generalizing lines' with
  | nil =>
      cases h
      exact .nil
  | cons line lines ih =>
      rw [forEach] at h
      rcases hchange : change line with ⟨line', fault | e⟩
      · rw [hchange] at h
        obtain ⟨rfl, hfault⟩ := eq_done_iff.mp h
        exact .cons_one ⟨line', rfl, hchange⟩ (ih (eq_done_iff.mpr ⟨rfl, hfault⟩))
      · rw [hchange] at h
        cases h

end PicAssembly
