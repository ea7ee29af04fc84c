import PicAssembly.Edit.Catalog
import PicAssembly.Proofs.Program.Correspondence

/-!
# `PicAssembly.Proofs.Edit.Running`: from one edit to a run of several

What one edit does to the lines of a program is `Edit.Respects`, and it is said also of an
edit that a fault stops. Over a run of edits there are two ways to go on:

* `Catalog.respects_runAll`: a relation that is reflexive and transitive, and that every edit
  respects, holds over the run, wherever the run stops.
* `Catalog.Turns.append`: runs that come to their end, each with a relation of its own, are
  composed by `Via`.

What no edit changes of a file, such as its directory, no run changes
(`Catalog.runAll_eq_of_keeps`).
-/

set_option autoImplicit false

namespace PicAssembly

namespace Edit

/-- The lines that the edit leaves stand in the relation `R` to those that it was given,
also where a fault stops it. -/
def Respects (context : Context) (R : BlockRelation) (edit : Edit) : Prop :=
  ∀ (file : SourceFile) (p : Program), file.program = some p →
    ∃ p', (edit.change context file).result.program = some p' ∧ Corresponds R p.lines p'.lines

variable {context : Context} {R : BlockRelation}

/-- An edit of programs respects what it does to each program. -/
theorem respects_ofProgram {name : Text} {change : Context → Program → Program}
    (h : ∀ p : Program, Corresponds R p.lines (change context p).lines) :
    (ofProgram name change).Respects context R := by
  intro file p hp
  exact ⟨change context p, by simp [ofProgram, SourceFile.mapProgram, hp], h p⟩

/-! Edits of one line after the other, up to a fault. -/

section

variable {edit : Edit} {change : Line → Outcome Line}
  (hedit : edit.change context = SourceFile.changeProgram (Program.changeLines change))

include hedit

/-- An edit that goes line by line leaves the lines up to the fault changed and the others as they
were. -/
theorem change_changeLines {file : SourceFile} {p : Program} (hp : file.program = some p) :
    edit.change context file
      = ⟨{ file with program := some ⟨(Outcome.forEach change p.lines).result⟩ },
        (Outcome.forEach change p.lines).fault⟩ := by
  rw [hedit, SourceFile.changeProgram, hp]
  rfl

/-- An edit that goes line by line respects what it does to each line. A line that a fault keeps it
from counts as left alone. -/
theorem respects_changeLines (hrefl : ∀ line, R line [line])
    (h : ∀ line, R line [(change line).result]) : edit.Respects context R := by
  intro file p hp
  rw [change_changeLines hedit hp]
  exact ⟨_, rfl, Outcome.corresponds_forEach hrefl h p.lines⟩

/-- An edit that goes line by line comes to its end just if no line stops it. -/
theorem fault_changeLines_eq_none_iff {file : SourceFile} {p : Program}
    (hp : file.program = some p) :
    (edit.change context file).fault = none ↔ ∀ line ∈ p.lines, (change line).fault = none := by
  rw [change_changeLines hedit hp]
  exact Outcome.fault_forEach_eq_none_iff

/-- An edit that comes to its end has changed every line. -/
theorem corresponds_of_changeLines {file file' : SourceFile} {p : Program}
    (hp : file.program = some p) (h : edit.change context file = .done file') :
    ∃ p', file' = { file with program := some p' } ∧
      Corresponds (OneLine fun line line' => change line = .done line') p.lines p'.lines := by
  rw [change_changeLines hedit hp] at h
  obtain ⟨rfl, hfault⟩ := Outcome.eq_done_iff.mp h
  exact ⟨_, rfl, Outcome.corresponds_of_forEach (Outcome.eq_done_iff.mpr ⟨rfl, hfault⟩)⟩

end

end Edit

namespace Catalog

variable {context : Context} {R S : BlockRelation} {edits edits' : List Edit}

/-- A run goes on behind an edit that came to its end. -/
theorem runAll_cons {edit : Edit} {file file' : SourceFile}
    (h : edit.change context file = .done file') :
    runAll context (edit :: edits) file = runAll context edits file' := by
  rw [runAll, h]
  rfl

/-! ### Runs that may stop -/

/-- A run of edits that all respect a relation respects it, also where a fault stops the run. The
relation must allow a line to be left alone and must be transitive over blocks. -/
theorem respects_runAll (hrefl : ∀ line, R line [line])
    (htrans : ∀ line block, Via R R line block → R line block)
    (h : ∀ edit ∈ edits, edit.Respects context R) {file : SourceFile} {p : Program}
    (hp : file.program = some p) :
    ∃ p', (runAll context edits file).result.program = some p' ∧
      Corresponds R p.lines p'.lines := by
  induction edits generalizing file p with
  | nil => exact ⟨p, hp, .refl hrefl p.lines⟩
  | cons edit edits ih =>
      obtain ⟨hedit, hedits⟩ := List.forall_mem_cons.mp h
      obtain ⟨q, hq, hfirst⟩ := hedit file p hp
      rw [runAll, Outcome.andThen]
      split
      · obtain ⟨p', hp', hrest⟩ := ih hedits hq
        exact ⟨p', hp', hfirst.trans_of htrans hrest⟩
      · exact ⟨q, hq, hfirst⟩

/-- What no edit changes of a file, no run of edits changes. -/
theorem runAll_eq_of_keeps {α : Type} {view : SourceFile → α}
    (h : ∀ edit ∈ edits, ∀ file, view (edit.change context file).result = view file)
    (file : SourceFile) : view (runAll context edits file).result = view file := by
  induction edits generalizing file with
  | nil => rfl
  | cons edit edits ih =>
      obtain ⟨hedit, hedits⟩ := List.forall_mem_cons.mp h
      rw [runAll, Outcome.andThen]
      split
      · rw [ih hedits, hedit]
      · exact hedit file

/-! ### Runs that come to their end -/

/-- A run of edits in a row is a run of the first and then, if no fault stopped it, of the
others. -/
theorem runAll_append (file : SourceFile) :
    runAll context (edits ++ edits') file
      = (runAll context edits file).andThen (runAll context edits') := by
  induction edits generalizing file with
  | nil => rfl
  | cons edit edits ih =>
      rw [List.cons_append, runAll, runAll]
      rcases edit.change context file with ⟨changed, fault | e⟩
      · exact ih changed
      · rfl

/-- Edits that come to their end turn lines into blocks by the relation `R`. -/
def Turns (context : Context) (edits : List Edit) (R : BlockRelation) : Prop :=
  ∀ (file file' : SourceFile) (p : Program), file.program = some p →
    runAll context edits file = .done file' →
      ∃ p', file'.program = some p' ∧ Corresponds R p.lines p'.lines

/-- What edits turn lines into may be told in a weaker relation. -/
theorem Turns.mono (h : Turns context edits R) (hRS : ∀ line block, R line block → S line block) :
    Turns context edits S := by
  intro file file' p hp hrun
  obtain ⟨p', hp', hlines⟩ := h file file' p hp hrun
  exact ⟨p', hp', hlines.mono hRS⟩

/-- Edits in a row turn lines into blocks by one relation and then by the other. -/
theorem Turns.append (h : Turns context edits R) (h' : Turns context edits' S) :
    Turns context (edits ++ edits') (Via R S) := by
  intro file file' p hp hrun
  rw [runAll_append] at hrun
  obtain ⟨middle, hmiddle, hrun⟩ := Outcome.andThen_eq_done_iff.mp hrun
  obtain ⟨q, hq, hfirst⟩ := h file middle p hp hmiddle
  obtain ⟨p', hp', hrest⟩ := h' middle file' q hq hrun
  exact ⟨p', hp', hfirst.trans hrest⟩

/-- Edits that all respect a relation turn lines into blocks by it, as in `respects_runAll`. -/
theorem turns_of_respects (hrefl : ∀ line, R line [line])
    (htrans : ∀ line block, Via R R line block → R line block)
    (h : ∀ edit ∈ edits, edit.Respects context R) : Turns context edits R := by
  intro file file' p hp hrun
  obtain ⟨p', hp', hlines⟩ := respects_runAll hrefl htrans h hp
  rw [hrun] at hp'
  exact ⟨p', hp', hlines⟩

/-- A run of one edit is that edit. -/
theorem runAll_singleton (edit : Edit) (file : SourceFile) :
    runAll context [edit] file = edit.change context file := by
  rw [runAll, Outcome.andThen]
  rcases edit.change context file with ⟨changed, fault | e⟩ <;> rfl

/-- One edit turns lines into blocks by the relation that it respects. -/
theorem turns_singleton {edit : Edit} (h : edit.Respects context R) :
    Turns context [edit] R := by
  intro file file' p hp hrun
  rw [runAll_singleton] at hrun
  obtain ⟨p', hp', hlines⟩ := h file p hp
  rw [hrun] at hp'
  exact ⟨p', hp', hlines⟩

/-- An edit of one line after the other that comes to its end has changed every line. -/
theorem turns_changeLines {edit : Edit} {change : Line → Outcome Line}
    (hedit : edit.change context = SourceFile.changeProgram (Program.changeLines change)) :
    Turns context [edit] (OneLine fun line line' => change line = .done line') := by
  intro file file' p hp hrun
  rw [runAll_singleton] at hrun
  obtain ⟨p', rfl, hlines⟩ := Edit.corresponds_of_changeLines hedit hp hrun
  exact ⟨p', rfl, hlines⟩

end Catalog

end PicAssembly
