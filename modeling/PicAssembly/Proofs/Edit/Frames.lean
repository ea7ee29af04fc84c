import PicAssembly.Proofs.Edit.Reach

/-!
# `PicAssembly.Proofs.Edit.Frames`: what most edits keep of a line

The frame of a line is what is left without operands or the value of a directive: its shape,
label, mnemonic, name, word and comment. Most edits keep the frame of every line, whatever
they do to what is in it (`Keeping`).

The form of the operands is what the sections and the names of bits look at: whether a number
comes first, and whether the operands are the names of a register and a bit. Spelling numbers
anew keeps it (`Line.formedFrame_respellNumbers`).
-/

set_option autoImplicit false

namespace PicAssembly

/-! ### Lines that keep a view -/

/-- Every line has become one line that looks the same. -/
def Keeping {α : Type} (view : Line → α) : BlockRelation :=
  OneLine fun line line' => view line' = view line

/-- A line that is left alone looks the same. -/
theorem keeping_refl {α : Type} (view : Line → α) (line : Line) : Keeping view line [line] :=
  ⟨line, rfl, rfl⟩

/-- Two edits that keep how lines look keep it together. -/
theorem keeping_trans {α : Type} (view : Line → α) (line : Line) (block : List Line)
    (h : Via (Keeping view) (Keeping view) line block) : Keeping view line block := by
  obtain ⟨middle, line', rfl, hmiddle, hline'⟩ := OneLine.of_via h
  exact ⟨line', rfl, hline'.trans hmiddle⟩

/-! ### Frames -/

/-- The line without its operands, or without the value of its directive. -/
def Line.frame : Line → Line
  | .directive d => .directive { d with value := [] }
  | .definition d => .definition { d with operands := [] }
  | .statement s => .statement { s with operands := [] }

/-- The operands on the line. -/
def Line.operands : Line → List Operand
  | .directive _ => []
  | .definition d => d.operands
  | .statement s => s.operands

namespace Line

variable {line : Line}

/-- A line that looks like a directive is one, with some value. -/
theorem exists_directive_of_frame {d : Directive} (h : line.frame = frame (.directive d)) :
    ∃ value, line = .directive { d with value } := by
  cases line with
  | directive d' =>
      simp only [frame, directive.injEq, Directive.mk.injEq] at h
      obtain ⟨word, value, comment⟩ := d'
      exact ⟨value, by simp_all⟩
  | definition d' => cases h
  | statement s => cases h

/-- A line that looks like a definition is one, with some operands. -/
theorem exists_definition_of_frame {d : Definition} (h : line.frame = frame (.definition d)) :
    ∃ operands, line = .definition { d with operands } := by
  cases line with
  | directive d' => cases h
  | definition d' =>
      obtain ⟨name, operands, comment⟩ := d'
      simp only [frame, definition.injEq, Definition.mk.injEq] at h
      exact ⟨operands, by simp_all⟩
  | statement s => cases h

/-- A line that looks like a statement is one, with some operands. -/
theorem exists_statement_of_frame {s : Statement} (h : line.frame = frame (.statement s)) :
    ∃ operands, line = .statement { s with operands } := by
  cases line with
  | directive d => cases h
  | definition d => cases h
  | statement s' =>
      obtain ⟨label, mnemonic, operands, comment⟩ := s'
      simp only [frame, statement.injEq, Statement.mk.injEq] at h
      exact ⟨operands, by simp_all⟩

end Line

/-! ### Forms -/

/-- What the sections and the names of bits look at in operands. -/
def Statement.form (s : Statement) : Option (Text × Text) × Option Operand.Kind :=
  (BitName.pair? s.operands, s.operands.head?.map Operand.kind)

/-- The frame of a line and the form of its operands. -/
def Line.formedFrame (line : Line) :
    Line × Option (Option (Text × Text) × Option Operand.Kind) :=
  (line.frame, line.statement?.map Statement.form)

/-- The operands name a bit just if they are two names. -/
theorem BitName.pair?_eq_some_iff {operands : List Operand} {register bit : Text} :
    pair? operands = some (register, bit)
      ↔ operands = [.identifier register, .identifier bit] := by
  constructor
  · intro h
    unfold pair? at h
    split at h
    · cases h
      rfl
    · cases h
  · rintro rfl
    rfl

/-- Only identifiers have a name. -/
theorem Operand.name?_eq_some_iff {x : Operand} {name : Text} :
    x.name? = some name ↔ x = .identifier name := by
  cases x <;> simp [name?]

/-- A change that keeps names keeps the names of a register and a bit. -/
theorem BitName.pair?_map {f : Operand → Operand} (hf : ∀ x, (f x).name? = x.name?)
    (operands : List Operand) : pair? (operands.map f) = pair? operands := by
  refine Option.ext fun ⟨register, bit⟩ => ?_
  rw [pair?_eq_some_iff, pair?_eq_some_iff]
  match operands with
  | [] | [_] | _ :: _ :: _ :: _ => simp
  | [x, y] => simp [← Operand.name?_eq_some_iff, hf]

namespace Operand

/-- Spelling numbers anew leaves the kind of an operand. -/
theorem kind_replaceIn_respell (place : Place) (x : Operand) :
    (replaceIn .number (fun _ node => node.respell) place x).kind = x.kind := by
  cases x <;> rfl

/-- Spelling numbers anew leaves a name. -/
theorem name?_replaceIn_respell (place : Place) (x : Operand) :
    (replaceIn .number (fun _ node => node.respell) place x).name? = x.name? := by
  cases x <;> rfl

end Operand

/-- Spelling numbers anew changes nothing that the sections and the names of bits look at. -/
theorem Statement.form_respellAll (place : Place) (s : Statement) :
    Statement.form { s with operands := Operand.respellAll place s.operands } = s.form := by
  rw [form, Operand.respellAll, Operand.replaceOutermost_eq_map, form,
    BitName.pair?_map (Operand.name?_replaceIn_respell place), List.head?_map,
    Option.map_map]
  congr 2
  funext x
  exact Operand.kind_replaceIn_respell place x

/-- Spelling numbers anew changes neither how a line looks nor the form of its operands. -/
theorem Line.formedFrame_respellNumbers (line : Line) :
    line.respellNumbers.formedFrame = line.formedFrame := by
  cases line with
  | directive d => rfl
  | definition d => rfl
  | statement s =>
      exact congrArg (fun form => (Line.frame (.statement s), some form))
        (Statement.form_respellAll (s.place 0) s)

end PicAssembly
