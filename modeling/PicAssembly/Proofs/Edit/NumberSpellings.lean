import PicAssembly.Proofs.Edit.Frames
import PicAssembly.Proofs.Operand.Nodes
import PicAssembly.Proofs.Text.Numerals

/-!
# `PicAssembly.Proofs.Edit.NumberSpellings`: numbers spelled anew

After the edit of numbers a number is spelled in the notation of its radix, `Radix.Denotes`: `0x1F`,
`101B`, `17q` or `12`. No two notations have a literal in common and none of them has two values
for one (`Radix.Denotes.unique`), so the spelling tells the radix and the value.

A program without the literals of its numbers, `Line.unspelled`, is the same before and after the
edit: all numbers keep their values, and everything else stays as it is. The walk that spells
numbers anew misses none of them (`Operand.spelledAnew_replaceIn`), however deep it stands, and a
program with nothing to spell anew stays the same (`Program.respellNumbers_of_spelledAnew`).

* `Edit.numbers_spellings`: what the edit of numbers does to a program, and that it does no more
  when it is made again.
-/

set_option autoImplicit false

namespace PicAssembly

/-! ### The notation of a radix -/

namespace Radix

/-- What a literal stands for in the notation after a conversion. -/
inductive Denotes : Text → Radix → Nat → Prop where
  | hexadecimal {digits : Text} (h : Numeral.Written 16 digits) :
      Denotes ('0' :: 'x' :: digits) .hexadecimal (Numeral.positional 16 digits)
  | binary {digits : Text} (h : Numeral.Written 2 digits) :
      Denotes (digits ++ ['B']) .binary (Numeral.positional 2 digits)
  | decimal {digits : Text} (h : Numeral.Written 10 digits) :
      Denotes digits .decimal (Numeral.positional 10 digits)
  | octal {digits : Text} (h : Numeral.Written 8 digits) :
      Denotes (digits ++ ['q']) .octal (Numeral.positional 8 digits)

/-- The radix whose mark a literal has. -/
def marked (literal : Text) : Radix :=
  if 'x' ∈ literal then .hexadecimal
  else if 'B' ∈ literal then .binary
  else if 'q' ∈ literal then .octal
  else .decimal

/-- A literal tells its radix by its mark. -/
theorem Denotes.radix_eq {literal : Text} {radix : Radix} {value : Nat}
    (h : Denotes literal radix value) : radix = marked literal := by
  -- The marks are no digits of the radixes without them.
  have hnot {base : Nat} {digits : Text} (hd : Numeral.Written base digits) (mark : Char)
      (hmark : (Numeral.digit? base mark).isSome = false) : mark ∉ digits :=
    fun hmem => Bool.eq_false_iff.mp hmark (hd.isDigits mark hmem)
  cases h with
  | hexadecimal h => simp [marked]
  | binary h =>
      have hx := hnot h 'x' (by decide)
      simp [marked, hx]
  | decimal h =>
      have hx := hnot h 'x' (by decide)
      have hb := hnot h 'B' (by decide)
      have hq := hnot h 'q' (by decide)
      simp [marked, hx, hb, hq]
  | octal h =>
      have hx := hnot h 'x' (by decide)
      have hb := hnot h 'B' (by decide)
      simp [marked, hx, hb]

/-- A literal tells its value by its digits, once the radix is known. -/
theorem Denotes.value_eq {literal : Text} {radix : Radix} {value : Nat}
    (h : Denotes literal radix value) : value = Numeral.positional radix.base literal := by
  cases h with
  | @hexadecimal digits h =>
      have hx : Numeral.positional 16 ('x' :: digits) = Numeral.positional 16 digits := rfl
      exact ((Numeral.positional_zero_cons (by decide) _).trans hx).symm
  | binary h => exact (Numeral.positional_concat_of_none (by decide) _).symm
  | decimal h => rfl
  | octal h => exact (Numeral.positional_concat_of_none (by decide) _).symm

/-- A literal has one radix and one value at most. -/
theorem Denotes.unique {literal : Text} {radix radix' : Radix} {value value' : Nat}
    (h : Denotes literal radix value) (h' : Denotes literal radix' value') :
    radix' = radix ∧ value' = value := by
  have hradix : radix' = radix := h'.radix_eq.trans h.radix_eq.symm
  refine ⟨hradix, ?_⟩
  rw [h'.value_eq, h.value_eq, hradix]

/-- A number is spelled as what it is. -/
theorem denotes_spell (radix : Radix) (value : Nat) : Denotes (radix.spell value) radix value := by
  -- Each notation reads back what is written in its base.
  have hwrite (base : Nat) (hbase : 1 < base ∧ base ≤ 16) :
      Numeral.Written base (Numeral.write base value) ∧
        Numeral.positional base (Numeral.write base value) = value :=
    ⟨Numeral.written_write hbase.1 hbase.2 value, Numeral.positional_write hbase.1 hbase.2 value⟩
  cases radix with
  | hexadecimal =>
      obtain ⟨hwritten, hvalue⟩ := hwrite 16 (by decide)
      have h := Denotes.hexadecimal hwritten
      rwa [hvalue] at h
  | binary =>
      obtain ⟨hwritten, hvalue⟩ := hwrite 2 (by decide)
      have h := Denotes.binary hwritten
      rwa [hvalue] at h
  | decimal =>
      obtain ⟨hwritten, hvalue⟩ := hwrite 10 (by decide)
      have h := Denotes.decimal hwritten
      rwa [hvalue, ← Numeral.decimal_eq_write] at h
  | octal =>
      obtain ⟨hwritten, hvalue⟩ := hwrite 8 (by decide)
      have h := Denotes.octal hwritten
      rwa [hvalue] at h

/-- It is spelled as nothing else. -/
theorem denotes_spell_iff {radix radix' : Radix} {value value' : Nat} :
    Denotes (radix.spell value) radix' value' ↔ radix' = radix ∧ value' = value := by
  constructor
  · intro h
    exact (denotes_spell radix value).unique h
  · rintro ⟨rfl, rfl⟩
    exact denotes_spell radix' value'

end Radix

/-! ### Operands -/

namespace Operand

mutual

/-- The operand without the literals of its numbers. -/
def unspelled : Operand → Operand
  | .number value radix _ => .number value radix []
  | .unary op spelling x => .unary op spelling x.unspelled
  | .stepped op x => .stepped op x.unspelled
  | .binary op x y => .binary op x.unspelled y.unspelled
  | .assign op x y => .assign op x.unspelled y.unspelled
  | .call callee args => .call callee.unspelled (unspelledAll args)
  | leaf => leaf

/-- The operands without the literals of their numbers. -/
def unspelledAll : List Operand → List Operand
  | [] => []
  | x :: xs => x.unspelled :: unspelledAll xs

end

/-- Leaving out literals goes operand by operand. -/
theorem unspelledAll_eq_map (xs : List Operand) : unspelledAll xs = xs.map unspelled := by
  induction xs with
  | nil => rfl
  | cons x xs ih => rw [unspelledAll, ih, List.map_cons]

/-- All numbers in the operand are spelled as they are after a conversion. -/
def SpelledAnew (x : Operand) : Prop :=
  ∀ value radix literal, .number value radix literal ∈ x.nodes → literal = radix.spell value

/-- A number is spelled anew just if its literal is the spelling of its value. -/
theorem spelledAnew_number_iff {value : Nat} {radix : Radix} {literal : Text} :
    SpelledAnew (.number value radix literal) ↔ literal = radix.spell value := by
  constructor
  · intro h
    exact h value radix literal (mem_nodes_self _)
  · intro h value' radix' literal' hmem
    rcases mem_nodes_iff.mp hmem with heq | ⟨_, hpart, _⟩
    · cases heq
      exact h
    · cases hpart

/-- For what is no number itself, its parts decide. -/
theorem spelledAnew_iff_parts {x : Operand} (hx : x.kind ≠ .number) :
    x.SpelledAnew ↔ ∀ y ∈ x.parts, y.SpelledAnew := by
  constructor
  · intro h y hy value radix literal hmem
    exact h value radix literal (mem_nodes_iff.mpr (.inr ⟨y, hy, hmem⟩))
  · intro h value radix literal hmem
    rcases mem_nodes_iff.mp hmem with heq | ⟨y, hy, hmem⟩
    · exact absurd (congrArg kind heq.symm) hx
    · exact h y hy value radix literal hmem

section

variable {x y : Operand}

/-- A prefix operator is no number, so only its operand counts. -/
theorem spelledAnew_unary_iff {op : UnaryOp} {spelling : Text} :
    SpelledAnew (.unary op spelling x) ↔ x.SpelledAnew :=
  (spelledAnew_iff_parts Kind.noConfusion).trans List.forall_mem_singleton

/-- A step operator is no number either. -/
theorem spelledAnew_stepped_iff {op : StepOp} : SpelledAnew (.stepped op x) ↔ x.SpelledAnew :=
  (spelledAnew_iff_parts Kind.noConfusion).trans List.forall_mem_singleton

/-- Both sides of a binary operator count. -/
theorem spelledAnew_binary_iff {op : BinaryOp} :
    SpelledAnew (.binary op x y) ↔ x.SpelledAnew ∧ y.SpelledAnew :=
  (spelledAnew_iff_parts Kind.noConfusion).trans (by simp [parts])

/-- Both sides of an assignment count. -/
theorem spelledAnew_assign_iff {op : AssignOp} :
    SpelledAnew (.assign op x y) ↔ x.SpelledAnew ∧ y.SpelledAnew :=
  (spelledAnew_iff_parts Kind.noConfusion).trans (by simp [parts])

/-- What is called and all arguments count. -/
theorem spelledAnew_call_iff {args : List Operand} :
    SpelledAnew (.call x args) ↔ x.SpelledAnew ∧ ∀ arg ∈ args, arg.SpelledAnew :=
  (spelledAnew_iff_parts Kind.noConfusion).trans List.forall_mem_cons

end

/-! The walk over the numbers of an operand. It takes a place along that nobody asks for here, so
each induction is for all places. -/

/-- Spelling numbers anew changes nothing but literals. -/
theorem unspelled_replaceIn (x : Operand) (place : Place) :
    (replaceIn .number (fun _ node => node.respell) place x).unspelled = x.unspelled := by
  induction x using induct generalizing place with
  | number | string | chipId | programCounter | identifier => rfl
  | unary op spelling x ih => rw [replaceIn_unary _ _ (by decide), unspelled, unspelled, ih]
  | stepped op x ih => rw [replaceIn_stepped _ _ (by decide), unspelled, unspelled, ih]
  | binary op x y ihx ihy =>
      rw [replaceIn_binary _ _ (by decide), unspelled, unspelled, ihx, ihy]
  | assign op x y ihx ihy =>
      rw [replaceIn_assign _ _ (by decide), unspelled, unspelled, ihx, ihy]
  | call callee args ihcallee ihargs =>
      rw [replaceIn_call _ _ (by decide), unspelled, unspelled, ihcallee, unspelledAll_eq_map,
        unspelledAll_eq_map, List.map_map]
      exact congrArg _ (List.map_congr_left fun arg harg => ihargs arg harg _)

/-- No number is missed. -/
theorem spelledAnew_replaceIn (x : Operand) (place : Place) :
    (replaceIn .number (fun _ node => node.respell) place x).SpelledAnew := by
  induction x using induct generalizing place with
  | number => exact spelledAnew_number_iff.mpr rfl
  | string | chipId | programCounter | identifier =>
      exact (spelledAnew_iff_parts Kind.noConfusion).mpr fun y hy => absurd hy List.not_mem_nil
  | unary op spelling x ih =>
      rw [replaceIn_unary _ _ (by decide)]
      exact spelledAnew_unary_iff.mpr (ih _)
  | stepped op x ih =>
      rw [replaceIn_stepped _ _ (by decide)]
      exact spelledAnew_stepped_iff.mpr (ih _)
  | binary op x y ihx ihy =>
      rw [replaceIn_binary _ _ (by decide)]
      exact spelledAnew_binary_iff.mpr ⟨ihx _, ihy _⟩
  | assign op x y ihx ihy =>
      rw [replaceIn_assign _ _ (by decide)]
      exact spelledAnew_assign_iff.mpr ⟨ihx _, ihy _⟩
  | call callee args ihcallee ihargs =>
      rw [replaceIn_call _ _ (by decide)]
      exact spelledAnew_call_iff.mpr
        ⟨ihcallee _, List.forall_mem_map.mpr fun arg harg => ihargs arg harg _⟩

/-- Where there is nothing to spell anew, nothing changes. -/
theorem replaceIn_of_spelledAnew {x : Operand} (h : x.SpelledAnew) (place : Place) :
    replaceIn .number (fun _ node => node.respell) place x = x := by
  induction x using induct generalizing place with
  | number value radix literal =>
      rw [spelledAnew_number_iff.mp h]
      rfl
  | string | chipId | programCounter | identifier => rfl
  | unary op spelling x ih =>
      rw [replaceIn_unary _ _ (by decide), ih (spelledAnew_unary_iff.mp h)]
  | stepped op x ih =>
      rw [replaceIn_stepped _ _ (by decide), ih (spelledAnew_stepped_iff.mp h)]
  | binary op x y ihx ihy =>
      have hparts := spelledAnew_binary_iff.mp h
      rw [replaceIn_binary _ _ (by decide), ihx hparts.1, ihy hparts.2]
  | assign op x y ihx ihy =>
      have hparts := spelledAnew_assign_iff.mp h
      rw [replaceIn_assign _ _ (by decide), ihx hparts.1, ihy hparts.2]
  | call callee args ihcallee ihargs =>
      have hparts := spelledAnew_call_iff.mp h
      have hargs : args.map (replaceIn .number (fun _ node => node.respell) (place.inside .call))
          = args.map id :=
        List.map_congr_left fun arg harg => ihargs arg harg (hparts.2 arg harg) _
      rw [replaceIn_call _ _ (by decide), ihcallee hparts.1, hargs, List.map_id]

end Operand

/-! ### Lines and programs -/

namespace Line

/-- The line without the literals of its numbers. -/
def unspelled : Line → Line
  | .directive d => .directive d
  | .definition d => .definition { d with operands := d.operands.map Operand.unspelled }
  | .statement s => .statement { s with operands := s.operands.map Operand.unspelled }

/-- The nodes of all operands on the line. -/
def nodes (line : Line) : List Operand := line.operands.flatMap Operand.nodes

/-- What the edit does to operands in a row. -/
theorem unspelled_respellAll (place : Place) (operands : List Operand) :
    (Operand.respellAll place operands).map Operand.unspelled
      = operands.map Operand.unspelled := by
  rw [Operand.respellAll, Operand.replaceOutermost_eq_map, List.map_map]
  exact List.map_congr_left fun x _ => x.unspelled_replaceIn place

/-- Spelling the numbers of a line anew changes nothing but literals. -/
theorem unspelled_respellNumbers (line : Line) :
    line.respellNumbers.unspelled = line.unspelled := by
  cases line with
  | directive d => rfl
  | definition d =>
      exact congrArg (fun operands => definition { d with operands })
        (unspelled_respellAll _ d.operands)
  | statement s =>
      exact congrArg (fun operands => statement { s with operands })
        (unspelled_respellAll _ s.operands)

/-- All numbers on the line are spelled as they are after a conversion. -/
def SpelledAnew (line : Line) : Prop := ∀ x ∈ line.operands, x.SpelledAnew

/-- Operands whose numbers were spelled anew have them spelled so. -/
theorem spelledAnew_respellAll (place : Place) (operands : List Operand) :
    ∀ x ∈ Operand.respellAll place operands, x.SpelledAnew := by
  rw [Operand.respellAll, Operand.replaceOutermost_eq_map]
  exact List.forall_mem_map.mpr fun x _ => x.spelledAnew_replaceIn place

/-- A line whose numbers were spelled anew has them spelled so. -/
theorem spelledAnew_respellNumbers (line : Line) : line.respellNumbers.SpelledAnew := by
  cases line with
  | directive d => exact fun x hx => absurd hx List.not_mem_nil
  | definition d => exact spelledAnew_respellAll _ d.operands
  | statement s => exact spelledAnew_respellAll _ s.operands

/-- Operands with numbers that are spelled so already stay as they are. -/
theorem respellAll_of_spelledAnew {operands : List Operand}
    (h : ∀ x ∈ operands, x.SpelledAnew) (place : Place) :
    Operand.respellAll place operands = operands := by
  rw [Operand.respellAll, Operand.replaceOutermost_eq_map]
  exact (List.map_congr_left fun x hx =>
    Operand.replaceIn_of_spelledAnew (h x hx) place).trans (List.map_id _)

/-- A line with numbers that are spelled so already stays as it is. -/
theorem respellNumbers_of_spelledAnew {line : Line} (h : line.SpelledAnew) :
    line.respellNumbers = line := by
  cases line with
  | directive d => rfl
  | definition d =>
      exact congrArg (fun operands => definition { d with operands })
        (respellAll_of_spelledAnew h _)
  | statement s =>
      exact congrArg (fun operands => statement { s with operands })
        (respellAll_of_spelledAnew h _)

end Line

namespace Program

/-- The nodes of all operands in the program. -/
def nodes (p : Program) : List Operand := p.lines.flatMap Line.nodes

/-- All numbers in the program are spelled as they are after a conversion. -/
def SpelledAnew (p : Program) : Prop := ∀ line ∈ p.lines, line.SpelledAnew

/-- Spelling the numbers of a program anew changes nothing but literals. -/
theorem unspelled_respellNumbers (p : Program) :
    (p.mapLines Line.respellNumbers).mapLines Line.unspelled = p.mapLines Line.unspelled := by
  have hlines : (p.lines.map Line.respellNumbers).map Line.unspelled
      = p.lines.map Line.unspelled := by
    rw [List.map_map]
    exact List.map_congr_left fun line _ => line.unspelled_respellNumbers
  exact congrArg Program.mk hlines

/-- After the edit all numbers in the program are spelled anew. -/
theorem spelledAnew_respellNumbers (p : Program) :
    (p.mapLines Line.respellNumbers).SpelledAnew :=
  List.forall_mem_map.mpr fun line _ => line.spelledAnew_respellNumbers

/-- A program with numbers that are spelled so already stays as it is, so a second run changes
nothing. -/
theorem respellNumbers_of_spelledAnew {p : Program} (h : p.SpelledAnew) :
    p.mapLines Line.respellNumbers = p := by
  have hlines : p.lines.map Line.respellNumbers = p.lines.map id :=
    List.map_congr_left fun line hline => Line.respellNumbers_of_spelledAnew (h line hline)
  rw [List.map_id] at hlines
  exact congrArg Program.mk hlines

/-- The literals of such a program stand for what their numbers are. -/
theorem SpelledAnew.denotes_iff {p : Program} (h : p.SpelledAnew) {value value' : Nat}
    {radix radix' : Radix} {literal : Text} (hmem : .number value radix literal ∈ p.nodes) :
    Radix.Denotes literal radix' value' ↔ radix' = radix ∧ value' = value := by
  obtain ⟨line, hline, hnode⟩ := List.mem_flatMap.mp hmem
  obtain ⟨x, hx, hnode⟩ := List.mem_flatMap.mp hnode
  have hliteral : literal = radix.spell value := h line hline x hx value radix literal hnode
  rw [hliteral]
  exact Radix.denotes_spell_iff

end Program

namespace Edit

/-- The edit of numbers restyles them and does nothing else. The program is the same up to the
literals of its numbers, whose values and radixes therefore stay. Each number, at any depth, gets
a literal that stands for its radix and value and for no other. So two numbers have the same
literal only if both agree. Made again the edit changes nothing. -/
theorem numbers_spellings (context : Context) {file : SourceFile} {p : Program}
    (hp : file.program = some p) :
    ∃ p' : Program, numbers.apply context file = .ok { file with program := some p' } ∧
      p'.mapLines Line.unspelled = p.mapLines Line.unspelled ∧
      (∀ value radix literal, .number value radix literal ∈ p'.nodes →
        ∀ radix' value', Radix.Denotes literal radix' value' ↔ radix' = radix ∧ value' = value) ∧
      (∀ value radix value' radix' literal, .number value radix literal ∈ p'.nodes →
        .number value' radix' literal ∈ p'.nodes → value' = value ∧ radix' = radix) ∧
      numbers.apply context { file with program := some p' }
        = .ok { file with program := some p' } := by
  have happly (file : SourceFile) : numbers.apply context file
      = .ok { file with program := file.program.map (·.mapLines Line.respellNumbers) } := rfl
  have hanew : (p.mapLines Line.respellNumbers).SpelledAnew := p.spelledAnew_respellNumbers
  refine ⟨p.mapLines Line.respellNumbers, ?_, p.unspelled_respellNumbers, ?_, ?_, ?_⟩
  · rw [happly, hp]
    rfl
  · intro value radix literal hmem radix' value'
    exact hanew.denotes_iff hmem
  · -- What one of two numbers stands for is said by the literal that they share.
    intro value radix value' radix' literal hmem hmem'
    have hself : Radix.Denotes literal radix' value' := (hanew.denotes_iff hmem').mpr ⟨rfl, rfl⟩
    exact ((hanew.denotes_iff hmem).mp hself).symm
  · rw [happly, Option.map_some, Program.respellNumbers_of_spelledAnew hanew]

/-- A number in a call and one in a definition. -/
theorem numbers_spellings_call :
    let p : Program := ⟨[
      .statement ⟨none, some "movlw".toList, [.call (.identifier "f".toList)
        [.unary .negate "-".toList (.number 31 .hexadecimal "h'1f'".toList)]], none⟩,
      .definition ⟨"N".toList, [.number 5 .binary "B'101'".toList], none⟩]⟩
    let file : SourceFile := ⟨"main.asm".toList, [], [], some p⟩
    Program.parse " movlw f(-h'1f')\n#define N B'101'".toList = .ok p ∧
    ∃ p' : Program, numbers.apply .empty file = .ok { file with program := some p' } ∧
      p'.mapLines Line.unspelled = p.mapLines Line.unspelled ∧
      (∀ radix value,
        Radix.Denotes "0x1F".toList radix value ↔ radix = .hexadecimal ∧ value = 31) ∧
      (∀ radix value, Radix.Denotes "101B".toList radix value ↔ radix = .binary ∧ value = 5) ∧
      numbers.apply .empty { file with program := some p' }
        = .ok { file with program := some p' } := by
  intro p file
  have hp : file.program = some p := rfl
  obtain ⟨p', hp', hkept, hdenotes, -, hagain⟩ := numbers_spellings .empty hp
  have hlines : p' = p.mapLines Line.respellNumbers :=
    (Option.some.inj (congrArg SourceFile.program (Except.ok.inj hp'))).symm
  refine ⟨by decide +kernel, p', hp', hkept, ?_, ?_, hagain⟩
  · exact hdenotes 31 .hexadecimal _ (hlines ▸ by decide)
  · exact hdenotes 5 .binary _ (hlines ▸ by decide)

end Edit

end PicAssembly
