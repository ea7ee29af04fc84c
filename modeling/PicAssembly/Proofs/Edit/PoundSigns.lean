import Mathlib.Data.List.Forall2
import PicAssembly.Edit.Identifiers
import PicAssembly.Proofs.Operand.Nodes
import PicAssembly.Proofs.Operand.Replacement
import PicAssembly.Proofs.Program.RoundTrip

/-!
# `PicAssembly.Proofs.Edit.PoundSigns`: operands without their pound signs

The edit takes away the outermost prefix operators that are pound signs. A pound sign under
another prefix operator is not looked for, as in `-#x`, and it stays
(`Operand.HidesPound`). In an operand that was read these are all that stay, and where there are
none of them the operand is what it was with every pound sign replaced by the name behind it
(`Edit.corresponds_pounds_fixedAddresses`).
-/

set_option autoImplicit false

namespace PicAssembly

namespace Operand

/-- Whether the node is a pound sign before an operand. -/
def isPound : Operand → Bool
  | .unary .pound _ _ => true
  | _ => false

/-- A pound sign stands somewhere in the operand. -/
def HasPound (x : Operand) : Prop := ∃ y ∈ x.nodes, y.isPound

/-- A pound sign stands somewhere under another prefix operator. -/
def HidesPound (x : Operand) : Prop :=
  ∃ y ∈ x.nodes, y.kind = .unary ∧ y.isPound = false ∧ y.HasPound

mutual

/-- The operand with what stands behind it in place of every pound sign. -/
def unpounded : Operand → Operand
  | .unary .pound _ x => unpounded x
  | .unary op spelling x => .unary op spelling (unpounded x)
  | .stepped op x => .stepped op (unpounded x)
  | .binary op x y => .binary op (unpounded x) (unpounded y)
  | .assign op x y => .assign op (unpounded x) (unpounded y)
  | .call callee args => .call (unpounded callee) (unpoundedAll args)
  | leaf => leaf

/-- Several operands, each unpounded. -/
def unpoundedAll : List Operand → List Operand
  | [] => []
  | x :: xs => unpounded x :: unpoundedAll xs

end

/-- Taking the pound signs out goes operand by operand. -/
theorem unpoundedAll_eq_map (xs : List Operand) : unpoundedAll xs = xs.map unpounded := by
  induction xs with
  | nil => rfl
  | cons x xs ih => rw [unpoundedAll, ih, List.map_cons]

/-! ### One node -/

/-- A prefix operator is a pound sign just if it is the operator of that kind. -/
theorem isPound_unary_iff {op : UnaryOp} {spelling : Text} {x : Operand} :
    (Operand.unary op spelling x).isPound ↔ op = .pound := by
  cases op <;> simp [isPound]

/-- Other prefix operators stay, with the pound signs below them taken out. -/
theorem unpounded_unary {op : UnaryOp} (h : op ≠ .pound) (spelling : Text) (x : Operand) :
    (Operand.unary op spelling x).unpounded = .unary op spelling x.unpounded := by
  cases op <;> first | rfl | exact absurd rfl h

/-- A pound sign is the node itself or stands in one of its parts. -/
theorem hasPound_iff {x : Operand} : x.HasPound ↔ x.isPound ∨ ∃ y ∈ x.parts, y.HasPound :=
  exists_mem_nodes_iff

/-- A pound sign is hidden by the node itself, if that is another prefix operator over one, or in
one of its parts. -/
theorem hidesPound_iff {x : Operand} : x.HidesPound ↔
    (x.kind = .unary ∧ x.isPound = false ∧ x.HasPound) ∨ ∃ y ∈ x.parts, y.HidesPound :=
  exists_mem_nodes_iff

/-- What has no parts has nothing before them. -/
theorem not_hasPound_of_parts {x : Operand} (h : x.parts = []) : ¬ x.HasPound := by
  rw [hasPound_iff, h]
  cases x <;> simp_all [isPound, parts]

/-- What is hidden is there. -/
theorem HidesPound.hasPound {x : Operand} (h : x.HidesPound) : x.HasPound := by
  obtain ⟨y, hy, -, -, z, hz, hpound⟩ := h
  exact ⟨z, nodes_trans hy hz, hpound⟩

section

variable {x y callee : Operand} {args : List Operand} {spelling : Text}

/-- Under a prefix operator a pound sign stands as without it, or it is the operator itself. -/
@[simp] theorem hasPound_unary_iff {op : UnaryOp} :
    (Operand.unary op spelling x).HasPound ↔ op = .pound ∨ x.HasPound := by
  rw [hasPound_iff, isPound_unary_iff]
  simp [parts]

/-- Before a step operator a pound sign stands as without it. -/
@[simp] theorem hasPound_stepped_iff {op : StepOp} :
    (Operand.stepped op x).HasPound ↔ x.HasPound := by
  rw [hasPound_iff]
  simp [isPound, parts]

/-- In a binary operator a pound sign stands on either side. -/
@[simp] theorem hasPound_binary_iff {op : BinaryOp} :
    (Operand.binary op x y).HasPound ↔ x.HasPound ∨ y.HasPound := by
  rw [hasPound_iff]
  simp [isPound, parts]

/-- In an assignment a pound sign stands on either side. -/
@[simp] theorem hasPound_assign_iff {op : AssignOp} :
    (Operand.assign op x y).HasPound ↔ x.HasPound ∨ y.HasPound := by
  rw [hasPound_iff]
  simp [isPound, parts]

/-- In a call a pound sign stands in what is called or in an argument. -/
@[simp] theorem hasPound_call_iff :
    (Operand.call callee args).HasPound ↔ callee.HasPound ∨ ∃ arg ∈ args, arg.HasPound := by
  rw [hasPound_iff]
  simp [isPound, parts]

/-- What hides a pound sign is another prefix operator. -/
theorem hidesPound_unary_iff {op : UnaryOp} : (Operand.unary op spelling x).HidesPound ↔
    op ≠ .pound ∧ x.HasPound ∨ x.HidesPound := by
  rw [hidesPound_iff, ← Bool.not_eq_true, isPound_unary_iff]
  simp only [kind, hasPound_unary_iff, parts, List.mem_singleton, exists_eq_left, true_and]
  exact or_congr_left (and_congr_right fun hop => or_iff_right hop)

/-- Before a step operator a pound sign is hidden as without it. -/
@[simp] theorem hidesPound_stepped_iff {op : StepOp} :
    (Operand.stepped op x).HidesPound ↔ x.HidesPound := by
  rw [hidesPound_iff]
  simp [kind, parts]

/-- In a binary operator a pound sign is hidden on either side. -/
@[simp] theorem hidesPound_binary_iff {op : BinaryOp} :
    (Operand.binary op x y).HidesPound ↔ x.HidesPound ∨ y.HidesPound := by
  rw [hidesPound_iff]
  simp [kind, parts]

/-- In an assignment a pound sign is hidden on either side. -/
@[simp] theorem hidesPound_assign_iff {op : AssignOp} :
    (Operand.assign op x y).HidesPound ↔ x.HidesPound ∨ y.HidesPound := by
  rw [hidesPound_iff]
  simp [kind, parts]

/-- In a call a pound sign is hidden in what is called or in an argument. -/
@[simp] theorem hidesPound_call_iff : (Operand.call callee args).HidesPound ↔
    callee.HidesPound ∨ ∃ arg ∈ args, arg.HidesPound := by
  rw [hidesPound_iff]
  simp [kind, parts]

end

/-! ### Whole operands -/

/-- Unpounded, an operand has no pound signs. -/
theorem not_hasPound_unpounded (x : Operand) : ¬ x.unpounded.HasPound := by
  induction x using induct with
  | number | string | chipId | programCounter | identifier =>
      exact not_hasPound_of_parts rfl
  | unary op spelling x ih =>
      by_cases hop : op = .pound
      · subst hop
        exact ih
      · simp [unpounded_unary hop, hop, ih]
  | stepped op x ih => simpa [unpounded] using ih
  | binary op x y ihx ihy => simpa [unpounded] using ⟨ihx, ihy⟩
  | assign op x y ihx ihy => simpa [unpounded] using ⟨ihx, ihy⟩
  | call callee args ihcallee ihargs =>
      simpa [unpounded, unpoundedAll_eq_map] using ⟨ihcallee, ihargs⟩

/-- An operand without pound signs is left as it is. -/
theorem unpounded_eq_self {x : Operand} (h : ¬ x.HasPound) : x.unpounded = x := by
  induction x using induct with
  | number | string | chipId | programCounter | identifier => rfl
  | unary op spelling x ih =>
      obtain ⟨hop, hx⟩ := not_or.mp (hasPound_unary_iff.not.mp h)
      rw [unpounded_unary hop, ih hx]
  | stepped op x ih => rw [unpounded, ih (hasPound_stepped_iff.not.mp h)]
  | binary op x y ihx ihy =>
      obtain ⟨hx, hy⟩ := not_or.mp (hasPound_binary_iff.not.mp h)
      rw [unpounded, ihx hx, ihy hy]
  | assign op x y ihx ihy =>
      obtain ⟨hx, hy⟩ := not_or.mp (hasPound_assign_iff.not.mp h)
      rw [unpounded, ihx hx, ihy hy]
  | call callee args ihcallee ihargs =>
      obtain ⟨hcallee, hargs⟩ := not_or.mp (hasPound_call_iff.not.mp h)
      have hargs : ∀ arg ∈ args, arg.unpounded = arg := fun arg harg =>
        ihargs arg harg fun hpound => hargs ⟨arg, harg, hpound⟩
      rw [unpounded, ihcallee hcallee, unpoundedAll_eq_map, List.map_congr_left hargs,
        List.map_id']

/-- The operand that the edit leaves. -/
def bared (place : Place) (x : Operand) : Operand :=
  replaceIn .unary (fun _ node => node.withoutPound) place x

/-- Where no pound sign is hidden all of them go. -/
theorem bared_eq_unpounded {x : Operand} (hx : x.WellFormed) (h : ¬ x.HidesPound)
    (place : Place) : x.bared place = x.unpounded := by
  induction hx generalizing place with
  | number | string | chipId | programCounter | identifier | pound => rfl
  | @unary op spelling x hop _ _ ih =>
      have hpound : ¬ x.HasPound := fun hpound => h (hidesPound_unary_iff.mpr (.inl ⟨hop, hpound⟩))
      have hkeeps : (Operand.unary op spelling x).withoutPound = .unary op spelling x := by
        cases op <;> first | rfl | exact absurd rfl hop
      rw [unpounded_unary hop, unpounded_eq_self hpound]
      exact hkeeps
  | stepped hx ih =>
      rw [bared, replaceIn_stepped _ _ (by decide), ← bared, ih (by simpa using h), unpounded]
  | binary hx hy ihx ihy =>
      obtain ⟨hx, hy⟩ := not_or.mp (hidesPound_binary_iff.not.mp h)
      rw [bared, replaceIn_binary _ _ (by decide), ← bared, ← bared, ihx hx, ihy hy, unpounded]
  | assign hx hy ihx ihy =>
      obtain ⟨hx, hy⟩ := not_or.mp (hidesPound_assign_iff.not.mp h)
      rw [bared, replaceIn_assign _ _ (by decide), ← bared, ← bared, ihx hx, ihy hy, unpounded]
  | @call name args hn hk hargs ih =>
      obtain ⟨-, hargs⟩ := not_or.mp (hidesPound_call_iff.not.mp h)
      have hbared : ∀ arg ∈ args, arg.bared (place.inside .call) = arg.unpounded :=
        fun arg harg => ih arg harg (fun hhides => hargs ⟨arg, harg, hhides⟩) _
      rw [bared, replaceIn_call _ _ (by decide), unpounded, unpoundedAll_eq_map]
      exact congrArg _ (List.map_congr_left hbared)

/-- A pound sign that is hidden stays. -/
theorem hasPound_bared {x : Operand} (hx : x.WellFormed) (h : x.HidesPound) (place : Place) :
    (x.bared place).HasPound := by
  induction hx generalizing place with
  | number | string | chipId | programCounter | identifier =>
      exact absurd h.hasPound (not_hasPound_of_parts rfl)
  | @pound name hn =>
      rcases hidesPound_unary_iff.mp h with ⟨hop, -⟩ | hname
      · exact absurd rfl hop
      · exact absurd hname.hasPound (not_hasPound_of_parts rfl)
  | @unary op spelling x hop _ _ ih =>
      -- The walk stops at this operator, which is no pound sign itself, so all below it stays.
      have hkeeps : (Operand.unary op spelling x).withoutPound = .unary op spelling x := by
        cases op <;> first | rfl | exact absurd rfl hop
      show (Operand.unary op spelling x).withoutPound.HasPound
      rw [hkeeps]
      exact h.hasPound
  | stepped hx ih =>
      rw [bared, replaceIn_stepped _ _ (by decide), hasPound_stepped_iff]
      exact ih (hidesPound_stepped_iff.mp h) _
  | binary hx hy ihx ihy =>
      rw [bared, replaceIn_binary _ _ (by decide), hasPound_binary_iff]
      exact (hidesPound_binary_iff.mp h).imp (ihx · _) (ihy · _)
  | assign hx hy ihx ihy =>
      rw [bared, replaceIn_assign _ _ (by decide), hasPound_assign_iff]
      exact (hidesPound_assign_iff.mp h).imp (ihx · _) (ihy · _)
  | @call name args hn hk hargs ih =>
      rw [bared, replaceIn_call _ _ (by decide), hasPound_call_iff]
      rcases hidesPound_call_iff.mp h with hcallee | ⟨arg, harg, hhides⟩
      · exact absurd hcallee.hasPound (not_hasPound_of_parts rfl)
      · exact .inr ⟨_, List.mem_map_of_mem harg, ih arg harg hhides _⟩

/-- An operand that was read is bared of all its pound signs just if none is hidden. -/
theorem bared_iff {x : Operand} (hx : x.WellFormed) (place : Place) :
    (¬ (x.bared place).HasPound ↔ ¬ x.HidesPound) ∧
      (x.bared place = x.unpounded ↔ ¬ x.HidesPound) := by
  by_cases h : x.HidesPound
  · have hpound := hasPound_bared hx h place
    refine ⟨iff_of_false (not_not.mpr hpound) (not_not.mpr h), iff_of_false ?_ (not_not.mpr h)⟩
    exact fun heq => not_hasPound_unpounded x (heq ▸ hpound)
  · have hbared := bared_eq_unpounded hx h place
    refine ⟨iff_of_true ?_ h, iff_of_true hbared h⟩
    rw [hbared]
    exact not_hasPound_unpounded x

end Operand

/-- The line with other operands, each in this relation to the one that it stands for. -/
inductive Line.ByOperand (S : Operand → Operand → Prop) : Line → Line → Prop where
  | directive (d : Directive) : ByOperand S (.directive d) (.directive d)
  | definition (d : Definition) : ByOperand S (.definition d) (.definition d)
  | statement {s : Statement} {operands : List Operand} (h : List.Forall₂ S s.operands operands) :
      ByOperand S (.statement s) (.statement { s with operands })

namespace Edit

open Operand

/-- In a program that was read, an operand is left without pound signs just if none of its pound
signs stands under another prefix operator, and just then it is the operand that it was with every
pound sign replaced. Nothing but operands of statements is changed. -/
theorem corresponds_pounds_fixedAddresses (context : Context) {text : Text} {p : Program}
    {file : SourceFile} (hparse : Program.parse text = .ok p) (hp : file.program = some p) :
    ∃ p', fixedAddresses.change context file = .done { file with program := some p' } ∧
      Corresponds (OneLine (Line.ByOperand fun x y => (¬ y.HasPound ↔ ¬ x.HidesPound) ∧
        (y = x.unpounded ↔ ¬ x.HidesPound))) p.lines p'.lines := by
  refine ⟨p.replaceOutermost .unary fun _ node => node.withoutPound, ?_, ?_⟩
  · exact congrArg (fun program => Outcome.done { file with program })
      (congrArg (Option.map _) hp)
  · have hwell : ∀ line ∈ p.lines, line.WellFormed := Program.wellFormed_of_parse hparse
    refine (Program.corresponds_replaceOutermost .unary _ p).mono_of_mem fun line hline block => ?_
    rintro ⟨_, rfl, i, rfl⟩
    refine ⟨_, rfl, ?_⟩
    cases line with
    | directive d => exact .directive d
    | definition d => exact .definition d
    | statement s =>
        have hs : s.WellFormed := hwell _ hline
        refine .statement (List.forall₂_map_right_iff.mpr (List.forall₂_same.mpr fun x hx => ?_))
        exact bared_iff (hs.operands x hx) _

/-- Of two pound signs the second is hidden. -/
theorem corresponds_pounds_fixedAddresses_hidden :
    let x : Operand := .identifier ['x']
    let hidden : Operand := .unary .low "low".toList (.unary .pound ['#'] x)
    let s : Statement := ⟨none, some "movlw".toList, [.unary .pound ['#'] x, hidden], none⟩
    let p : Program := ⟨[.statement s]⟩
    let file : SourceFile := ⟨"main.asm".toList, [], [], some p⟩
    Program.parse " movlw #x, low #x".toList = .ok p ∧
    ∃ p' y, fixedAddresses.change .empty file = .done { file with program := some p' } ∧
      p'.lines = [.statement { s with operands := [x, y] }] ∧ y.HasPound := by
  intro x hidden s p file
  have hparse : Program.parse " movlw #x, low #x".toList = .ok p := by decide +kernel
  have hp : file.program = some p := rfl
  obtain ⟨p', hp', hlines⟩ := corresponds_pounds_fixedAddresses .empty hparse hp
  obtain ⟨line, hline, hby⟩ := Corresponds.singleton_iff.mp hlines
  have hx : ¬ x.HasPound := not_hasPound_of_parts rfl
  have hfirst : ¬ (Operand.unary .pound ['#'] x).HidesPound := by
    rw [hidesPound_unary_iff]
    exact fun h => h.elim (fun h => h.1 rfl) fun h => hx h.hasPound
  have hsecond : hidden.HidesPound :=
    hidesPound_unary_iff.mpr (.inl ⟨by decide, hasPound_unary_iff.mpr (.inl rfl)⟩)
  cases hby with
  | statement h =>
      obtain ⟨⟩ | ⟨hleft, ⟨⟩ | ⟨hright, ⟨⟩⟩⟩ := h
      have hy := hright.1.not.mpr (not_not.mpr hsecond)
      refine ⟨hparse, p', _, hp', ?_, not_not.mp hy⟩
      rw [hline, hleft.2.mpr hfirst]
      rfl

/-- Under another prefix operator a pound sign stays. -/
theorem not_removes_pounds :
    let x : Operand := .unary .negate ['-'] (.unary .pound ['#'] (.identifier ['x']))
    let s : Statement := ⟨none, some "movlw".toList, [x], none⟩
    let file : SourceFile := ⟨"main.asm".toList, [], [], some ⟨[.statement s]⟩⟩
    Program.parse " movlw -#x".toList = .ok ⟨[.statement s]⟩ ∧
      fixedAddresses.change .empty file = .done file ∧ x.HasPound ∧
      x ≠ x.unpounded ∧ x.unpounded = .unary .negate ['-'] (.identifier ['x']) := by
  intro x s file
  refine ⟨by decide +kernel, rfl, by simp [x], by decide, rfl⟩

end Edit

end PicAssembly
