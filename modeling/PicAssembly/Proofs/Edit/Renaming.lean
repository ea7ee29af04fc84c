import Mathlib.Data.List.Basic
import PicAssembly.Edit.Identifiers
import PicAssembly.Program.Parser
import PicAssembly.Proofs.Edit.Running
import PicAssembly.Proofs.Operand.Nodes
import PicAssembly.Proofs.Operand.Replacement

/-!
# `PicAssembly.Proofs.Edit.Renaming`: new names for all identifiers at once

`Operand.mapNames` gives every identifier of an operand, however deep, the name that a function has
for its own, and leaves everything else. So each name is looked up once, as it was read: where a
new name is itself one that has another, it stays.

The edit does just this with the operands of a statement, unless its mnemonic is one that keeps
names (`Edit.identifiers_renames`). Definitions it does not touch, so the names in them
go on to be the old ones (`Edit.not_renames_definitions`).
-/

set_option autoImplicit false

namespace PicAssembly

/-- The name of an identifier from now on. -/
def Context.newName (c : Context) (name : Text) : Text := (c.replacement? name).getD name

/-- An empty table has no entry. -/
theorem Table.get?_eq_none {t : Table} (h : t.isEmpty) (key : Text) : t.get? key = none := by
  rw [get?, List.isEmpty_iff.mp h]
  rfl

/-- Without replacements every name stays. -/
theorem Context.newName_eq_self {c : Context} (h : c.replacements.isEmpty) (name : Text) :
    c.newName name = name := by
  rw [newName, replacement?, Table.get?_eq_none h, Option.getD_none]

namespace Operand

mutual

/-- The operand with other names for its identifiers. -/
def mapNames (f : Text → Text) : Operand → Operand
  | .identifier name => .identifier (f name)
  | .unary op spelling x => .unary op spelling (mapNames f x)
  | .stepped op x => .stepped op (mapNames f x)
  | .binary op x y => .binary op (mapNames f x) (mapNames f y)
  | .assign op x y => .assign op (mapNames f x) (mapNames f y)
  | .call callee args => .call (mapNames f callee) (mapNamesAll f args)
  | leaf => leaf

/-- Some operands with other names for their identifiers. -/
def mapNamesAll (f : Text → Text) : List Operand → List Operand
  | [] => []
  | x :: xs => mapNames f x :: mapNamesAll f xs

end

variable {f : Text → Text}

/-- Renaming goes operand by operand. -/
theorem mapNamesAll_eq_map (xs : List Operand) : mapNamesAll f xs = xs.map (mapNames f) := by
  induction xs with
  | nil => rfl
  | cons x xs ih => rw [mapNamesAll, ih, List.map_cons]

/-- Operands stay together just if each of them does. -/
theorem map_mapNames_eq_self_iff {xs : List Operand} :
    xs.map (mapNames f) = xs ↔ ∀ x ∈ xs, mapNames f x = x := by
  simpa using List.map_inj_left (l := xs) (f := mapNames f) (g := id)

/-- An operand stays just if its names do. -/
theorem mapNames_eq_self_iff {x : Operand} :
    mapNames f x = x ↔ ∀ name ∈ x.names, f name = name := by
  induction x using induct with
  | number | string | chipId | programCounter => exact iff_of_true rfl (List.forall_mem_nil _)
  | identifier name => simp [mapNames]
  | unary op spelling x ih => simp [mapNames, ih]
  | stepped op x ih => simp [mapNames, ih]
  | binary op x y ihx ihy => simp [mapNames, ihx, ihy, or_imp, forall_and]
  | assign op x y ihx ihy => simp [mapNames, ihx, ihy, or_imp, forall_and]
  | call callee args ihcallee ihargs =>
      rw [mapNames, mapNamesAll_eq_map, call.injEq, ihcallee, map_mapNames_eq_self_iff, names_call,
        List.forall_mem_append, List.forall_mem_flatMap]
      exact and_congr_right fun _ => forall₂_congr ihargs

/-- A replacement of identifiers that looks only at their names, among operands of one mnemonic. -/
theorem replaceIn_eq_mapNames {change : Place → Operand → Operand} {mnemonic : Option Text}
    (h : ∀ place name, place.mnemonic = mnemonic →
      change place (.identifier name) = .identifier (f name))
    (x : Operand) (place : Place) (hplace : place.mnemonic = mnemonic) :
    replaceIn .identifier change place x = mapNames f x := by
  induction x using induct generalizing place with
  | number | string | chipId | programCounter => rfl
  | identifier name => exact h place name hplace
  | unary op spelling x ih =>
      rw [replaceIn_unary _ _ (by decide), mapNames, ih (place.inside .unary) hplace]
  | stepped op x ih =>
      rw [replaceIn_stepped _ _ (by decide), mapNames, ih (place.inside .stepped) hplace]
  | binary op x y ihx ihy =>
      rw [replaceIn_binary _ _ (by decide), mapNames, ihx (place.inside .binary) hplace,
        ihy (place.inside .binary) hplace]
  | assign op x y ihx ihy =>
      rw [replaceIn_assign _ _ (by decide), mapNames, ihx (place.inside .assign) hplace,
        ihy (place.inside .assign) hplace]
  | call callee args ihcallee ihargs =>
      rw [replaceIn_call _ _ (by decide), mapNames, mapNamesAll_eq_map,
        ihcallee (place.inside .call) hplace]
      exact congrArg _ (List.map_congr_left fun arg harg => ihargs arg harg _ hplace)

end Operand

/-- Whether the identifiers in the statement are left alone. -/
def Statement.keepsNames (s : Statement) : Bool := s.hasOneOf Edit.keepingNames

namespace Line

/-- The line with other names for the identifiers in its operands, if it is no statement that keeps
them. -/
def mapNames (f : Text → Text) : Line → Line
  | .directive d => .directive d
  | .definition d => .definition { d with operands := d.operands.map (.mapNames f) }
  | .statement s =>
    if s.keepsNames then .statement s
    else .statement { s with operands := s.operands.map (.mapNames f) }

/-- The line as the edit leaves it, which does not look at definitions. -/
def renamed (context : Context) : Line → Line
  | .definition d => .definition d
  | line => line.mapNames context.newName

/-- Every identifier has its new name, unless a definition has one that needs another. -/
theorem renamed_eq_mapNames_iff {context : Context} {line : Line} :
    line.renamed context = line.mapNames context.newName ↔ ∀ d, line = .definition d →
      ∀ x ∈ d.operands, ∀ name ∈ x.names, context.newName name = name := by
  cases line with
  | directive d => exact iff_of_true rfl fun _ h => nomatch h
  | statement s => exact iff_of_true rfl fun _ h => nomatch h
  | definition d =>
      have hoperands : d.operands = d.operands.map (.mapNames context.newName) ↔
          ∀ x ∈ d.operands, ∀ name ∈ x.names, context.newName name = name :=
        eq_comm.trans <| Operand.map_mapNames_eq_self_iff.trans <|
          forall₂_congr fun x _ => Operand.mapNames_eq_self_iff
      obtain ⟨name, operands, comment⟩ := d
      simpa [renamed, mapNames] using hoperands

/-- Without new names every line stays. -/
theorem renamed_eq_self {context : Context} (h : context.replacements.isEmpty) (line : Line) :
    line.renamed context = line := by
  cases line with
  | directive d => rfl
  | definition d => rfl
  | statement s =>
      have hoperands : s.operands.map (.mapNames context.newName) = s.operands :=
        Operand.map_mapNames_eq_self_iff.mpr fun x _ => Operand.mapNames_eq_self_iff.mpr
          fun name _ => context.newName_eq_self h name
      rw [renamed, mapNames, hoperands, ite_self]
      exact fun _ h => nomatch h

end Line

namespace Edit

/-- What the edit puts in the place of an identifier. -/
def rename (context : Context) (place : Place) (node : Operand) : Operand :=
  if place.mnemonic.any fun m => keepingNames.any (Text.sameIgnoringCase m) then node
  else node.renamed context

/-- No fault can stop the renaming, since it parses nothing. -/
theorem change_identifiers (context : Context) (file : SourceFile) :
    identifiers.change context file
      = .done (file.mapProgram (·.replaceOutermost .identifier (rename context))) := rfl

/-- Whether an identifier is left alone is a question of the statement. -/
theorem any_keepingNames (s : Statement) :
    (s.mnemonic.any fun m => keepingNames.any (Text.sameIgnoringCase m)) = s.keepsNames := by
  rw [Statement.keepsNames, Statement.hasOneOf]
  cases h : s.mnemonic with
  | none => simp [Statement.hasMnemonic, h]
  | some m =>
      refine congrArg keepingNames.any (funext fun keeping => ?_)
      rw [Statement.hasMnemonic, h, Option.any_some]

/-- The edit of one statement. -/
theorem replaceIn_rename (context : Context) (s : Statement) (index : Nat) :
    Line.statement (s.replaceIn .identifier (rename context) index)
      = (Line.statement s).renamed context := by
  -- Names are kept or not by the mnemonic, which is the same wherever in the operands they stand.
  have hrename (place : Place) (name : Text) (hplace : place.mnemonic = s.mnemonic) :
      rename context place (.identifier name)
        = .identifier (if s.keepsNames then name else context.newName name) := by
    rw [rename, hplace, any_keepingNames]
    split <;> rfl
  have hoperands : s.operands.map (Operand.replaceIn .identifier (rename context) (s.place index))
      = s.operands.map (Operand.mapNames fun name =>
        if s.keepsNames then name else context.newName name) :=
    List.map_congr_left fun x _ => Operand.replaceIn_eq_mapNames hrename x (s.place index) rfl
  rw [Statement.replaceIn, hoperands, Line.renamed, Line.mapNames]
  · split
    · next hkeeps =>
      have hsame : s.operands.map (Operand.mapNames fun name => name) = s.operands :=
        Operand.map_mapNames_eq_self_iff.mpr fun x _ => Operand.mapNames_eq_self_iff.mpr
          fun _ _ => rfl
      rw [hsame]
    · rfl
  · exact fun _ h => nomatch h

/-- Replacing identifiers in the outermost places is renaming all of them: an identifier has none
inside. -/
theorem replaceOutermost_rename (context : Context) (p : Program) :
    p.replaceOutermost .identifier (rename context) = p.mapLines (.renamed context) := by
  refine congrArg Program.mk (Corresponds.eq_map ?_)
  refine (Program.corresponds_replaceOutermost ..).mono ?_
  rintro line _ ⟨line', rfl, index, rfl⟩
  refine ⟨_, rfl, ?_⟩
  cases line with
  | directive d => rfl
  | definition d => rfl
  | statement s => exact replaceIn_rename context s index

/-- Without new names the edit does nothing. -/
theorem respects_identifiers {context : Context} {R : BlockRelation}
    (hrefl : ∀ line, R line [line]) (h : context.replacements.isEmpty) :
    identifiers.Respects context R := by
  refine respects_ofProgram fun p => ?_
  show Corresponds R p.lines (p.replaceOutermost .identifier (rename context)).lines
  rw [replaceOutermost_rename]
  exact .of_map fun line _ => (line.renamed_eq_self h).symm ▸ hrefl line

/-- Identifiers get their new names without a fault, each looked up once under the name that it
had, and nothing else is changed. All of them do that are to, unless a definition has a name that
needs another, since definitions stay. -/
theorem identifiers_renames (context : Context) {file : SourceFile} {p : Program}
    (hp : file.program = some p) :
    identifiers.change context file
      = .done { file with program := some (p.mapLines (.renamed context)) } ∧
    (p.mapLines (.renamed context) = p.mapLines (.mapNames context.newName) ↔
      ∀ d, .definition d ∈ p.lines →
        ∀ x ∈ d.operands, ∀ name ∈ x.names, context.newName name = name) := by
  constructor
  · rw [change_identifiers, SourceFile.mapProgram, hp, Option.map_some, replaceOutermost_rename]
  · rw [Program.mapLines, Program.mapLines, Program.mk.injEq, List.map_inj_left]
    constructor
    · intro h d hd
      exact Line.renamed_eq_mapNames_iff.mp (h _ hd) d rfl
    · intro h line hline
      refine Line.renamed_eq_mapNames_iff.mpr ?_
      rintro d rfl
      exact h d hline

/-- Two names that change places, in a call and where names are kept. -/
theorem identifiers_renames_swapped :
    let name (text : String) : Operand := .identifier text.toList
    let context := Context.empty.addReplacements
      [("a".toList, "b".toList), ("b".toList, "a".toList)]
    let program (x y : Operand) : Program := ⟨[
      .statement ⟨none, some "movlw".toList, [.call x [.unary .negate "-".toList y]], none⟩,
      .statement ⟨none, some "MOVIW".toList, [name "a"], none⟩,
      .definition ⟨"a".toList, [name "c"], none⟩]⟩
    let file (p : Program) : SourceFile := ⟨"main.asm".toList, [], [], some p⟩
    let p := program (name "a") (name "b")
    let p' := program (name "b") (name "a")
    Program.parse " movlw a(-b)\n MOVIW a\n#define a c".toList = .ok p ∧
      identifiers.change context (file p) = .done (file p') ∧
      p' = p.mapLines (.mapNames context.newName) := by
  intro name context program file p p'
  have hp : (file p).program = some p := rfl
  obtain ⟨hchange, hall⟩ := identifiers_renames context hp
  have hrenamed : p.mapLines (.renamed context) = p' := by decide
  rw [hrenamed] at hchange hall
  refine ⟨by decide +kernel, hchange, hall.mpr fun d hd => ?_⟩
  obtain rfl : d = ⟨"a".toList, [name "c"], none⟩ := by simpa [p, program] using hd
  decide

/-- A definition goes on with a name that has another. -/
theorem not_renames_definitions :
    let context := Context.empty.addReplacements [("FSR1".toList, "FSR1L".toList)]
    let p : Program := ⟨[.definition ⟨"X".toList, [.identifier "FSR1".toList], none⟩]⟩
    let file : SourceFile := ⟨"main.asm".toList, [], [], some p⟩
    Program.parse "#define X FSR1".toList = .ok p ∧
      identifiers.change context file = .done file ∧
      context.newName "FSR1".toList = "FSR1L".toList ∧
      p ≠ p.mapLines (.mapNames context.newName) := by
  exact ⟨by decide +kernel, rfl, rfl, by decide⟩

end Edit

end PicAssembly
