import Mathlib.Data.List.Forall2
import PicAssembly.Project

/-!
# `PicAssembly.Proofs.Project.Injection`: the header of defined symbols is put into a project

The line that includes the header is put into the files first, and the header is read after that.
So the lines are there in the end whether the header can be read or not
(`Project.injectDefines_cases`), and a header that cannot be read leaves them behind with nothing
to include (`Project.exists_injectDefines_ne`).
-/

set_option autoImplicit false

namespace PicAssembly

namespace Project

/-- The line is put right behind the first header in angle brackets, and nowhere if there is
none. -/
inductive Inserted (line : Line) : List Line → List Line → Prop where
  | behind {front back : List Line} {header : Line} :
      (∀ l ∈ front, isBracketedInclude l = false) → isBracketedInclude header = true →
      Inserted line (front ++ header :: back) (front ++ header :: line :: back)
  | nowhere {lines : List Line} : (∀ l ∈ lines, isBracketedInclude l = false) →
      Inserted line lines lines

/-- The file has the line in its program if it was read, and is otherwise as it was. -/
inductive FileInserted (line : Line) : SourceFile → SourceFile → Prop where
  | unread {file : SourceFile} : file.program = none → FileInserted line file file
  | read {file : SourceFile} {program : Program} {lines : List Line} :
      file.program = some program → Inserted line program.lines lines →
      FileInserted line file { file with program := some ⟨lines⟩ }

/-- None of the lines of the file that were read includes a header in angle brackets. -/
def NoBracketedInclude (file : SourceFile) : Prop :=
  ∀ program ∈ file.program, ∀ line ∈ program.lines, isBracketedInclude line = false

section

variable {line : Line} {lines : List Line}
variable {file file' : SourceFile} {files files' : List SourceFile}

/-- The program puts the line where it should be. -/
theorem inserted_insertInclude (line : Line) (lines : List Line) :
    Inserted line lines (insertInclude line lines) := by
  induction lines with
  | nil => exact .nowhere (by simp)
  | cons first rest ih =>
      rw [insertInclude]
      by_cases hfirst : isBracketedInclude first = true
      · rw [if_pos hfirst]
        exact @Inserted.behind line [] rest first (by simp) hfirst
      · rw [if_neg hfirst]
        have hfirst' : isBracketedInclude first = false := Bool.eq_false_iff.mpr hfirst
        generalize insertInclude line rest = after at ih
        cases ih with
        | behind hfront hheader =>
            exact .behind (List.forall_mem_cons.mpr ⟨hfirst', hfront⟩) hheader
        | nowhere hnone => exact .nowhere (List.forall_mem_cons.mpr ⟨hfirst', hnone⟩)

/-- The lines are as they were if there was nothing to put the line behind, and only then. -/
theorem Inserted.eq_iff {after : List Line} (h : Inserted line lines after) :
    after = lines ↔ ∀ l ∈ lines, isBracketedInclude l = false := by
  cases h with
  | @behind front back header _ hheader =>
      refine iff_of_false (fun heq => ?_) fun hall => ?_
      · have hlength := congrArg List.length heq
        simp at hlength
      · have hfalse := hall header (List.mem_append_right front List.mem_cons_self)
        exact Bool.false_ne_true (hfalse.symm.trans hheader)
  | nowhere hnone => exact iff_of_true rfl hnone

/-- The program puts the line into a file that was read, and leaves every other file as it was. -/
theorem fileInserted_mapProgram (line : Line) (file : SourceFile) :
    FileInserted line file (file.mapProgram fun program => ⟨insertInclude line program.lines⟩) := by
  obtain ⟨name, dir, content, program⟩ := file
  cases program with
  | none => exact .unread rfl
  | some program => exact .read rfl (inserted_insertInclude line program.lines)

/-- A file that has the line put in stays as it is just if it includes no header in angle
brackets. -/
theorem FileInserted.eq_iff (h : FileInserted line file file') :
    file' = file ↔ NoBracketedInclude file := by
  cases h with
  | unread hprogram => exact iff_of_true rfl (by simp [NoBracketedInclude, hprogram])
  | @read program lines hprogram hinserted =>
      obtain ⟨name, dir, content, _⟩ := file
      obtain ⟨before⟩ := program
      cases hprogram
      simp [NoBracketedInclude, ← hinserted.eq_iff]

/-- All files stay as they are just if none of them includes a header in angle brackets. -/
theorem files_eq_iff (h : List.Forall₂ (FileInserted line) files files') :
    files' = files ↔ ∀ file ∈ files, NoBracketedInclude file := by
  induction h with
  | nil => simp
  | cons hfile _ ih => rw [List.cons.injEq, hfile.eq_iff, ih, List.forall_mem_cons]

end

/-- The header of defined symbols as it is once it was read. -/
def readHeader (context : Context) (program : Program) : SourceFile :=
  { definesHeader context with program := some program }

section

variable {context : Context}

/-- The header of defined symbols is read like a file: it has a program if its text can be read. -/
theorem parse_definesHeader (context : Context) :
    (definesHeader context).parse
      = (Program.parse (definesHeader context).text).map (readHeader context) := by
  rw [SourceFile.parse]
  cases Program.parse (definesHeader context).text <;> rfl

end

/-- Without symbols to define nothing happens. Otherwise the line that includes the header is put
into every file that was read, whatever becomes of the header. If it can be read it is the only
new file. If it cannot, its fault is reported and the lines stay: the files are as they were only
if there was no place for the line in any of them. -/
theorem injectDefines_cases (context : Context) (p : Project) :
    (context.defines.isEmpty = true → p.injectDefines context = (p, none)) ∧
    (context.defines.isEmpty = false → ∃ files,
      List.Forall₂ (FileInserted (definesInclude context)) p.files files ∧
      ((∃ program, Program.parse (definesHeader context).text = .ok program ∧
          p.injectDefines context = (⟨files ++ [readHeader context program]⟩, none)) ∨
        ∃ e, Program.parse (definesHeader context).text = .error e ∧
          p.injectDefines context = (⟨files⟩, some ⟨(definesHeader context).path, e⟩) ∧
          (files = p.files ↔ ∀ file ∈ p.files, NoBracketedInclude file))) := by
  refine ⟨fun hdefines => by rw [injectDefines, if_pos hdefines], fun hdefines => ?_⟩
  -- The line is put in before the header is read, so it is there in both cases.
  have hfiles : List.Forall₂ (FileInserted (definesInclude context)) p.files
      (p.files.map (·.mapProgram fun program =>
        ⟨insertInclude (definesInclude context) program.lines⟩)) :=
    List.forall₂_map_right_iff.mpr
      (List.forall₂_same.mpr fun file _ => fileInserted_mapProgram _ file)
  refine ⟨_, hfiles, ?_⟩
  have hparse := parse_definesHeader context
  cases hprogram : Program.parse (definesHeader context).text with
  | ok program =>
      rw [hprogram] at hparse
      exact .inl ⟨program, rfl, by simp [injectDefines, hdefines, hparse, Except.map]⟩
  | error e =>
      rw [hprogram] at hparse
      exact .inr ⟨e, rfl, by simp [injectDefines, hdefines, hparse, Except.map],
        files_eq_iff hfiles⟩

/-- A project without symbols, with one that is defined, and with one whose value is no operand. -/
theorem injectDefines_cases_parenthesis :
    let header : Line := .directive ⟨"#include".toList, "<xc.inc>".toList, none⟩
    let p : Project := ⟨[⟨"main.s".toList, [], [], some ⟨[header]⟩⟩]⟩
    let context (value : Text) : Context := { Context.empty with defines := ⟨[(['A'], value)]⟩ }
    p.injectDefines Context.empty = (p, none) ∧
    (∃ files program, List.Forall₂ (FileInserted (definesInclude (context ['1']))) p.files files ∧
      p.injectDefines (context ['1']) = (⟨files ++ [readHeader (context ['1']) program]⟩, none)) ∧
    ∃ files e, p.injectDefines (context ['(']) = (⟨files⟩, some ⟨"defines.inc".toList, e⟩) ∧
      files ≠ p.files := by
  intro header p context
  have hread : (Program.parse (definesHeader (context ['1'])).text).isOk = true := by
    decide +kernel
  have hfault : (Program.parse (definesHeader (context ['('])).text).isOk = false := by
    decide +kernel
  refine ⟨(injectDefines_cases Context.empty p).1 rfl, ?_, ?_⟩
  · obtain ⟨files, hfiles, ⟨program, -, hdone⟩ | ⟨e, hparse, -⟩⟩ :=
      (injectDefines_cases (context ['1']) p).2 rfl
    · exact ⟨files, program, hfiles, hdone⟩
    · rw [hparse] at hread
      cases hread
  · obtain ⟨files, -, ⟨program, hparse, -⟩ | ⟨e, -, hdone, hiff⟩⟩ :=
      (injectDefines_cases (context ['(']) p).2 rfl
    · rw [hparse] at hfault
      cases hfault
    · refine ⟨files, e, hdone, fun heq => ?_⟩
      have hnone : isBracketedInclude header = false :=
        hiff.mp heq _ List.mem_cons_self ⟨[header]⟩ rfl header List.mem_cons_self
      exact absurd hnone (by decide +kernel)

/-- A value that is no operand leaves a line behind for a header that is not there. A header right
behind the word that includes it, with no blank in between, does not get the line. -/
theorem exists_injectDefines_ne :
    let context (value : Text) : Context := { Context.empty with defines := ⟨[(['A'], value)]⟩ }
    let edited (text value : Text) : Project :=
      (((⟨[.unread "main.asm".toList [] (Utf8.encode text)]⟩ : Project).parse
        ["asm".toList]).1.edit (context value)).1
    let source := " list p=16f877\n#include <p16f877.inc>".toList
    let tight := "#include<xc.inc>".toList
    (((edited source ['(']).injectDefines (context ['('])).2.isSome ∧
      ((edited source ['(']).injectDefines (context ['('])).1 ≠ edited source ['(']) ∧
    ((edited tight ['1']).files.map SourceFile.program
        = [some ⟨[.directive ⟨tight, [], none⟩]⟩] ∧
      ((edited tight ['1']).injectDefines (context ['1'])).2 = none ∧
      ((edited tight ['1']).injectDefines (context ['1'])).1.files.head?
        = (edited tight ['1']).files.head?) := by
  decide +kernel

end Project

end PicAssembly
