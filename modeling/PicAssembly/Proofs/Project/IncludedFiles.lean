import PicAssembly.Proofs.Edit.Reach
import PicAssembly.Proofs.Project.Files

/-!
# `PicAssembly.Proofs.Project.IncludedFiles`: whether includes find their files

An include that names a file of the project, in any letter case, gets the name as the project
spells it, and the header of the device gets the name of the one for all devices. The edits
behind that leave directives alone. So the values of includes are known wherever a fault stops
the edits (`Catalog.corresponds_directives_run`).

The name is the one that the file had before. `Project.resolves_edit_iff` says which includes
find their file: those of files that keep their names.
-/

set_option autoImplicit false

namespace PicAssembly

/-! ### Directives -/

/-- A directive stays as it is. What becomes of other lines is not said. -/
def KeepsDirectives : BlockRelation :=
  fun line block => ∀ d, line = .directive d → block = [.directive d]

/-- A line that is left alone keeps its directive. -/
theorem keepsDirectives_refl (line : Line) : KeepsDirectives line [line] := by
  rintro d rfl
  rfl

/-- Two edits that keep directives keep them together. -/
theorem keepsDirectives_trans (line : Line) (block : List Line)
    (h : Via KeepsDirectives KeepsDirectives line block) : KeepsDirectives line block := by
  rintro d rfl
  obtain ⟨middle, hfirst, hrest⟩ := h
  rw [hfirst d rfl] at hrest
  exact Corresponds.singleton_iff.mp hrest d rfl

namespace Catalog

open Edit

/-- The first two edits come to their end, and those behind them go on with converted
includes. -/
theorem exists_run_eq (context : Context) {file : SourceFile} {program : Program}
    (hprogram : file.program = some program) :
    ∃ included : SourceFile,
      included.program
        = some (program.mapLines (Include.convertLine context program.device?)) ∧
      run context file = runAll context (edits.drop 2) included := by
  have hincludes : includes.change context (fileNames.change context file).result
      = .done { file with name := _, program := file.program.map _ } := rfl
  refine ⟨_, ?_, (runAll_cons rfl).trans (runAll_cons hincludes)⟩
  exact congrArg (Option.map _) hprogram

/-- Wherever a fault stops the edits, directives are as the conversion of includes left them. -/
theorem corresponds_directives_run (context : Context) {file : SourceFile}
    {program : Program} (hprogram : file.program = some program) :
    ∃ program', (run context file).result.program = some program' ∧
      Corresponds (fun line block => ∀ d, line = .directive d →
        block = [Include.convertLine context program.device? (.directive d)])
        program.lines program'.lines := by
  -- The edits behind the conversion of includes leave directives alone.
  have hbehind : ∀ edit ∈ edits.drop 2, edit.Respects context KeepsDirectives :=
    respects_behindIncludes keepsDirectives_refl (fun _ _ _ h => nomatch h)
      fun _ _ _ _ h => nomatch h
  obtain ⟨included, hincluded, hrun⟩ := exists_run_eq context hprogram
  obtain ⟨program', hprogram', hlines⟩ :=
    respects_runAll keepsDirectives_refl keepsDirectives_trans hbehind hincluded
  have hconverted : Corresponds (fun line block => block =
      [Include.convertLine context program.device? line]) program.lines
      (program.mapLines (Include.convertLine context program.device?)).lines :=
    .of_map fun _ _ => rfl
  refine ⟨program', hrun ▸ hprogram', (hconverted.trans hlines).mono ?_⟩
  rintro _ block ⟨_, rfl, hrest⟩ d rfl
  have hdirective : ∃ d', Include.convertLine context program.device? (.directive d)
      = .directive d' := by
    rw [Include.convertLine]
    split <;> exact ⟨_, rfl⟩
  obtain ⟨d', hd'⟩ := hdirective
  rw [hd'] at hrest ⊢
  exact Corresponds.singleton_iff.mp hrest d' rfl

end Catalog

/-! ### Values -/

namespace Include

variable {context : Context} {name value : Text}

/-- The value names the file, in quotes or in angle brackets. -/
def Names (value name : Text) : Prop := value = quoted name ∨ value = '<' :: name ++ ['>']

/-- A name between quotes is the header that the value names. -/
theorem header?_quoted (name : Text) : header? (quoted name) = some name := by
  have hback : Text.dropBack? ['"'] (name ++ ['"']) = some name :=
    Text.dropBack?_eq_some_iff.mpr rfl
  have hfront : Text.dropFront? ['"'] (quoted name) = some (name ++ ['"']) :=
    Text.dropFront?_eq_some_iff.mpr rfl
  rw [header?, hfront, Option.some_or, Option.bind_some, hback, Option.some_or]

/-- A value that names a file has the name between quotes once angle brackets are taken away. -/
theorem unbracket_of_names (h : Names value name) : unbracket value = quoted name := by
  rcases h with rfl | rfl
  · rfl
  · have hfront : Text.dropFront? ['<'] ('<' :: name ++ ['>']) = some (name ++ ['>']) :=
      Text.dropFront?_eq_some_iff.mpr rfl
    have hback : Text.dropBack? ['>'] (name ++ ['>']) = some name :=
      Text.dropBack?_eq_some_iff.mpr rfl
    rw [unbracket, bracketed?, hfront, Option.bind_some, hback]

/-- A name that the project has gets the spelling that it has there. -/
theorem respell_quoted {real : Text} (h : context.projectFile? name = some real) :
    respell context (quoted name) = quoted real := by
  rw [respell, header?_quoted, Option.bind_some, h]
  show (if some name = some real then quoted name else quoted real) = quoted real
  split
  · next hsame => rw [Option.some.inj hsame]
  · rfl

/-- The value becomes the quoted name as the project spells it, or the header for all
devices. -/
theorem converted_of_names {real : Text} (device : Option Text) (hvalue : Names value name)
    (hreal : context.projectFile? name = some real) :
    converted context device value = generalize device (quoted real) := by
  rw [converted, unbracket_of_names hvalue, respell_quoted hreal]

/-- A value stays or becomes the header for all devices. -/
theorem generalize_eq (device : Option Text) (value : Text) :
    generalize device value = deviceHeader ∨ generalize device value = value := by
  cases device with
  | none => exact .inr rfl
  | some name =>
      by_cases h : Text.sameIgnoringCase (quoted ('p' :: name ++ ".inc".toList)) value
      · exact .inl (if_pos h)
      · exact .inr (if_neg h)

/-- A name can be told from its quotation. -/
theorem quoted_inj {name name' : Text} : quoted name = quoted name' ↔ name = name' := by
  simp [quoted]

end Include

/-! ### Files -/

namespace SourceFile

/-- The name of the file after a conversion. Only a file with a program is converted. -/
def finalName (f : SourceFile) : Text :=
  if f.program.isSome then convertedName f.name else f.name

/-- A name that a file goes by is the one that it had if they differ in letter case only. -/
theorem name_eq_of_finalName_eq {f : SourceFile} {name : Text} (h : f.finalName = name)
    (hsame : Text.sameIgnoringCase f.name name) :
    f.name = name ∧ (f.program = none ∨ convertedName name = name) := by
  rw [finalName] at h
  split at h
  · cases hstem : Text.dropBack? ".asm".toList f.name with
    | none =>
        have hname : convertedName f.name = f.name := by rw [convertedName, hstem]
        rw [hname] at h
        subst h
        exact ⟨rfl, .inr hname⟩
    | some stem =>
        -- The new ending is shorter, so the names differ in more than letter case.
        rw [convertedName, hstem] at h
        have hlength := congrArg List.length (beq_iff_eq.mp hsame)
        rw [Text.dropBack?_eq_some_iff.mp hstem, ← h] at hlength
        simp [Text.asciiLower] at hlength
  · next hprogram =>
    exact ⟨h, .inl (Option.not_isSome_iff_eq_none.mp hprogram)⟩

/-- The name of the file stays. -/
theorem finalName_eq_self {f : SourceFile} {name : Text} (h : f.name = name)
    (hkeeps : f.program = none ∨ convertedName name = name) : f.finalName = name := by
  subst h
  rw [finalName]
  split
  · next hprogram =>
    rcases hkeeps with hnone | hname
    · simp [hnone] at hprogram
    · exact hname
  · rfl

end SourceFile

namespace Project

section

variable {context : Context} {p : Project}

/-- A file has its place among the files after the edits, and is edited if it has a program. -/
theorem getElem?_edit {i : Nat} {f : SourceFile} (context : Context) (h : p.files[i]? = some f) :
    (p.edit context).1.files[i]?
      = some (if f.program.isSome then (Catalog.run context f).result else f) := by
  rw [edit, files_attemptAll, List.getElem?_map, h, Option.map_some]

/-- A file has its place among the files after the edits, with the name that it is to have. -/
theorem exists_getElem?_edit {i : Nat} {f : SourceFile} (context : Context)
    (h : p.files[i]? = some f) :
    ∃ f', (p.edit context).1.files[i]? = some f' ∧ f'.name = f.finalName := by
  refine ⟨_, getElem?_edit context h, ?_⟩
  rw [SourceFile.finalName]
  split
  · exact congrArg Prod.snd (Catalog.location_run context f)
  · rfl

/-- The value finds a file that went by this name, in any letter case: it is the header for all
devices, or the quoted name that such a file has now. -/
def Resolves (p p' : Project) (name value : Text) : Prop :=
  value = Include.deviceHeader ∨ ∃ (i : Nat) (f f' : SourceFile), p.files[i]? = some f ∧
    p'.files[i]? = some f' ∧ Text.sameIgnoringCase f.name name ∧ value = Include.quoted f'.name

/-- An include of a file of the project finds the file if its name stays. -/
theorem resolves_edit_iff {name real value : Text}
    (hreal : p.fileNames.find? (Text.sameIgnoringCase · name) = some real)
    (hvalue : value = Include.deviceHeader ∨ value = Include.quoted real) :
    p.Resolves (p.edit context).1 name value ↔ value = Include.deviceHeader ∨
      ∃ f ∈ p.files, f.name = real ∧ (f.program = none ∨ SourceFile.convertedName real = real) := by
  have hsame : Text.sameIgnoringCase real name :=
    List.find?_some (p := (Text.sameIgnoringCase · name)) hreal
  rcases hvalue with rfl | rfl
  · exact iff_of_true (.inl rfl) (.inl rfl)
  refine or_congr_right ?_
  constructor
  · rintro ⟨i, f, f', hf, hf', hname, hquoted⟩
    obtain ⟨g, hg, hfinal⟩ := exists_getElem?_edit context hf
    cases hf'.symm.trans hg
    -- The file that is found goes by the name up to letter case, as the first one does.
    have hname' : Text.sameIgnoringCase f.name real :=
      beq_iff_eq.mpr ((beq_iff_eq.mp hname).trans (beq_iff_eq.mp hsame).symm)
    have hreal' : f.finalName = real := hfinal.symm.trans (Include.quoted_inj.mp hquoted).symm
    exact ⟨f, List.mem_of_getElem? hf, SourceFile.name_eq_of_finalName_eq hreal' hname'⟩
  · rintro ⟨f, hf, hname, hkeeps⟩
    obtain ⟨i, hi⟩ := List.getElem?_of_mem hf
    obtain ⟨f', hf', hfinal⟩ := exists_getElem?_edit context hi
    refine ⟨i, f, f', hi, hf', hname ▸ hsame, ?_⟩
    rw [hfinal, SourceFile.finalName_eq_self hname hkeeps]

/-- What becomes of the lines that include a file of the project, and whether they find it. -/
theorem include_of_edit {i : Nat} {f : SourceFile} {program : Program}
    (hfiles : context.files = p.fileNames) (hf : p.files[i]? = some f)
    (hprogram : f.program = some program) :
    ∃ g program', (p.edit context).1.files[i]? = some g ∧ g.program = some program' ∧
      Corresponds (fun line block => ∀ (d : Directive) (name real : Text),
        line = .directive d → d.isInclude → Include.Names d.value name →
        p.fileNames.find? (Text.sameIgnoringCase · name) = some real →
        ∃ value, block = [.directive { d with value }] ∧
          value = Include.generalize program.device? (Include.quoted real) ∧
          (p.Resolves (p.edit context).1 name value ↔ value = Include.deviceHeader ∨
            ∃ f ∈ p.files, f.name = real ∧
              (f.program = none ∨ SourceFile.convertedName real = real)))
        program.lines program'.lines := by
  have hg : (p.edit context).1.files[i]? = _ := getElem?_edit context hf
  rw [if_pos (Option.isSome_iff_exists.mpr ⟨program, hprogram⟩)] at hg
  obtain ⟨program', hprogram', hlines⟩ := Catalog.corresponds_directives_run context hprogram
  refine ⟨_, program', hg, hprogram', hlines.mono ?_⟩
  intro line block hblock d name real hline hinclude hvalue hreal
  -- The context has the names that the files had before the edits.
  have hproject : context.projectFile? name = some real := by
    rw [Context.projectFile?, hfiles, hreal]
  have hconverted := Include.converted_of_names program.device? hvalue hproject
  refine ⟨_, ?_, rfl, resolves_edit_iff hreal (Include.generalize_eq ..)⟩
  rw [hblock d hline, Include.convertLine, if_pos hinclude, hconverted]

end

/-- A header of the project in another letter case and in angle brackets. -/
theorem include_of_edit_header :
    let including (value : Text) : Program := ⟨[.directive ⟨"#include".toList, value, none⟩]⟩
    let p : Project := ⟨[⟨"main.asm".toList, [], [], some (including "<LIB.INC>".toList)⟩,
      .unread "lib.inc".toList [] []]⟩
    let context : Context := { Context.empty with files := p.fileNames }
    ∃ g, (p.edit context).1.files[0]? = some g ∧
      g.program = some (including (Include.quoted "lib.inc".toList)) ∧
      p.Resolves (p.edit context).1 "LIB.INC".toList (Include.quoted "lib.inc".toList) := by
  intro including p context
  have hf : p.files[0]? = some ⟨_, _, _, some (including "<LIB.INC>".toList)⟩ := rfl
  have hfiles : context.files = p.fileNames := rfl
  obtain ⟨g, ⟨lines⟩, hg, hprogram, hlines⟩ := include_of_edit hfiles hf rfl
  obtain ⟨value, hblock, hvalue, hresolves⟩ :=
    Corresponds.singleton_iff.mp hlines _ "LIB.INC".toList "lib.inc".toList rfl rfl (.inr rfl) rfl
  have hvalue : value = Include.quoted "lib.inc".toList := hvalue
  subst hvalue
  subst hblock
  exact ⟨g, hg, hprogram, hresolves.mpr (.inr ⟨_, List.mem_cons_of_mem _ List.mem_cons_self, rfl,
    .inl rfl⟩)⟩

/-- An include of a source that gets another name. -/
theorem not_resolves_edit :
    let p : Project := ⟨[.unread "main.asm".toList [] (Utf8.encode " #include \"lib.asm\"".toList),
      .unread "lib.asm".toList [] (Utf8.encode " nop".toList)]⟩
    let context : Context := { Context.empty with files := p.fileNames }
    let read := (p.parse ["asm".toList]).1
    let edited := (read.edit context).1
    let value := Include.quoted "lib.asm".toList
    edited.fileNames = ["main.s".toList, "lib.s".toList] ∧
      edited.files.head?.bind SourceFile.program
        = some ⟨[.directive ⟨"#include".toList, value, none⟩]⟩ ∧
      ¬ read.Resolves edited "lib.asm".toList value := by
  intro p context read edited value
  refine ⟨by decide +kernel, by decide +kernel, ?_⟩
  have hreal : read.fileNames.find? (Text.sameIgnoringCase · "lib.asm".toList)
      = some "lib.asm".toList := by decide +kernel
  rw [resolves_edit_iff hreal (.inr rfl)]
  decide +kernel

end Project

end PicAssembly
