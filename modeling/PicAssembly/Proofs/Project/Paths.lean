import Mathlib.Data.List.Nodup
import PicAssembly.Proofs.Project.Components
import PicAssembly.Proofs.Project.Files

/-!
# `PicAssembly.Proofs.Project.Paths`: where the files of a project end up

A conversion moves the files that it reads: `a.asm` goes to `a.s`. All other files stay where
they are, and the header of defined symbols is put beside them.

Paths are compared by their components, since `src//a.s` and `src/a.s` are one path.

* `Project.paths_convert`: the paths after a conversion, one by one.
* `Project.nodup_paths_convert_iff`: files that had different paths still have, just if no file
  that stays is where another goes, and none ends where the header is put.
* `Project.not_nodup_paths_convert`: two files that end up at one path.
-/

set_option autoImplicit false

namespace PicAssembly

namespace SourceFile

/-- Reading a file adds its program. -/
theorem exists_program_of_parse {f g : SourceFile} (h : f.parse = .ok g) :
    ∃ program, g = { f with program := some program } := by
  rw [parse] at h
  cases hparse : Program.parse f.text with
  | ok program =>
      rw [hparse] at h
      cases h
      exact ⟨program, rfl⟩
  | error e =>
      rw [hparse] at h
      cases h

variable (extensions : List Text)

/-- Whether the file is read in a conversion. -/
def isRead (f : SourceFile) : Bool := Project.isListed extensions f || f.program.isSome

/-- Whether the file gets another name. -/
def moves (f : SourceFile) : Bool :=
  f.isRead extensions && (Text.dropBack? ".asm".toList f.name).isSome

/-- The path of the file after a conversion. -/
def target (f : SourceFile) : Text :=
  if f.isRead extensions then FilePath.join f.dir (convertedName f.name) else f.path

variable {extensions}

/-- A file that gets no other name keeps its path. -/
theorem target_of_not_moves {f : SourceFile} (h : ¬ f.moves extensions) :
    f.target extensions = f.path := by
  rw [target]
  split
  · next hread =>
    rw [moves, hread, Bool.true_and, Option.isSome_iff_ne_none, not_not] at h
    rw [convertedName, h, path]
  · rfl

/-- A file that moves changes the ending of the last component of its path. -/
theorem exists_of_moves {f : SourceFile} (h : f.moves extensions) :
    ∃ front last, FilePath.components f.path = front ++ [last ++ ".asm".toList] ∧
      FilePath.components (f.target extensions) = front ++ [last ++ ".s".toList] := by
  obtain ⟨hread, hname⟩ := Bool.and_eq_true_iff.mp h
  obtain ⟨stem, hstem⟩ := Option.isSome_iff_exists.mp hname
  obtain ⟨base, hbase⟩ := FilePath.exists_join_append f.dir stem
  obtain ⟨front, last, hcomponents⟩ := FilePath.exists_components_append base
  have hasm : FilePath.IsEnding ".asm".toList := ⟨rfl, by decide, by decide⟩
  have hs : FilePath.IsEnding ".s".toList := ⟨rfl, by decide, by decide⟩
  refine ⟨front, last, ?_, ?_⟩
  · rw [path, Text.dropBack?_eq_some_iff.mp hstem, hbase _ hasm]
    exact hcomponents _ hasm
  · rw [target, if_pos hread, convertedName, hstem]
    show FilePath.components (FilePath.join f.dir (stem ++ ".s".toList)) = _
    rw [hbase _ hs]
    exact hcomponents _ hs

/-- Files that go to the same path come from the same path. -/
theorem path_eq_of_target_eq {f g : SourceFile} (hf : f.moves extensions)
    (hg : g.moves extensions)
    (h : FilePath.components (f.target extensions) = FilePath.components (g.target extensions)) :
    FilePath.components f.path = FilePath.components g.path := by
  obtain ⟨front, last, hpath, htarget⟩ := exists_of_moves hf
  obtain ⟨front', last', hpath', htarget'⟩ := exists_of_moves hg
  rw [htarget, htarget'] at h
  obtain ⟨hfront, hlast⟩ := List.append_inj' h rfl
  rw [hpath, hpath', hfront, List.append_cancel_right (List.singleton_inj.mp hlast)]

end SourceFile

namespace Project

/-- The paths of the files, in order, each by its components. -/
def paths (p : Project) : List (List Text) := p.files.map fun f => FilePath.components f.path

/-- Files that had different paths go to different paths, unless one stays where another
goes. -/
theorem nodup_map_target_iff {extensions : List Text} {files : List SourceFile}
    (h : (files.map fun f => FilePath.components f.path).Nodup) :
    (files.map fun f => FilePath.components (f.target extensions)).Nodup ↔
      ∀ f ∈ files, f.moves extensions → ∀ g ∈ files, ¬ g.moves extensions →
        FilePath.components g.path ≠ FilePath.components (f.target extensions) := by
  rw [List.nodup_map_iff_inj_on h.of_map]
  constructor
  · intro hinj f hf hmoves g hg hstays heq
    rw [← SourceFile.target_of_not_moves hstays] at heq
    rw [hinj g hg f hf heq] at hstays
    exact hstays hmoves
  · intro hclear f hf g hg heq
    apply List.inj_on_of_nodup_map h hf hg
    -- Two files that move come from different paths, and two that stay are where they were.
    by_cases hf' : f.moves extensions <;> by_cases hg' : g.moves extensions
    · exact SourceFile.path_eq_of_target_eq hf' hg' heq
    · rw [SourceFile.target_of_not_moves hg'] at heq
      exact absurd heq.symm (hclear f hf hf' g hg hg')
    · rw [SourceFile.target_of_not_moves hf'] at heq
      exact absurd heq (hclear g hg hg' f hf hf')
    · rwa [SourceFile.target_of_not_moves hf', SourceFile.target_of_not_moves hg'] at heq

/-! ### The steps of a conversion -/

variable {extensions : List Text} {context : Context} {p : Project}

/-- A file that is read without a fault has a program and is where it was. -/
theorem read_of_fault_eq_none {f : SourceFile} (h : (Outcome.ofExcept f f.parse).fault = none) :
    ∃ program, (Outcome.ofExcept f f.parse).result = { f with program := some program } := by
  cases hparse : f.parse with
  | ok g =>
      obtain ⟨program, rfl⟩ := SourceFile.exists_program_of_parse hparse
      exact ⟨program, rfl⟩
  | error e =>
      rw [hparse] at h
      cases h

/-- The edits change the path of a file only by its name, and only if it has a program. -/
theorem path_edited (f : SourceFile) :
    (if f.program.isSome then (Catalog.run context f).result else f).path
      = if f.program.isSome then FilePath.join f.dir (SourceFile.convertedName f.name)
        else f.path := by
  split
  · exact congrArg (fun location => FilePath.join location.1 location.2)
      (Catalog.location_run context f)
  · rfl

/-- Once the files with one of the extensions are read, edits take every file to its target. -/
theorem paths_edit_parse (hread : (p.parse extensions).2 = []) :
    ((p.parse extensions).1.edit context).1.paths
      = p.files.map fun f => FilePath.components (f.target extensions) := by
  rw [paths, edit, files_attemptAll, parse, files_attemptAll, List.map_map, List.map_map]
  refine List.map_congr_left fun f hf => ?_
  rw [Function.comp, Function.comp, path_edited]
  by_cases hlisted : isListed extensions f
  · obtain ⟨program, hresult⟩ := read_of_fault_eq_none (fault_eq_none hread hf hlisted)
    have hisRead : f.isRead extensions := Bool.or_eq_true_iff.mpr (.inl hlisted)
    rw [if_pos hlisted, hresult, SourceFile.target, if_pos hisRead]
    rfl
  · rw [if_neg hlisted, SourceFile.target, SourceFile.isRead, Bool.eq_false_iff.mpr hlisted,
      Bool.false_or]

/-- The header of defined symbols is the one file that is added, and no other file moves for it. -/
theorem paths_injectDefines (h : (p.injectDefines context).2 = none) :
    (p.injectDefines context).1.paths = p.paths
      ++ if context.defines.isEmpty then [] else [FilePath.components context.definesFile] := by
  by_cases hempty : context.defines.isEmpty
  · rw [injectDefines, if_pos hempty, if_pos hempty, List.append_nil]
  cases hparse : (definesHeader context).parse with
  | ok header =>
      obtain ⟨program, rfl⟩ := SourceFile.exists_program_of_parse hparse
      have hfiles : (p.files.map (·.mapProgram fun program =>
          ⟨insertInclude (definesInclude context) program.lines⟩)).map
            (fun f => FilePath.components f.path) = p.paths := List.map_map
      have hheader : SourceFile.path { definesHeader context with program := some program }
          = context.definesFile := FilePath.join_nil _
      simp only [injectDefines, if_neg hempty, hparse]
      rw [paths, List.map_append, hfiles, List.map_singleton, hheader]
  | error e =>
      simp only [injectDefines, if_neg hempty, hparse] at h
      cases h

/-- Where the files are after a conversion without faults. -/
theorem paths_convert (hread : (p.parse extensions).2 = [])
    (hdefines : (((p.parse extensions).1.edit context).1.injectDefines context).2 = none) :
    (((p.parse extensions).1.edit context).1.injectDefines context).1.paths
      = (p.files.map fun f => FilePath.components (f.target extensions))
        ++ if context.defines.isEmpty then [] else [FilePath.components context.definesFile] := by
  rw [paths_injectDefines hdefines, paths_edit_parse hread]

/-- Files that had different paths have different paths after a conversion, just if no file
that stays is where another goes, and none ends where the header of defined symbols is put. -/
theorem nodup_paths_convert_iff (hread : (p.parse extensions).2 = [])
    (hdefines : (((p.parse extensions).1.edit context).1.injectDefines context).2 = none)
    (hpaths : p.paths.Nodup) :
    (((p.parse extensions).1.edit context).1.injectDefines context).1.paths.Nodup ↔
      (∀ f ∈ p.files, f.moves extensions → ∀ g ∈ p.files, ¬ g.moves extensions →
        FilePath.components g.path ≠ FilePath.components (f.target extensions)) ∧
      (¬ context.defines.isEmpty → ∀ f ∈ p.files,
        FilePath.components (f.target extensions) ≠ FilePath.components context.definesFile) := by
  rw [paths_convert hread hdefines, ← nodup_map_target_iff hpaths]
  by_cases hempty : context.defines.isEmpty
  · simp only [hempty, if_true, List.append_nil, not_true, false_implies, and_true]
  · have hheader : FilePath.components context.definesFile ∉
          p.files.map (fun f => FilePath.components (f.target extensions)) ↔
        (¬ context.defines.isEmpty → ∀ f ∈ p.files,
          FilePath.components (f.target extensions) ≠ FilePath.components context.definesFile) := by
      simp [hempty]
    rw [if_neg hempty, ← List.concat_eq_append, List.nodup_concat, hheader, and_comm]

/-- A source and a header in one directory, which is spelled in two ways, with a symbol to
define. -/
theorem nodup_paths_convert_iff_header :
    let context : Context := { Context.empty with defines := ⟨[("DEBUG".toList, ['1'])]⟩ }
    let p : Project := ⟨[.unread "main.asm".toList "src".toList (Utf8.encode " nop".toList),
      .unread "main.inc".toList "src/./".toList []]⟩
    let edited := ((p.parse ["asm".toList]).1.edit context).1
    (p.parse ["asm".toList]).2 = [] ∧ (edited.injectDefines context).2 = none ∧ p.paths.Nodup ∧
      (edited.injectDefines context).1.paths.Nodup := by
  intro context p edited
  have hread : (p.parse ["asm".toList]).2 = [] := by decide +kernel
  have hdefines : (edited.injectDefines context).2 = none := by decide +kernel
  have hpaths : p.paths.Nodup := by decide
  refine ⟨hread, hdefines, hpaths, (nodup_paths_convert_iff hread hdefines hpaths).mpr ?_⟩
  decide

/-- A source and a file that is where the source goes. -/
theorem not_nodup_paths_convert :
    let p : Project := ⟨[.unread "a.asm".toList [] (Utf8.encode " nop".toList),
      .unread "a.s".toList [] (Utf8.encode "old".toList)]⟩
    let read := p.parse ["asm".toList]
    let edited := read.1.edit Context.empty
    let converted := edited.1.injectDefines Context.empty
    p.paths.Nodup ∧ read.2 = [] ∧ edited.2 = [] ∧ converted.2 = none ∧
      converted.1.paths = [["a.s".toList], ["a.s".toList]] ∧ ¬ converted.1.paths.Nodup := by
  decide +kernel

end Project

end PicAssembly
