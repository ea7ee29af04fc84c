import PicAssembly.Proofs.Project.DefinesHeader
import PicAssembly.Proofs.Project.Paths
import PicAssembly.Proofs.Text.Edges

/-!
# `PicAssembly.Proofs.Project.Independence`: each file for itself

What a conversion makes of a file depends on the file and the context, and on no other file:
`SourceFile.converted` is a function of one file, and `Project.getElem?_convert` finds its value
where the file was. A file without a program stays as it is through every step
(`SourceFile.edited_of_none`, `SourceFile.included_of_none`).

Which files are read and which are reported is said file by file, and not by the loop of the
reader: `Project.forall₂_files_parse` and `Project.forall₂_errors_parse`.
-/

set_option autoImplicit false

namespace PicAssembly

namespace SourceFile

/-! ### Which files are read -/

/-- The name has a point, and what follows the last one is an extension in the list, in any case
of ASCII letters. -/
def IsListed (extensions : List Text) (f : SourceFile) : Prop :=
  ∃ stem ending, f.name = stem ++ '.' :: ending ∧ '.' ∉ ending ∧
    ∃ extension ∈ extensions, Text.asciiLower ending = Text.asciiLower extension

/-- A file is read just if the program asks for its extension. -/
theorem isListed_iff {extensions : List Text} {f : SourceFile} :
    Project.isListed extensions f ↔ f.IsListed extensions := by
  simp only [Project.isListed, List.any_eq_true, hasExtension, Option.any_eq_true, IsListed,
    Prod.exists, Text.splitAtLast?_eq_some_iff, Text.sameIgnoringCase, beq_iff_eq]
  constructor
  · rintro ⟨extension, hextension, stem, ending, ⟨hname, hending⟩, hsame⟩
    exact ⟨stem, ending, hname, hending, extension, hextension, hsame⟩
  · rintro ⟨stem, ending, hname, hending, extension, hextension, hsame⟩
    exact ⟨extension, hextension, stem, ending, ⟨hname, hending⟩, hsame⟩

instance (extensions : List Text) : DecidablePred (IsListed extensions) :=
  fun _ => decidable_of_iff _ isListed_iff

/-- The file is to be read, and its text is none that can be. -/
def IsRejected (extensions : List Text) (f : SourceFile) : Prop :=
  f.IsListed extensions ∧ ¬ (Program.parse f.text).isOk

instance (extensions : List Text) : DecidablePred (IsRejected extensions) :=
  fun _ => inferInstanceAs (Decidable (_ ∧ _))

/-! ### What becomes of one file -/

variable (extensions : List Text) (context : Context) (layout : Layout) (f : SourceFile)

/-- The file after the reading. -/
def read : SourceFile :=
  if Project.isListed extensions f then (Outcome.ofExcept f f.parse).result else f

/-- The file after the edits. -/
def edited : SourceFile := if f.program.isSome then (Catalog.run context f).result else f

/-- The file with the header of defined symbols included. -/
def included : SourceFile :=
  if context.defines.isEmpty then f
  else f.mapProgram fun program =>
    ⟨Project.insertInclude (Project.definesInclude context) program.lines⟩

/-- The file after a conversion. -/
def converted : SourceFile :=
  (((f.read extensions).edited context).included context).unparse layout

variable {extensions context layout f}

/-- A file without a program is not edited. -/
theorem edited_of_none (h : f.program = none) : f.edited context = f := by
  rw [edited, h]
  rfl

/-- A file without a program gets no line for the header of defined symbols. -/
theorem included_of_none (h : f.program = none) : f.included context = f := by
  rw [included]
  split
  · rfl
  · rw [mapProgram, h, Option.map_none, ← h]

/-- A file without a program keeps its content. -/
theorem unparse_of_none (h : f.program = none) : f.unparse layout = f := by
  rw [unparse, h]

/-- The reading of a file that was not read before. -/
theorem read_of_isListed (h : f.IsListed extensions) :
    f.read extensions = match Program.parse f.text with
      | .ok program => { f with program := some program }
      | .error _ => f := by
  rw [read, if_pos (isListed_iff.mpr h), parse]
  cases Program.parse f.text with
  | ok program => rfl
  | error e => rfl

/-- A file that is not asked for is not read. -/
theorem read_of_not_isListed (h : ¬ f.IsListed extensions) : f.read extensions = f :=
  if_neg (mt isListed_iff.mp h)

/-- The reading leaves the bytes of a file and its place. -/
theorem read_eq : f.read extensions = { f with program := (f.read extensions).program } := by
  by_cases hlisted : f.IsListed extensions
  · rw [read_of_isListed hlisted]
    split <;> rfl
  · rw [read_of_not_isListed hlisted]

/-- A file without a program has one after the reading just if it is asked for and its text can be
read. -/
theorem program_read_eq_some_iff (h : f.program = none) {program : Program} :
    (f.read extensions).program = some program ↔
      f.IsListed extensions ∧ Program.parse f.text = .ok program := by
  by_cases hlisted : f.IsListed extensions
  · rw [read_of_isListed hlisted, and_iff_right hlisted]
    cases Program.parse f.text with
    | ok program' => simp
    | error e => simp [h]
  · rw [read_of_not_isListed hlisted, h]
    simp [hlisted]

/-- A file that has no program after the reading is as it was. -/
theorem read_eq_self_of_none (h : f.program = none) (hread : (f.read extensions).program = none) :
    f.read extensions = f := by
  rw [read_eq, hread, ← h]

/-- The error that the reading of a file gives. -/
def refusal? (extensions : List Text) (f : SourceFile) : Option FileError :=
  if Project.isListed extensions f then
    (Outcome.ofExcept f f.parse).fault.map (⟨f.path, ·⟩)
  else none

/-- A rejected file gives an error under its path, and any other file gives none. -/
theorem refusal?_cases (extensions : List Text) (f : SourceFile) :
    (f.IsRejected extensions ∧
      ∃ e, f.refusal? extensions = some ⟨f.path, e⟩ ∧ Program.parse f.text = .error e) ∨
    (¬ f.IsRejected extensions ∧ f.refusal? extensions = none) := by
  by_cases hlisted : f.IsListed extensions
  · rw [refusal?, if_pos (isListed_iff.mpr hlisted), parse, IsRejected, and_iff_right hlisted]
    cases Program.parse f.text with
    | ok program => exact .inr ⟨by simp [Except.isOk, Except.toBool], rfl⟩
    | error e => exact .inl ⟨by simp [Except.isOk, Except.toBool], e, rfl, rfl⟩
  · exact .inr ⟨fun h => hlisted h.1, if_neg (mt isListed_iff.mp hlisted)⟩

end SourceFile

namespace Project

variable {extensions : List Text} {context : Context} {layout : Layout} {p : Project}

/-- Reading the files of a project is reading each of them. -/
theorem files_parse : (p.parse extensions).1.files = p.files.map (·.read extensions) :=
  files_attemptAll

/-- Editing the files of a project is editing each of them. -/
theorem files_edit : (p.edit context).1.files = p.files.map (·.edited context) :=
  files_attemptAll

/-- The errors of the reading are those of the files, in the order of the files. -/
theorem errors_parse : (p.parse extensions).2 = p.files.filterMap (·.refusal? extensions) :=
  errors_attemptAll

/-- A file that is read keeps its bytes and its place, and it gets the program in its text. -/
theorem forall₂_files_parse (hp : ∀ f ∈ p.files, f.program = none) :
    List.Forall₂ (fun f g => g = { f with program := g.program } ∧ ∀ program,
      g.program = some program ↔ f.IsListed extensions ∧ Program.parse f.text = .ok program)
      p.files (p.parse extensions).1.files := by
  rw [files_parse, List.forall₂_map_right_iff, List.forall₂_same]
  exact fun f hf => ⟨SourceFile.read_eq, fun _ => SourceFile.program_read_eq_some_iff (hp f hf)⟩

/-- The errors of the reading are those of the rejected files, one for each and in order. -/
theorem forall₂_errors_parse (extensions : List Text) (p : Project) :
    List.Forall₂ (fun f e => e.path = f.path ∧ Program.parse f.text = .error e.error)
      (p.files.filter (·.IsRejected extensions)) (p.parse extensions).2 := by
  rw [errors_parse]
  induction p.files with
  | nil => exact .nil
  | cons f files ih =>
      obtain ⟨hrejected, e, hrefusal, hparse⟩ | ⟨haccepted, hrefusal⟩ :=
        SourceFile.refusal?_cases extensions f
      · rw [List.filter_cons_of_pos (by simpa using hrejected), List.filterMap_cons_some hrefusal]
        exact .cons ⟨rfl, hparse⟩ ih
      · rw [List.filter_cons_of_neg (by simpa using haccepted), List.filterMap_cons_none hrefusal]
        exact ih

/-- The files of `p` without a program are also files of `q`, at the same places. -/
def Untouched (p q : Project) : Prop :=
  ∀ (i : Nat) (f : SourceFile), p.files[i]? = some f → f.program = none → q.files[i]? = some f

/-- What neither of two steps touches is untouched by both. -/
theorem Untouched.trans {q r : Project} (h : p.Untouched q) (h' : q.Untouched r) :
    p.Untouched r :=
  fun i f hf hnone => h' i f (h i f hf hnone) hnone

/-- A step that changes every file on its own, and none without a program. -/
theorem untouched_of_files_eq {q : Project} {change : SourceFile → SourceFile}
    {headers : List SourceFile} (hfiles : q.files = p.files.map change ++ headers)
    (hchange : ∀ f : SourceFile, f.program = none → change f = f) : p.Untouched q := by
  intro i f hf hnone
  rw [getElem?_of_files_eq hfiles hf, hchange f hnone]

/-- The whole conversion, without a report of its faults. -/
def convert (extensions : List Text) (context : Context) (layout : Layout) (p : Project) :
    Project :=
  (((p.parse extensions).1.edit context).1.injectDefines context).1.unparse layout

/-- The header of defined symbols may come behind the files. -/
theorem exists_files_included (context : Context) (p : Project) :
    ∃ headers, (p.injectDefines context).1.files = p.files.map (·.included context) ++ headers := by
  by_cases hempty : context.defines.isEmpty
  · have hincluded : ∀ f ∈ p.files, f.included context = f := fun f _ => if_pos hempty
    refine ⟨[], ?_⟩
    rw [injectDefines, if_pos hempty, List.append_nil, List.map_congr_left hincluded, List.map_id']
  · have hincluded : ∀ f ∈ p.files, f.included context = f.mapProgram fun program =>
        ⟨insertInclude (definesInclude context) program.lines⟩ := fun f _ => if_neg hempty
    obtain ⟨headers, hfiles⟩ := exists_files_injectDefines p (Bool.eq_false_iff.mpr hempty)
    exact ⟨headers, by rw [hfiles, List.map_congr_left hincluded]⟩

/-- The reading touches only the files that it gives a program. -/
theorem untouched_parse (hp : ∀ f ∈ p.files, f.program = none) :
    (p.parse extensions).1.Untouched p := by
  intro i g hg hnone
  rw [files_parse, List.getElem?_map] at hg
  obtain ⟨f, hf, rfl⟩ := Option.map_eq_some_iff.mp hg
  rw [SourceFile.read_eq_self_of_none (hp f (List.mem_of_getElem? hf)) hnone]
  exact hf

/-- The edits touch only files with a program. -/
theorem untouched_edit : p.Untouched (p.edit context).1 :=
  untouched_of_files_eq (by rw [files_edit, List.append_nil]) fun _ => SourceFile.edited_of_none

/-- Adding the header of defined symbols touches only files with a program. The header itself comes
last, so all other files keep their places. -/
theorem untouched_injectDefines : p.Untouched (p.injectDefines context).1 := by
  obtain ⟨headers, hfiles⟩ := exists_files_included context p
  exact untouched_of_files_eq hfiles fun _ => SourceFile.included_of_none

/-- Writing programs over their files touches only files with a program. -/
theorem untouched_unparse : p.Untouched (p.unparse layout) :=
  untouched_of_files_eq (List.append_nil _).symm fun _ => SourceFile.unparse_of_none

/-- Every file is converted in its place. -/
theorem getElem?_convert {i : Nat} {f : SourceFile} (h : p.files[i]? = some f) :
    (p.convert extensions context layout).files[i]?
      = some (f.converted extensions context layout) := by
  obtain ⟨headers, hfiles⟩ :=
    exists_files_included context ((p.parse extensions).1.edit context).1
  rw [files_edit, files_parse, List.map_map, List.map_map] at hfiles
  rw [convert, unparse, List.getElem?_map, getElem?_of_files_eq hfiles h, Option.map_some]
  rfl

end Project

end PicAssembly
