import PicAssembly.Project
import PicAssembly.Proofs.Edit.Running

/-!
# `PicAssembly.Proofs.Project.Files`: the files of a project one by one

The steps of a conversion change each file on its own, so the files of a project are changed
one by one (`Project.files_attemptAll`). The first edit gives a file its new name, and those
behind it leave the name and the directory alone, wherever a fault may stop them
(`Catalog.location_run`).
-/

set_option autoImplicit false

namespace PicAssembly

/-- The directory and the name of a file. -/
def SourceFile.location (file : SourceFile) : Text × Text := (file.dir, file.name)

/-- The edit leaves every file where it is and as it is called. -/
def Edit.KeepsLocation (edit : Edit) : Prop :=
  ∀ context file, (edit.change context file).result.location = file.location

namespace Edit

/-- An edit of programs leaves files where they are and as they are called. -/
theorem keepsLocation_ofProgram (name : Text) (change : Context → Program → Program) :
    (ofProgram name change).KeepsLocation :=
  fun _ _ => rfl

/-- So does an edit of programs that a fault may stop. -/
theorem keepsLocation_changeProgram {edit : Edit} (change : Context → Program → Outcome Program)
    (hedit : ∀ context, edit.change context = SourceFile.changeProgram (change context)) :
    edit.KeepsLocation := by
  intro context file
  rw [hedit, SourceFile.changeProgram]
  split
  · rfl
  · rfl

/-- The edit of sections, which needs the name of its file, does not change it. -/
theorem keepsLocation_sections : sections.KeepsLocation := fun _ _ => rfl

end Edit

namespace Catalog

open Edit

/-- All edits but the first leave files where they are. The first gives sources their new ending. -/
theorem keepsLocation_of_mem : ∀ edit ∈ edits.tail, edit.KeepsLocation := by
  simp only [edits, List.tail_cons, List.forall_mem_cons, List.not_mem_nil, false_implies,
    implies_true, and_true]
  exact ⟨keepsLocation_ofProgram _ _, keepsLocation_ofProgram _ _, keepsLocation_ofProgram _ _,
    keepsLocation_changeProgram _ fun _ => rfl, keepsLocation_sections,
    keepsLocation_ofProgram _ _, keepsLocation_changeProgram _ fun _ => rfl,
    keepsLocation_ofProgram _ _, keepsLocation_ofProgram _ _, keepsLocation_ofProgram _ _,
    keepsLocation_ofProgram _ _, keepsLocation_ofProgram _ _⟩

/-- Edits give a file its new name and leave it in its directory. -/
theorem location_run (context : Context) (file : SourceFile) :
    (run context file).result.location = (file.dir, SourceFile.convertedName file.name) := by
  have hedits : edits = .fileNames :: edits.tail := rfl
  rw [run, hedits, runAll, Outcome.andThen]
  exact runAll_eq_of_keeps (fun edit h file => keepsLocation_of_mem edit h context file) _

end Catalog

namespace Project

variable {choose : SourceFile → Bool} {change : SourceFile → Outcome SourceFile} {p : Project}

/-- A change to some files leaves the others as they were, and every file in its place. -/
theorem files_attemptAll :
    (p.attemptAll choose change).1.files
      = p.files.map fun file => if choose file then (change file).result else file := by
  rw [attemptAll, List.map_map]
  refine List.map_congr_left fun file _ => ?_
  rw [Function.comp]
  split <;> rfl

/-- The errors come from the files that are chosen, in order. -/
theorem errors_attemptAll :
    (p.attemptAll choose change).2 = p.files.filterMap fun file =>
      if choose file then (change file).fault.map (⟨file.path, ·⟩) else none := by
  rw [attemptAll]
  dsimp only
  rw [List.filterMap_map]
  refine congrArg (List.filterMap · p.files) (funext fun file => ?_)
  rw [Function.comp]
  split <;> rfl

/-- Where every file is changed on its own, a changed file is where the file was. -/
theorem getElem?_of_files_eq {q : Project} {f : SourceFile → SourceFile} {added : List SourceFile}
    (hfiles : q.files = p.files.map f ++ added) {i : Nat} {file : SourceFile}
    (h : p.files[i]? = some file) : q.files[i]? = some (f file) := by
  obtain ⟨hi, -⟩ := List.getElem?_eq_some_iff.mp h
  rw [hfiles, List.getElem?_append_left (by rwa [List.length_map]), List.getElem?_map, h,
    Option.map_some]

/-- Without a fault in the project there is none in a file. -/
theorem fault_eq_none (h : (p.attemptAll choose change).2 = []) {file : SourceFile}
    (hfile : file ∈ p.files) (hchoose : choose file) : (change file).fault = none := by
  have hnone := List.filterMap_eq_nil_iff.mp h _ (List.mem_map_of_mem hfile)
  rw [if_pos hchoose] at hnone
  exact Option.map_eq_none_iff.mp hnone

end Project

end PicAssembly
