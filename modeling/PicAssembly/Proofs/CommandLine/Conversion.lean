import PicAssembly.CommandLine.Converter
import PicAssembly.Proofs.CommandLine.Sessions
import PicAssembly.Proofs.Project.Independence

/-!
# `PicAssembly.Proofs.CommandLine.Conversion`: a conversion writes all files or none

The command puts together the context of a conversion, converts the project, and writes the files
at the end. All before that only reads (`Converter.reads_contextOf`), so a fault in a file leaves
the files of the sandbox alone (`Converter.serve_of_faults`).

* `Converter.files_independent`: the files of a conversion, and what a fault in one of them does.
-/

set_option autoImplicit false

namespace PicAssembly

namespace Project

/-- The faults of a conversion, in the order in which they are reported. -/
def faults (extensions : List Text) (context : Context) (p : Project) : List FileError :=
  (p.parse extensions).2 ++ ((p.parse extensions).1.edit context).2 ++
    (((p.parse extensions).1.edit context).1.injectDefines context).2.toList

/-- Members that stand in the order of their names are taken in this order. -/
theorem inOrder_of_pairwise {members : List (Text × Except PathFault (List SourceFile))}
    (h : members.Pairwise fun a b => !List.lex b.1 a.1) :
    inOrder members = (members.mapM Prod.snd).map List.flatten := by
  rw [inOrder, List.mergeSort_of_pairwise h]
  cases members.mapM Prod.snd <;> rfl

end Project

namespace CommandLine

namespace Converter

open Session

variable {s : Sandbox}

/-- Reading the pairs in a text changes no file: it may report malformed lines. -/
theorem reads_pairsOf (least : Log.Level) (text : Text) :
    Reads (pairsOf Sandbox.host least text) s :=
  (Reads.report least _).bind fun _ => .pure _

/-- Reading the pairs in a file changes no file, also where the file cannot be read and the session
ends. -/
theorem reads_pairsIn (least : Log.Level) (path : Option Text) :
    Reads (pairsIn Sandbox.host least path) s := by
  cases path with
  | none => exact .pure []
  | some path =>
      refine (Answers.readText path).reads.bind fun text => ?_
      cases text with
      | error fault => exact (Answers.fail least _).reads
      | ok text =>
          exact (reads_pairsOf least text).bind fun pairs => (Reads.report least _).bind fun _ =>
            .pure pairs

/-- To put together the context of a conversion is to read files, and to write none. -/
theorem reads_contextOf (least : Log.Level) (request : Request) :
    Reads (contextOf Sandbox.host least request) s :=
  (reads_pairsIn least _).bind fun _ => (Reads.mapM (reads_pairsOf least) _).bind fun _ =>
    (reads_pairsIn least _).bind fun _ => (Reads.mapM (reads_pairsOf least) _).bind fun _ =>
      (Reads.report least _).bind fun _ => .pure _

/-- A fault in a file ends the session before any file is written. -/
theorem serve_of_faults {request : Request} {entry : Entry} {p : Project} {context : Context}
    (hentry : s.folder? request.input = some entry)
    (hproject : Project.ofEntry request.input entry = .ok p)
    (hcontext : ((contextOf Sandbox.host (.ofVerbosity request.verbosity) request).run.run s).1
      = .ok context)
    (hfaults : p.faults request.extensions { context with files := p.fileNames } ≠ []) :
    Answers (serve Sandbox.host request) s (.error ()) := by
  have hcontext := (reads_contextOf (.ofVerbosity request.verbosity) request).answers hcontext
  have hsome : !(p.faults request.extensions { context with files := p.fileNames }).isEmpty := by
    simpa using hfaults
  -- The session finds the directory, its project and the context that are given.
  refine .bind (.report _ _) (.bind (.folder? request.input) ?_)
  rw [hentry]
  dsimp only
  rw [hproject]
  dsimp only
  refine .bind (.report _ _) (.bind hcontext (.bind (.report _ _) (.bind (.report _ _) ?_)))
  -- It goes on to write files only where there are no faults.
  split
  · exact .bind_error (.fail _ _) _
  · next hnone => exact absurd hsome hnone

/-- The files of a conversion are independent: which of them are read and which are reported is a
matter of each file, those without a program stay as they are, and what becomes of a file is the
same among other files and in another place. If there is any fault, then the command writes
nothing and fails. -/
theorem files_independent (extensions : List Text) (context : Context) (layout : Layout)
    {p : Project} (hp : ∀ f ∈ p.files, f.program = none) :
    let read := (p.parse extensions).1
    List.Forall₂ (fun f g => g = { f with program := g.program } ∧ ∀ program,
      g.program = some program ↔ f.IsListed extensions ∧ Program.parse f.text = .ok program)
      p.files read.files ∧
    List.Forall₂ (fun f e => e.path = f.path ∧ Program.parse f.text = .error e.error)
      (p.files.filter (·.IsRejected extensions)) (p.parse extensions).2 ∧
    (read.Untouched p ∧ read.Untouched (read.edit context).1 ∧
      read.Untouched ((read.edit context).1.injectDefines context).1 ∧
      read.Untouched (p.convert extensions context layout)) ∧
    (∀ (q : Project) (i j : Nat) (f : SourceFile), p.files[i]? = some f → q.files[j]? = some f →
      ∃ g, (p.convert extensions context layout).files[i]? = some g ∧
        (q.convert extensions context layout).files[j]? = some g) ∧
    ∀ (s : Sandbox) (request : Request) (entry : Entry) (q : Project) (given : Context),
      s.folder? request.input = some entry → Project.ofEntry request.input entry = .ok q →
      ((contextOf Sandbox.host (.ofVerbosity request.verbosity) request).run.run s).1
        = .ok given →
      q.faults request.extensions { given with files := q.fileNames } ≠ [] →
      ∃ output errorOutput, (Session.exitCode (serve Sandbox.host request)).run s
        = (1, { s with output, errorOutput }) := by
  intro read
  -- What no step touches is untouched by the steps in a row.
  have hedited : read.Untouched (read.edit context).1 := Project.untouched_edit
  have hincluded : read.Untouched ((read.edit context).1.injectDefines context).1 :=
    hedited.trans Project.untouched_injectDefines
  refine ⟨Project.forall₂_files_parse hp, Project.forall₂_errors_parse extensions p,
    ⟨Project.untouched_parse hp, hedited, hincluded, hincluded.trans Project.untouched_unparse⟩,
    ?_, ?_⟩
  · intro q i j f hi hj
    exact ⟨_, Project.getElem?_convert hi, Project.getElem?_convert hj⟩
  · intro s request entry q given hentry hproject hcontext hfaults
    exact (serve_of_faults hentry hproject hcontext hfaults).exitCode_eq_one

/-- Of two sources one is rejected. The other is converted as in another project, and a third file
stays, but none of them is written. -/
theorem files_independent_rejected :
    let file (name text : Text) : SourceFile := .unread name [] (Utf8.encode text)
    let good := file "a.asm".toList " nop".toList
    let bad := file "b.asm".toList " dw (1".toList
    let other := file "c.txt".toList "keep".toList
    let p : Project := ⟨[good, bad, other]⟩
    let q : Project := ⟨[file "c.txt".toList "lose".toList, good]⟩
    let convert := Project.convert ["ASM".toList] .empty .converted
    let entry : Entry := .folder (p.files.map fun f => (f.name, Entry.file f.content))
    let s : Sandbox := ⟨.folder [("in".toList, entry)], [], [], []⟩
    let request : Request :=
      ⟨"in".toList, "out".toList, 0, ["ASM".toList], none, [], none, [], Context.defaultDefinesFile,
        false⟩
    (p.parse ["ASM".toList]).2.map FileError.path = ["b.asm".toList] ∧
      (∃ g, (convert p).files[0]? = some g ∧ (convert q).files[1]? = some g) ∧
      (convert p).files[2]? = some other ∧
      ∃ output errorOutput, (Session.exitCode (serve Sandbox.host request)).run s
        = (1, { s with output, errorOutput }) := by
  intro file good bad other p q convert entry s request
  have hp : ∀ f ∈ p.files, f.program = none := by decide +kernel
  have hrejected : p.files.filter (·.IsRejected ["ASM".toList]) = [bad] := by decide +kernel
  have hentry : s.folder? request.input = some entry := by rfl
  have hproject : Project.ofEntry request.input entry = .ok p := by
    rw [Project.ofEntry, Project.inOrder_of_pairwise (by decide)]
    rfl
  have hcontext : ((contextOf Sandbox.host (.ofVerbosity request.verbosity) request).run.run s).1
      = .ok .empty := by decide +kernel
  have hfaults : p.faults request.extensions { Context.empty with files := p.fileNames } ≠ [] := by
    decide +kernel
  obtain ⟨-, herrors, ⟨-, -, -, hkept⟩, hsame, hserve⟩ :=
    files_independent ["ASM".toList] .empty .converted hp
  -- The one file that is rejected is the one with an error.
  rw [hrejected] at herrors
  obtain ⟨e, rest, ⟨hpath, -⟩, hrest, herrors⟩ := List.forall₂_cons_left_iff.mp herrors
  cases hrest
  refine ⟨?_, hsame q 0 1 good rfl rfl, hkept 2 other (by decide +kernel) rfl,
    hserve s request entry p _ hentry hproject hcontext hfaults⟩
  rw [herrors, List.map_singleton, hpath]
  rfl

end Converter

end CommandLine

end PicAssembly
