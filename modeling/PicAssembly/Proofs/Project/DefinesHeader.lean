import PicAssembly.Proofs.Project.IncludedFiles

/-!
# `PicAssembly.Proofs.Project.DefinesHeader`: which files include the header of defined symbols

The header of defined symbols goes right behind the first header in angle brackets. That one is
looked for when the edits are done, and by then every header is in quotes but the one for all
devices (`Include.bracketed_converted_iff`). So the header of defined symbols reaches the files
that include the header of the device that their own `list` statement names, and besides these
only files that include it themselves (`Project.includes_injectDefines_iff`).
-/

set_option autoImplicit false

namespace PicAssembly

/-! ### The values of includes -/

/-- The value of the line if it includes a header. -/
def Line.included? : Line → Option Text
  | .directive d => if d.isInclude then some d.value else none
  | _ => none

/-- The values of the lines that include headers, in their order. -/
def Program.includes (p : Program) : List Text := p.lines.filterMap Line.included?

/-- The block of a line includes what the line does. -/
def KeepsIncludes : BlockRelation :=
  fun line block => block.filterMap Line.included? = [line].filterMap Line.included?

/-- A line includes what it does. -/
theorem keepsIncludes_refl (line : Line) : KeepsIncludes line [line] := rfl

/-- Where every line keeps what it includes, the values of all includes stay, in their order. -/
theorem filterMap_included?_of_corresponds {before after : List Line}
    (h : Corresponds KeepsIncludes before after) :
    after.filterMap Line.included? = before.filterMap Line.included? := by
  induction h with
  | nil => rfl
  | cons h _ ih => rw [List.filterMap_append, h, ih, ← List.filterMap_append, List.singleton_append]

/-- Two edits that keep includes keep them together. -/
theorem keepsIncludes_trans (line : Line) (block : List Line)
    (h : Via KeepsIncludes KeepsIncludes line block) : KeepsIncludes line block := by
  obtain ⟨middle, hfirst, hrest⟩ := h
  exact (filterMap_included?_of_corresponds hrest).trans hfirst

namespace Include

/-- The edit of includes converts the value of a line that includes a header, and does nothing to
other lines. -/
theorem included?_convertLine (context : Context) (device : Option Text) (line : Line) :
    (convertLine context device line).included?
      = line.included?.map (converted context device) := by
  cases line with
  | directive d =>
      rw [convertLine]
      by_cases h : d.isInclude
      · have h' (value : Text) : Directive.isInclude { d with value } := h
        rw [if_pos h, Line.included?, Line.included?, if_pos h, if_pos (h' _), Option.map_some]
      · rw [if_neg h, Line.included?, if_neg h, Option.map_none]
  | definition d => rfl
  | statement s => rfl

/-- The edit of includes converts all values of a program, each by itself. -/
theorem includes_mapLines_convertLine (context : Context) (device : Option Text) (p : Program) :
    (p.mapLines (convertLine context device)).includes
      = p.includes.map (converted context device) := by
  rw [Program.includes, Program.mapLines, List.filterMap_map, Program.includes,
    List.map_filterMap]
  congr 1
  funext line
  exact included?_convertLine context device line

end Include

namespace Catalog

/-- Wherever a fault stops the edits, the program includes what the conversion of includes makes
of its includes. -/
theorem includes_run (context : Context) {file : SourceFile} {program : Program}
    (hprogram : file.program = some program) :
    ∃ program', (run context file).result.program = some program' ∧
      program'.includes = program.includes.map (Include.converted context program.device?) := by
  have hbehind : ∀ edit ∈ edits.drop 2, edit.Respects context KeepsIncludes := by
    refine Edit.respects_behindIncludes keepsIncludes_refl (fun _ _ => rfl) fun s block hblock => ?_
    refine List.filterMap_eq_nil_iff.mpr fun line hline => ?_
    cases line with
    | directive d => rw [Line.included?, hblock d hline]; rfl
    | definition d => rfl
    | statement s => rfl
  obtain ⟨included, hincluded, hrun⟩ := exists_run_eq context hprogram
  obtain ⟨program', hprogram', hlines⟩ :=
    respects_runAll keepsIncludes_refl keepsIncludes_trans hbehind hincluded
  refine ⟨program', hrun ▸ hprogram', ?_⟩
  rw [Program.includes, filterMap_included?_of_corresponds hlines]
  exact Include.includes_mapLines_convertLine context program.device? program

end Catalog

/-! ### Headers in angle brackets -/

namespace Include

variable {context : Context} {device : Option Text} {value : Text}

/-- The value begins and ends with angle brackets. -/
def Bracketed (value : Text) : Prop := value.head? = some '<' ∧ value.getLast? = some '>'

/-- A name in quotes is in no angle brackets. -/
theorem not_bracketed_quoted (name : Text) : ¬ Bracketed (quoted name) :=
  fun h => absurd (Option.some.inj h.1) (by decide)

/-- What stands in angle brackets names a file. -/
theorem exists_names_of_bracketed (h : Bracketed value) : ∃ name, Names value name := by
  obtain ⟨hhead, hlast⟩ := h
  obtain ⟨rest, rfl⟩ := List.head?_eq_some_iff.mp hhead
  obtain ⟨front, hfront⟩ := List.getLast?_eq_some_iff.mp hlast
  cases front with
  | nil => cases hfront
  | cons c name =>
      obtain ⟨rfl, rfl⟩ := List.cons.inj hfront
      exact ⟨name, .inr rfl⟩

/-- Where angle brackets are taken away, none are left. -/
theorem not_bracketed_unbracket (value : Text) : ¬ Bracketed (unbracket value) := by
  by_cases h : Bracketed value
  · obtain ⟨name, hname⟩ := exists_names_of_bracketed h
    rw [unbracket_of_names hname]
    exact not_bracketed_quoted name
  · rw [unbracket]
    split
    · exact not_bracketed_quoted _
    · exact h

/-- The spelling of the project puts no angle brackets around a value. -/
theorem not_bracketed_respell (h : ¬ Bracketed value) : ¬ Bracketed (respell context value) := by
  rw [respell]
  split
  · split
    · exact h
    · exact not_bracketed_quoted _
  · exact h

/-- The value names the header of the device, in the form in which it is converted. -/
def NamesDevice (context : Context) (device : Option Text) (value : Text) : Prop :=
  ∃ name, device = some name ∧
    Text.sameIgnoringCase (quoted ('p' :: name ++ ".inc".toList))
      (respell context (unbracket value))

/-- The header of the device is the only one in angle brackets after a conversion. -/
theorem bracketed_converted_iff :
    Bracketed (converted context device value) ↔ NamesDevice context device value := by
  -- Brackets are taken away, and only the header of the device gets them back.
  have hplain : ¬ Bracketed (respell context (unbracket value)) :=
    not_bracketed_respell (not_bracketed_unbracket value)
  rw [converted]
  cases device with
  | none =>
      refine iff_of_false hplain ?_
      rintro ⟨_, hname, _⟩
      cases hname
  | some name =>
      by_cases hsame : Text.sameIgnoringCase (quoted ('p' :: name ++ ".inc".toList))
        (respell context (unbracket value))
      · rw [generalize, if_pos hsame]
        exact iff_of_true ⟨rfl, rfl⟩ ⟨name, rfl, hsame⟩
      · rw [generalize, if_neg hsame]
        refine iff_of_false hplain ?_
        rintro ⟨_, hname, hsame'⟩
        cases hname
        exact hsame hsame'

end Include

namespace Project

/-- The line that the header of defined symbols goes behind includes a header in angle brackets. -/
theorem isBracketedInclude_iff {line : Line} :
    isBracketedInclude line ↔ ∃ value, line.included? = some value ∧ Include.Bracketed value := by
  cases line with
  | directive d =>
      rw [isBracketedInclude, Line.included?]
      by_cases h : d.isInclude <;> simp [h, Include.Bracketed]
  | definition d => simp [isBracketedInclude, Line.included?]
  | statement s => simp [isBracketedInclude, Line.included?]

/-- Every line stays, and the new one is there if some line includes a header in angle brackets. -/
theorem mem_insertInclude {line line' : Line} {lines : List Line} :
    line' ∈ insertInclude line lines ↔
      line' ∈ lines ∨ line' = line ∧ ∃ header ∈ lines, isBracketedInclude header := by
  induction lines with
  | nil => simp [insertInclude]
  | cons first rest ih =>
      rw [insertInclude]
      by_cases h : isBracketedInclude first
      · have hheader : ∃ header ∈ first :: rest, isBracketedInclude header :=
          ⟨first, List.mem_cons_self, h⟩
        rw [if_pos h, and_iff_left hheader, List.mem_cons, List.mem_cons, List.mem_cons, or_assoc,
          or_comm (a := line' = line)]
      · have hheader : (∃ header ∈ first :: rest, isBracketedInclude header)
            ↔ ∃ header ∈ rest, isBracketedInclude header := by simp [h]
        rw [if_neg h, hheader, List.mem_cons, ih, List.mem_cons, or_assoc]

/-- A line that includes a header is put in where one is in angle brackets. -/
theorem mem_includes_insertInclude {line : Line} {name value : Text} {program : Program}
    (hline : line.included? = some name) :
    value ∈ (Program.mk (insertInclude line program.lines)).includes ↔
      value ∈ program.includes ∨
        value = name ∧ ∃ header ∈ program.includes, Include.Bracketed header := by
  have hheader : (∃ header ∈ program.lines, isBracketedInclude header)
      ↔ ∃ header ∈ program.includes, Include.Bracketed header := by
    simp only [isBracketedInclude_iff, Program.includes, List.mem_filterMap]
    grind
  simp only [Program.includes, List.mem_filterMap, mem_insertInclude, hheader]
  grind

section

variable {context : Context} {p : Project} {i : Nat} {f : SourceFile} {program : Program}

/-- The files stay in their places, and the header comes last if it can be read. -/
theorem exists_files_injectDefines (p : Project) (hdefines : context.defines.isEmpty = false) :
    ∃ headers, (p.injectDefines context).1.files = p.files.map (·.mapProgram fun program =>
      ⟨insertInclude (definesInclude context) program.lines⟩) ++ headers := by
  cases hparse : (definesHeader context).parse with
  | ok header => exact ⟨[header], by simp [injectDefines, hdefines, hparse]⟩
  | error e => exact ⟨[], by simp [injectDefines, hdefines, hparse]⟩

/-- With symbols to define, the line is put into each file with a program, at the place of the
file. -/
theorem getElem?_injectDefines (hdefines : context.defines.isEmpty = false)
    (hf : p.files[i]? = some f) :
    (p.injectDefines context).1.files[i]? = some (f.mapProgram fun program =>
      ⟨insertInclude (definesInclude context) program.lines⟩) := by
  obtain ⟨headers, hfiles⟩ := exists_files_injectDefines p hdefines
  exact getElem?_of_files_eq hfiles hf

/-- A file that was read includes the header of defined symbols in the end if and only if it
includes the header of its device, or a header that is converted to this one. -/
theorem includes_injectDefines_iff {extensions : List Text}
    (hdefines : context.defines.isEmpty = false)
    (hf : (p.parse extensions).1.files[i]? = some f) (hprogram : f.program = some program) :
    ∃ g program', (((p.parse extensions).1.edit context).1.injectDefines context).1.files[i]?
        = some g ∧ g.program = some program' ∧
      (Include.quoted context.definesFile ∈ program'.includes ↔
        ∃ value ∈ program.includes, Include.NamesDevice context program.device? value ∨
          Include.converted context program.device? value
            = Include.quoted context.definesFile) := by
  have hedit := getElem?_edit context hf
  rw [if_pos (Option.isSome_iff_exists.mpr ⟨program, hprogram⟩)] at hedit
  obtain ⟨edited, hedited, hincludes⟩ := Catalog.includes_run context hprogram
  refine ⟨_, _, getElem?_injectDefines hdefines hedit, congrArg (Option.map _) hedited, ?_⟩
  have hline : (definesInclude context).included? = some (Include.quoted context.definesFile) :=
    rfl
  -- The headers in angle brackets are by then those that stand for the device.
  have hheader : (∃ header ∈ program.includes.map (Include.converted context program.device?),
      Include.Bracketed header)
        ↔ ∃ value ∈ program.includes, Include.NamesDevice context program.device? value := by
    constructor
    · rintro ⟨header, hheader, hbracketed⟩
      obtain ⟨value, hvalue, rfl⟩ := List.mem_map.mp hheader
      exact ⟨value, hvalue, Include.bracketed_converted_iff.mp hbracketed⟩
    · rintro ⟨value, hvalue, hdevice⟩
      exact ⟨_, List.mem_map_of_mem hvalue, Include.bracketed_converted_iff.mpr hdevice⟩
  rw [mem_includes_insertInclude hline, hincludes, and_iff_right rfl, hheader, List.mem_map,
    or_comm, ← exists_or]
  simp only [and_or_left]

end

/-- A source that includes the header of its device. -/
theorem includes_injectDefines_iff_device :
    let context : Context := { Context.empty with defines := ⟨[("DEBUG".toList, ['1'])]⟩ }
    let text := " list p=16f877\n#include <P16F877.INC>".toList
    let p : Project := ⟨[.unread "main.asm".toList [] (Utf8.encode text)]⟩
    let program : Program := ⟨[.statement ⟨none, some "list".toList,
        [.assign .assign (.identifier ['p']) (.chipId "16f877".toList)], none⟩,
      .directive ⟨"#include".toList, "<P16F877.INC>".toList, none⟩]⟩
    let read := (p.parse ["asm".toList]).1
    context.defines.isEmpty = false ∧
      read.files[0]? = some ⟨"main.asm".toList, [], Utf8.encode text, some program⟩ ∧
      ∃ g program', ((read.edit context).1.injectDefines context).1.files[0]? = some g ∧
        g.program = some program' ∧ Include.quoted "defines.inc".toList ∈ program'.includes := by
  intro context text p program read
  have hdefines : context.defines.isEmpty = false := rfl
  have hf : read.files[0]? = some ⟨"main.asm".toList, [], Utf8.encode text, some program⟩ := by
    decide +kernel
  obtain ⟨g, program', hg, hprogram', hiff⟩ := includes_injectDefines_iff hdefines hf rfl
  have hvalue : "<P16F877.INC>".toList ∈ program.includes := by decide +kernel
  have hdevice : Include.NamesDevice context program.device? "<P16F877.INC>".toList :=
    ⟨"16f877".toList, by decide +kernel, by decide +kernel⟩
  exact ⟨hdefines, hf, g, program', hg, hprogram', hiff.mpr ⟨_, hvalue, .inl hdevice⟩⟩

/-- A source with a header in angle brackets that is not the one of its device. -/
theorem not_includes_injectDefines :
    let context : Context := { Context.empty with defines := ⟨[(['A'], ['1'])]⟩ }
    let p : Project := ⟨[.unread "main.asm".toList [] (Utf8.encode "#include <foo.inc>".toList)]⟩
    let read := p.parse ["asm".toList]
    let edited := read.1.edit context
    let converted := edited.1.injectDefines context
    read.2 = [] ∧ edited.2 = [] ∧ converted.2 = none ∧
      (read.1.files.head?.bind SourceFile.program).map Program.includes
        = some ["<foo.inc>".toList] ∧
      (converted.1.files.head?.bind SourceFile.program).map Program.includes
        = some [Include.quoted "foo.inc".toList] ∧
      Include.quoted context.definesFile ∉ [Include.quoted "foo.inc".toList] := by
  decide +kernel

end Project

end PicAssembly
