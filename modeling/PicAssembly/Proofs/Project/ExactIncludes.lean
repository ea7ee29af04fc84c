import PicAssembly.Proofs.Project.IncludedFiles

/-!
# `PicAssembly.Proofs.Project.ExactIncludes`: includes that name a file as it is spelled

The spelling that an include gets is that of the first file of the project that is called alike
in any letter case (`Context.FirstAlike`). It is looked for even if the name is already spelled as
one of the files is. So an include of a file can be turned to another file, whose name has other
letters in upper case and comes earlier.

* `Edit.corresponds_exact_includes`: what becomes of an include that names a file as it is spelled,
  and when that is the file itself.
-/

set_option autoImplicit false

namespace PicAssembly

/-- The first of some names that is the given one in any letter case. -/
def Context.FirstAlike (files : List Text) (name first : Text) : Prop :=
  ∃ before after, files = before ++ first :: after ∧ Text.sameIgnoringCase first name ∧
    ∀ file ∈ before, ¬ Text.sameIgnoringCase file name

/-- The look-up of the project's spelling finds the first name that is alike. -/
theorem Context.projectFile?_eq_some_iff {context : Context} {name first : Text} :
    context.projectFile? name = some first ↔ FirstAlike context.files name first := by
  rw [projectFile?, List.find?_eq_some_iff_append]
  constructor
  · rintro ⟨hfirst, before, after, hfiles, hbefore⟩
    exact ⟨before, after, hfiles, hfirst, fun file hfile => by simpa using hbefore file hfile⟩
  · rintro ⟨before, after, hfiles, hfirst, hbefore⟩
    exact ⟨hfirst, before, after, hfiles, fun file hfile => by simpa using hbefore file hfile⟩

/-- A file of the project is called like itself, so there is a first one called so. -/
theorem Context.exists_firstAlike {context : Context} {name : Text} (h : name ∈ context.files) :
    ∃ first, FirstAlike context.files name first := by
  have hsome : (context.projectFile? name).isSome :=
    List.find?_isSome.mpr ⟨name, h, beq_self_eq_true (Text.asciiLower name)⟩
  obtain ⟨first, hfirst⟩ := Option.isSome_iff_exists.mp hsome
  exact ⟨first, projectFile?_eq_some_iff.mp hfirst⟩

namespace Include

variable {device : Option Text} {name first : Text}

/-- The name is that of the header of the device, in any letter case. -/
def IsDeviceHeader (device : Option Text) (name : Text) : Prop :=
  ∃ chip ∈ device, Text.sameIgnoringCase ('p' :: chip ++ ".inc".toList) name

/-- The letter case of quotes is that of what stands between them. -/
theorem sameIgnoringCase_quoted_iff {name name' : Text} :
    Text.sameIgnoringCase (quoted name) (quoted name') ↔ Text.sameIgnoringCase name name' := by
  simp [Text.sameIgnoringCase, Text.asciiLower, quoted]

/-- The header of the device is found under every spelling of its name. -/
theorem generalize_quoted_of_isDeviceHeader (hsame : Text.sameIgnoringCase first name)
    (h : IsDeviceHeader device name) : generalize device (quoted first) = deviceHeader := by
  obtain ⟨chip, hchip, hname⟩ := h
  rw [Option.mem_def.mp hchip]
  refine if_pos (sameIgnoringCase_quoted_iff.mpr ?_)
  exact beq_iff_eq.mpr ((beq_iff_eq.mp hname).trans (beq_iff_eq.mp hsame).symm)

/-- A name that is not the header of the device stays, in the spelling of the project. -/
theorem generalize_quoted_of_not_isDeviceHeader (hsame : Text.sameIgnoringCase first name)
    (h : ¬ IsDeviceHeader device name) : generalize device (quoted first) = quoted first := by
  cases device with
  | none => rfl
  | some chip =>
      refine if_neg fun hfirst => h ⟨chip, rfl, ?_⟩
      have hchip := sameIgnoringCase_quoted_iff.mp hfirst
      exact beq_iff_eq.mpr ((beq_iff_eq.mp hchip).trans (beq_iff_eq.mp hsame))

/-- The value still names the file `name`, or the header of all devices stands in its place because
the file is the header of the device. -/
def KeepsExact (device : Option Text) (name value : Text) : Prop :=
  value = quoted name ∨ IsDeviceHeader device name ∧ value = deviceHeader

/-- The name is kept just if it is the header of the device or spelled as it was. The spelling of
the project, which it has by now, is the first one that is alike. -/
theorem keepsExact_generalize_iff (hsame : Text.sameIgnoringCase first name) :
    KeepsExact device name (generalize device (quoted first))
      ↔ IsDeviceHeader device name ∨ first = name := by
  by_cases hdevice : IsDeviceHeader device name
  · rw [generalize_quoted_of_isDeviceHeader hsame hdevice]
    exact iff_of_true (.inr ⟨hdevice, rfl⟩) (.inl hdevice)
  · rw [generalize_quoted_of_not_isDeviceHeader hsame hdevice, KeepsExact, quoted_inj]
    constructor
    · rintro (hfirst | ⟨h, -⟩)
      · exact .inr hfirst
      · exact absurd h hdevice
    · rintro (h | hfirst)
      · exact absurd h hdevice
      · exact .inl hfirst

end Include

namespace Edit

/-- The includes of a program are converted without a fault. One that names a file of the project
as it is spelled becomes the header of all devices if the file is the header of the device, and
else it gets the name of the first file that is called alike in any letter case. So it still names
its file just if no other file is found before it. -/
theorem corresponds_exact_includes (context : Context) {file : SourceFile} {p : Program}
    (hp : file.program = some p) :
    ∃ p', includes.apply context file = .ok { file with program := some p' } ∧
      Corresponds (fun line block => ∀ d name, line = .directive d → d.isInclude →
        Include.Names d.value name → name ∈ context.files →
        ∃ first value, Context.FirstAlike context.files name first ∧
          block = [.directive { d with value }] ∧
          (Include.IsDeviceHeader p.device? name → value = Include.deviceHeader) ∧
          (¬ Include.IsDeviceHeader p.device? name → value = Include.quoted first) ∧
          (Include.KeepsExact p.device? name value
            ↔ Include.IsDeviceHeader p.device? name ∨ first = name)) p.lines p'.lines := by
  refine ⟨p.mapLines (Include.convertLine context p.device?), ?_, ?_⟩
  · exact congrArg (fun program => Except.ok { file with program })
      (congrArg (Option.map fun p => p.mapLines (Include.convertLine context p.device?)) hp)
  · refine .of_map ?_
    rintro _ - d name rfl hinclude hnames hmem
    obtain ⟨first, hfirst⟩ := Context.exists_firstAlike hmem
    have hsame : Text.sameIgnoringCase first name := by
      obtain ⟨_, _, -, hsame, -⟩ := hfirst
      exact hsame
    -- The name is one of the project, so the value is in quotes before the device is looked at.
    have hvalue : Include.converted context p.device? d.value
        = Include.generalize p.device? (Include.quoted first) :=
      Include.converted_of_names p.device? hnames (Context.projectFile?_eq_some_iff.mpr hfirst)
    refine ⟨first, Include.converted context p.device? d.value, hfirst, ?_, ?_, ?_, ?_⟩
    · rw [Include.convertLine, if_pos hinclude]
    · intro hdevice
      exact hvalue.trans (Include.generalize_quoted_of_isDeviceHeader hsame hdevice)
    · intro hdevice
      exact hvalue.trans (Include.generalize_quoted_of_not_isDeviceHeader hsame hdevice)
    · rw [hvalue]
      exact Include.keepsExact_generalize_iff hsame

/-- An include in angle brackets of the first of two files with alike names. -/
theorem corresponds_exact_includes_first :
    let p : Program := ⟨[.directive ⟨"#include".toList, "<test.h>".toList, none⟩]⟩
    let file : SourceFile := ⟨"main.asm".toList, [], [], some p⟩
    let context := { Context.empty with files := ["test.h".toList, "Test.h".toList] }
    Program.parse "#include <test.h>".toList = .ok p ∧
      ∃ p' value, includes.apply context file = .ok { file with program := some p' } ∧
        p'.lines = [.directive ⟨"#include".toList, value, none⟩] ∧
        Include.KeepsExact p.device? "test.h".toList value := by
  intro p file context
  have hp : file.program = some p := rfl
  obtain ⟨p', hp', hlines⟩ := corresponds_exact_includes context hp
  obtain ⟨first, value, hfirst, hblock, -, -, hkeeps⟩ :=
    Corresponds.singleton_iff.mp hlines _ "test.h".toList rfl rfl (.inr rfl) List.mem_cons_self
  have hproject : context.projectFile? "test.h".toList = some "test.h".toList := rfl
  rw [Context.projectFile?_eq_some_iff.mpr hfirst] at hproject
  exact ⟨rfl, p', value, hp', hblock, hkeeps.mpr (.inr (Option.some.inj hproject))⟩

/-- An include of the second of two files with alike names is turned to the first. -/
theorem not_keeps_exact_include :
    let p (value : Text) : Program := ⟨[.directive ⟨"#include".toList, value, none⟩]⟩
    let file : SourceFile :=
      ⟨"main.asm".toList, [], [], some (p (Include.quoted "test.h".toList))⟩
    let context := { Context.empty with files := ["Test.h".toList, "test.h".toList] }
    Program.parse "#include \"test.h\"".toList = .ok (p (Include.quoted "test.h".toList)) ∧
      "test.h".toList ∈ context.files ∧
      includes.apply context file
        = .ok { file with program := some (p (Include.quoted "Test.h".toList)) } ∧
      ¬ Include.KeepsExact (p (Include.quoted "test.h".toList)).device? "test.h".toList
        (Include.quoted "Test.h".toList) := by
  intro p file context
  refine ⟨rfl, List.mem_cons_of_mem _ List.mem_cons_self, rfl, ?_⟩
  rintro (hvalue | ⟨⟨chip, hchip, -⟩, -⟩)
  · exact absurd hvalue (by decide)
  · cases hchip

end Edit

end PicAssembly
