import Mathlib.Data.List.Forall2
import PicAssembly.Edit.ConfigWords
import PicAssembly.Proofs.Edit.OperandNames
import PicAssembly.Proofs.Operand.Nodes
import PicAssembly.Proofs.Operand.Words
import PicAssembly.Proofs.Program.Correspondence
import PicAssembly.Proofs.Program.RoundTrip

/-!
# `PicAssembly.Proofs.Edit.ConfigSettings`: configuration words and their settings

Every identifier of the form `_FLAG_VALUE` in the operands of a configuration word is a setting,
and becomes the operand `FLAG=VALUE`, in the order of the identifiers
(`ConfigWord.Translates`). The flag and the value are read as operands, and not every part of a
name is one: a keyword is none, and a part that begins with a digit may be none. The edit comes to
its end just if all parts are operands (`Edit.corresponds_settings_configWords`).
-/

set_option autoImplicit false

namespace PicAssembly

/-- The settings in the operands of a statement: one for each identifier of that form, from left
to right. -/
def Statement.settings (s : Statement) : List (Text × Text) :=
  (s.operands.flatMap Operand.names).filterMap ConfigWord.setting?

namespace ConfigWord

/-! ### Settings -/

/-- An identifier is a setting if it has an underscore in front of a flag, and one between the flag
and a value that has none. -/
theorem setting?_eq_some_iff {name flag value : Text} : setting? name = some (flag, value) ↔
    name = '_' :: (flag ++ '_' :: value) ∧ flag ≠ [] ∧ value ≠ [] ∧ '_' ∉ value := by
  have hparts : setting? name = some (flag, value) ↔
      (Text.dropFront? ['_'] name).bind (Text.splitAtLast? '_') = some (flag, value) ∧
        flag ≠ [] ∧ value ≠ [] := by
    rw [setting?]
    rcases (Text.dropFront? ['_'] name).bind (Text.splitAtLast? '_') with none | ⟨flag', value'⟩
    · simp
    · simp only [Option.ite_none_left_eq_some, Bool.or_eq_true, List.isEmpty_iff, not_or,
        Option.some_inj, Prod.mk.injEq]
      constructor
      · rintro ⟨hne, rfl, rfl⟩
        exact ⟨⟨rfl, rfl⟩, hne⟩
      · rintro ⟨⟨rfl, rfl⟩, hne⟩
        exact ⟨hne, rfl, rfl⟩
  -- What is left says where the text is cut.
  rw [hparts]
  simp only [Option.bind_eq_some_iff, Text.dropFront?_eq_some_iff, Text.splitAtLast?_eq_some_iff]
  constructor
  · rintro ⟨⟨_, rfl, rfl, hlast⟩, hflag, hvalue⟩
    exact ⟨rfl, hflag, hvalue, hlast⟩
  · rintro ⟨rfl, hflag, hvalue, hlast⟩
    exact ⟨⟨_, rfl, rfl, hlast⟩, hflag, hvalue⟩

/-- The walk over the operands meets all settings. -/
theorem settings_eq (s : Statement) : settings s.operands = s.settings := by
  rw [Statement.settings, ← Operand.filterMap_name?_outermostAll (.onLine 0) fun x _ =>
    Operand.filterMap_name?_outermost x _, List.filterMap_filterMap]
  rfl

/-- Both parts of a setting are words. -/
theorem isWordText_of_setting? {name : Text} {setting : Text × Text} (hname : Token.IsName name)
    (h : setting? name = some setting) :
    Token.IsWordText setting.1 ∧ Token.IsWordText setting.2 := by
  obtain ⟨rfl, hflag, hvalue, -⟩ := setting?_eq_some_iff.mp h
  exact ⟨⟨hflag, fun c hc => hname.2 c (List.mem_append_left _ hc)⟩,
    hvalue, fun c hc => hname.2 c (List.mem_append_right _ (List.mem_cons_of_mem _ hc))⟩

/-- The setting as it is written. -/
def spelled (setting : Text × Text) : Text := setting.1 ++ '=' :: setting.2

/-- The operand is the assignment of the value to the flag, and is printed like that. -/
def Assigns (setting : Text × Text) (x : Operand) : Prop :=
  ∃ l r, x = .assign .assign l r ∧ l.render = setting.1 ∧ r.render = setting.2 ∧
    x.render = spelled setting

/-- A flag and a value that are operands. -/
def IsReadable (setting : Text × Text) : Prop :=
  Operand.IsWord setting.1 ∧ Operand.IsWord setting.2

instance : DecidablePred IsReadable := fun _ => inferInstanceAs (Decidable (_ ∧ _))

/-- What a line becomes: a configuration word sets each of its settings, and every other line is
kept. -/
inductive Translates : Line → Line → Prop where
  | translated {s : Statement} {operands : List Operand} (hs : s.hasMnemonic "__CONFIG".toList)
      (hassigns : List.Forall₂ Assigns s.settings operands)
      (hrender : Operand.renderList operands = Text.join [',', ' '] (s.settings.map spelled)) :
      Translates (.statement s)
        (.statement { s with mnemonic := some "config".toList, operands })
  | kept {line : Line}
      (h : ∀ s, line = .statement s → s.hasMnemonic "__CONFIG".toList = false) :
      Translates line line

/-! ### One line -/

/-- A setting is read if both parts are operands, and only then. -/
theorem exists_parse_spelled_iff {setting : Text × Text}
    (h : Token.IsWordText setting.1 ∧ Token.IsWordText setting.2) :
    (∃ x, Operand.parse (spelled setting) = .ok x) ↔ IsReadable setting :=
  Operand.parse_assignment_iff h.1 h.2

/-- What is read from a setting assigns it. -/
theorem assigns_of_parse {setting : Text × Text} {x : Operand}
    (hsetting : Token.IsWordText setting.1 ∧ Token.IsWordText setting.2)
    (h : Operand.parse (spelled setting) = .ok x) : Assigns setting x := by
  obtain ⟨hflag, hvalue⟩ := (exists_parse_spelled_iff hsetting).mp ⟨x, h⟩
  obtain ⟨l, r, hparse, hl, hr, hrender⟩ := Operand.exists_parse_assignment hflag hvalue
  obtain rfl : Operand.assign .assign l r = x := Except.ok.inj (hparse.symm.trans h)
  exact ⟨l, r, rfl, hl, hr, hrender⟩

/-- Settings that are assigned are printed one after the other. -/
theorem renderList_of_assigns {settings : List (Text × Text)} {operands : List Operand}
    (h : List.Forall₂ Assigns settings operands) :
    Operand.renderList operands = Text.join [',', ' '] (settings.map spelled) := by
  have hrenders : operands.map Operand.render = settings.map spelled := by
    induction h with
    | nil => rfl
    | cons hassigns _ ih =>
        obtain ⟨_, _, _, _, _, hrender⟩ := hassigns
        rw [List.map_cons, List.map_cons, hrender, ih]
  rw [Operand.renderList, Operand.renderAll_eq_map, hrenders]

section

variable {s : Statement}

/-- The parts of the settings of a statement that was read are words. -/
theorem isWordText_of_mem_settings (hs : s.WellFormed) {setting : Text × Text}
    (h : setting ∈ s.settings) : Token.IsWordText setting.1 ∧ Token.IsWordText setting.2 := by
  rw [← settings_eq] at h
  obtain ⟨name, hname, hsetting⟩ :=
    exists_name_of_mem_settings h fun x hx => (hs.operands x hx).lexical
  exact isWordText_of_setting? hname hsetting

/-- The operands of a configuration word can be made just if all its settings are readable. -/
theorem exists_operandsOf_iff (hs : s.WellFormed) :
    (∃ operands, operandsOf s.operands = .ok operands) ↔
      ∀ setting ∈ s.settings, IsReadable setting := by
  rw [operandsOf, settings_eq, exists_mapM_eq_ok_iff]
  exact forall₂_congr fun setting hsetting =>
    exists_parse_spelled_iff (isWordText_of_mem_settings hs hsetting)

/-- The operands that are made assign the settings. -/
theorem assigns_of_operandsOf (hs : s.WellFormed) {operands : List Operand}
    (h : operandsOf s.operands = .ok operands) : List.Forall₂ Assigns s.settings operands := by
  rw [operandsOf, settings_eq] at h
  have hwords : ∀ setting ∈ s.settings,
      Token.IsWordText setting.1 ∧ Token.IsWordText setting.2 :=
    fun setting hsetting => isWordText_of_mem_settings hs hsetting
  exact ((List.forall₂_and_left _ _).mpr ⟨hwords, forall₂_of_mapM h⟩).imp fun _ _ h =>
    assigns_of_parse h.1 h.2

/-- A fault stops the edit at a configuration word that has a setting which is not readable. -/
theorem fault_convert_eq_none_iff (hs : s.WellFormed) : (convert (.statement s)).fault = none ↔
    (s.hasMnemonic "__CONFIG".toList → ∀ setting ∈ s.settings, IsReadable setting) := by
  rw [← exists_operandsOf_iff hs, convert]
  split
  · next hconfig =>
    cases operandsOf s.operands with
    | ok operands => exact iff_of_true rfl fun _ => ⟨operands, rfl⟩
    | error e => exact iff_of_false (by simp) fun h => by simpa using h hconfig
  · next hconfig => exact iff_of_true rfl fun h => absurd h hconfig

end

/-- A line that was read is translated, unless a fault stops the edit. -/
theorem translates_of_convert {line line' : Line} (hline : line.WellFormed)
    (h : convert line = .done line') : Translates line line' := by
  cases line with
  | directive d =>
      cases h
      exact .kept nofun
  | definition d =>
      cases h
      exact .kept nofun
  | statement s =>
      rw [convert] at h
      split at h
      · next hconfig =>
        split at h
        · next operands hoperands =>
          cases h
          -- The edit came to its end, so all settings of the line were read.
          have hassigns := assigns_of_operandsOf hline hoperands
          exact .translated hconfig hassigns (renderList_of_assigns hassigns)
        · cases h
      · next hconfig =>
        cases h
        refine .kept ?_
        rintro _ ⟨⟩
        exact Bool.not_eq_true _ ▸ hconfig

end ConfigWord

namespace Edit

open ConfigWord

/-- In a program that was read, the edit comes to its end just if the flags and the values of all
settings are operands, and then it has translated every line. -/
theorem corresponds_settings_configWords (context : Context) {text : Text} {p : Program}
    {file : SourceFile} (hparse : Program.parse text = .ok p) (hp : file.program = some p) :
    ((configWords.change context file).fault = none ↔
      ∀ s, .statement s ∈ p.lines → s.hasMnemonic "__CONFIG".toList →
        ∀ setting ∈ s.settings, IsReadable setting) ∧
    ∀ file', configWords.change context file = .done file' →
      ∃ p', file' = { file with program := some p' } ∧
        Corresponds (OneLine Translates) p.lines p'.lines := by
  have hwell : ∀ line ∈ p.lines, line.WellFormed := Program.wellFormed_of_parse hparse
  have hchange : configWords.change context file
      = ⟨{ file with program := some ⟨(Outcome.forEach convert p.lines).result⟩ },
        (Outcome.forEach convert p.lines).fault⟩ := by
    show SourceFile.changeProgram (Program.changeLines convert) file = _
    rw [SourceFile.changeProgram, hp]
    rfl
  rw [hchange]
  constructor
  · refine Outcome.fault_forEach_eq_none_iff.trans ?_
    -- Only statements can be stopped at.
    constructor
    · exact fun h s hs => (fault_convert_eq_none_iff (hwell _ hs)).mp (h _ hs)
    · intro h line hline
      cases line with
      | directive d => rfl
      | definition d => rfl
      | statement s => exact (fault_convert_eq_none_iff (hwell _ hline)).mpr (h s hline)
  · intro file' hdone
    obtain ⟨rfl, hfault⟩ := Outcome.eq_done_iff.mp hdone
    refine ⟨_, rfl, ?_⟩
    have hlines := Outcome.corresponds_of_forEach (Outcome.eq_done_iff.mpr ⟨rfl, hfault⟩)
    refine hlines.mono_of_mem fun line hline block => ?_
    rintro ⟨line', rfl, hconvert⟩
    exact ⟨line', rfl, translates_of_convert (hwell line hline) hconvert⟩

/-- Two settings, the second with a number for its value. -/
theorem corresponds_settings_configWords_numbered :
    let s : Statement := ⟨none, some "__Config".toList, [.identifier "_CONFIG1".toList,
      .binary .bitAnd (.identifier "_FOSC_HS".toList) (.identifier "_BORV_19".toList)], none⟩
    let file : SourceFile := ⟨"main.asm".toList, [], [], some ⟨[.statement s]⟩⟩
    Program.parse " __Config _CONFIG1, _FOSC_HS & _BORV_19".toList = .ok ⟨[.statement s]⟩ ∧
    ∃ operands p', p'.lines = [.statement { s with mnemonic := some "config".toList, operands }] ∧
      configWords.change .empty file = .done { file with program := some p' } ∧
      Operand.renderList operands = "FOSC=HS, BORV=19".toList := by
  intro s file
  have hparse : Program.parse " __Config _CONFIG1, _FOSC_HS & _BORV_19".toList
      = .ok ⟨[.statement s]⟩ := by decide +kernel
  have hp : file.program = some ⟨[.statement s]⟩ := rfl
  have hsettings : s.settings
      = [("FOSC".toList, "HS".toList), ("BORV".toList, "19".toList)] := by decide
  obtain ⟨hfault, htranslates⟩ := corresponds_settings_configWords .empty hparse hp
  -- There is one statement, and its settings can be read.
  have hreadable : ∀ s', .statement s' ∈ [Line.statement s] → s'.hasMnemonic "__CONFIG".toList →
      ∀ setting ∈ s'.settings, IsReadable setting := by
    rintro s' hs' -
    cases List.mem_singleton.mp hs'
    rw [hsettings]
    decide
  have hended := Outcome.eq_done_iff.mpr ⟨rfl, hfault.mpr hreadable⟩
  obtain ⟨p', hp', hlines⟩ := htranslates _ hended
  obtain ⟨line, hline, htranslated⟩ := Corresponds.singleton_iff.mp hlines
  cases htranslated with
  | @translated _ operands _ _ hrender =>
      refine ⟨hparse, operands, p', hline, hp' ▸ hended, ?_⟩
      rw [hrender, hsettings]
      decide
  | kept h => exact absurd (h s rfl) (by decide)

/-- A value that is a keyword is no operand, and stops the edit. -/
theorem not_translates_configWords :
    let s : Statement := ⟨none, some "__CONFIG".toList, [.identifier "_BORV_LOW".toList], none⟩
    let file : SourceFile := ⟨"main.asm".toList, [], [], some ⟨[.statement s]⟩⟩
    Program.parse " __CONFIG _BORV_LOW".toList = .ok ⟨[.statement s]⟩ ∧
      s.settings = [("BORV".toList, "LOW".toList)] ∧
      (configWords.apply .empty file).isOk = false := by
  intro s file
  exact ⟨by decide +kernel, by decide, by decide +kernel⟩

end Edit

end PicAssembly
