import Mathlib.Data.List.Forall2
import PicAssembly.Operand.Printer
import PicAssembly.Proofs.Edit.Reach
import PicAssembly.Proofs.Edit.Renaming

/-!
# `PicAssembly.Proofs.Edit.DeviceName`: the device that a program is for

A `list` statement names the device with an operand `p=16f877`. Some devices are read as
numbers, since only the letter case tells them apart, and numbers are spelled anew.

* `Catalog.deviceSetting_of_apply`: without new names for identifiers, all edits together do to
  such an operand of the first `list` statement just what the edit of numbers does to its value.
  So it is printed as before unless it is a number that the conversion spells in another way.
* `Catalog.not_keeps_deviceSetting`: `p=16F877` is such a number.
-/

set_option autoImplicit false

namespace PicAssembly

/-! ### Settings -/

namespace Operand

/-- A setting with a value that may be the name of a device. -/
inductive SetsDevice : Operand → Prop where
  | chipId (name text : Text) : SetsDevice (.assign .assign (.identifier name) (.chipId text))
  | number (name : Text) (value : Nat) (radix : Radix) (literal : Text) :
      SetsDevice (.assign .assign (.identifier name) (.number value radix literal))

/-- A setting with its value spelled anew. -/
def respellSetting : Operand → Operand
  | .assign op name value => .assign op name value.respell
  | operand => operand

/-- A device name or a number on the right side makes a setting of a device, whatever is set. -/
theorem setsDevice_of_kind (name : Text) {value : Operand}
    (h : value.kind = .chipId ∨ value.kind = .number) :
    SetsDevice (.assign .assign (.identifier name) value) := by
  cases value with
  | chipId text => exact .chipId name text
  | number v radix literal => exact .number name v radix literal
  | _ => simp [kind] at h

/-- A setting is printed as before only if its value is spelled as before. -/
theorem render_respellSetting_iff (name : Text) {value : Operand}
    (h : value.kind = .chipId ∨ value.kind = .number) :
    render (.assign .assign (.identifier name) value.respell)
      = render (.assign .assign (.identifier name) value) ↔ value.respell = value := by
  cases value with
  | chipId text => exact iff_of_true rfl rfl
  | number v radix literal =>
      have hleaf (literal : Text) :
          render (.assign .assign (.identifier name) (.number v radix literal))
            = name ++ AssignOp.assign.lexeme ++ literal := rfl
      rw [respell, hleaf, hleaf, List.append_cancel_left_eq, number.injEq]
      simp
  | _ => simp [kind] at h

namespace SetsDevice

variable {x : Operand}

/-- Spelling the value anew leaves a setting of a device. -/
theorem respellSetting (h : SetsDevice x) : SetsDevice x.respellSetting := by
  cases h with
  | chipId name text => exact .chipId name text
  | number name value radix literal => exact .number name value radix _

/-- Spelling all numbers anew changes a setting in its value only. -/
theorem replaceIn_number (h : SetsDevice x) (place : Place) :
    replaceIn .number (fun _ node => node.respell) place x = x.respellSetting := by
  cases h <;> rfl

/-- There is no prefix operator in a setting of a device, so taking pound signs away leaves it
alone. -/
theorem replaceIn_unary (h : SetsDevice x) (f : Place → Operand → Operand) (place : Place) :
    replaceIn .unary f place x = x := by
  cases h <;> rfl

end SetsDevice

end Operand

/-! ### `list` statements -/

/-- The statement, if the line is a `list` statement. -/
def Line.list? (line : Line) : Option Statement :=
  line.statement?.filter (·.hasMnemonic "list".toList)

/-- The `list` statements among the lines are those that the device name is looked for in. -/
theorem Program.filterMap_list? (p : Program) :
    p.lines.filterMap Line.list? = p.withMnemonic "list".toList := by
  rw [withMnemonic, statements, List.filter_filterMap]
  rfl

/-- The operands that set a device are where they were, with a change made to them. -/
def Statement.KeepsDevice (change : Operand → Operand) (s s' : Statement) : Prop :=
  ∀ (i : Nat) (x : Operand), s.operands[i]? = some x → x.SetsDevice →
    s'.operands[i]? = some (change x)

/-- Every `list` statement has become one by the relation `S`, and no other line has. -/
def Listing (S : Statement → Statement → Prop) : BlockRelation :=
  fun line block => List.Forall₂ S ([line].filterMap Line.list?) (block.filterMap Line.list?)

/-- Over the whole program each `list` statement has become one by the relation. -/
theorem Corresponds.forall₂_lists {S : Statement → Statement → Prop} {before after : List Line}
    (h : Corresponds (Listing S) before after) :
    List.Forall₂ S (before.filterMap Line.list?) (after.filterMap Line.list?) := by
  induction h with
  | nil => exact .nil
  | @cons line block before after h rest ih =>
      rw [← List.singleton_append, List.filterMap_append, List.filterMap_append]
      exact List.rel_append h ih

namespace Listing

variable {S T U : Statement → Statement → Prop} {line : Line} {block : List Line}

/-- One change of the `list` statements after another. -/
theorem of_via (hcomp : ∀ s t u, S s t → T t u → U s u)
    (h : Via (Listing S) (Listing T) line block) : Listing U line block := by
  have hlists {before middle after : List Statement} (h : List.Forall₂ S before middle)
      (h' : List.Forall₂ T middle after) : List.Forall₂ U before after := by
    induction h generalizing after with
    | nil =>
        cases h'
        exact .nil
    | cons hS _ ih =>
        cases h' with
        | cons hT rest => exact .cons (hcomp _ _ _ hS hT) (ih rest)
  obtain ⟨middle, hfirst, hrest⟩ := h
  exact hlists hfirst hrest.forall₂_lists

/-- Where there is no `list` statement, none comes. -/
theorem of_none (h : line.list? = none) (h' : ∀ line' ∈ block, line'.list? = none) :
    Listing S line block := by
  rw [Listing, List.filterMap_cons_none h, List.filterMap_eq_nil_iff.mpr h']
  exact .nil

/-- A `list` statement with other operands. -/
theorem of_operands {s : Statement} {operands : List Operand}
    (hS : S s { s with operands }) :
    Listing S (.statement s) [.statement { s with operands }] := by
  by_cases hlist : s.hasMnemonic "list".toList
  · have hline : Line.list? (.statement s) = some s := if_pos hlist
    have hline' : Line.list? (.statement { s with operands }) = some { s with operands } :=
      if_pos hlist
    rw [Listing, List.filterMap_cons_some hline, List.filterMap_cons_some hline']
    exact .cons hS .nil
  · exact of_none (if_neg hlist) (List.forall_mem_singleton.mpr (if_neg hlist))

/-- A statement with another mnemonic is no `list` statement. -/
theorem list?_eq_none {s : Statement} {m : Text} (hs : s.hasMnemonic m)
    (hm : Text.sameIgnoringCase m "list".toList = false) : Line.list? (.statement s) = none := by
  have hlist : s.hasMnemonic "list".toList = false :=
    (Statement.hasMnemonic_eq_of_hasMnemonic hs _).trans hm
  exact if_neg (Bool.eq_false_iff.mp hlist)

/-- A line in the place of a statement with another mnemonic. -/
theorem of_hasMnemonic {s : Statement} {m : Text} {line' : Line} (hs : s.hasMnemonic m)
    (hm : Text.sameIgnoringCase m "list".toList = false) (h' : line'.list? = none) :
    Listing S (.statement s) [line'] :=
  .of_none (list?_eq_none hs hm) (List.forall_mem_singleton.mpr h')

/-- A line that is left alone keeps its `list` statement, if the relation allows that. -/
theorem refl (hS : ∀ s, S s s) (line : Line) : Listing S line [line] := by
  cases line with
  | directive d => exact of_none rfl (List.forall_mem_singleton.mpr rfl)
  | definition d => exact of_none rfl (List.forall_mem_singleton.mpr rfl)
  | statement s => exact of_operands (hS s)

end Listing

/-! ### The catalog -/

namespace Statement

/-- A statement that is left alone has its settings unchanged. -/
theorem keepsDevice_refl (s : Statement) : s.KeepsDevice id s := fun _ _ h _ => h

/-- Two changes to the settings of a device, one after the other, are their composite. The first
must leave settings of a device, or the second would not apply to them. -/
theorem KeepsDevice.trans {f g : Operand → Operand} {s t u : Statement}
    (h : s.KeepsDevice f t) (h' : t.KeepsDevice g u)
    (hf : ∀ x, Operand.SetsDevice x → Operand.SetsDevice (f x)) : s.KeepsDevice (g ∘ f) u :=
  fun i x hx hdevice => h' i (f x) (h i x hx hdevice) (hf x hdevice)

/-- Replacing the nodes of a kind goes through the operands one by one. -/
theorem keepsDevice_replaceIn {kind : Operand.Kind} {f : Place → Operand → Operand}
    {change : Operand → Operand}
    (h : ∀ place x, Operand.SetsDevice x → Operand.replaceIn kind f place x = change x)
    (s : Statement) (index : Nat) : s.KeepsDevice change (s.replaceIn kind f index) := by
  intro i x hx hdevice
  rw [replaceIn, List.getElem?_map, hx, Option.map_some, h _ x hdevice]

end Statement

namespace Edit

variable {context : Context}

/-- Declaring sections leaves `list` statements alone: a section has another mnemonic. -/
theorem respects_listing_sections :
    sections.Respects context (Listing (Statement.KeepsDevice id)) := by
  refine respects_sections fun stem line => ?_
  cases line with
  | directive d => exact .refl Statement.keepsDevice_refl _
  | definition d => exact .refl Statement.keepsDevice_refl _
  | statement s =>
      -- A statement has one mnemonic, so one that opens a section is no `list` statement.
      have hnone (hsection : s.isSection) : Line.list? (.statement s) = none := by
        rcases Bool.or_eq_true_iff.mp hsection with hs | hs
        · exact Listing.list?_eq_none hs rfl
        · exact Listing.list?_eq_none hs rfl
      obtain ⟨-, hlines⟩ | ⟨hsection, -, operands, hlines⟩ |
        ⟨hfixed, label, operands, address, hlines⟩ := Section.convert_statement_cases stem s
      · rw [hlines]
        exact .refl Statement.keepsDevice_refl _
      · rw [hlines]
        exact .of_none (hnone hsection) (List.forall_mem_singleton.mpr rfl)
      · rw [hlines]
        refine .of_none (hnone (Statement.isSection_of_isFixedCode hfixed)) ?_
        exact List.forall_mem_cons.mpr ⟨rfl, List.forall_mem_singleton.mpr rfl⟩

/-- Spelling numbers anew changes the settings of devices in their values only. -/
theorem respects_listing_numbers :
    numbers.Respects context (Listing (Statement.KeepsDevice Operand.respellSetting)) := by
  refine respects_mapLines fun p line => ?_
  cases line with
  | directive d => exact .of_none rfl (List.forall_mem_singleton.mpr rfl)
  | definition d => exact .of_none rfl (List.forall_mem_singleton.mpr rfl)
  | statement s =>
      refine .of_operands ?_
      rw [Operand.respellAll, Operand.replaceOutermost_eq_map]
      exact s.keepsDevice_replaceIn (fun place x hx => hx.replaceIn_number place) 0

/-- The edits behind that of numbers keep the settings of the device. -/
theorem respects_listing (hnames : context.replacements.entries = []) :
    ∀ edit ∈ [externs, configWords, sections, reservations, bitNames, fixedAddresses, identifiers,
      fsrAdditions, conditionals, carryAdditions],
      edit.Respects context (Listing (Statement.KeepsDevice id)) := by
  have hrefl : ∀ line, Listing (Statement.KeepsDevice id) line [line] :=
    .refl Statement.keepsDevice_refl
  -- Most edits change the statements with one mnemonic, and that is never `list`.
  simp only [List.forall_mem_cons, List.not_mem_nil, false_implies, implies_true, and_true]
  refine ⟨?externs, ?configWords, respects_listing_sections, ?reservations, ?bitNames,
    ?fixedAddresses, ?identifiers, ?fsrAdditions, ?conditionals, ?carryAdditions⟩
  case externs => exact respects_mapMnemonic hrefl fun s hs => .of_hasMnemonic hs rfl rfl
  case configWords => exact respects_configWords hrefl fun s _ hs => .of_hasMnemonic hs rfl rfl
  case reservations => exact respects_mapMnemonic hrefl fun s hs => .of_hasMnemonic hs rfl rfl
  case bitNames =>
    refine respects_bitNames hrefl (fun s operands comment hs => ?_)
      (fun d operands => .of_none rfl (List.forall_mem_singleton.mpr rfl))
    obtain ⟨m, hm, hs⟩ := List.any_eq_true.mp hs
    have hlist : ∀ m ∈ BitName.instructions, Text.sameIgnoringCase m "list".toList = false := by
      decide
    exact .of_hasMnemonic hs (hlist m hm) (Listing.list?_eq_none hs (hlist m hm))
  case fixedAddresses =>
    refine respects_replaceOutermost hrefl fun s index => .of_operands ?_
    exact s.keepsDevice_replaceIn (fun place x hx => hx.replaceIn_unary _ place) index
  case identifiers => exact respects_identifiers hrefl (List.isEmpty_iff.mpr hnames)
  case fsrAdditions =>
    exact respects_mapMnemonic hrefl fun s hs =>
      .of_hasMnemonic hs rfl (Listing.list?_eq_none hs rfl)
  case conditionals =>
    exact respects_conditionals hrefl (fun s _ hs => .of_hasMnemonic hs rfl rfl)
      (fun s hs => .of_hasMnemonic hs rfl rfl)
  case carryAdditions =>
    refine respects_carryAdditions hrefl fun s operands hs => ?_
    rcases hs with hs | hs
    · exact .of_hasMnemonic hs rfl (Listing.list?_eq_none hs rfl)
    · exact .of_hasMnemonic hs rfl (Listing.list?_eq_none hs rfl)

end Edit

namespace Catalog

/-- All edits together keep the settings of the device, with their numbers spelled anew. -/
theorem turns_listing {context : Context} (hnames : context.replacements.entries = []) :
    Turns context edits (Listing (Statement.KeepsDevice Operand.respellSetting)) := by
  have hrefl : ∀ line, Listing (Statement.KeepsDevice id) line [line] :=
    .refl Statement.keepsDevice_refl
  have htrans : ∀ line block, Via (Listing (Statement.KeepsDevice id))
      (Listing (Statement.KeepsDevice id)) line block →
        Listing (Statement.KeepsDevice id) line block :=
    fun _ _ => .of_via fun _ _ _ h h' => h.trans h' fun _ hx => hx
  -- Only the edit of numbers changes settings, so the edits are taken in three parts.
  have hfront : Turns context [.fileNames, .includes] (Listing (Statement.KeepsDevice id)) := by
    refine turns_of_respects hrefl htrans <| List.forall_mem_cons.mpr
      ⟨Edit.respects_fileNames hrefl, List.forall_mem_singleton.mpr ?_⟩
    exact Edit.respects_includes hrefl fun _ _ _ =>
      .of_none rfl (List.forall_mem_singleton.mpr rfl)
  have hnumbers : Turns context [.numbers]
      (Listing (Statement.KeepsDevice Operand.respellSetting)) :=
    turns_singleton Edit.respects_listing_numbers
  have hback := turns_of_respects hrefl htrans (Edit.respects_listing hnames)
  refine (hfront.append (hnumbers.append hback)).mono ?_
  rintro line block ⟨middle, hfirst, hrest⟩
  have hrest : Corresponds (Listing (Statement.KeepsDevice Operand.respellSetting)) middle block :=
    hrest.mono fun _ _ => .of_via fun _ _ _ h h' => h.trans h' fun _ hx => hx.respellSetting
  exact .of_via (fun _ _ _ h h' => h.trans h' fun _ hx => hx) ⟨middle, hfirst, hrest⟩

/-- The value that the first `list` statement sets with such an operand is respelled where it
is, and the operand is printed as before unless that is another spelling. -/
theorem deviceSetting_of_apply {context : Context} {file file' : SourceFile} {p : Program}
    {s : Statement} {i : Nat} {name : Text} {value : Operand}
    (hnames : context.replacements.entries = []) (hp : file.program = some p)
    (hs : (p.withMnemonic "list".toList).head? = some s)
    (hoperand : s.operands[i]? = some (.assign .assign (.identifier name) value))
    (hvalue : value.kind = .chipId ∨ value.kind = .number) (h : apply context file = .ok file') :
    ∃ p' s', file'.program = some p' ∧ (p'.withMnemonic "list".toList).head? = some s' ∧
      s'.operands[i]? = some (.assign .assign (.identifier name) value.respell) ∧
      (Operand.render (.assign .assign (.identifier name) value.respell)
        = Operand.render (.assign .assign (.identifier name) value) ↔ value.respell = value) := by
  have hsets := Operand.setsDevice_of_kind name hvalue
  obtain ⟨p', hp', hlines⟩ := turns_listing hnames file file' p hp (Outcome.toExcept_eq_ok_iff.mp h)
  have hlists := hlines.forall₂_lists
  rw [p.filterMap_list?, p'.filterMap_list?] at hlists
  -- The first `list` statement stays the first, since the statements correspond one by one.
  obtain ⟨rest, hrest⟩ := List.head?_eq_some_iff.mp hs
  rw [hrest] at hlists
  obtain ⟨s', rest', hkeeps, -, hrest'⟩ := List.forall₂_cons_left_iff.mp hlists
  exact ⟨p', s', hp', by rw [hrest', List.head?_cons], hkeeps i _ hoperand hsets,
    Operand.render_respellSetting_iff name hvalue⟩

/-- A device in lower case, behind another setting. -/
theorem deviceSetting_of_apply_chipId :
    let setting : Operand := .assign .assign (.identifier ['p']) (.chipId "16f877".toList)
    let s : Statement := ⟨none, some "LIST".toList,
      [.assign .assign (.identifier ['r']) (.identifier "dec".toList), setting], none⟩
    let file : SourceFile := ⟨"a.asm".toList, [], [], some ⟨[.statement s]⟩⟩
    let file' : SourceFile := ⟨"a.s".toList, [], [], some ⟨[.statement s]⟩⟩
    apply Context.empty file = .ok file' ∧ ∃ p' s', file'.program = some p' ∧
      (p'.withMnemonic "list".toList).head? = some s' ∧ s'.operands[1]? = some setting := by
  intro setting s file file'
  have hrun : run Context.empty file = .done file' := by decide +kernel
  have happly := Outcome.toExcept_eq_ok_iff.mpr hrun
  have hoperand : s.operands[1]? = some setting := rfl
  obtain ⟨p', s', hp', hs', hoperand', -⟩ :=
    deviceSetting_of_apply rfl rfl rfl hoperand (.inl rfl) happly
  exact ⟨happly, p', s', hp', hs', hoperand'⟩

/-- In upper case the name of the device is read as a number, and is printed as another. -/
theorem not_keeps_deviceSetting :
    let line (value : Operand) : Line := .statement ⟨none, some "list".toList,
      [.assign .assign (.identifier ['p']) value], none⟩
    let value : Operand := .number 0x16F877 .hexadecimal "16F877".toList
    Program.parse " list p=16F877".toList = .ok ⟨[line value]⟩ ∧
      apply Context.empty ⟨"main.asm".toList, [], [], some ⟨[line value]⟩⟩
        = .ok ⟨"main.s".toList, [], [], some ⟨[line value.respell]⟩⟩ ∧
      Operand.render value = "16F877".toList ∧
      Operand.render value.respell = "0x16F877".toList := by
  intro line value
  have hrun : run Context.empty ⟨"main.asm".toList, [], [], some ⟨[line value]⟩⟩
      = .done ⟨"main.s".toList, [], [], some ⟨[line value.respell]⟩⟩ := by decide +kernel
  exact ⟨rfl, Outcome.toExcept_eq_ok_iff.mpr hrun, rfl, rfl⟩

end Catalog

end PicAssembly
