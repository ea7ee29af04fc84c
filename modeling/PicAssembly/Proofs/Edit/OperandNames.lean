import PicAssembly.Proofs.Edit.Frames
import PicAssembly.Proofs.Operand.Names

/-!
# `PicAssembly.Proofs.Edit.OperandNames`: what edits do to the names in operands

Most edits leave the names in operands as they are, or put plain ones in their place. Of those
that need no new names from outside, one can bring names into disorder: an operand that had its
names in order keeps them so without its pound signs, just if none of these was before a
keyword (`Operand.lexical_replaceIn_withoutPound`).

The operands of configuration words are read anew from parts of names
(`ConfigWord.lexical_of_operandsOf`).
-/

set_option autoImplicit false

namespace PicAssembly

namespace Operand

/-- Spelling numbers anew leaves names alone. -/
theorem lexical_replaceIn_respell (x : Operand) (place : Place) :
    (replaceIn .number (fun _ node => node.respell) place x).Lexical ↔ x.Lexical := by
  induction x using induct generalizing place with
  | number => exact iff_of_true (.number ..) (.number ..)
  | string | chipId | programCounter | identifier => exact Iff.rfl
  | unary op spelling x ih =>
      rw [replaceIn_unary _ _ (by decide), lexical_unary_iff, ih, name?_replaceIn_respell,
        ← lexical_unary_iff]
  | stepped op x ih => simp [replaceIn_stepped, ih]
  | binary op x y ihx ihy => simp [replaceIn_binary, ihx, ihy]
  | assign op x y ihx ihy => simp [replaceIn_assign, ihx, ihy]
  | call callee args ihcallee ihargs => simp +contextual [replaceIn_call, ihcallee, ihargs]

/-- Numbers stand under no pound sign as keywords do, so spelling them anew hides no keyword. -/
theorem poundsKeyword_replaceIn_respell (x : Operand) (place : Place) :
    (replaceIn .number (fun _ node => node.respell) place x).PoundsKeyword
      ↔ x.PoundsKeyword := by
  induction x using induct generalizing place with
  | number => exact iff_of_false (fun h => nomatch h) fun h => nomatch h
  | string | chipId | programCounter | identifier => exact Iff.rfl
  | unary op spelling x ih =>
      rw [replaceIn_unary _ _ (by decide), poundsKeyword_unary_iff, name?_replaceIn_respell,
        ← poundsKeyword_unary_iff]
  | stepped op x ih => simp [replaceIn_stepped, ih]
  | binary op x y ihx ihy => simp [replaceIn_binary, ihx, ihy]
  | assign op x y ihx ihy => simp [replaceIn_assign, ihx, ihy]
  | call callee args ihcallee ihargs =>
      rw [replaceIn_call _ _ (by decide), poundsKeyword_call_iff, ihcallee,
        poundsKeyword_call_iff]
      simp only [List.mem_map, exists_exists_and_eq_and]
      exact or_congr_right <| exists_congr fun arg => and_congr_right fun harg =>
        ihargs arg harg _

/-- Taking pound signs away uncovers the keywords behind them, and nothing else. -/
theorem lexical_replaceIn_withoutPound {x : Operand} (h : x.Lexical) (place : Place) :
    (replaceIn .unary (fun _ node => node.withoutPound) place x).Lexical
      ↔ ¬ x.PoundsKeyword := by
  induction h generalizing place with
  | number | string | chipId | programCounter =>
      exact iff_of_true (by constructor) fun h => nomatch h
  | identifier h => exact iff_of_true (.identifier h) fun h => nomatch h
  | @pound name spelling h =>
      show (Operand.identifier name).Lexical ↔ _
      simp [poundsKeyword_unary_iff, IsPlainName, h, name?]
  | @unary op spelling x h ih =>
      by_cases hop : op = .pound
      -- What is bared is in order by itself, so it is no keyword.
      · subst hop
        refine iff_of_true h fun hpounds => ?_
        obtain ⟨-, name, hname, hkeyword⟩ := poundsKeyword_unary_iff.mp hpounds
        rw [name?_eq_some_iff.mp hname, lexical_identifier_iff] at h
        exact hkeyword h.2
      · have hkeeps : (Operand.unary op spelling x).withoutPound = .unary op spelling x := by
          cases op <;> first | rfl | exact absurd rfl hop
        show (Operand.unary op spelling x).withoutPound.Lexical ↔ _
        rw [hkeeps]
        exact iff_of_true (.unary op spelling h) fun hpounds =>
          hop (poundsKeyword_unary_iff.mp hpounds).1
  | stepped op h ih => simp [replaceIn_stepped, ih]
  | binary op hx hy ihx ihy => simp [replaceIn_binary, ihx, ihy]
  | assign op hx hy ihx ihy => simp [replaceIn_assign, ihx, ihy]
  | call hcallee hargs ihcallee ihargs => simp +contextual [replaceIn_call, ihcallee, ihargs]

/-- What is bared of pound signs to an identifier has a name. -/
theorem isName_of_replaceIn_withoutPound {x : Operand} (h : x.Lexical) {place : Place}
    {name : Text}
    (hx : replaceIn .unary (fun _ node => node.withoutPound) place x = .identifier name) :
    Token.IsName name := by
  cases h with
  | identifier h =>
      cases hx
      exact h.1
  | pound spelling h =>
      cases hx
      exact h
  | @unary op spelling x h =>
      have hx : (Operand.unary op spelling x).withoutPound = .identifier name := hx
      cases op <;> cases hx
      exact (lexical_identifier_iff.mp h).1
  | number | string | chipId | programCounter => cases hx
  | stepped op h => simp [replaceIn_stepped] at hx
  | binary op hx' hy => simp [replaceIn_binary] at hx
  | assign op hx' hy => simp [replaceIn_assign] at hx
  | call hcallee hargs => simp [replaceIn_call] at hx

/-- What is visited in several operands is visited in one of them. -/
theorem mem_outermostAll_iff {kind : Kind} {place : Place} {operands : List Operand}
    {visit : Place × Operand} : visit ∈ outermostAll kind place operands
      ↔ ∃ x ∈ operands, visit ∈ outermost kind place x := by
  induction operands with
  | nil => simp [outermostAll]
  | cons x operands ih => simp [outermostAll, ih]

/-- A walk over the identifiers of an operand meets names. -/
theorem isName_of_mem_outermost {x : Operand} (h : x.Lexical) {place : Place}
    {visit : Place × Operand} (hvisit : visit ∈ outermost .identifier place x) {name : Text}
    (hname : visit.2.name? = some name) : Token.IsName name := by
  induction h generalizing place with
  | number | string | chipId | programCounter => simp [outermost, kind] at hvisit
  | identifier h =>
      simp only [outermost, kind, if_true, List.mem_singleton] at hvisit
      subst hvisit
      cases hname
      exact h.1
  -- A pound sign is no identifier, so the walk goes on to the name behind it.
  | pound spelling h =>
      simp only [outermost, kind, reduceCtorEq, if_true, if_false, List.mem_singleton] at hvisit
      subst hvisit
      cases hname
      exact h
  | unary op spelling h ih =>
      simp only [outermost, kind, reduceCtorEq, if_false] at hvisit
      exact ih hvisit
  | stepped op h ih =>
      simp only [outermost, kind, reduceCtorEq, if_false] at hvisit
      exact ih hvisit
  | binary op hx hy ihx ihy =>
      simp only [outermost, kind, reduceCtorEq, if_false, List.mem_append] at hvisit
      exact hvisit.elim ihx ihy
  | assign op hx hy ihx ihy =>
      simp only [outermost, kind, reduceCtorEq, if_false, List.mem_append] at hvisit
      exact hvisit.elim ihx ihy
  | call hcallee hargs ihcallee ihargs =>
      simp only [outermost, kind, reduceCtorEq, if_false, List.mem_append,
        mem_outermostAll_iff] at hvisit
      rcases hvisit with hvisit | ⟨arg, harg, hvisit⟩
      · exact ihcallee hvisit
      · exact ihargs arg harg hvisit

end Operand

namespace Instruction

open Operand (IsPlainName)

/-- The name of a pointer register is no keyword. -/
theorem keyword?_of_fsrDigit? {name : Text} {digit : Char} (h : fsrDigit? name = some digit) :
    UnaryOp.keyword? name = none := by
  rw [fsrDigit?] at h
  split at h
  · next hsame =>
    have hfront : (Text.asciiLower name).take 3 = "fsr".toList := by
      rw [Text.asciiLower, ← List.map_take]
      exact beq_iff_eq.mp hsame
    have hwords : ∀ word ∈ ["high".toList, "low".toList, "upper".toList],
        word.take 3 ≠ "fsr".toList := by decide
    exact UnaryOp.keyword?_eq_none_iff.mpr fun hword => hwords _ hword hfront
  · cases h

/-- The number of a pointer register has no name in it, and the name in its place was a plain one,
so the others decide as before. -/
theorem lexical_numberFsr {operands : List Operand}
    (h : ∀ name, .identifier name ∈ operands → Token.IsName name) :
    (∀ x ∈ numberFsr operands, x.Lexical) ↔ ∀ x ∈ operands, x.Lexical := by
  unfold numberFsr
  split
  · next name _ _ _ =>
    split
    · next hdigit =>
      have hname : IsPlainName name := ⟨h name List.mem_cons_self, keyword?_of_fsrDigit? hdigit⟩
      simp [hname, Operand.Lexical.number]
    · rfl
  · rfl

/-- The letter for a destination is a plain name, as was what it stands for. -/
theorem lexical_nameDestination (operands : List Operand) :
    (∀ x ∈ nameDestination operands, x.Lexical) ↔ ∀ x ∈ operands, x.Lexical := by
  have hfile : IsPlainName ['f'] := by decide
  unfold nameDestination
  split
  · next source destination =>
    by_cases h : source = destination <;> simp [h, hfile]
  · rfl

end Instruction

namespace ConfigWord

/-- A setting is read from parts of a name, so there is no pound sign in it. -/
theorem pound_not_mem_of_setting? {name flag value : Text} (hname : Token.IsName name)
    (h : setting? name = some (flag, value)) : '#' ∉ flag ++ '=' :: value := by
  rw [setting?] at h
  split at h
  · next flag' value' hsplit =>
    obtain ⟨rest, hrest, hsplit⟩ := Option.bind_eq_some_iff.mp hsplit
    obtain rfl : name = '_' :: rest := Text.dropFront?_eq_some_iff.mp hrest
    split at h
    · cases h
    · cases h
      -- Both parts are cut out of the name, and no name has a pound sign.
      have hmem := Text.mem_of_splitAtLast? hsplit
      have hpart : '#' ∉ rest := fun hmem => absurd (hname.2 _ hmem) (by decide)
      intro hpound
      rcases List.mem_append.mp hpound with hflag | hvalue
      · exact hpart (hmem '#' (List.mem_append_left _ hflag))
      · rcases List.mem_cons.mp hvalue with heq | hvalue
        · exact absurd heq (by decide)
        · exact hpart (hmem '#' (List.mem_append_right _ hvalue))
  · cases h

/-- A setting is made of a name in the operands. -/
theorem exists_name_of_mem_settings {operands : List Operand} {setting : Text × Text}
    (h : setting ∈ settings operands) (hoperands : ∀ x ∈ operands, x.Lexical) :
    ∃ name, Token.IsName name ∧ setting? name = some setting := by
  obtain ⟨visit, hvisit, hsome⟩ := List.mem_filterMap.mp h
  obtain ⟨name, hname, hsetting⟩ := Option.bind_eq_some_iff.mp hsome
  obtain ⟨x, hx, hvisit⟩ := Operand.mem_outermostAll_iff.mp hvisit
  exact ⟨name, Operand.isName_of_mem_outermost (hoperands x hx) hvisit hname, hsetting⟩

/-- Settings are operands that were read. -/
theorem lexical_of_operandsOf {operands operands' : List Operand}
    (h : operandsOf operands = .ok operands') (hoperands : ∀ x ∈ operands, x.Lexical) :
    ∀ x ∈ operands', x.Lexical ∧ ¬ x.PoundsKeyword := by
  have hsettings : ∀ setting ∈ settings operands, '#' ∉ setting.1 ++ '=' :: setting.2 := by
    intro setting hsetting
    obtain ⟨name, hname, hsetting⟩ := exists_name_of_mem_settings hsetting hoperands
    exact pound_not_mem_of_setting? hname hsetting
  refine forall_mem_of_mapM h fun setting hsetting x hx => ?_
  exact ⟨(Operand.wellFormed_of_parse hx).lexical,
    Operand.not_poundsKeyword_of_parse hx (hsettings setting hsetting)⟩

end ConfigWord

end PicAssembly
