import PicAssembly.Proofs.Operand.Names
import PicAssembly.Proofs.Token.Splitting

/-!
# `PicAssembly.Proofs.Operand.Words`: words that are read as operands

A word is a text of letters, digits and underscores. It is one token if it begins like a name,
and else a bare number, with a name behind it where the number ends early (`Token.SpellsWord`).

So not every word is an operand: a keyword is a prefix operator without one, nothing may stand
between a number and a name, and a number may be too large. `Operand.IsWord` says which words are
operands. An assignment of one word to another is read just if both words are operands, and it is
printed as it was written (`Operand.parse_assignment_iff`).
-/

set_option autoImplicit false

namespace PicAssembly

namespace Token

/-- Letters, digits and underscores, at least one. -/
def IsWordText (word : Text) : Prop := word ≠ [] ∧ ∀ c ∈ word, isIdentifierPart c

/-- The tokens of a word. -/
inductive SpellsWord : Text → List Lexeme → Prop where
  | name {word : Text} (h : IsName word) : SpellsWord word [⟨.identifier, word⟩]
  | run {c : Char} {cs : Text} (hc : c.isDigit) (hcs : ∀ d ∈ cs, isRunPart d) :
      SpellsWord (c :: cs) [⟨(runExtent c cs).1, c :: cs⟩]
  | runName {c : Char} {cs name : Text} (hc : c.isDigit) (hcs : ∀ d ∈ cs, isRunPart d)
      (h : IsName name) :
      SpellsWord (c :: cs ++ name) [⟨(runExtent c cs).1, c :: cs⟩, ⟨.identifier, name⟩]

/-- A character of a word begins a name if it is no digit. -/
theorem isDigit_or_isIdentifierStart {c : Char} (h : isIdentifierPart c) :
    c.isDigit ∨ isIdentifierStart c := by
  simp only [isIdentifierPart, Bool.or_eq_true, isAlphanum_iff] at h
  simp only [isIdentifierStart, Bool.or_eq_true]
  tauto

/-- A word begins with a digit or is a name. -/
theorem IsWordText.cases {word : Text} (h : IsWordText word) :
    IsName word ∨ ∃ c cs, word = c :: cs ∧ c.isDigit := by
  obtain ⟨hne, hall⟩ := h
  obtain ⟨c, cs, rfl⟩ := List.exists_cons_of_ne_nil hne
  rcases isDigit_or_isIdentifierStart (hall c List.mem_cons_self) with hc | hc
  · exact .inr ⟨c, cs, rfl, hc⟩
  · exact .inl ⟨hc, fun d hd => hall d (List.mem_cons_of_mem c hd)⟩

/-- What is left of a word where a bare number ends is a name. -/
theorem isName_of_not_isRunPart {c : Char} {cs : Text} (hall : ∀ d ∈ c :: cs, isIdentifierPart d)
    (hc : ¬ isRunPart c) : IsName (c :: cs) := by
  refine ⟨(isDigit_or_isIdentifierStart (hall c List.mem_cons_self)).resolve_left fun h => ?_,
    fun d hd => hall d (List.mem_cons_of_mem c hd)⟩
  exact hc (by simp [isRunPart, h])

/-- A bare number ends where no character of one follows. -/
theorem endsBefore_run {c : Char} {cs rest : Text} (hrest : ∀ d ∈ rest.head?, ¬ isRunPart d) :
    EndsBefore (runExtent c cs).1 (c :: cs) rest := by
  rcases runExtent_kind c cs with hk | hk
  · rw [hk]
    exact fun _ => hrest
  · rw [hk]
    exact fun _ => hrest

/-- A word in front of what does not go on with it has its own tokens. -/
theorem Scans.split_word {word t : Text} {ms : List Lexeme} (h : Scans (word ++ t) ms [])
    (hword : IsWordText word) (ht : Detached t) :
    ∃ ls rest, ms = ls ++ rest ∧ SpellsWord word ls ∧ Scans t rest [] := by
  have hname {name : Text} {ms : List Lexeme} (hname : IsName name)
      (h : Scans (name ++ t) ms []) : ∃ rest, ms = ⟨.identifier, name⟩ :: rest ∧ Scans t rest [] :=
    h.split_spelled (.identifier hname) (Spelled.endsBefore (.inl rfl) ht)
  rcases hword.cases with hn | ⟨c, cs, rfl, hc⟩
  · obtain ⟨rest, rfl, hscans⟩ := hname hn h
    exact ⟨[_], rest, rfl, .name hn, hscans⟩
  · obtain ⟨run, tail, rfl, -, hrun, htail⟩ := exists_run isRunPart cs
    have hspelled : Spelled (runExtent c run).1 (c :: run) := .run (by simp [hc]) hrun
    rw [List.cons_append, List.append_assoc, ← List.cons_append] at h
    -- The number is the whole word, or what is left of the word is a name.
    cases tail with
    | nil =>
        rw [List.append_nil]
        have hends : ∀ d ∈ t.head?, ¬ isRunPart d := fun d hd hpart => by
          simpa [ht d hd] using isGlue_of_isRunPart hpart
        obtain ⟨rest, rfl, hscans⟩ := h.split_spelled hspelled (endsBefore_run hends)
        exact ⟨[_], rest, rfl, .run hc hrun, hscans⟩
    | cons d ds =>
        have hn : IsName (d :: ds) := by
          refine isName_of_not_isRunPart (fun e he => hword.2 e ?_) (htail d rfl)
          exact List.mem_cons_of_mem c (List.mem_append_right run he)
        obtain ⟨ms', rfl, hscans'⟩ := h.split_spelled hspelled (endsBefore_run htail)
        obtain ⟨rest, rfl, hscans⟩ := hname hn hscans'
        exact ⟨[_, _], rest, rfl, .runName hc hrun hn, hscans⟩

end Token

open Token (Lexeme Scans Spelled SpellsWord IsWordText isRunPart runExtent headKind)

namespace Operand

/-- A number without quotes, of a magnitude that fits, or the name of a device. -/
def IsRun : Text → Prop
  | [] => False
  | c :: cs => c.isDigit ∧ (∀ d ∈ cs, isRunPart d) ∧
    ((runExtent c cs).1 = .number → (decode (c :: cs)).2 < Numeral.limit)

instance : DecidablePred IsRun
  | [] => .isFalse id
  | c :: cs => decidable_of_iff (c.isDigit && cs.all isRunPart &&
      ((runExtent c cs).1 != .number || (decode (c :: cs)).2 < Numeral.limit))
      (by simp [IsRun, and_assoc, imp_iff_not_or])

/-- A word that is an operand. -/
def IsWord (word : Text) : Prop := IsPlainName word ∨ IsRun word

instance : DecidablePred IsWord := fun _ => inferInstanceAs (Decidable (_ ∨ _))

/-! ### Reading -/

/-- A word that is an operand is a leaf, and printed as it was written. -/
theorem exists_leaf_of_isWord {word : Text} (h : IsWord word) :
    ∃ x : Operand, x.WellFormed ∧ x.render = word ∧ x.power = Power.leaf ∧
      ∃ l, x.lexemes = [l] ∧ l.kind ≠ .pound := by
  rcases h with ⟨hname, hkeyword⟩ | hrun
  · exact ⟨.identifier word, .identifier hname hkeyword, rfl, rfl, _, rfl, by simp⟩
  · cases word with
    | nil => exact hrun.elim
    | cons c cs =>
        obtain ⟨hc, hcs, hfits⟩ := hrun
        have hspelled : Spelled (runExtent c cs).1 (c :: cs) := .run (by simp [hc]) hcs
        -- A run is the name of a device or a number, and one or the other by its form alone.
        rcases Token.runExtent_kind c cs with hkind | hkind
        · rw [hkind] at hspelled
          exact ⟨.chipId (c :: cs), .chipId (isToken_of_spelled hspelled (by simp)), rfl, rfl, _,
            rfl, by simp⟩
        · rw [hkind] at hspelled
          have hquote : (c :: cs).head? ≠ some '\'' := by
            rintro ⟨⟩
            exact absurd hc (by decide)
          exact ⟨.number (decode (c :: cs)).2 (decode (c :: cs)).1 (c :: cs),
            .number (isToken_of_spelled hspelled (by simp)) hquote rfl (hfits hkind), rfl, rfl, _,
            rfl, by simp⟩

/-- Two words that are operands make an assignment, which is printed as it was written. -/
theorem exists_parse_assignment {flag value : Text} (hflag : IsWord flag)
    (hvalue : IsWord value) :
    ∃ l r : Operand, parse (flag ++ '=' :: value) = .ok (.assign .assign l r) ∧
      l.render = flag ∧ r.render = value ∧
      (Operand.assign .assign l r).render = flag ++ '=' :: value := by
  obtain ⟨l, hl, rfl, hlpower, first, hlexemes, hfirst⟩ := exists_leaf_of_isWord hflag
  obtain ⟨r, hr, rfl, hrpower, -⟩ := exists_leaf_of_isWord hvalue
  have hrender : (Operand.assign .assign l r).render = l.render ++ '=' :: r.render := by
    simp [render, grouped, hlpower, hrpower, Power.leaf, Power.assignment, AssignOp.lexeme]
  have hhead : headKind (Operand.assign .assign l r).lexemes = first.kind := by
    simp [lexemes, groupedLexemes, hlpower, hlexemes, Power.leaf, Power.assignment, headKind]
  refine ⟨l, r, ?_, rfl, rfl, hrender⟩
  rw [← hrender]
  exact parse_eq_ok_of_wellFormed (.assign hl hr) (hhead ▸ hfirst)

/-! ### What is read -/

section

variable {ls ms : List Lexeme}

/-- The numbers of tokens in a row fit just if those of both parts do. -/
theorem numbersFit_append_iff : NumbersFit (ls ++ ms) ↔ NumbersFit ls ∧ NumbersFit ms :=
  List.forall_mem_append

/-- Only number tokens count. -/
theorem numbersFit_cons_iff {l : Lexeme} (hl : l.kind ≠ .number) :
    NumbersFit (l :: ls) ↔ NumbersFit ls := by
  refine List.forall_mem_cons.trans (and_iff_right fun hk => absurd hk hl)

/-- Without tokens there is no number that is too large. -/
theorem numbersFit_nil : NumbersFit [] := fun _ hl => absurd hl List.not_mem_nil

end

/-- The numbers that spell an operand fit. -/
theorem numbersFit_of_spells {x : Operand} {ls : List Lexeme} (h : Spells x ls) :
    NumbersFit ls := by
  -- Only a number token has a value to fit, and there the spelling itself asks for it.
  induction h with
  | number unquoted fits =>
      intro l hl _ _
      rw [List.mem_singleton.mp hl]
      exact fits
  | character quoted =>
      intro l hl _ hquote
      rw [List.mem_singleton.mp hl] at hquote
      exact absurd quoted hquote
  | string | chipId | programCounter | identifier =>
      exact (numbersFit_cons_iff (by simp)).mpr numbersFit_nil
  | pound name =>
      exact (numbersFit_cons_iff (by simp)).mpr ((numbersFit_cons_iff (by simp)).mpr numbersFit_nil)
  | group h ih =>
      refine (numbersFit_cons_iff (by simp)).mpr (numbersFit_append_iff.mpr ⟨ih, ?_⟩)
      exact (numbersFit_cons_iff (by simp)).mpr numbersFit_nil
  | @unary op _ _ _ _ _ _ ih =>
      exact (numbersFit_cons_iff (by cases op <;> simp [UnaryOp.tokenKind])).mpr ih
  | stepped h ih =>
      exact numbersFit_append_iff.mpr ⟨ih, (numbersFit_cons_iff (by simp)).mpr numbersFit_nil⟩
  | binary hx hy ihx ihy =>
      exact numbersFit_append_iff.mpr ⟨ihx, (numbersFit_cons_iff (by simp)).mpr ihy⟩
  | assign hx hy ihx ihy =>
      exact numbersFit_append_iff.mpr ⟨ihx, (numbersFit_cons_iff (by simp)).mpr ihy⟩
  | @call name ls pairs hname hargs ihname ihargs =>
      have hrow : NumbersFit (commaSeparated (pairs.map Prod.snd)) := by
        refine (forall_mem_commaSeparated_iff (by simp)).mpr fun ms hms => ?_
        obtain ⟨p, hp, rfl⟩ := List.mem_map.mp hms
        exact ihargs p hp
      refine numbersFit_append_iff.mpr ⟨ihname, (numbersFit_cons_iff (by simp)).mpr ?_⟩
      exact numbersFit_append_iff.mpr ⟨hrow, (numbersFit_cons_iff (by simp)).mpr numbersFit_nil⟩

/-- No name stands behind an operand that is no name. -/
theorem not_follows_identifier {callable : Bool} {name : Text} {us : List Lexeme} :
    ¬ Follows callable [] (⟨.identifier, name⟩ :: us) := by
  rintro (_ | _ | _ | _ | _)

/-- No operand begins at the end of a text. -/
theorem not_opens_nil {r : List Lexeme} : ¬ Opens r [] :=
  fun h => Token.ne_nil_of_beginsOperand h.beginsOperand rfl

/-- No operand begins with an operator for assignments. -/
theorem not_opens_assign {op : AssignOp} {r us : List Lexeme} :
    ¬ Opens r ((Token.Kind.assign op).lexeme :: us) := by
  intro h
  generalize hts : (Token.Kind.assign op).lexeme :: us = ts at h
  cases h with
  | @unary op =>
      obtain ⟨hl, -⟩ := List.cons.inj hts
      have hkind := congrArg Lexeme.kind hl
      cases op <;> simp [UnaryOp.tokenKind] at hkind
  | callee hc _ => cases hc <;> cases hts
  | _ => cases hts

/-- A name where an operand is expected is no keyword, if no operand is behind it. -/
theorem opens_identifier {r us : List Lexeme} {name : Text}
    (h : Opens r (⟨.identifier, name⟩ :: us)) (hus : ¬ Opens r us) :
    UnaryOp.keyword? name = none ∧ Follows true r us := by
  generalize hts : Lexeme.mk .identifier name :: us = ts at h
  -- A keyword is a prefix operator, and its operand would be what is behind it.
  cases h with
  | unary _ _ h =>
      obtain ⟨-, rfl⟩ := List.cons.inj hts
      exact absurd h hus
  | callee hc hf =>
      cases hc with
      | name hk =>
          cases hts
          exact ⟨hk, hf⟩
      | group _ => cases hts
  | _ => cases hts

/-- What follows a number or the name of a device where an operand is expected. -/
theorem opens_run {r us : List Lexeme} {l : Lexeme} (h : Opens r (l :: us))
    (hk : l.kind = .chipId ∨ l.kind = .number) : Follows false r us := by
  generalize hts : l :: us = ts at h
  cases h with
  | number _ hf | chipId _ hf =>
      obtain ⟨-, rfl⟩ := List.cons.inj hts
      exact hf
  | @unary op =>
      obtain ⟨rfl, -⟩ := List.cons.inj hts
      cases op <;> simp [UnaryOp.tokenKind] at hk
  | callee hc _ =>
      cases hc <;> obtain ⟨rfl, -⟩ := List.cons.inj hts <;> simp at hk
  | _ =>
      obtain ⟨rfl, -⟩ := List.cons.inj hts
      simp at hk

/-- A word with no operand behind it is an operand. -/
theorem isWord_of_opens {word : Text} {ls us : List Lexeme} (hspells : SpellsWord word ls)
    (hfit : NumbersFit ls) (h : Opens [] (ls ++ us)) (hus : ¬ Opens [] us) :
    IsWord word ∧ ∃ callable, Follows callable [] us := by
  cases hspells with
  | name hn =>
      obtain ⟨hk, hf⟩ := opens_identifier h hus
      -- What is behind a name is not asked for here, so a call is not excluded yet.
      exact ⟨.inl ⟨hn, hk⟩, true, hf⟩
  | @run c cs hc hcs =>
      refine ⟨.inr ⟨hc, hcs, fun hk => ?_⟩, false, opens_run h (Token.runExtent_kind c cs)⟩
      refine hfit _ List.mem_cons_self hk ?_
      rintro ⟨⟩
      exact absurd hc (by decide)
  | runName hc hcs hn =>
      exact absurd (opens_run h (Token.runExtent_kind _ _)) not_follows_identifier

/-- An operator for assignments is behind an operand, and one is behind it. -/
theorem opens_of_follows_assign {callable : Bool} {op : AssignOp} {r us : List Lexeme}
    (h : Follows callable r ((Token.Kind.assign op).lexeme :: us))
    (hr : headKind r ≠ .assign op) : Opens r us := by
  cases h with
  | done => exact absurd rfl hr
  | assign _ h => exact h

/-- If the assignment of one word to another is read, both words are operands. -/
theorem isWord_of_parse_assignment {flag value : Text} (hflag : IsWordText flag)
    (hvalue : IsWordText value) {x : Operand} (h : parse (flag ++ '=' :: value) = .ok x) :
    IsWord flag ∧ IsWord value := by
  obtain ⟨ls, hscans, hspells⟩ := exists_spells_of_parse h
  have hopens : Opens [] ls := by
    simpa using (derives_of_spells hspells).opens [] [] (.done false [])
  have hfit := numbersFit_of_spells hspells
  have hequals : value.head? ≠ some '=' := fun hhead =>
    absurd (hvalue.2 '=' (List.mem_of_mem_head? hhead)) (by decide)
  -- The tokens are those of the flag, the sign and those of the value.
  obtain ⟨flagLexemes, us, rfl, hflagLexemes, hus⟩ :=
    hscans.split_word hflag (Token.detached_cons (by decide) value)
  have hsign : Spelled (.assign .assign) ['='] := .symbol rfl
  obtain ⟨vs, rfl, hvs⟩ :=
    hus.split_spelled (t := value) hsign (Token.endsBefore_assign .assign hequals)
  obtain ⟨valueLexemes, rest, rfl, hvalueLexemes, hrest⟩ :=
    Scans.split_word (t := []) (by simpa using hvs) hvalue Token.detached_nil
  obtain rfl := hrest.eq_nil
  rw [numbersFit_append_iff, numbersFit_cons_iff (by simp), List.append_nil] at hfit
  obtain ⟨hflagWord, _, hfollows⟩ :=
    isWord_of_opens hflagLexemes hfit.1 hopens not_opens_assign
  have hvalueOpens := opens_of_follows_assign hfollows (by simp [headKind])
  exact ⟨hflagWord, (isWord_of_opens hvalueLexemes hfit.2 hvalueOpens not_opens_nil).1⟩

/-- The assignment of one word to another is read if both words are operands, and only then. -/
theorem parse_assignment_iff {flag value : Text} (hflag : IsWordText flag)
    (hvalue : IsWordText value) :
    (∃ x, parse (flag ++ '=' :: value) = .ok x) ↔ IsWord flag ∧ IsWord value := by
  constructor
  · rintro ⟨x, h⟩
    exact isWord_of_parse_assignment hflag hvalue h
  · rintro ⟨h, h'⟩
    obtain ⟨l, r, hparse, -⟩ := exists_parse_assignment h h'
    exact ⟨_, hparse⟩

end Operand

end PicAssembly
