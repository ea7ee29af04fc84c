import PicAssembly.Proofs.Operand.Grammar
import PicAssembly.Proofs.Operand.Preservation

/-!
# `PicAssembly.Proofs.Operand.Names`: names that are read as themselves

A plain name is one that is read as an identifier (`Operand.parse_eq_identifier_iff`). In an
operand that was read every name is plain, or it stands directly under a pound sign, where a
keyword is a name like others. `Operand.Lexical` says this of a tree and nothing else, so that
edits that build trees can be held against it.

`Operand.PoundsKeyword` is what becomes a fault when a pound sign is taken away. No operand has
it that was read from a text without a pound sign (`Operand.not_poundsKeyword_of_parse`).
-/

set_option autoImplicit false

namespace PicAssembly

open Token (Lexeme Scans)

namespace Operand

/-- A name that is no keyword. -/
def IsPlainName (name : Text) : Prop := Token.IsName name ∧ UnaryOp.keyword? name = none

instance : DecidablePred IsPlainName := fun _ => inferInstanceAs (Decidable (_ ∧ _))

/-- Every identifier in the operand has a plain name, or stands directly under a pound sign
and has any name. -/
inductive Lexical : Operand → Prop where
  | number (value : Nat) (radix : Radix) (literal : Text) : Lexical (.number value radix literal)
  | string (text : Text) : Lexical (.string text)
  | chipId (text : Text) : Lexical (.chipId text)
  | programCounter : Lexical .programCounter
  | identifier {name : Text} (h : IsPlainName name) : Lexical (.identifier name)
  | pound {name : Text} (spelling : Text) (h : Token.IsName name) :
      Lexical (.unary .pound spelling (.identifier name))
  | unary (op : UnaryOp) (spelling : Text) {x : Operand} (h : Lexical x) :
      Lexical (.unary op spelling x)
  | stepped (op : StepOp) {x : Operand} (h : Lexical x) : Lexical (.stepped op x)
  | binary (op : BinaryOp) {x y : Operand} (hx : Lexical x) (hy : Lexical y) :
      Lexical (.binary op x y)
  | assign (op : AssignOp) {x y : Operand} (hx : Lexical x) (hy : Lexical y) :
      Lexical (.assign op x y)
  | call {callee : Operand} {args : List Operand} (hcallee : Lexical callee)
      (hargs : ∀ arg ∈ args, Lexical arg) : Lexical (.call callee args)

/-- A keyword stands directly under a pound sign, and no other prefix operator is around that
sign. -/
inductive PoundsKeyword : Operand → Prop where
  | pound {name : Text} (spelling : Text) (h : UnaryOp.keyword? name ≠ none) :
      PoundsKeyword (.unary .pound spelling (.identifier name))
  | stepped (op : StepOp) {x : Operand} (h : PoundsKeyword x) : PoundsKeyword (.stepped op x)
  | binaryLeft (op : BinaryOp) {x : Operand} (y : Operand) (h : PoundsKeyword x) :
      PoundsKeyword (.binary op x y)
  | binaryRight (op : BinaryOp) (x : Operand) {y : Operand} (h : PoundsKeyword y) :
      PoundsKeyword (.binary op x y)
  | assignLeft (op : AssignOp) {x : Operand} (y : Operand) (h : PoundsKeyword x) :
      PoundsKeyword (.assign op x y)
  | assignRight (op : AssignOp) (x : Operand) {y : Operand} (h : PoundsKeyword y) :
      PoundsKeyword (.assign op x y)
  | callee {callee : Operand} (args : List Operand) (h : PoundsKeyword callee) :
      PoundsKeyword (.call callee args)
  | arg (callee : Operand) {args : List Operand} {x : Operand} (hx : x ∈ args)
      (h : PoundsKeyword x) : PoundsKeyword (.call callee args)

/-! ### One node -/

section

variable {x y callee : Operand} {args : List Operand} {name spelling : Text}

/-- An identifier by itself needs a plain name. -/
@[simp] theorem lexical_identifier_iff : Lexical (.identifier name) ↔ IsPlainName name :=
  ⟨fun | .identifier h => h, .identifier⟩

/-- Under a prefix operator everything is as without it, but directly under a pound sign any name
will do. -/
theorem lexical_unary_iff {op : UnaryOp} : Lexical (.unary op spelling x) ↔
    Lexical x ∨ op = .pound ∧ ∃ name, x.name? = some name ∧ Token.IsName name := by
  constructor
  · intro h
    cases h with
    | pound _ h => exact .inr ⟨rfl, _, rfl, h⟩
    | unary _ _ h => exact .inl h
  · rintro (h | ⟨rfl, name, hname, h⟩)
    · exact .unary op spelling h
    · cases x <;> cases hname
      exact .pound spelling h

/-- A step operator behind an operand adds no name. -/
@[simp] theorem lexical_stepped_iff {op : StepOp} : Lexical (.stepped op x) ↔ Lexical x :=
  ⟨fun | .stepped _ h => h, .stepped op⟩

/-- Both sides of a binary operator count. -/
@[simp] theorem lexical_binary_iff {op : BinaryOp} :
    Lexical (.binary op x y) ↔ Lexical x ∧ Lexical y :=
  ⟨fun | .binary _ hx hy => ⟨hx, hy⟩, fun h => .binary op h.1 h.2⟩

/-- Both sides of an assignment count. -/
@[simp] theorem lexical_assign_iff {op : AssignOp} :
    Lexical (.assign op x y) ↔ Lexical x ∧ Lexical y :=
  ⟨fun | .assign _ hx hy => ⟨hx, hy⟩, fun h => .assign op h.1 h.2⟩

/-- What is called and all arguments count. -/
@[simp] theorem lexical_call_iff :
    Lexical (.call callee args) ↔ Lexical callee ∧ ∀ arg ∈ args, Lexical arg :=
  ⟨fun | .call hcallee hargs => ⟨hcallee, hargs⟩, fun h => .call h.1 h.2⟩

/-- A number stands under no pound sign. -/
@[simp] theorem not_poundsKeyword_number {value : Nat} {radix : Radix} {literal : Text} :
    ¬ PoundsKeyword (.number value radix literal) :=
  fun h => nomatch h

/-- A name by itself stands under no pound sign. -/
@[simp] theorem not_poundsKeyword_identifier : ¬ PoundsKeyword (.identifier name) :=
  fun h => nomatch h

/-- A prefix operator hides the pound signs below it, and a pound sign itself counts by the name
directly below it. -/
theorem poundsKeyword_unary_iff {op : UnaryOp} : PoundsKeyword (.unary op spelling x) ↔
    op = .pound ∧ ∃ name, x.name? = some name ∧ UnaryOp.keyword? name ≠ none := by
  constructor
  · rintro (⟨_, h⟩)
    exact ⟨rfl, _, rfl, h⟩
  · rintro ⟨rfl, name, hname, h⟩
    cases x <;> cases hname
    exact .pound spelling h

/-- A step operator behind an operand hides none and adds none. -/
@[simp] theorem poundsKeyword_stepped_iff {op : StepOp} :
    PoundsKeyword (.stepped op x) ↔ PoundsKeyword x :=
  ⟨fun | .stepped _ h => h, .stepped op⟩

/-- Either side of a binary operator may have one. -/
@[simp] theorem poundsKeyword_binary_iff {op : BinaryOp} :
    PoundsKeyword (.binary op x y) ↔ PoundsKeyword x ∨ PoundsKeyword y := by
  constructor
  · rintro (_ | _ | ⟨_, _, h⟩ | ⟨_, _, h⟩)
    · exact .inl h
    · exact .inr h
  · rintro (h | h)
    · exact .binaryLeft op y h
    · exact .binaryRight op x h

/-- Either side of an assignment may have one. -/
@[simp] theorem poundsKeyword_assign_iff {op : AssignOp} :
    PoundsKeyword (.assign op x y) ↔ PoundsKeyword x ∨ PoundsKeyword y := by
  constructor
  · rintro (_ | _ | _ | _ | ⟨_, _, h⟩ | ⟨_, _, h⟩)
    · exact .inl h
    · exact .inr h
  · rintro (h | h)
    · exact .assignLeft op y h
    · exact .assignRight op x h

/-- What is called may have one, and so may any argument. -/
@[simp] theorem poundsKeyword_call_iff : PoundsKeyword (.call callee args) ↔
    PoundsKeyword callee ∨ ∃ arg ∈ args, PoundsKeyword arg := by
  constructor
  · intro h
    cases h with
    | callee _ h => exact .inl h
    | arg _ hx h => exact .inr ⟨_, hx, h⟩
  · rintro (h | ⟨arg, harg, h⟩)
    · exact .callee args h
    · exact .arg callee harg h

end

/-! ### Operands that were read -/

/-- In an operand with a printed form every identifier has a plain name or a pound sign before
it. -/
theorem WellFormed.lexical {x : Operand} (h : WellFormed x) : Lexical x := by
  induction h with
  | number => exact .number _ _ _
  | string => exact .string _
  | chipId => exact .chipId _
  | programCounter => exact .programCounter
  | identifier hn hk => exact .identifier ⟨hn, hk⟩
  | pound hn => exact .pound _ hn
  | unary _ _ _ ih => exact .unary _ _ ih
  | stepped _ ih => exact .stepped _ ih
  | binary _ _ ihx ihy => exact .binary _ ihx ihy
  | assign _ _ ihx ihy => exact .assign _ ihx ihy
  | call hn hk _ ih => exact .call (.identifier ⟨hn, hk⟩) ih

/-- An operand that was read is spelled by the tokens of the text. -/
theorem exists_spells_of_parse {text : Text} {x : Operand} (h : parse text = .ok x) :
    ∃ ls, Scans text ls [] ∧ Spells x ls := by
  obtain ⟨c, c', hc, hexpr, hend⟩ := parse_eq_ok_iff.mp h
  have hpragma := fun hk => expression_ne_ok_of_pragma hk 0 _ hexpr
  obtain ⟨hproper, hscans⟩ := Cursor.proper_of_ofScanner hc (Or.inr hpragma)
  obtain ⟨ls, hreads, hspells⟩ := Cursor.spells_of_expressionWithin _ 0 _ _ _ hproper hexpr
  have hall := hreads.lexemes
  rw [(hreads.proper hproper).lexemes_eq_nil hend, List.append_nil] at hall
  exact ⟨ls, hall ▸ hscans, hspells⟩

/-- What is read from a text has a printed form. -/
theorem wellFormed_of_parse {text : Text} {x : Operand} (h : parse text = .ok x) :
    WellFormed x := by
  obtain ⟨ls, hscans, hspells⟩ := exists_spells_of_parse h
  exact wellFormed_of_spells hspells hscans.spelled

/-- Without the token of a pound sign there is none in the operand. -/
theorem not_poundsKeyword_of_spells {x : Operand} {ls : List Lexeme} (h : Spells x ls)
    (hls : Token.Kind.pound.lexeme ∉ ls) : ¬ PoundsKeyword x := by
  induction h with
  | number | character | string | chipId | programCounter | identifier => rintro ⟨⟩
  | group h ih => exact ih fun hmem => hls (by simp [hmem])
  | pound => exact absurd List.mem_cons_self hls
  | unary hop => exact fun h => hop (poundsKeyword_unary_iff.mp h).1
  | stepped h ih =>
      rw [poundsKeyword_stepped_iff]
      exact ih fun hmem => hls (List.mem_append_left _ hmem)
  | binary hx hy ihx ihy =>
      rw [poundsKeyword_binary_iff, not_or]
      exact ⟨ihx fun hmem => hls (by simp [hmem]), ihy fun hmem => hls (by simp [hmem])⟩
  | assign hx hy ihx ihy =>
      rw [poundsKeyword_assign_iff, not_or]
      exact ⟨ihx fun hmem => hls (by simp [hmem]), ihy fun hmem => hls (by simp [hmem])⟩
  | @call name ls pairs hname hargs ihname ihargs =>
      rw [poundsKeyword_call_iff, not_or]
      refine ⟨ihname fun hmem => hls (List.mem_append_left _ hmem), ?_⟩
      rintro ⟨_, harg, h⟩
      obtain ⟨p, hp, rfl⟩ := List.mem_map.mp harg
      -- The tokens of the arguments are among those of the call.
      have hrow : ∀ l ∈ commaSeparated (pairs.map Prod.snd), l ≠ Token.Kind.pound.lexeme :=
        fun l hl heq => hls (by simp [← heq, hl])
      rw [forall_mem_commaSeparated_iff (by decide)] at hrow
      exact ihargs p hp (fun hmem => hrow p.2 (List.mem_map_of_mem hp) _ hmem rfl) h

/-- A text without pound signs is read as an operand without any, so no keyword stands under one. -/
theorem not_poundsKeyword_of_parse {text : Text} {x : Operand} (h : parse text = .ok x)
    (htext : '#' ∉ text) : ¬ PoundsKeyword x := by
  obtain ⟨ls, hscans, hspells⟩ := exists_spells_of_parse h
  refine not_poundsKeyword_of_spells hspells fun hmem => htext ?_
  exact hscans.mem_of_mem_text _ hmem '#' List.mem_cons_self

/-- A printed operand is read as itself, unless a pound sign at its beginning makes it look like
a directive. -/
theorem parse_eq_ok_of_wellFormed {x : Operand} (h : WellFormed x)
    (hpound : Token.headKind x.lexemes ≠ .pound) : parse x.render = .ok x := by
  have hscans : Scans x.render x.lexemes [] := by
    simpa using prints_render h [] Token.detached_nil
  have hhead : ∀ l ∈ x.lexemes.head?, (Scanner.ofLine x.render 0).ReadsPound l.kind := by
    intro l hl
    obtain ⟨rest, hrest⟩ := List.head?_eq_some_iff.mp hl
    rw [hrest] at hpound
    exact .inr hpound
  obtain ⟨c, hc, -, hlexemes, heof⟩ := Cursor.ofScanner_of_scans hscans hhead
  rw [← List.append_nil x.lexemes] at hlexemes
  obtain ⟨c', hreads, hexpr⟩ := (standalone_lexemes h).completes [] (fun hx => hx) c.rest.length c
    heof hlexemes (Nat.le_refl _)
  refine parse_eq_ok_iff.mpr ⟨c, c', hc, hexpr, ?_⟩
  rw [Cursor.kind_eq_headKind (hreads.eof ▸ heof), hreads.lexemes_eq hlexemes]
  rfl

/-- A plain name is one that is read as an identifier. -/
theorem parse_eq_identifier_iff {name : Text} :
    parse name = .ok (.identifier name) ↔ IsPlainName name := by
  constructor
  · intro h
    exact lexical_identifier_iff.mp (wellFormed_of_parse h).lexical
  · rintro ⟨hn, hk⟩
    exact parse_eq_ok_of_wellFormed (.identifier hn hk) (by simp [lexemes, Token.headKind])

end Operand

end PicAssembly
