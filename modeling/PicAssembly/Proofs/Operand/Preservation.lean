import PicAssembly.Proofs.Operand.Printing
import PicAssembly.Proofs.Operand.Reading

/-!
# `PicAssembly.Proofs.Operand.Preservation`: reading and printing keep the tokens

An operand that was read has a printed form (`wellFormed_of_spells`), and up to parentheses
and commas it is printed as the tokens that it was read from, in their order
(`significant_lexemes_of_spells`).
-/

set_option autoImplicit false

namespace PicAssembly

open Token (Lexeme Spelled)

/-- Whether a token of this kind is more than punctuation or a comment. -/
def Token.Kind.isSignificant : Token.Kind → Bool
  | .openParen | .closeParen | .comma | .colon | .comment => false
  | _ => true

/-- The tokens without punctuation and comments. -/
def Token.significant (ls : List Lexeme) : List Lexeme :=
  ls.filter fun l => l.kind.isSignificant

/-- Significant tokens are told one by one, so those of tokens in a row are those of each part. -/
@[simp] theorem Token.significant_append (ls ms : List Lexeme) :
    significant (ls ++ ms) = significant ls ++ significant ms := List.filter_append ls ms

/-- No tokens have no significant ones. -/
@[simp] theorem Token.significant_nil : significant [] = [] := rfl

/-- The first token is kept just if its kind is significant. -/
@[simp] theorem Token.significant_cons (l : Lexeme) (ls : List Lexeme) :
    significant (l :: ls)
      = if l.kind.isSignificant then l :: significant ls else significant ls := List.filter_cons

namespace Operand

open Token (significant)

/-- Parentheses are not significant. -/
@[simp] theorem significant_groupedLexemes (wrap : Bool) (ls : List Lexeme) :
    significant (groupedLexemes wrap ls) = significant ls := by
  cases wrap with
  | false => rfl
  | true => simp [groupedLexemes, Token.Kind.isSignificant]

/-- Commas are not significant. -/
theorem significant_commaSeparated (lss : List (List Lexeme)) :
    significant (commaSeparated lss) = (lss.map significant).flatten := by
  induction lss with
  | nil => rfl
  | cons ls lss ih =>
      cases lss with
      | nil => simp [commaSeparated_singleton]
      | cons ms lss =>
          simp [commaSeparated_cons_cons, Token.Kind.isSignificant, ih]

/-- Operands with the same significant tokens, one by one, have the same ones in a row. -/
theorem significant_commaSeparated_congr {pairs : List (Operand × List Lexeme)}
    (h : ∀ p ∈ pairs, significant p.1.lexemes = significant p.2) :
    significant (listLexemes (pairs.map Prod.fst))
      = significant (commaSeparated (pairs.map Prod.snd)) := by
  rw [listLexemes, lexemesAll_eq_map, significant_commaSeparated, significant_commaSeparated]
  congr 1
  simpa using h

/-- An operand is printed as the tokens that it was read from, up to punctuation. -/
theorem significant_lexemes_of_spells {x : Operand} {ls : List Lexeme} (h : Spells x ls) :
    significant x.lexemes = significant ls := by
  induction h with
  | number unquoted _ => rfl
  | @character text quoted =>
      rw [lexemes, if_neg (by rw [quoted]; decide)]
  | @string text quoted => rw [lexemes, if_pos quoted]
  | chipId text => rfl
  | programCounter => rfl
  | identifier hk => rfl
  | @group x ls h ih =>
      rw [ih]
      exact (significant_groupedLexemes true ls).symm
  | pound name => rfl
  | unary hop hs h ih => simp [lexemes, ih]
  | stepped h ih => simp [lexemes, ih]
  | binary hx hy ihx ihy => simp [lexemes, ihx, ihy, Token.Kind.isSignificant]
  | assign hx hy ihx ihy => simp [lexemes, ihx, ihy, Token.Kind.isSignificant]
  | call hname hargs ihname ihargs =>
      have hrow := significant_commaSeparated_congr ihargs
      rw [listLexemes] at hrow
      rw [lexemes]
      simp [ihname, hrow, Token.Kind.isSignificant]

/-! ### What holds of all tokens -/

/-- What holds of the tokens and of both parentheses holds with parentheses around them. -/
theorem forall_mem_groupedLexemes {P : Lexeme → Prop} {ls : List Lexeme} (h : ∀ l ∈ ls, P l)
    (ho : P Token.Kind.openParen.lexeme) (hc : P Token.Kind.closeParen.lexeme) (wrap : Bool) :
    ∀ l ∈ groupedLexemes wrap ls, P l := by
  cases wrap with
  | false => exact h
  | true => simpa [groupedLexemes, or_imp, forall_and] using ⟨ho, h, hc⟩

/-- The tokens of a row are those of its members and commas. -/
theorem forall_mem_commaSeparated_iff {P : Lexeme → Prop} {lss : List (List Lexeme)}
    (hc : P Token.Kind.comma.lexeme) :
    (∀ l ∈ commaSeparated lss, P l) ↔ ∀ ls ∈ lss, ∀ l ∈ ls, P l := by
  induction lss with
  | nil => simp [commaSeparated]
  | cons ls lss ih =>
      cases lss with
      | nil => simp [commaSeparated_singleton]
      | cons ms lss =>
          rw [commaSeparated_cons_cons, List.forall_mem_append, List.forall_mem_cons, ih,
            and_iff_right hc]
          exact (List.forall_mem_cons (p := fun ls => ∀ l ∈ ls, P l)).symm

/-- What holds of the tokens that an operand was read from, and of parentheses and commas,
holds of the tokens that it is printed as. -/
theorem forall_mem_lexemes_of_spells {P : Lexeme → Prop} (ho : P Token.Kind.openParen.lexeme)
    (hc : P Token.Kind.closeParen.lexeme) (hcomma : P Token.Kind.comma.lexeme) {x : Operand}
    {ls : List Lexeme} (h : Spells x ls) : (∀ l ∈ ls, P l) → ∀ l ∈ x.lexemes, P l := by
  have hgroup {ls : List Lexeme} (h : ∀ l ∈ ls, P l) (wrap : Bool) :=
    forall_mem_groupedLexemes h ho hc wrap
  -- The printed tokens are those that spell the operand, but for parentheses and commas.
  induction h with
  | number | chipId | programCounter | identifier | pound => exact id
  | @character text quoted =>
      rw [lexemes, if_neg (by rw [quoted]; decide)]
      exact id
  | @string text quoted =>
      rw [lexemes, if_pos quoted]
      exact id
  | group h ih => exact fun hls => ih fun l hl => hls l (by simp [hl])
  | unary hop hs h ih =>
      intro hls
      obtain ⟨hhead, htail⟩ := List.forall_mem_cons.mp hls
      exact List.forall_mem_cons.mpr ⟨hhead, hgroup (ih htail) _⟩
  | stepped h ih =>
      intro hls
      obtain ⟨hx, hop⟩ := List.forall_mem_append.mp hls
      exact List.forall_mem_append.mpr ⟨hgroup (ih hx) _, hop⟩
  | binary hx hy ihx ihy =>
      intro hls
      obtain ⟨hx, hright⟩ := List.forall_mem_append.mp hls
      obtain ⟨hop, hy⟩ := List.forall_mem_cons.mp hright
      exact List.forall_mem_append.mpr
        ⟨hgroup (ihx hx) _, List.forall_mem_cons.mpr ⟨hop, hgroup (ihy hy) _⟩⟩
  | assign hx hy ihx ihy =>
      intro hls
      obtain ⟨hx, hright⟩ := List.forall_mem_append.mp hls
      obtain ⟨hop, hy⟩ := List.forall_mem_cons.mp hright
      exact List.forall_mem_append.mpr
        ⟨hgroup (ihx hx) _, List.forall_mem_cons.mpr ⟨hop, hgroup (ihy hy) _⟩⟩
  | @call name ls pairs hname hargs ihname ihargs =>
      intro hls
      obtain ⟨hcallee, hrest⟩ := List.forall_mem_append.mp hls
      obtain ⟨hrow, -⟩ := List.forall_mem_append.mp (List.forall_mem_cons.mp hrest).2
      rw [forall_mem_commaSeparated_iff hcomma] at hrow
      have hargs : ∀ l ∈ listLexemes (pairs.map Prod.fst), P l := by
        rw [listLexemes, lexemesAll_eq_map, forall_mem_commaSeparated_iff hcomma]
        intro ms hms
        obtain ⟨x, hx, rfl⟩ := List.mem_map.mp hms
        obtain ⟨p, hp, rfl⟩ := List.mem_map.mp hx
        exact ihargs p hp (hrow p.2 (List.mem_map_of_mem hp))
      have hboth := List.forall_mem_append.mpr ⟨ihname hcallee, hgroup hargs true⟩
      simpa only [lexemes, listLexemes, groupedLexemes, if_true, List.append_assoc,
        List.cons_append] using hboth

/-- An operand that was read has a printed form. -/
theorem wellFormed_of_spells {x : Operand} {ls : List Lexeme} (h : Spells x ls)
    (hs : ∀ l ∈ ls, Spelled l.kind l.text) : WellFormed x := by
  induction h with
  | @number literal unquoted fits =>
      have hspelled := hs _ List.mem_cons_self
      exact .number (isToken_of_spelled hspelled (by simp)) unquoted rfl fits
  | @character text quoted =>
      have hspelled : Spelled .number text := hs _ List.mem_cons_self
      exact .string (Or.inr (hspelled.exists_character quoted))
  | @string text quoted =>
      have hspelled : Spelled .string text := hs _ List.mem_cons_self
      exact .string (Or.inl hspelled.exists_string)
  | chipId text => exact .chipId (isToken_of_spelled (hs _ List.mem_cons_self) (by simp))
  | programCounter => exact .programCounter
  | identifier hk => exact .identifier (Spelled.isName (hs _ List.mem_cons_self)) hk
  | @group x ls h ih => exact ih fun l hl => hs l (by simp [hl])
  | pound name => exact .pound (Spelled.isName (hs ⟨.identifier, name⟩ (by simp)))
  | unary hop hspelling h ih =>
      exact .unary hop hspelling (ih fun l hl => hs l (List.mem_cons_of_mem _ hl))
  | stepped h ih => exact .stepped (ih fun l hl => hs l (List.mem_append_left _ hl))
  | binary hx hy ihx ihy =>
      exact .binary (ihx fun l hl => hs l (by simp [hl])) (ihy fun l hl => hs l (by simp [hl]))
  | assign hx hy ihx ihy =>
      exact .assign (ihx fun l hl => hs l (by simp [hl])) (ihy fun l hl => hs l (by simp [hl]))
  | @call name ls pairs hname hargs ihname ihargs =>
      obtain ⟨hcallee, hrest⟩ := List.forall_mem_append.mp hs
      obtain ⟨hrow, -⟩ := List.forall_mem_append.mp (List.forall_mem_cons.mp hrest).2
      rw [forall_mem_commaSeparated_iff (P := fun l => Spelled l.kind l.text) (.symbol rfl)]
        at hrow
      -- Whatever parentheses it was read in, the callee is a name.
      cases ihname hcallee with
      | identifier hn hk =>
          refine .call hn hk fun arg harg => ?_
          obtain ⟨p, hp, rfl⟩ := List.mem_map.mp harg
          exact ihargs p hp (hrow p.2 (List.mem_map_of_mem hp))

/-! ### Rows -/

/-- In a row the significant tokens are those of the operands, since only commas stand between. -/
theorem significant_listLexemes_cons (x : Operand) (xs : List Operand) :
    significant (listLexemes (x :: xs))
      = significant x.lexemes ++ significant (listLexemes xs) := by
  simp [listLexemes, lexemesAll, significant_commaSeparated]

/-- Operands in a row are printed as the tokens that they were read from, up to
punctuation. -/
theorem significant_of_spellsRow {xs : List Operand} {ls : List Lexeme} (h : SpellsRow xs ls) :
    significant (listLexemes xs) = significant ls := by
  induction h with
  | nil => rfl
  | cons hx _ ih =>
      rw [significant_listLexemes_cons, significant_lexemes_of_spells hx, ih,
        Token.significant_append]
  | consComma hx _ ih =>
      rw [significant_listLexemes_cons, significant_lexemes_of_spells hx, ih,
        Token.significant_append, Token.significant_cons]
      simp [Token.Kind.isSignificant]

/-- What holds of the tokens of a row and of the punctuation in canonical spellings holds of the
tokens of each operand in its canonical spelling. -/
theorem forall_mem_lexemes_of_spellsRow {P : Lexeme → Prop} (ho : P Token.Kind.openParen.lexeme)
    (hc : P Token.Kind.closeParen.lexeme) (hcomma : P Token.Kind.comma.lexeme)
    {xs : List Operand} {ls : List Lexeme} (h : SpellsRow xs ls) (hls : ∀ l ∈ ls, P l) :
    ∀ x ∈ xs, ∀ l ∈ x.lexemes, P l := by
  induction h with
  | nil => simp
  | cons hx _ ih =>
      obtain ⟨hhead, htail⟩ := List.forall_mem_append.mp hls
      exact List.forall_mem_cons.mpr
        ⟨forall_mem_lexemes_of_spells ho hc hcomma hx hhead, ih htail⟩
  | consComma hx _ ih =>
      obtain ⟨hhead, htail⟩ := List.forall_mem_append.mp hls
      exact List.forall_mem_cons.mpr ⟨forall_mem_lexemes_of_spells ho hc hcomma hx hhead,
        ih (List.forall_mem_cons.mp htail).2⟩

/-- Operands in a row are printed with the characters of the tokens that they were read from,
and with spaces, commas and parentheses. -/
theorem forall_mem_render_of_spellsRow {P : Char → Prop} (hP : ∀ c ∈ [' ', ',', '(', ')'], P c)
    {xs : List Operand} {row : List Lexeme} (h : SpellsRow xs row)
    (hrow : ∀ l ∈ row, ∀ c ∈ l.text, P c) : ∀ x ∈ xs, ∀ c ∈ x.render, P c := by
  have hmark : ∀ d ∈ [' ', ',', '(', ')'], ∀ c ∈ [d], P c := by
    intro d hd c hc
    rw [List.mem_singleton.mp hc]
    exact hP d hd
  intro x hx
  refine forall_mem_render (hP ' ' (by simp)) x ?_
  exact forall_mem_lexemes_of_spellsRow (P := fun l => ∀ c ∈ l.text, P c) (hmark '(' (by simp))
    (hmark ')' (by simp)) (hmark ',' (by simp)) h hrow x hx

/-- Operands that are spelled by tokens of the right forms have printed forms. -/
theorem wellFormed_of_spellsRow {xs : List Operand} {ls : List Lexeme} (h : SpellsRow xs ls)
    (hs : ∀ l ∈ ls, Spelled l.kind l.text) : ∀ x ∈ xs, WellFormed x := by
  induction h with
  | nil => simp
  | cons hx _ ih =>
      obtain ⟨hhead, htail⟩ := List.forall_mem_append.mp hs
      exact List.forall_mem_cons.mpr ⟨wellFormed_of_spells hx hhead, ih htail⟩
  | consComma hx _ ih =>
      obtain ⟨hhead, htail⟩ := List.forall_mem_append.mp hs
      exact List.forall_mem_cons.mpr
        ⟨wellFormed_of_spells hx hhead, ih (List.forall_mem_cons.mp htail).2⟩

end Operand

end PicAssembly
