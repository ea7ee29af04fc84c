import PicAssembly.Proofs.Operand.Names
import PicAssembly.Proofs.Operand.Nodes

/-!
# `PicAssembly.Proofs.Operand.Invariants`: how the reader leaves the nodes of an operand

Not every tree can come out of the reader. `Operand.NodeAsRead` says of a single node what is
always true of it, and looks at no more of the tree than the node directly around it. That node
matters to names only: a keyword is a name directly under a pound sign, and an operator anywhere
else. These conditions, one for each node, are all that it takes to have a printed form
(`Operand.wellFormed_iff`).

A tree keeps its names and keywords as they were spelled. `Operand.words` lists them from left to
right, and they are the identifier tokens that the operand was read from, in the same order
(`Operand.words_of_spells`). So no letter changes its case, and no word is lost or added.
-/

set_option autoImplicit false

namespace PicAssembly

open Token (Lexeme)

/-! ### Spellings of prefix operators -/

namespace Text

/-- What is no letter is the lower case of nothing else. -/
theorem toLower_eq_iff {c d : Char} (hd : d.isAlpha = false) : c.toLower = d ↔ c = d := by
  have hsame {e : Char} (he : e.isAlpha = false) : e.toLower = e :=
    Token.toLower_eq_self (Bool.or_eq_false_iff.mp he).1
  constructor
  · rintro rfl
    rw [Token.isAlpha_toLower] at hd
    exact (hsame hd).symm
  · rintro rfl
    exact hsame hd

/-- A text without letters is the lower case of nothing else. -/
theorem asciiLower_eq_iff {t u : Text} (hu : ∀ c ∈ u, c.isAlpha = false) :
    asciiLower t = u ↔ t = u := by
  induction u generalizing t with
  | nil => exact List.map_eq_nil_iff
  | cons d u ih =>
      obtain ⟨hd, hu⟩ := List.forall_mem_cons.mp hu
      cases t with
      | nil => simp [asciiLower]
      | cons c t =>
          rw [List.cons.injEq, ← toLower_eq_iff hd, ← ih hu]
          exact List.cons_eq_cons

end Text

namespace UnaryOp

/-- A prefix operator is spelled as usual, up to the case of letters. -/
theorem isSpelling_iff {op : UnaryOp} {spelling : Text} :
    op.IsSpelling spelling ↔ Text.asciiLower spelling = op.lexeme := by
  by_cases hk : op.tokenKind = .identifier
  · have hword : op.IsSpelling spelling ↔ keyword? spelling = some op := by
      rcases tokenKind_eq_identifier_iff.mp hk with rfl | rfl | rfl
      · rfl
      · rfl
      · rfl
    rw [hword, keyword?_eq_some_iff, and_iff_right hk]
  · have hsymbol : op.IsSpelling spelling ↔ spelling = op.lexeme := by
      cases op with
      | high | low | upper => exact absurd rfl hk
      | _ => rfl
    have hall : op.lexeme.all fun c => !c.isAlpha := by
      cases op with
      | high | low | upper => exact absurd rfl hk
      | step op => cases op <;> rfl
      | _ => rfl
    -- A punctuation mark has no letters, so there is no letter case to it.
    have hletters : ∀ c ∈ op.lexeme, c.isAlpha = false := by simpa using hall
    rw [hsymbol, Text.asciiLower_eq_iff hletters]

end UnaryOp

namespace Operand

/-! ### One node -/

/-- `y` is a node of `x`, and it is directly inside the node `around` or all of `x`. -/
inductive Occurs (x : Operand) : (around : Option Operand) → Operand → Prop where
  | whole : Occurs x none x
  | part {y z : Operand} (hy : y ∈ x.nodes) (hz : z ∈ y.parts) : Occurs x (some y) z

/-- How the reader leaves a node that is directly inside `around`, or that is by itself. -/
def NodeAsRead (around : Option Operand) : Operand → Prop
  | .identifier name =>
    Token.IsName name ∧ ((∃ spelling, around = some (.unary .pound spelling (.identifier name))) ∨
      ¬ UnaryOp.IsKeyword name)
  | .call callee _ => ∃ name, callee = .identifier name
  | .unary op spelling operand =>
    Text.asciiLower spelling = op.lexeme ∧ (op = .pound → ∃ name, operand = .identifier name)
  | .number value radix literal => parse literal = .ok (.number value radix literal)
  | .chipId text => parse text = .ok (.chipId text)
  | .string text => Token.IsQuotation text
  | .programCounter | .stepped .. | .binary .. | .assign .. => True

/-- Every node is as the reader leaves it. -/
def AsRead (x : Operand) : Prop := ∀ around y, x.Occurs around y → NodeAsRead around y

/-- Only under a pound sign it matters to a node that there is one around it. -/
theorem NodeAsRead.alone {x y : Operand} (h : NodeAsRead (some x) y)
    (hx : ∀ spelling, x ≠ .unary .pound spelling y) : NodeAsRead none y := by
  cases y with
  | identifier name =>
      refine ⟨h.1, .inr (h.2.resolve_left ?_)⟩
      rintro ⟨spelling, hpound⟩
      exact hx spelling (Option.some.inj hpound)
  | _ => exact h

/-- The parts of an operand are as the reader leaves them, unless a pound sign is around. -/
theorem AsRead.part {x y : Operand} (h : x.AsRead) (hy : y ∈ x.parts)
    (hx : ∀ spelling, x ≠ .unary .pound spelling y) : y.AsRead := by
  intro around z hz
  cases hz with
  | whole => exact (h _ _ (.part (mem_nodes_self x) hy)).alone hx
  | part hnode hpart => exact h _ _ (.part (mem_nodes_iff.mpr (.inr ⟨y, hy, hnode⟩)) hpart)

/-! ### Operands with a printed form -/

/-- The parts of an operand with a printed form have one too, or they are names under a pound
sign. -/
theorem WellFormed.part {x y : Operand} (h : WellFormed x) (hy : y ∈ x.parts) :
    WellFormed y ∨ ∃ name, y = .identifier name ∧ Token.IsName name ∧
      x = .unary .pound UnaryOp.pound.lexeme (.identifier name) := by
  cases h with
  | number | string | chipId | programCounter | identifier => cases hy
  | @pound name hn => exact .inr ⟨name, List.mem_singleton.mp hy, hn, rfl⟩
  | unary _ _ h => exact .inl (List.mem_singleton.mp hy ▸ h)
  | stepped h => exact .inl (List.mem_singleton.mp hy ▸ h)
  | binary hl hr =>
      rcases List.mem_pair.mp hy with rfl | rfl
      · exact .inl hl
      · exact .inl hr
  | assign hl hr =>
      rcases List.mem_pair.mp hy with rfl | rfl
      · exact .inl hl
      · exact .inl hr
  | call hn hk hargs =>
      rcases List.mem_cons.mp hy with rfl | hy
      · exact .inl (.identifier hn hk)
      · exact .inl (hargs y hy)

/-- The nodes of an operand with a printed form have one too, or they are names. -/
theorem WellFormed.node {x y : Operand} (h : WellFormed x) (hy : y ∈ x.nodes) :
    WellFormed y ∨ ∃ name, y = .identifier name := by
  induction x using induct_parts with
  | step x ih =>
      rcases mem_nodes_iff.mp hy with rfl | ⟨z, hz, hyz⟩
      · exact .inl h
      · rcases h.part hz with hz' | ⟨name, rfl, -, -⟩
        · exact ih z hz hz' hyz
        · exact .inr ⟨name, List.mem_singleton.mp hyz⟩

/-- A node of an operand with a printed form is as the reader leaves it, wherever it stands. -/
theorem WellFormed.nodeAsRead {x : Operand} (h : WellFormed x) (around : Option Operand) :
    NodeAsRead around x := by
  have hparse := parse_eq_ok_of_wellFormed h
  cases h with
  | number => exact hparse (by simp [lexemes, Token.headKind])
  | string h => exact h
  | chipId => exact hparse (by simp [lexemes, Token.headKind])
  | programCounter => trivial
  | identifier hn hk => exact ⟨hn, .inr (UnaryOp.keyword?_eq_none_iff.mp hk)⟩
  | @pound name hn => exact ⟨rfl, fun _ => ⟨name, rfl⟩⟩
  | unary hop hs _ => exact ⟨UnaryOp.isSpelling_iff.mp hs, fun h => absurd h hop⟩
  | stepped | binary | assign => trivial
  | @call name => exact ⟨name, rfl⟩

/-- An operand with a printed form is as the reader leaves it, at every node. -/
theorem WellFormed.asRead {x : Operand} (h : WellFormed x) : x.AsRead := by
  intro around y hy
  cases hy with
  | whole => exact h.nodeAsRead none
  | @part z y hz hy =>
      rcases h.node hz with hz' | ⟨name, rfl⟩
      -- A node that is no name has a printed form, unless it is a keyword under a pound sign.
      · rcases hz'.part hy with hy' | ⟨name, rfl, hn, rfl⟩
        · exact hy'.nodeAsRead (some z)
        · exact ⟨hn, .inl ⟨_, rfl⟩⟩
      · cases hy

/-- An operand that is as the reader leaves it has a printed form. With `WellFormed.asRead` the two
conditions are one: the first is told by the nodes, the second by the constructors. -/
theorem AsRead.wellFormed {x : Operand} (h : x.AsRead) : WellFormed x := by
  induction x using induct with
  | number | chipId => exact wellFormed_of_parse (h none _ .whole)
  | string => exact .string (h none _ .whole)
  | programCounter => exact .programCounter
  | identifier name =>
      obtain ⟨hn, ⟨spelling, hnone⟩ | hk⟩ := h none _ .whole
      · cases hnone
      · exact .identifier hn (UnaryOp.keyword?_eq_none_iff.mpr hk)
  | unary op spelling x ih =>
      obtain ⟨hspelling, hpound⟩ := h none _ .whole
      have hs := UnaryOp.isSpelling_iff.mpr hspelling
      by_cases hop : op = .pound
      · subst hop
        obtain ⟨name, rfl⟩ := hpound rfl
        obtain rfl : spelling = UnaryOp.pound.lexeme := hs
        exact .pound (h _ _ (.part (mem_nodes_self _) List.mem_cons_self)).1
      · exact .unary hop hs (ih (h.part List.mem_cons_self fun _ heq => hop (by cases heq; rfl)))
  | stepped op x ih => exact .stepped (ih (h.part List.mem_cons_self (by simp)))
  | binary op x y ihx ihy =>
      exact .binary (ihx (h.part List.mem_cons_self (by simp)))
        (ihy (h.part (List.mem_cons_of_mem _ List.mem_cons_self) (by simp)))
  | assign op x y ihx ihy =>
      exact .assign (ihx (h.part List.mem_cons_self (by simp)))
        (ihy (h.part (List.mem_cons_of_mem _ List.mem_cons_self) (by simp)))
  | call callee args ihcallee ihargs =>
      obtain ⟨name, rfl⟩ := h none _ .whole
      -- A name that is called is under no pound sign.
      cases ihcallee (h.part List.mem_cons_self (by simp)) with
      | identifier hn hk =>
          exact .call hn hk fun arg harg =>
            ihargs arg harg (h.part (List.mem_cons_of_mem _ harg) (by simp))

/-- An operand has a printed form just if each of its nodes is as the reader leaves it. -/
theorem wellFormed_iff {x : Operand} : WellFormed x ↔ x.AsRead :=
  ⟨WellFormed.asRead, AsRead.wellFormed⟩

end Operand

/-! ### Names and keywords -/

/-- The texts of the identifiers among some tokens. -/
def Token.words (ls : List Lexeme) : List Text :=
  ls.filterMap fun l => if l.kind = .identifier then some l.text else none

/-- No tokens have no words. -/
@[simp] theorem Token.words_nil : words [] = [] := rfl

/-- The words of tokens in a row are the words of the first and then those of the second. -/
@[simp] theorem Token.words_append (ls ms : List Lexeme) :
    words (ls ++ ms) = words ls ++ words ms := List.filterMap_append

/-- Only an identifier adds a word. -/
@[simp] theorem Token.words_cons (l : Lexeme) (ls : List Lexeme) :
    words (l :: ls) = if l.kind = .identifier then l.text :: words ls else words ls := by
  rw [words, List.filterMap_cons]
  split_ifs <;> rfl

namespace Operand

/-- The word that a node is spelled with, if it is a name or begins with a keyword. -/
def word? : Operand → Option Text
  | .identifier name => some name
  | .unary op spelling _ => if op.tokenKind = .identifier then some spelling else none
  | _ => none

/-- The names and the keywords in an operand, from left to right, as they are spelled. -/
def words (x : Operand) : List Text := x.nodes.filterMap word?

/-- The words of a node are its own and then those of its parts, since every form is spelled from
left to right with its name or keyword first. -/
theorem words_eq (x : Operand) : x.words = x.word?.toList ++ x.parts.flatMap words := by
  rw [words, nodes_eq, List.filterMap_cons, List.filterMap_flatMap]
  cases x.word? <;> rfl

/-- Commas are no words. -/
theorem words_commaSeparated (lss : List (List Lexeme)) :
    Token.words (commaSeparated lss) = lss.flatMap Token.words := by
  induction lss with
  | nil => rfl
  | cons ls lss ih =>
      cases lss with
      | nil => simp [commaSeparated_singleton]
      | cons ms lss => simp [commaSeparated_cons_cons, ih]

/-- The words of an operand are the identifiers among the tokens that it was read from. -/
theorem words_of_spells {x : Operand} {ls : List Lexeme} (h : Spells x ls) :
    Token.words ls = x.words := by
  induction h with
  | number | character | string | chipId | programCounter | identifier | pound => rfl
  | group h ih => simp [ih]
  | @unary op spelling x ls hop hs h ih =>
      rw [Token.words_cons, ih, words_eq (.unary op spelling x)]
      -- A keyword is a word of its own, a symbol is none.
      by_cases hk : op.tokenKind = .identifier
      · simp [word?, parts, hk]
      · simp [word?, parts, hk]
  | stepped h ih => simp [words_eq (.stepped _ _), word?, parts, ih]
  | binary hx hy ihx ihy => simp [words_eq (.binary _ _ _), word?, parts, ihx, ihy]
  | assign hx hy ihx ihy => simp [words_eq (.assign _ _ _), word?, parts, ihx, ihy]
  | @call callee ls pairs hname hargs ihname ihargs =>
      have hwords : (pairs.map Prod.snd).flatMap Token.words
          = (pairs.map Prod.fst).flatMap words := by
        rw [List.flatMap_map, List.flatMap_map]
        exact List.flatMap_congr fun pair hpair => ihargs pair hpair
      simp [words_eq (.call _ _), word?, parts, words_commaSeparated, ihname, hwords]

/-- So they are for operands in a row. -/
theorem words_of_spellsRow {xs : List Operand} {ls : List Lexeme} (h : SpellsRow xs ls) :
    Token.words ls = xs.flatMap words := by
  induction h with
  | nil => rfl
  | cons hx _ ih => rw [Token.words_append, words_of_spells hx, ih, List.flatMap_cons]
  | consComma hx _ ih =>
    rw [Token.words_append, words_of_spells hx, List.flatMap_cons, ← ih]
    rfl

end Operand

end PicAssembly
