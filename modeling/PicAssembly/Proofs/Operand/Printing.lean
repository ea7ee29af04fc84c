import PicAssembly.Proofs.Operand.Lexemes

/-!
# `PicAssembly.Proofs.Operand.Printing`: the printer writes the tokens of the tree

`prints_render`: a well-formed operand is printed as the tokens `Operand.lexemes` lists,
wherever it is put. This is the statement about the spaces of the printer. The unspaced
pairs are the difficult ones: a step operator before an assignment, an assignment before a
sign, two signs in a row. `prints_renderList` says the same of operands in a row.
-/

set_option autoImplicit false

namespace PicAssembly

open Token (Lexeme Spelled Prints Detached EndsBefore)

namespace Operand

/-- A prefix operator that is no keyword ends before an operand, if it is not a minus sign
before another one. -/
theorem endsBefore_tokenKind {op : UnaryOp} {t : Text} (hop : op.tokenKind ≠ .identifier)
    (he : t.head? ≠ some '=') (hm : op = .negate → t.head? ≠ some '-') :
    EndsBefore op.tokenKind op.lexeme t := by
  cases op with
  | high => exact absurd rfl hop
  | low => exact absurd rfl hop
  | upper => exact absurd rfl hop
  | complement => exact Token.endsBefore_single rfl he (fun h => absurd h (by decide))
  | not => exact Token.endsBefore_single rfl he (fun h => absurd h (by decide))
  | negate => exact Token.endsBefore_single rfl he fun _ => hm rfl
  | pound => exact Token.endsBefore_mark rfl _ (by simp [UnaryOp.tokenKind])
  | step op => exact Token.endsBefore_step op t

/-- Parentheses around a text are two tokens more. -/
theorem prints_grouped {t : Text} {ls : List Lexeme} (h : Prints t ls) (wrap : Bool) :
    Prints (grouped wrap t) (groupedLexemes wrap ls) := by
  cases wrap with
  | false => exact h
  | true =>
      have hclose : Prints [')'] [Token.Kind.closeParen.lexeme] :=
        Prints.symbol [')'] rfl (fun rest _ => Token.endsBefore_mark rfl _ (by simp))
          Prints.nil
      have hinner := h.append hclose fun rest _ => Token.detached_cons (by decide) rest
      exact Prints.symbol ['('] rfl
        (fun rest _ => Token.endsBefore_mark rfl _ (by simp)) hinner

/-- A prefix operator before a printed operand. -/
theorem prints_joinPrefixed {op : UnaryOp} {spelling t : Text} {ls : List Lexeme}
    (hs : op.IsSpelling spelling) (h : Prints t ls) (ht : StartsOperand t) :
    Prints (joinPrefixed spelling t) (⟨op.tokenKind, spelling⟩ :: ls) := by
  by_cases hword : op.tokenKind = .identifier
  -- A keyword is never one character long, so a space follows it.
  · have hlen : spelling.length ≠ 1 := by
      cases op with
      | high => exact length_ne_one_of_keyword? hs
      | low => exact length_ne_one_of_keyword? hs
      | upper => exact length_ne_one_of_keyword? hs
      | _ => cases hword
    have hspelled := spelled_of_isSpelling hs
    rw [joinPrefixed, if_neg fun hc => hlen hc.1]
    exact (Prints.word hspelled (Or.inl hword)).append h.space
      fun rest _ => Token.detached_cons (by decide) _
  -- A symbol of one character stands directly before the operand, but not a minus sign before
  -- another one.
  · have hsymbol := symbol?_tokenKind hword
    obtain rfl : spelling = op.lexeme := (spelled_of_isSpelling hs).eq_symbol hsymbol
    obtain ⟨c, cs, rfl, hc, -⟩ := ht
    unfold joinPrefixed
    split
    · next hdirect =>
      refine Prints.symbol _ hsymbol (fun rest _ => ?_) h
      refine endsBefore_tokenKind hword (by simpa using hc) ?_
      rintro rfl
      simpa using fun hm => hdirect.2 ⟨rfl, by simp [hm]⟩
    · refine Prints.symbol _ hsymbol (fun rest _ => ?_) h.space
      exact endsBefore_tokenKind hword (by simp) (by simp)

/-- Texts in a row, with a comma and a space between neighbours. -/
theorem prints_join (pairs : List (Text × List Lexeme)) (h : ∀ p ∈ pairs, Prints p.1 p.2) :
    Prints (Text.join [',', ' '] (pairs.map Prod.fst)) (commaSeparated (pairs.map Prod.snd)) := by
  induction pairs with
  | nil => exact Prints.nil
  | cons p pairs ih =>
      have hp := h p List.mem_cons_self
      have hrest := ih fun q hq => h q (List.mem_cons_of_mem p hq)
      cases pairs with
      | nil => simpa [Text.join_singleton, commaSeparated_singleton] using hp
      | cons q pairs =>
          have hcomma : Prints (',' :: ' ' :: Text.join [',', ' '] ((q :: pairs).map Prod.fst))
              (Token.Kind.comma.lexeme :: commaSeparated ((q :: pairs).map Prod.snd)) :=
            Prints.symbol [','] rfl
              (fun rest _ => Token.endsBefore_mark rfl _ (by simp)) hrest.space
          have hboth := hp.append hcomma fun rest _ => Token.detached_cons (by decide) _
          simpa only [List.map_cons, Text.join_cons_cons, commaSeparated_cons_cons,
            List.append_assoc, List.cons_append, List.nil_append] using hboth

/-- Operands in a row. -/
theorem prints_renderList {xs : List Operand} (h : ∀ x ∈ xs, Prints x.render x.lexemes) :
    Prints (renderList xs) (listLexemes xs) := by
  have hrow := prints_join (xs.map fun x => (x.render, x.lexemes)) (by simpa using h)
  simpa [renderList, renderAll_eq_map, listLexemes, lexemesAll_eq_map, Function.comp_def]
    using hrow

/-- A well-formed operand is printed as its tokens. -/
theorem prints_render {x : Operand} (h : WellFormed x) : Prints x.render x.lexemes := by
  induction h with
  | number token _ _ _ =>
      exact Prints.word (spelled_of_isToken token (by simp)) (Or.inr (Or.inl rfl))
  | @string text h =>
      refine Prints.word (spelled_of_isQuotation h) ?_
      split
      · exact Or.inr (Or.inr (Or.inr rfl))
      · exact Or.inr (Or.inl rfl)
  | chipId h => exact Prints.word (spelled_of_isToken h (by simp)) (Or.inr (Or.inr (Or.inl rfl)))
  | programCounter =>
      exact Prints.symbol ['$'] rfl
        (fun rest _ => Token.endsBefore_mark rfl _ (by simp)) Prints.nil
  | identifier hn _ => exact Prints.word (.identifier hn) (Or.inl rfl)
  | pound hn =>
      have hname : Spelled .identifier _ := .identifier hn
      have hspelling : UnaryOp.IsSpelling .pound UnaryOp.pound.lexeme := rfl
      exact prints_joinPrefixed hspelling (Prints.word hname (Or.inl rfl))
        (startsOperand_of_spelled hname (Or.inl rfl))
  | unary _ hs h ih =>
      exact prints_joinPrefixed hs (prints_grouped ih _)
        (startsOperand_grouped (startsOperand_render h) _)
  | @stepped op x h ih =>
      -- No operator is longer than a step operator and begins with it, so anything may follow.
      have hstep : Prints (op.lexeme ++ []) [(Token.Kind.step op).lexeme] :=
        Prints.symbol (k := .step op) _ rfl (fun rest _ => Token.endsBefore_step op _) Prints.nil
      rw [List.append_nil] at hstep
      exact (prints_grouped ih _).append hstep fun rest _ =>
        Token.detached_symbol (k := .step op) rfl rest
  | @binary op l r hl hr ihl ihr =>
      -- The spaces keep the operator apart from both operands.
      have hright : Prints (op.lexeme ++ ' ' :: grouped (r.power ≤ op.power) r.render)
          ((Token.Kind.binary op).lexeme :: groupedLexemes (r.power ≤ op.power) r.lexemes) :=
        Prints.symbol (k := .binary op) _ rfl (fun rest _ => Token.endsBefore_binary op _)
          (prints_grouped ihr _).space
      have hboth := (prints_grouped ihl (l.power < op.power)).append hright.space
        fun rest _ => Token.detached_cons (by decide) _
      simpa only [render, lexemes, List.append_assoc, List.cons_append] using hboth
  | @assign op l r hl hr ihl ihr =>
      -- There are no spaces here. The operator ends all the same, because only an equals sign
      -- could make it longer and no operand begins with one.
      obtain ⟨c, cs, hstart, hc, -⟩ :=
        startsOperand_grouped (startsOperand_render hr) (r.power < Power.assignment)
      have hright : Prints (op.lexeme ++ grouped (r.power < Power.assignment) r.render)
          ((Token.Kind.assign op).lexeme ::
            groupedLexemes (r.power < Power.assignment) r.lexemes) := by
        refine Prints.symbol (k := .assign op) _ rfl (fun rest _ => ?_) (prints_grouped ihr _)
        rw [hstart]
        exact Token.endsBefore_assign op (by simpa using hc)
      have hboth := (prints_grouped ihl (l.power ≤ Power.assignment)).append hright fun rest _ => by
        rw [List.append_assoc]
        exact Token.detached_symbol (k := .assign op) rfl _
      simpa only [render, lexemes, List.append_assoc, List.cons_append] using hboth
  | @call name args hn _ _ ih =>
      -- The arguments in their parentheses are printed like an operand in a group.
      have hargs := prints_grouped (prints_renderList ih) true
      have hboth := (Prints.word (.identifier hn) (Or.inl rfl)).append hargs
        fun rest _ => Token.detached_cons (c := '(') (by decide) _
      simpa only [render, lexemes, renderList, listLexemes, grouped, groupedLexemes, if_true,
        List.append_assoc, List.cons_append] using hboth

/-! ### The characters of the printed form -/

/-- What holds of every character holds in parentheses too, if it holds of the parentheses. They are
tokens of the canonical spelling, so the condition on the tokens says so. -/
theorem forall_mem_grouped {P : Char → Prop} {t : Text} {ls : List Lexeme} (wrap : Bool)
    (ih : (∀ l ∈ ls, ∀ c ∈ l.text, P c) → ∀ c ∈ t, P c)
    (h : ∀ l ∈ groupedLexemes wrap ls, ∀ c ∈ l.text, P c) : ∀ c ∈ grouped wrap t, P c := by
  cases wrap with
  | false => exact ih h
  | true =>
      obtain ⟨hopen, hrest⟩ := List.forall_mem_cons.mp h
      obtain ⟨hinner, hclose⟩ := List.forall_mem_append.mp hrest
      have hboth := List.forall_mem_append.mpr ⟨ih hinner, hclose _ List.mem_cons_self⟩
      exact List.forall_mem_cons.mpr ⟨hopen _ List.mem_cons_self, hboth⟩

/-- Between an operator and its operand there is a space at most. -/
theorem forall_mem_joinPrefixed {P : Char → Prop} (hspace : P ' ') {spelling t : Text}
    (hs : ∀ c ∈ spelling, P c) (ht : ∀ c ∈ t, P c) : ∀ c ∈ joinPrefixed spelling t, P c := by
  unfold joinPrefixed
  split
  · exact List.forall_mem_append.mpr ⟨hs, ht⟩
  · exact List.forall_mem_append.mpr ⟨hs, List.forall_mem_cons.mpr ⟨hspace, ht⟩⟩

/-- Between operands there are commas, which are tokens, and spaces. -/
theorem forall_mem_renderList {P : Char → Prop} (hspace : P ' ') {xs : List Operand}
    (ih : ∀ x ∈ xs, (∀ l ∈ x.lexemes, ∀ c ∈ l.text, P c) → ∀ c ∈ x.render, P c)
    (h : ∀ l ∈ listLexemes xs, ∀ c ∈ l.text, P c) : ∀ c ∈ renderList xs, P c := by
  induction xs with
  | nil => simp [renderList, renderAll, Text.join]
  | cons x xs ihs =>
      have hx := ih x List.mem_cons_self
      have hxs := ihs fun y hy => ih y (List.mem_cons_of_mem x hy)
      cases xs with
      | nil =>
          rw [listLexemes, lexemesAll, lexemesAll, commaSeparated_singleton] at h
          simpa [renderList, renderAll, Text.join] using hx h
      | cons y ys =>
          rw [listLexemes, lexemesAll, lexemesAll, commaSeparated_cons_cons] at h
          -- The comma is a token of the row, and the space behind it is not.
          obtain ⟨hhead, hrest⟩ := List.forall_mem_append.mp h
          obtain ⟨hcomma, htail⟩ := List.forall_mem_cons.mp hrest
          show ∀ c ∈ x.render ++ ',' :: ' ' :: renderList (y :: ys), P c
          exact List.forall_mem_append.mpr ⟨hx hhead, List.forall_mem_cons.mpr
            ⟨hcomma _ List.mem_cons_self, List.forall_mem_cons.mpr ⟨hspace, hxs htail⟩⟩⟩

/-- The printer writes no characters but those of the tokens, and spaces. -/
theorem forall_mem_render {P : Char → Prop} (hspace : P ' ') (x : Operand) :
    (∀ l ∈ x.lexemes, ∀ c ∈ l.text, P c) → ∀ c ∈ x.render, P c := by
  -- Blanks are all that is printed between tokens.
  induction x using induct with
  | number value radix literal => exact fun h => h _ List.mem_cons_self
  | string text => exact fun h => h _ List.mem_cons_self
  | chipId text => exact fun h => h _ List.mem_cons_self
  | programCounter => exact fun h => h _ List.mem_cons_self
  | identifier name => exact fun h => h _ List.mem_cons_self
  | unary op spelling x ih =>
      intro h
      obtain ⟨hhead, htail⟩ := List.forall_mem_cons.mp h
      exact forall_mem_joinPrefixed hspace hhead (forall_mem_grouped _ ih htail)
  | stepped op x ih =>
      intro h
      obtain ⟨hx, hop⟩ := List.forall_mem_append.mp h
      exact List.forall_mem_append.mpr ⟨forall_mem_grouped _ ih hx, hop _ List.mem_cons_self⟩
  | binary op l r ihl ihr =>
      intro h
      obtain ⟨hl, hright⟩ := List.forall_mem_append.mp h
      obtain ⟨hop, hr⟩ := List.forall_mem_cons.mp hright
      have hspaced : ∀ c ∈ ' ' :: op.lexeme, P c := List.forall_mem_cons.mpr ⟨hspace, hop⟩
      exact List.forall_mem_append.mpr
        ⟨List.forall_mem_append.mpr ⟨forall_mem_grouped _ ihl hl, hspaced⟩,
          List.forall_mem_cons.mpr ⟨hspace, forall_mem_grouped _ ihr hr⟩⟩
  | assign op l r ihl ihr =>
      intro h
      obtain ⟨hl, hright⟩ := List.forall_mem_append.mp h
      obtain ⟨hop, hr⟩ := List.forall_mem_cons.mp hright
      exact List.forall_mem_append.mpr
        ⟨List.forall_mem_append.mpr ⟨forall_mem_grouped _ ihl hl, hop⟩, forall_mem_grouped _ ihr hr⟩
  | call f xs ihf ihs =>
      intro h
      have hargs := forall_mem_grouped true (forall_mem_renderList hspace ihs)
      rw [lexemes, List.append_assoc, List.forall_mem_append] at h
      rw [render, List.append_assoc, List.forall_mem_append]
      exact ⟨ihf h.1, hargs h.2⟩

/-- An operator before a text does not change how the text ends. -/
theorem solid_joinPrefixed {t : Text} (ht : Text.Solid t) (hne : t ≠ []) (spelling : Text) :
    Text.Solid (joinPrefixed spelling t) := by
  unfold joinPrefixed
  split
  · exact ht.append hne spelling
  · exact Text.Solid.append (u := ' ' :: t) (ht.append hne [' ']) (by simp) spelling

/-- Parentheses do not make a text end in a blank. -/
theorem solid_grouped {t : Text} (ht : Text.Solid t) (wrap : Bool) :
    Text.Solid (grouped wrap t) := by
  cases wrap with
  | false => exact ht
  | true => exact Text.solid_append_singleton (by decide) ('(' :: t)

/-- A printed operand is not empty, with parentheses or without. -/
theorem grouped_render_ne_nil {x : Operand} (h : WellFormed x) (wrap : Bool) :
    grouped wrap x.render ≠ [] := by
  obtain ⟨c, cs, hstart, -⟩ := startsOperand_grouped (startsOperand_render h) wrap
  simp [hstart]

/-- The printed form ends in no blank. -/
theorem solid_render {x : Operand} (h : WellFormed x) : Text.Solid x.render := by
  induction h with
  | number token _ _ _ => exact (spelled_of_isToken token (by simp)).solid (by simp)
  | string h => exact (spelled_of_isQuotation h).solid (by split <;> simp)
  | chipId h => exact (spelled_of_isToken h (by simp)).solid (by simp)
  | programCounter => exact Text.solid_append_singleton (by decide) []
  | identifier hn _ => exact (Spelled.identifier hn).solid (by simp)
  | pound hn =>
      have hname : Spelled .identifier _ := .identifier hn
      exact solid_joinPrefixed (hname.solid (by simp)) hname.ne_nil _
  | unary _ _ h ih => exact solid_joinPrefixed (solid_grouped ih _) (grouped_render_ne_nil h _) _
  | @stepped op _ _ _ =>
      have hop : Spelled (.step op) op.lexeme := .symbol rfl
      exact (hop.solid (by simp)).append hop.ne_nil _
  | @binary op l r _ hr _ ihr =>
      have hright :=
        (solid_grouped ihr (r.power ≤ op.power)).append (grouped_render_ne_nil hr _) [' ']
      exact hright.append (by simp) _
  | assign _ hr _ ihr => exact (solid_grouped ihr _).append (grouped_render_ne_nil hr _) _
  | call _ _ _ _ => exact Text.solid_append_singleton (by decide) _

end Operand

end PicAssembly
