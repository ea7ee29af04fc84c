import PicAssembly.Token.Scan

/-!
# `PicAssembly.Proofs.Token.OperatorTable`: the operators as texts

`Token.operatorKind?` is the table of operators and `Token.operatorExtent?` the search
for the longest of them at a place. This module reads the table backwards and says what
the search finds:

* `symbol?_of_operatorKind?` and `operatorKind?_of_symbol?`: every operator has one text
  and every such text is one operator.
* `operatorExtent?_append` and `exists_of_operatorExtent?`: an operator is found at a
  place just if it stands there and the next character does not make a longer one of it.
  Three characters need no look of their own, since every operator of three begins with
  one of two (`operatorKind?_triple_eq_none`).
-/

set_option autoImplicit false

namespace PicAssembly.Token

/-- The one text of the tokens of a kind, for the kinds that have only one. -/
def Kind.symbol? : Kind → Option Text
  | .programCounter => some ['$']
  | .comma => some [',']
  | .colon => some [':']
  | .openParen => some ['(']
  | .closeParen => some [')']
  | .binary op => some op.lexeme
  | .assign op => some op.lexeme
  | .step op => some op.lexeme
  | .not => some ['!']
  | .complement => some ['~']
  | .pound => some ['#']
  | _ => none

/-! ### The table -/

/-- The text of an operator is the one text of its kind. -/
theorem symbol?_of_operatorKind? {text : Text} {k : Kind} (h : operatorKind? text = some k) :
    k.symbol? = some text := by
  unfold operatorKind? at h
  split at h <;> cases h <;> rfl

/-- The texts of all operators. -/
def operatorTexts : List Text :=
  ["<<=", ">>=", "==", "!=", "<=", ">=", "<<", ">>", "&&", "||", "++", "--", "+=", "-=", "*=",
    "/=", "%=", "&=", "|=", "^=", "+", "-", "*", "/", "%", "<", ">", "&", "|", "^", "~", "!",
    "="].map String.toList

/-- What holds of these texts holds of every operator, so the table is gone through only here. -/
theorem mem_operatorTexts {text : Text} {k : Kind} (h : operatorKind? text = some k) :
    text ∈ operatorTexts := by
  have hs := symbol?_of_operatorKind? h
  cases k with
  | binary op => cases op <;> cases hs <;> decide
  | assign op => cases op <;> cases hs <;> decide
  | step op => cases op <;> cases hs <;> decide
  | not => cases hs; decide
  | complement => cases hs; decide
  -- The other kinds with one text are no operators.
  | _ => cases hs <;> cases h

/-- Operators have one to three characters. -/
theorem length_of_operatorKind? {text : Text} {k : Kind} (h : operatorKind? text = some k) :
    1 ≤ text.length ∧ text.length ≤ 3 := by
  have hall : ∀ t ∈ operatorTexts, 1 ≤ t.length ∧ t.length ≤ 3 := by decide
  exact hall text (mem_operatorTexts h)

/-- An operator of three characters begins with one of two. -/
theorem operatorKind?_triple_eq_none {a b c : Char} (h : operatorKind? [a, b] = none) :
    operatorKind? [a, b, c] = none := by
  have hall : ∀ t ∈ operatorTexts, t.length = 3 → operatorKind? (t.take 2) ≠ none := by decide
  refine Option.eq_none_iff_forall_ne_some.mpr fun k hk => ?_
  exact hall [a, b, c] (mem_operatorTexts hk) rfl h

/-- No operator has four characters. -/
theorem operatorKind?_quadruple_eq_none (a b c d : Char) :
    operatorKind? [a, b, c, d] = none := by
  refine Option.eq_none_iff_forall_ne_some.mpr fun k hk => ?_
  have := length_of_operatorKind? hk
  simp at this

/-- The kinds of operators are those with an entry in the table of operators. -/
theorem operatorKind?_of_symbol? (k : Kind) (h : k ∉ [.programCounter, .comma, .colon, .openParen,
    .closeParen, .pound]) {text : Text} (hk : k.symbol? = some text) :
    operatorKind? text = some k := by
  cases k with
  | binary op => cases op <;> cases hk <;> rfl
  | assign op => cases op <;> cases hk <;> rfl
  | step op => cases op <;> cases hk <;> rfl
  | not => cases hk; rfl
  | complement => cases hk; rfl
  | programCounter => simp at h
  | comma => simp at h
  | colon => simp at h
  | openParen => simp at h
  | closeParen => simp at h
  | pound => simp at h
  | _ => cases hk

/-- The first characters of operators. -/
def operatorOpeners : List Char :=
  ['<', '>', '=', '!', '&', '|', '+', '-', '*', '/', '%', '^', '~']

/-- Every operator begins with one of these characters, so another character begins none. -/
theorem head_mem_operatorOpeners {text : Text} {k : Kind} (h : operatorKind? text = some k) :
    ∀ c ∈ text.head?, c ∈ operatorOpeners := by
  have hall : ∀ t ∈ operatorTexts, t.head?.all (operatorOpeners.contains ·) := by decide
  intro c hc
  have hhead := hall text (mem_operatorTexts h)
  rw [Option.mem_def.mp hc] at hhead
  exact List.contains_iff_mem.mp hhead

/-- The characters of which two side by side are an operator. -/
def doubledOpeners : List Char := ['<', '>', '&', '|', '+', '-']

/-- A text that begins with another character is no operator, however it goes on. -/
theorem operatorKind?_eq_none_of_head {c : Char} (h : c ∉ operatorOpeners) (cs : Text) :
    operatorKind? (c :: cs) = none :=
  Option.eq_none_iff_forall_ne_some.mpr fun _ hk => h (head_mem_operatorOpeners hk c rfl)

/-- An operator that begins with a shorter text either doubles its one character or adds an
equals sign to one character or to a shift. -/
theorem operatorKind?_snoc {text : Text} {c : Char} {k : Kind}
    (h : operatorKind? (text ++ [c]) = some k) (hne : text ≠ []) :
    (c = '=' ∧ (text.length = 1 ∨ text = ['<', '<'] ∨ text = ['>', '>'])) ∨
      (text = [c] ∧ c ∈ doubledOpeners) := by
  have hall : ∀ t ∈ operatorTexts, t.dropLast ≠ [] →
      (t.getLast? = some '=' ∧
        (t.dropLast.length = 1 ∨ t.dropLast = ['<', '<'] ∨ t.dropLast = ['>', '>'])) ∨
      t ∈ doubledOpeners.map fun d => [d, d] := by decide
  have htext := hall (text ++ [c]) (mem_operatorTexts h)
  rw [List.dropLast_concat, List.getLast?_concat] at htext
  rcases htext hne with ⟨hc, htext⟩ | hdouble
  · exact .inl ⟨Option.some.inj hc, htext⟩
  · obtain ⟨d, hd, hdouble⟩ := List.mem_map.mp hdouble
    obtain ⟨htext, hc⟩ := List.append_inj' (show [d] ++ [d] = text ++ [c] from hdouble) rfl
    cases hc
    exact .inr ⟨htext.symm, hd⟩

/-! ### The search -/

/-- Where a character and the one behind it are no operator, the search comes to the character
alone: three characters are no operator either then. -/
theorem operatorExtent?_eq_of_single {a : Char} {rest : Text}
    (hrest : ∀ b ∈ rest.head?, operatorKind? [a, b] = none) :
    operatorExtent? (a :: rest) = (operatorKind? [a]).map (·, 1) := by
  have hshort : ([[a]] : List Text).findSome? (fun lexeme =>
      (operatorKind? lexeme).map (·, lexeme.length)) = (operatorKind? [a]).map (·, 1) := by
    rw [List.findSome?_singleton]
    rfl
  match rest with
  | [] =>
      -- All three attempts are the character alone.
      show ([[a], [a], [a]] : List Text).findSome? _ = _
      cases hone : operatorKind? [a] with
      | none => simp [hone]
      | some k => simp [hone]
  | [b] =>
      have hb : operatorKind? [a, b] = none := hrest b rfl
      show ([[a, b], [a, b], [a]] : List Text).findSome? _ = _
      simp only [List.findSome?_cons, hb, Option.map_none]
      exact hshort
  | b :: c :: more =>
      have hb : operatorKind? [a, b] = none := hrest b rfl
      show ([[a, b, c], [a, b], [a]] : List Text).findSome? _ = _
      simp only [List.findSome?_cons, hb, operatorKind?_triple_eq_none hb, Option.map_none]
      exact hshort

/-- What the search finds then is the operator of that one character. -/
theorem operatorKind?_of_operatorExtent?_of_single {a : Char} {rest : Text} {k : Kind} {n : Nat}
    (hrest : ∀ b ∈ rest.head?, operatorKind? [a, b] = none)
    (h : operatorExtent? (a :: rest) = some (k, n)) : operatorKind? [a] = some k ∧ n = 1 := by
  rw [operatorExtent?_eq_of_single hrest] at h
  obtain ⟨k', hone, hpair⟩ := Option.map_eq_some_iff.mp h
  cases hpair
  exact ⟨hone, rfl⟩

/-- The longest operator at a place is found, whatever follows it. -/
theorem operatorExtent?_append {text rest : Text} {k : Kind} (h : operatorKind? text = some k)
    (hrest : ∀ c ∈ rest.head?, operatorKind? (text ++ [c]) = none) :
    operatorExtent? (text ++ rest) = some (k, text.length) := by
  -- The search tries three characters, then two, then one, so after an operator of one or two it
  -- matters how much there is to try.
  have hlen := length_of_operatorKind? h
  match text with
  | [] => simp at hlen
  | [a] =>
      show operatorExtent? (a :: rest) = some (k, 1)
      rw [operatorExtent?_eq_of_single hrest, h]
      rfl
  | [a, b] =>
      match rest with
      | [] => simp [operatorExtent?, h]
      | d :: more =>
          have hd : operatorKind? [a, b, d] = none := hrest d rfl
          simp [operatorExtent?, h, hd]
  | [a, b, c] => simp [operatorExtent?, h]
  | a :: b :: c :: d :: more =>
      simp only [List.length_cons] at hlen
      omega

/-- What is found is an operator, and none that is longer begins with it. -/
theorem exists_of_operatorExtent? {t : Text} {k : Kind} {n : Nat}
    (h : operatorExtent? t = some (k, n)) :
    ∃ text rest, t = text ++ rest ∧ n = text.length ∧ operatorKind? text = some k ∧
      ∀ c ∈ rest.head?, operatorKind? (text ++ [c]) = none := by
  -- From the longest attempt down: the first that succeeds is what was found, and the attempt
  -- before it, which failed, is the text with the next character.
  match t with
  | [] => simp [operatorExtent?, operatorKind?] at h
  | [a] =>
      have hrest : ∀ d ∈ ([] : Text).head?, operatorKind? [a, d] = none := by simp
      obtain ⟨ha, hn⟩ := operatorKind?_of_operatorExtent?_of_single hrest h
      exact ⟨[a], [], rfl, hn, ha, hrest⟩
  | [a, b] =>
      cases hab : operatorKind? [a, b] with
      | some k' =>
          obtain ⟨rfl, rfl⟩ : k' = k ∧ 2 = n := by simpa [operatorExtent?, hab] using h
          exact ⟨[a, b], [], rfl, rfl, hab, by simp⟩
      | none =>
          have hrest : ∀ d ∈ [b].head?, operatorKind? [a, d] = none := by simpa using hab
          obtain ⟨ha, hn⟩ := operatorKind?_of_operatorExtent?_of_single hrest h
          exact ⟨[a], [b], rfl, hn, ha, hrest⟩
  | a :: b :: c :: more =>
      cases habc : operatorKind? [a, b, c] with
      | some k' =>
          obtain ⟨rfl, rfl⟩ : k' = k ∧ 3 = n := by simpa [operatorExtent?, habc] using h
          exact ⟨[a, b, c], more, rfl, rfl, habc, fun d _ =>
            operatorKind?_quadruple_eq_none a b c d⟩
      | none =>
          cases hab : operatorKind? [a, b] with
          | some k' =>
              obtain ⟨rfl, rfl⟩ : k' = k ∧ 2 = n := by
                simpa [operatorExtent?, habc, hab] using h
              exact ⟨[a, b], c :: more, rfl, rfl, hab, by simpa using habc⟩
          | none =>
              have hrest : ∀ d ∈ (b :: c :: more).head?, operatorKind? [a, d] = none := by
                simpa using hab
              obtain ⟨ha, hn⟩ := operatorKind?_of_operatorExtent?_of_single hrest h
              exact ⟨[a], b :: c :: more, rfl, hn, ha, hrest⟩

end PicAssembly.Token
