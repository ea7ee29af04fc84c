import PicAssembly.Proofs.Text.Edges
import PicAssembly.Proofs.Token.Scanning

/-!
# `PicAssembly.Proofs.Token.Printing`: texts that give the same tokens anywhere

A printer puts texts side by side and never looks at what it wrote before. `Token.Prints t ls`
says when that is safe: `t` is scanned as the tokens `ls` before every text that does not
begin with a character of a name or a number (`Token.Detached`). The lemmas below are one
for each way in which the printers put texts together.

A printer also takes blanks away at the end of a line. No token is hurt by that but a
comment (`Spelled.solid`).
-/

set_option autoImplicit false

namespace PicAssembly.Token

/-- The text is scanned as these tokens, whatever detached text follows it. -/
def Prints (t : Text) (ls : List Lexeme) : Prop :=
  ∀ rest, Detached rest → Scans (t ++ rest) ls rest

/-- The kinds of names, numbers and quoted texts. -/
def Kind.IsWord (k : Kind) : Prop :=
  k = .identifier ∨ k = .number ∨ k = .chipId ∨ k = .string

/-- Words do not begin with the first character of an operator. -/
theorem Spelled.head_not_operator {k : Kind} {c : Char} {cs : Text} (h : Spelled k (c :: cs))
    (hk : k.IsWord) : c ∉ operatorOpeners := by
  intro hc
  obtain ⟨-, hradix, hstart, hrun⟩ := of_mem_operatorOpeners hc
  generalize ht : c :: cs = text at h
  -- None of the first characters of words opens an operator.
  cases h with
  | comment => rcases hk with hk | hk | hk | hk <;> cases hk
  | identifier hn =>
      subst ht
      simp [hn.1] at hstart
  | string =>
      cases ht
      exact absurd hc (by decide)
  | character =>
      cases ht
      exact absurd hc (by decide)
  | code hl =>
      cases ht
      simp [isRadixLetter, hl] at hradix
  | quoted hl =>
      cases ht
      simp [hl] at hradix
  | run hrunStart =>
      cases ht
      simp [hrunStart] at hrun
  | symbol hs => rcases hk with rfl | rfl | rfl | rfl <;> cases hs

/-- No symbol goes on with a name or a number, or begins with a blank. -/
theorem exists_of_symbol {k : Kind} {text : Text} (hk : k.symbol? = some text) :
    ∃ c cs, text = c :: cs ∧ isGlue c = false ∧ Text.isBlank c = false := by
  cases k with
  | binary op => cases op <;> cases hk <;> exact ⟨_, _, rfl, by decide⟩
  | assign op => cases op <;> cases hk <;> exact ⟨_, _, rfl, by decide⟩
  | step op => cases op <;> cases hk <;> exact ⟨_, _, rfl, by decide⟩
  | _ => cases hk <;> exact ⟨_, _, rfl, by decide⟩

/-- The text of a punctuation mark or an operator is detached: it does not make a longer name or
number of the token before it. -/
theorem detached_symbol {k : Kind} {text : Text} (hk : k.symbol? = some text) (rest : Text) :
    Detached (text ++ rest) := by
  obtain ⟨c, cs, rfl, hc, -⟩ := exists_of_symbol hk
  exact detached_cons hc (cs ++ rest)

namespace Prints

/-- The empty text is scanned as no tokens. -/
theorem nil : Prints [] [] := fun rest _ => .done rest

/-- A name, a number or a quoted text. -/
theorem word {k : Kind} {text : Text} (h : Spelled k text) (hk : k.IsWord) :
    Prints text [⟨k, text⟩] := fun _ hrest => .single h (Spelled.endsBefore hk hrest)

/-- Two texts side by side, the second of which is always detached. -/
theorem append {t u : Text} {ls ms : List Lexeme} (ht : Prints t ls) (hu : Prints u ms)
    (hd : ∀ rest, Detached rest → Detached (u ++ rest)) : Prints (t ++ u) (ls ++ ms) := by
  intro rest hrest
  rw [List.append_assoc]
  exact (ht _ (hd rest hrest)).append (hu rest hrest)

/-- A space before a text. -/
theorem space {t : Text} {ls : List Lexeme} (h : Prints t ls) : Prints (' ' :: t) ls :=
  fun rest hrest => .blank (by decide) (h rest hrest)

/-- A symbol before a text with which it makes no longer operator. -/
theorem symbol {k : Kind} (text : Text) {t : Text} {ls : List Lexeme} (hk : k.symbol? = some text)
    (he : ∀ rest, Detached rest → EndsBefore k text (t ++ rest)) (h : Prints t ls) :
    Prints (text ++ t) (⟨k, text⟩ :: ls) := by
  intro rest hrest
  rw [List.append_assoc]
  exact .lexeme (l := ⟨k, text⟩) (.symbol hk) (he rest hrest) (h rest hrest)

end Prints

/-! ### Tokens begin and end in no blank -/

/-- The characters that names and numbers go on with are characters of ASCII. -/
theorem toNat_lt_of_isGlue {c : Char} (h : isGlue c) : c.toNat < 128 := by
  simp only [isGlue, isIdentifierPart, Bool.or_eq_true, isAlphanum_iff, isAlpha_iff, isUpper_iff,
    isLower_iff, Char.isDigit, Bool.and_eq_true, decide_eq_true_eq, beq_iff_eq,
    UInt32.le_iff_toNat_le] at h
  have hval : c.toNat = c.val.toNat := rfl
  rcases h with ((((⟨-, h⟩ | ⟨-, h⟩) | ⟨-, h⟩) | rfl) | rfl) | rfl
  · exact Nat.lt_of_le_of_lt h (by decide)
  · exact Nat.lt_of_le_of_lt h (by decide)
  · exact Nat.lt_of_le_of_lt h (by decide)
  all_goals decide

/-- They are no blanks. -/
theorem isBlank_of_isGlue {c : Char} (h : isGlue c) : Text.isBlank c = false := by
  have hall : ∀ n : Fin 128, isGlue (Char.ofNat n) → Text.isBlank (Char.ofNat n) = false := by
    decide +kernel
  exact forall_ascii (P := fun c => isGlue c → Text.isBlank c = false) hall
    (toNat_lt_of_isGlue h) h

/-- A text of such characters ends in no blank. -/
theorem solid_of_isGlue {t : Text} (h : ∀ c ∈ t, isGlue c) : Text.Solid t := fun c hc =>
  isBlank_of_isGlue (h c (List.mem_of_getLast? hc))

/-- A character that begins a name can stand in it. -/
theorem isIdentifierPart_of_isIdentifierStart {c : Char} (h : isIdentifierStart c) :
    isIdentifierPart c := by
  simp only [isIdentifierStart, Bool.or_eq_true] at h
  rcases h with h | h <;> simp [isIdentifierPart, Char.isAlphanum, h]

/-- All characters of a name can stand in a name, the first too. -/
theorem IsName.isIdentifierPart {name : Text} (h : IsName name) :
    ∀ c ∈ name, isIdentifierPart c := by
  cases name with
  | nil => exact fun c hc => absurd hc (by simp)
  | cons c cs => exact List.forall_mem_cons.mpr ⟨isIdentifierPart_of_isIdentifierStart h.1, h.2⟩

/-- The characters of names are among those that names and numbers go on with. -/
theorem isGlue_of_isIdentifierPart {c : Char} (h : isIdentifierPart c) : isGlue c := by
  simp [isGlue, h]

/-- So are the letters that name a radix. -/
theorem isGlue_of_isRadixLetter {c : Char} (h : isRadixLetter c) : isGlue c := by
  by_cases hlow : c.isLower
  · simp [isGlue, isIdentifierPart, isAlphanum_iff, isAlpha_iff, hlow]
  -- What is no small letter is its own capital, so it is one of the five letters.
  · have hall : ∀ d ∈ "BDHOA".toList, isGlue d := List.all_iff_forall_prop.mp (by decide)
    have hupper : c.toUpper = c := dif_neg fun h => hlow (isLower_iff.mpr h)
    rw [isRadixLetter, hupper] at h
    exact hall c (by simpa using h)

/-- So are the characters that numbers begin with. -/
theorem isGlue_of_isRunStart {c : Char} (h : c.isDigit || c == '.') : isGlue c := by
  simp only [Bool.or_eq_true, beq_iff_eq] at h
  rcases h with h | rfl
  · simp [isGlue, isIdentifierPart, Char.isAlphanum, h]
  · decide

/-- No token begins with any blank, whether the scanner skips it or not. -/
theorem Spelled.head_not_isBlank {k : Kind} {c : Char} {cs : Text} (h : Spelled k (c :: cs)) :
    Text.isBlank c = false := by
  rcases h.forms with ⟨-, body, hb⟩ | ⟨-, hn⟩ | ⟨-, body, -, hb⟩ | ⟨-, d, hb⟩ |
    ⟨-, letter, ⟨⟩, hl⟩ | ⟨-, d, ⟨⟩, hd⟩ | hk
  · cases hb
    decide
  · exact isBlank_of_isGlue (isGlue_of_isIdentifierPart
      (isIdentifierPart_of_isIdentifierStart hn.1))
  · cases hb
    decide
  · cases hb
    decide
  · exact isBlank_of_isGlue (isGlue_of_isRadixLetter hl)
  · exact isBlank_of_isGlue (isGlue_of_isRunStart hd)
  · obtain ⟨d, ds, hd, -, hblank⟩ := exists_of_symbol hk
    cases hd
    exact hblank

/-- Only a comment may end in a blank. -/
theorem Spelled.solid {k : Kind} {text : Text} (h : Spelled k text) (hk : k ≠ .comment) :
    Text.Solid text := by
  cases h with
  | comment => exact absurd rfl hk
  | identifier hn =>
      exact solid_of_isGlue fun d hd => isGlue_of_isIdentifierPart (hn.isIdentifierPart d hd)
  | @string body _ => exact Text.solid_append_singleton (by decide) ('"' :: body)
  | character c => exact Text.solid_append_singleton (by decide) ['\'', c]
  | @code letter _ c => exact Text.solid_append_singleton (by decide) [letter, '\'', c]
  | @quoted letter digits _ _ _ =>
      exact Text.solid_append_singleton (by decide) (letter :: '\'' :: digits)
  | @run c cs hc hcs =>
      refine solid_of_isGlue fun d hd => ?_
      rcases List.mem_cons.mp hd with rfl | hd
      · exact isGlue_of_isRunStart hc
      · exact isGlue_of_isRunPart (hcs d hd)
  | symbol hs =>
      cases k with
      | binary op => cases op <;> cases hs <;> (intro c hc; cases hc; decide)
      | assign op => cases op <;> cases hs <;> (intro c hc; cases hc; decide)
      | step op => cases op <;> cases hs <;> (intro c hc; cases hc; decide)
      | _ => cases hs <;> (intro c hc; cases hc; decide)

end PicAssembly.Token
