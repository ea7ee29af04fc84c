import Mathlib.Data.Bool.AllAny
import Mathlib.Data.List.TakeWhile
import PicAssembly.Proofs.Token.OperatorTable

/-!
# `PicAssembly.Proofs.Token.Spelling`: which texts are tokens

`Token.extent` decides how far a token reaches. This module says the same without
the algorithm, in two parts:

* `Token.Spelled k t`: the text `t` has the form of a token of kind `k`.
* `Token.EndsBefore k t rest`: a token `t` that `rest` follows ends there. For names
  and bare numbers no character of the same class follows, for operators no longer
  operator begins with them. The quoted forms carry their own end.

`extent_of_spelled` and `spelled_of_extent` are the two directions: the scanner takes
`t` off `t ++ rest` as a token of kind `k` just if both hold. So a text that was one
token in one place is one token in another place as soon as what follows lets it end
(`Spelled.endsBefore`), which is what the printer's spacing has to ensure.

`Lexeme` is a token without its place, and `Kind.symbol?` is the one text of the kinds
that have only one.
-/

set_option autoImplicit false

namespace PicAssembly.Token

/-- The kind and the text of a token, without its place. -/
structure Lexeme where
  kind : Kind
  text : Text
  deriving DecidableEq, Repr

/-- The lexeme of a kind that has only one text. -/
def Kind.lexeme (k : Kind) : Lexeme := ⟨k, k.symbol?.getD []⟩

/-- The lexeme of a kind is of that kind. -/
@[simp] theorem Kind.lexeme_kind (k : Kind) : k.lexeme.kind = k := rfl

/-- A name: a letter or an underscore, then letters, digits and underscores. -/
def IsName : Text → Prop
  | [] => False
  | c :: cs => isIdentifierStart c ∧ ∀ d ∈ cs, isIdentifierPart d

instance : DecidablePred IsName
  | [] => .isFalse id
  | c :: cs => decidable_of_iff (isIdentifierStart c && cs.all isIdentifierPart) (by simp [IsName])

/-- The texts that have the form of a token of a kind. -/
inductive Spelled : Kind → Text → Prop where
  | comment (text : Text) : Spelled .comment (';' :: text)
  | identifier {name : Text} (h : IsName name) : Spelled .identifier name
  | string {body : Text} (h : '"' ∉ body) : Spelled .string ('"' :: body ++ ['"'])
  | character (c : Char) : Spelled .number ['\'', c, '\'']
  /-- The code of a character, such as `A'x'`. -/
  | code {letter : Char} (h : letter.toUpper = 'A') (c : Char) :
      Spelled .number [letter, '\'', c, '\'']
  /-- Digits in quotes behind a letter for their radix, such as `H'1F'`. -/
  | quoted {letter : Char} {digits : Text} (hl : isRadixLetter letter)
      (ha : letter.toUpper ≠ 'A') (hd : ∀ d ∈ digits, isQuotedDigit letter d) :
      Spelled .number (letter :: '\'' :: digits ++ ['\''])
  /-- A bare number or a device name. -/
  | run {c : Char} {cs : Text} (hc : c.isDigit || c == '.') (hcs : ∀ d ∈ cs, isRunPart d) :
      Spelled (runExtent c cs).1 (c :: cs)
  | symbol {k : Kind} {text : Text} (h : k.symbol? = some text) : Spelled k text

/-- Whether a token ends where `rest` begins, so that no longer token is there. -/
def EndsBefore (k : Kind) (text rest : Text) : Prop :=
  match k with
  | .comment => rest = []
  | .identifier =>
    (∀ c ∈ rest.head?, ¬ isIdentifierPart c) ∧
      ((∃ letter, text = [letter] ∧ isRadixLetter letter) → rest.head? ≠ some '\'')
  | .number | .chipId =>
    (∃ c ∈ text.head?, c.isDigit || c == '.') → ∀ c ∈ rest.head?, ¬ isRunPart c
  | .string | .pragma | .eof => True
  | _ => ∀ c ∈ rest.head?, operatorKind? (text ++ [c]) = none

/-- Every token ends where the text ends. -/
theorem endsBefore_nil (k : Kind) (text : Text) : EndsBefore k text [] := by
  cases k <;> simp [EndsBefore]

/-! ### Classes of characters -/

/-- Capital letters by their codes. -/
theorem isUpper_iff {c : Char} : c.isUpper ↔ 'A'.val ≤ c.val ∧ c.val ≤ 'Z'.val :=
  decide_eq_true_iff

/-- Small letters by their codes. -/
theorem isLower_iff {c : Char} : c.isLower ↔ 'a'.val ≤ c.val ∧ c.val ≤ 'z'.val := by
  show (decide ('a'.val ≤ c.val) && decide (c.val ≤ 'z'.val)) = true ↔ _
  rw [Bool.and_eq_true, decide_eq_true_iff, decide_eq_true_iff]

/-- A letter is a capital or a small one. -/
theorem isAlpha_iff {c : Char} : c.isAlpha ↔ c.isUpper ∨ c.isLower := by
  show (c.isUpper || c.isLower) = true ↔ _
  rw [Bool.or_eq_true]

/-- The alphanumeric characters are the letters and the digits. -/
theorem isAlphanum_iff {c : Char} : c.isAlphanum ↔ c.isAlpha ∨ c.isDigit := by
  show (c.isAlpha || c.isDigit) = true ↔ _
  rw [Bool.or_eq_true]

/-! ### Splitting at the end of a class of characters -/

/-- A run of characters of a class ends at the first character outside of it. -/
theorem takeWhile_append_of_head {p : Char → Bool} {run rest : Text} (hrun : ∀ c ∈ run, p c)
    (hrest : ∀ c ∈ rest.head?, ¬ p c) : (run ++ rest).takeWhile p = run := by
  rw [List.takeWhile_append_of_pos hrun]
  cases rest with
  | nil => simp
  | cons c cs =>
      have hc : ¬ p c := hrest c rfl
      simp [hc]

/-- The two parts into which a class of characters splits a text. -/
theorem exists_run (p : Char → Bool) (t : Text) :
    ∃ run rest, t = run ++ rest ∧ t.takeWhile p = run ∧ (∀ c ∈ run, p c) ∧
      ∀ c ∈ rest.head?, ¬ p c := by
  refine ⟨t.takeWhile p, t.dropWhile p, (List.takeWhile_append_dropWhile).symm, rfl, ?_, ?_⟩
  · exact List.all_eq_true.mp List.all_takeWhile
  · intro c hc
    have h := List.head?_dropWhile_not p t
    rw [Option.mem_def.mp hc] at h
    simpa using h

/-! ### The first character -/

/-- A statement about characters below 128 can be checked one by one. -/
theorem forall_ascii {P : Char → Prop} (h : ∀ n : Fin 128, P (Char.ofNat n)) {c : Char}
    (hc : c.toNat < 128) : P c := by
  have := h ⟨c.toNat, hc⟩
  simpa using this

/-- Digits are characters of ASCII. -/
theorem toNat_lt_of_isDigit {c : Char} (h : c.isDigit) : c.toNat < 128 := by
  simp only [Char.isDigit, Bool.and_eq_true, decide_eq_true_eq, UInt32.le_iff_toNat_le] at h
  have := h.2
  simp only [Char.toNat]
  exact Nat.lt_of_le_of_lt this (by decide)

/-- Capital letters are characters of ASCII. -/
theorem toNat_lt_of_isUpper {c : Char} (h : c.isUpper) : c.toNat < 128 :=
  Nat.lt_of_le_of_lt (UInt32.le_iff_toNat_le.mp (isUpper_iff.mp h).2) (by decide)

/-- Only capital letters have another lower case. -/
theorem toLower_eq_self {c : Char} (h : c.isUpper = false) : c.toLower = c :=
  dif_neg fun hupper => by simp [isUpper_iff.mpr hupper] at h

/-- Only letters are letters in lower case. -/
theorem isAlpha_toLower (c : Char) : c.toLower.isAlpha = c.isAlpha := by
  cases hc : c.isUpper with
  | true =>
      have hlower : c.toLower.isAlpha :=
        forall_ascii (P := fun c => c.isUpper → c.toLower.isAlpha) (by decide)
          (toNat_lt_of_isUpper hc) hc
      rw [hlower, isAlpha_iff.mpr (Or.inl hc)]
  | false => rw [toLower_eq_self hc]

/-- The characters that tell the form of a token by themselves. -/
def openers : List Char := [';', '#', '"', '\'', '$', ',', ':', '(', ')']

/-- Past the openers, a token is a quoted number, a name, a bare number or an operator. -/
theorem extent_of_not_mem_openers {fresh : Bool} {c : Char} {rest : Text} (h : c ∉ openers) :
    extent fresh c rest =
      if isRadixLetter c && rest.head? == some '\'' then quotedExtent c (rest.drop 1)
      else if isIdentifierStart c then
        .ok (.identifier, (rest.takeWhile isIdentifierPart).length + 1)
      else if c.isDigit || c == '.' then .ok (runExtent c rest)
      else match operatorExtent? (c :: rest) with
        | some found => .ok found
        | none => .error ⟨0, .stray c⟩ := by
  simp only [openers, List.mem_cons, List.not_mem_nil, or_false, not_or] at h
  -- The first nine tests of the scanner are those for the openers. Each is discarded as a whole,
  -- so that what comes after them is not touched.
  obtain ⟨h₁, h₂, h₃, h₄, h₅, h₆, h₇, h₈, h₉⟩ := h
  exact (if_neg h₁).trans <| (if_neg h₂).trans <| (if_neg h₃).trans <| (if_neg h₄).trans <|
    (if_neg h₅).trans <| (if_neg h₆).trans <| (if_neg h₇).trans <| (if_neg h₈).trans (if_neg h₉)

/-- A character that begins a name does not tell a form by itself: what follows it decides too. -/
theorem not_mem_openers_of_isIdentifierStart {c : Char} (h : isIdentifierStart c) :
    c ∉ openers := by
  have hall : ∀ d ∈ openers, isIdentifierStart d = false :=
    List.all_iff_forall_prop.mp (by decide)
  intro hc
  simp [hall c hc] at h

/-- A letter that names a radix does not either. It begins a name unless a quote follows. -/
theorem not_mem_openers_of_isRadixLetter {c : Char} (h : isRadixLetter c) : c ∉ openers := by
  have hall : ∀ d ∈ openers, isRadixLetter d = false :=
    List.all_iff_forall_prop.mp (by decide)
  intro hc
  simp [hall c hc] at h

/-- What begins a bare number begins nothing else. -/
theorem of_isRunStart {c : Char} (h : c.isDigit || c == '.') :
    c ∉ openers ∧ isRadixLetter c = false ∧ isIdentifierStart c = false := by
  rcases Bool.or_eq_true _ _ ▸ h with hd | hp
  -- Digits are ASCII, where the statement can be checked character by character.
  · have hall : ∀ n : Fin 128, (Char.ofNat n).isDigit → Char.ofNat n ∉ openers ∧
        isRadixLetter (Char.ofNat n) = false ∧ isIdentifierStart (Char.ofNat n) = false := by
      decide +kernel
    exact forall_ascii (P := fun c => c.isDigit → c ∉ openers ∧ isRadixLetter c = false ∧
      isIdentifierStart c = false) hall (toNat_lt_of_isDigit hd) hd
  · obtain rfl : c = '.' := by simpa using hp
    decide

/-- What begins an operator begins nothing else. -/
theorem of_mem_operatorOpeners {c : Char} (h : c ∈ operatorOpeners) :
    c ∉ openers ∧ isRadixLetter c = false ∧ isIdentifierStart c = false ∧
      (c.isDigit || c == '.') = false := by
  have hall : ∀ d ∈ operatorOpeners, d ∉ openers ∧ isRadixLetter d = false ∧
      isIdentifierStart d = false ∧ (d.isDigit || d == '.') = false :=
    List.all_iff_forall_prop.mp (by decide)
  exact hall c h

/-- A bare number is a number or the name of a device. -/
theorem runExtent_kind (c : Char) (cs : Text) :
    (runExtent c cs).1 = .chipId ∨ (runExtent c cs).1 = .number := by
  unfold runExtent
  dsimp only
  split
  · exact Or.inl rfl
  · exact Or.inr rfl

/-- The forms of tokens, kind by kind. Only numbers have several. -/
theorem Spelled.forms {k : Kind} {text : Text} (h : Spelled k text) :
    (k = .comment ∧ ∃ body, text = ';' :: body) ∨ (k = .identifier ∧ IsName text) ∨
      (k = .string ∧ ∃ body, '"' ∉ body ∧ text = '"' :: body ++ ['"']) ∨
      (k = .number ∧ ∃ c, text = ['\'', c, '\'']) ∨
      (k = .number ∧ ∃ letter ∈ text.head?, isRadixLetter letter) ∨
      ((k = .chipId ∨ k = .number) ∧ ∃ c ∈ text.head?, c.isDigit || c == '.') ∨
      k.symbol? = some text := by
  cases h with
  | comment body => exact Or.inl ⟨rfl, body, rfl⟩
  | identifier h => exact Or.inr (Or.inl ⟨rfl, h⟩)
  | string h => exact Or.inr (Or.inr (Or.inl ⟨rfl, _, h, rfl⟩))
  | character c => exact Or.inr (Or.inr (Or.inr (Or.inl ⟨rfl, c, rfl⟩)))
  | @code letter h c =>
      -- The letter A opens the code of a character and is a radix letter all the same.
      have hl : isRadixLetter letter := by simp [isRadixLetter, h]
      exact Or.inr (Or.inr (Or.inr (Or.inr (Or.inl ⟨rfl, letter, rfl, hl⟩))))
  | @quoted letter digits hl ha hd =>
      exact Or.inr (Or.inr (Or.inr (Or.inr (Or.inl ⟨rfl, letter, rfl, hl⟩))))
  | @run c cs hc hcs =>
      exact Or.inr (Or.inr (Or.inr (Or.inr (Or.inr (Or.inl ⟨runExtent_kind c cs, c, rfl, hc⟩)))))
  | symbol h => exact Or.inr (Or.inr (Or.inr (Or.inr (Or.inr (Or.inr h)))))

/-- What has the form of an identifier is a name. -/
theorem Spelled.isName {text : Text} (h : Spelled .identifier text) : IsName text := by
  rcases h.forms with ⟨hk, -⟩ | ⟨-, h⟩ | ⟨hk, -⟩ | ⟨hk, -⟩ | ⟨hk, -⟩ | ⟨hk | hk, -⟩ | hk
  · cases hk
  · exact h
  all_goals cases hk

/-- A comment begins with its semicolon. -/
theorem Spelled.exists_comment {text : Text} (h : Spelled .comment text) :
    ∃ body, text = ';' :: body := by
  rcases h.forms with ⟨-, h⟩ | ⟨hk, -⟩ | ⟨hk, -⟩ | ⟨hk, -⟩ | ⟨hk, -⟩ | ⟨hk | hk, -⟩ | hk
  · exact h
  all_goals cases hk

/-- A string is its characters between two quotes, none of which is a quote. -/
theorem Spelled.exists_string {text : Text} (h : Spelled .string text) :
    ∃ body, '"' ∉ body ∧ text = '"' :: body ++ ['"'] := by
  rcases h.forms with ⟨hk, -⟩ | ⟨hk, -⟩ | ⟨-, h⟩ | ⟨hk, -⟩ | ⟨hk, -⟩ | ⟨hk | hk, -⟩ | hk
  · cases hk
  · cases hk
  · exact h
  all_goals cases hk

/-- A number that opens with a quote is a character. -/
theorem Spelled.exists_character {text : Text} (h : Spelled .number text)
    (hq : text.head? = some '\'') : ∃ c, text = ['\'', c, '\''] := by
  rcases h.forms with ⟨hk, -⟩ | ⟨hk, -⟩ | ⟨hk, -⟩ | ⟨-, h⟩ | ⟨-, letter, hl, hradix⟩ |
    ⟨-, c, hc, hrun⟩ | hk
  · cases hk
  · cases hk
  · cases hk
  · exact h
  · rw [hq] at hl
    -- The other numbers open with a letter, a digit or a point.
    cases hl
    exact absurd hradix (by decide)
  · rw [hq] at hc
    cases hc
    exact absurd hrun (by decide)
  · cases hk

/-- Tokens of a kind with one text have that text. -/
theorem Spelled.eq_symbol {k : Kind} {text u : Text} (h : Spelled k text)
    (hk : k.symbol? = some u) : text = u := by
  rcases h.forms with ⟨rfl, -⟩ | ⟨rfl, -⟩ | ⟨rfl, -⟩ | ⟨rfl, -⟩ | ⟨rfl, -⟩ | ⟨rfl | rfl, -⟩ | h
  case inr.inr.inr.inr.inr.inr => exact Option.some.inj (h.symm.trans hk)
  all_goals cases hk

/-- Tokens are not empty. -/
theorem Spelled.ne_nil {k : Kind} {text : Text} (h : Spelled k text) : text ≠ [] := by
  cases h with
  | @identifier name h =>
      rintro rfl
      exact h
  | symbol h =>
      rintro rfl
      cases k with
      | binary op => cases op <;> cases h
      | assign op => cases op <;> cases h
      | step op => cases op <;> cases h
      | _ => cases h
  | _ => simp

/-! ### From the form to the scanner -/

/-- A name is taken as one, up to where it ends. A letter for a radix is one only before a quote,
which the condition on the rest leaves out. -/
theorem extent_identifier {fresh : Bool} {c : Char} {cs rest : Text} (h : IsName (c :: cs))
    (he : EndsBefore .identifier (c :: cs) rest) :
    extent fresh c (cs ++ rest) = .ok (.identifier, cs.length + 1) := by
  obtain ⟨hc, hcs⟩ := h
  obtain ⟨hrest, hquote⟩ := he
  -- The test for a quoted number comes first. It fails for a letter alone because no quote
  -- follows it, and for a longer name because its second character is no quote.
  have hnot : (isRadixLetter c && (cs ++ rest).head? == some '\'') = false := by
    cases cs with
    | nil =>
        cases hr : isRadixLetter c with
        | false => simp
        | true => simpa using hquote ⟨c, rfl, hr⟩
    | cons d ds =>
        have hd : d ≠ '\'' := by
          rintro rfl
          exact absurd (hcs '\'' (by simp)) (by decide)
        simp [hd]
  rw [extent_of_not_mem_openers (not_mem_openers_of_isIdentifierStart hc), hnot]
  simp [hc, takeWhile_append_of_head hcs hrest]

/-- A string is taken up to its closing quote, whatever follows it. -/
theorem extent_string {fresh : Bool} {body : Text} (h : '"' ∉ body) (rest : Text) :
    extent fresh '"' (body ++ '"' :: rest) = .ok (.string, body.length + 2) := by
  have htake : (body ++ '"' :: rest).takeWhile (· != '"') = body := by
    refine takeWhile_append_of_head (fun c hc => ?_) (by simp)
    simp only [bne_iff_ne, ne_eq]
    rintro rfl
    exact h hc
  simp [extent, stringExtent, htake]

/-- A quoted number is taken up to its closing quote, whatever follows it. The letter A is the one
that opens a character in the place of digits. -/
theorem extent_quoted {fresh : Bool} {letter : Char} {digits : Text} (hl : isRadixLetter letter)
    (ha : letter.toUpper ≠ 'A') (hd : ∀ d ∈ digits, isQuotedDigit letter d) (rest : Text) :
    extent fresh letter ('\'' :: digits ++ '\'' :: rest)
      = .ok (.number, digits.length + 3) := by
  have hquote : isQuotedDigit letter '\'' = false := by
    simp [isQuotedDigit]
  have htake : (digits ++ '\'' :: rest).takeWhile (isQuotedDigit letter) = digits :=
    takeWhile_append_of_head hd (by simp [hquote])
  rw [extent_of_not_mem_openers (not_mem_openers_of_isRadixLetter hl)]
  simp [hl, quotedExtent, ha, htake, closeQuote]

/-- An unquoted number goes on as long as it can, and its kind is that of the whole run. -/
theorem extent_run {fresh : Bool} {c : Char} {cs rest : Text} (hc : c.isDigit || c == '.')
    (hcs : ∀ d ∈ cs, isRunPart d) (hrest : ∀ d ∈ rest.head?, ¬ isRunPart d) :
    extent fresh c (cs ++ rest) = .ok ((runExtent c cs).1, cs.length + 1) := by
  obtain ⟨hopen, hradix, hstart⟩ := of_isRunStart hc
  have htake := takeWhile_append_of_head hcs hrest
  have hall : cs.takeWhile isRunPart = cs := List.takeWhile_eq_self_iff.mpr hcs
  rw [extent_of_not_mem_openers hopen]
  simp [hradix, hstart, hc, runExtent, htake, hall]

/-- An operator is taken whole, unless it makes a longer one with the next character. -/
theorem extent_operator {fresh : Bool} {c : Char} {cs rest : Text} {k : Kind}
    (h : operatorKind? (c :: cs) = some k)
    (hrest : ∀ d ∈ rest.head?, operatorKind? (c :: cs ++ [d]) = none) :
    extent fresh c (cs ++ rest) = .ok (k, cs.length + 1) := by
  obtain ⟨hopen, hradix, hstart, hrun⟩ :=
    of_mem_operatorOpeners (head_mem_operatorOpeners h c rfl)
  have hfound := operatorExtent?_append h hrest
  rw [extent_of_not_mem_openers hopen, hradix, hstart, hrun]
  simp only [List.cons_append] at hfound
  simp [hfound]

/-- The scanner takes a text of the form of a token as that token where it ends. -/
theorem extent_of_spelled {k : Kind} {c : Char} {cs rest : Text} (h : Spelled k (c :: cs))
    (he : EndsBefore k (c :: cs) rest) :
    extent false c (cs ++ rest) = .ok (k, cs.length + 1) := by
  -- The forms are told apart by the whole text, which needs a name for that.
  generalize ht : c :: cs = text at h he
  cases h with
  | comment body =>
      cases ht
      obtain rfl : rest = [] := he
      simp [extent]
  | identifier hname => exact extent_identifier (ht ▸ hname) (ht ▸ he)
  | @string body hbody =>
      cases ht
      simpa using @extent_string false _ hbody rest
  | character d =>
      cases ht
      simp [extent, characterExtent, closeQuote]
  | @code letter hl d =>
      cases ht
      have hradix : isRadixLetter c := by simp [isRadixLetter, hl]
      rw [extent_of_not_mem_openers (not_mem_openers_of_isRadixLetter hradix)]
      simp [hradix, quotedExtent, hl, closeQuote]
  | @quoted letter digits hl ha hd =>
      cases ht
      simpa using @extent_quoted false _ _ hl ha hd rest
  | @run d ds hc hcs =>
      cases ht
      have hrest : ∀ d ∈ rest.head?, ¬ isRunPart d := by
        rcases runExtent_kind c cs with hk | hk <;> rw [hk] at he <;> exact he ⟨c, rfl, hc⟩
      exact extent_run hc hcs hrest
  | symbol hk =>
      subst ht
      cases k with
      -- Punctuation is told by its character, an operator by the search for the longest.
      | programCounter => cases hk; simp [extent]
      | comma => cases hk; simp [extent]
      | colon => cases hk; simp [extent]
      | openParen => cases hk; simp [extent]
      | closeParen => cases hk; simp [extent]
      | pound => cases hk; simp [extent]
      | binary op => exact extent_operator (operatorKind?_of_symbol? _ (by simp) hk) he
      | assign op => exact extent_operator (operatorKind?_of_symbol? _ (by simp) hk) he
      | step op => exact extent_operator (operatorKind?_of_symbol? _ (by simp) hk) he
      | not => exact extent_operator (operatorKind?_of_symbol? _ (by simp) hk) he
      | complement => exact extent_operator (operatorKind?_of_symbol? _ (by simp) hk) he
      | _ => cases hk

/-! ### From the scanner to the form -/

/-- What the scanner takes as a token `t` of kind `k`, and what it leaves: the text splits
into `t` and a rest before which `t` ends. -/
def Taken (k : Kind) (n : Nat) (c : Char) (t : Text) : Prop :=
  ∃ cs rest, t = cs ++ rest ∧ n = cs.length + 1 ∧ Spelled k (c :: cs) ∧
    EndsBefore k (c :: cs) rest

/-- Punctuation and the pound sign end at once. -/
theorem endsBefore_mark {k : Kind} {text : Text} (hk : k.symbol? = some text) (rest : Text)
    (h : k ∈ [.programCounter, .comma, .colon, .openParen, .closeParen, .pound]) :
    EndsBefore k text rest := by
  simp only [List.mem_cons, List.not_mem_nil, or_false] at h
  rcases h with rfl | rfl | rfl | rfl | rfl | rfl <;> cases hk <;> intro c _ <;>
    exact operatorKind?_eq_none_of_head (by decide) _

/-- For operators, to end is to be the longest operator. -/
theorem endsBefore_of_operatorKind? {k : Kind} {text rest : Text}
    (h : operatorKind? text = some k)
    (hrest : ∀ c ∈ rest.head?, operatorKind? (text ++ [c]) = none) : EndsBefore k text rest := by
  have hk := symbol?_of_operatorKind? h
  cases k <;> first | exact hrest | cases hk

/-- A quoted literal ends at a quote and is a number. -/
theorem taken_of_closeQuote {what : Literal} {m n : Nat} {t : Text} {k : Kind}
    (h : closeQuote what m t = .ok (k, n)) :
    k = .number ∧ n = m + 1 ∧ ∃ rest, t = '\'' :: rest := by
  unfold closeQuote at h
  split at h
  · cases h
    exact ⟨rfl, rfl, _, rfl⟩
  · cases h
  · cases h

/-- What is taken as a string has the form of a string. -/
theorem taken_of_stringExtent {t : Text} {k : Kind} {n : Nat} (h : stringExtent t = .ok (k, n)) :
    Taken k n '"' t := by
  obtain ⟨body, rest, rfl, htake, hbody, hrest⟩ := exists_run (· != '"') t
  simp only [stringExtent, htake] at h
  split at h
  · cases h
  · next hlen =>
    cases h
    -- Something is left behind the body, and it begins with the quote that ended the body.
    cases rest with
    | nil => simp at hlen
    | cons d ds =>
        obtain rfl : d = '"' := by simpa using hrest d rfl
        have hmem : '"' ∉ body := fun hq => by simpa using hbody '"' hq
        exact ⟨body ++ ['"'], ds, by simp, by simp, .string hmem, trivial⟩

/-- What is taken as a character literal has the form of a quoted number. -/
theorem taken_of_characterExtent {t : Text} {k : Kind} {n : Nat}
    (h : characterExtent t = .ok (k, n)) : Taken k n '\'' t := by
  cases t with
  | nil => cases h
  | cons d ds =>
      obtain ⟨rfl, rfl, rest, rfl⟩ := taken_of_closeQuote h
      exact ⟨[d, '\''], rest, rfl, rfl, .character d, by simp [EndsBefore]⟩

/-- What is taken as a quoted number has the form of one. -/
theorem taken_of_quotedExtent {letter : Char} {t : Text} {k : Kind} {n : Nat}
    (hl : isRadixLetter letter) (h : quotedExtent letter t = .ok (k, n)) :
    Taken k n letter ('\'' :: t) := by
  have hrun : ¬ (letter.isDigit || letter == '.') := fun hc => by
    simp [(of_isRunStart hc).2.1] at hl
  have hends : ∀ text rest, EndsBefore .number (letter :: text) rest := by
    rintro text rest ⟨c, hc, hcrun⟩
    cases hc
    exact absurd hcrun hrun
  unfold quotedExtent at h
  split at h
  · next ha =>
    cases t with
    | nil => cases h
    | cons d ds =>
        obtain ⟨rfl, rfl, rest, rfl⟩ := taken_of_closeQuote h
        exact ⟨['\'', d, '\''], rest, rfl, rfl, .code ha d, hends _ _⟩
  · next ha =>
    obtain ⟨digits, rest, rfl, htake, hdigits, -⟩ := exists_run (isQuotedDigit letter) t
    simp only [htake, List.drop_left] at h
    obtain ⟨rfl, rfl, rest, rfl⟩ := taken_of_closeQuote h
    exact ⟨'\'' :: digits ++ ['\''], rest, by simp, by simp, .quoted hl ha hdigits, hends _ _⟩

/-- What is taken as a name has the form of one, and ends there. That no quote follows a letter for
a radix is what the scanner has checked before. -/
theorem taken_of_identifier {c : Char} {t : Text} (hc : isIdentifierStart c)
    (hquote : (isRadixLetter c && t.head? == some '\'') = false) :
    Taken .identifier ((t.takeWhile isIdentifierPart).length + 1) c t := by
  obtain ⟨cs, rest, rfl, htake, hcs, hrest⟩ := exists_run isIdentifierPart t
  refine ⟨cs, rest, rfl, by rw [htake], .identifier ⟨hc, hcs⟩, hrest, ?_⟩
  -- A radix letter alone with a quote behind it would have been a quoted number.
  rintro ⟨letter, hname, hl⟩ hq
  cases hname
  simp [hl, hq] at hquote

/-- What is taken as an unquoted number has the form of its kind, and ends there. -/
theorem taken_of_run {c : Char} {t : Text} (hc : c.isDigit || c == '.') :
    Taken (runExtent c t).1 (runExtent c t).2 c t := by
  obtain ⟨cs, rest, rfl, htake, hcs, hrest⟩ := exists_run isRunPart t
  have hall : cs.takeWhile isRunPart = cs := List.takeWhile_eq_self_iff.mpr hcs
  have hsame : runExtent c (cs ++ rest) = ((runExtent c cs).1, cs.length + 1) := by
    simp [runExtent, htake, hall]
  rw [hsame]
  refine ⟨cs, rest, rfl, rfl, .run hc hcs, ?_⟩
  rcases runExtent_kind c cs with hk | hk <;> rw [hk] <;> exact fun _ => hrest

/-- Every token that the scanner takes has the form of its kind and ends where the rest
begins. -/
theorem spelled_of_extent {c : Char} {t : Text} {k : Kind} {n : Nat}
    (h : extent false c t = .ok (k, n)) : Taken k n c t := by
  -- The cases follow the tests of the scanner in their order.
  by_cases hopen : c ∈ openers
  · simp only [openers, List.mem_cons, List.not_mem_nil, or_false] at hopen
    rcases hopen with rfl | rfl | rfl | rfl | rfl | rfl | rfl | rfl | rfl
    · cases h
      exact ⟨t, [], by simp, rfl, .comment t, rfl⟩
    -- Away from the start of the line the pound sign is an operator and not a pragma.
    · cases h
      exact ⟨[], t, rfl, rfl, .symbol rfl, endsBefore_mark rfl _ (by simp)⟩
    · exact taken_of_stringExtent h
    · exact taken_of_characterExtent h
    all_goals
      cases h
      exact ⟨[], t, rfl, rfl, .symbol rfl, endsBefore_mark rfl _ (by simp)⟩
  · rw [extent_of_not_mem_openers hopen] at h
    split at h
    · next hq =>
      simp only [Bool.and_eq_true, beq_iff_eq] at hq
      cases t with
      | nil => simp at hq
      | cons d ds =>
          obtain rfl : d = '\'' := by simpa using hq.2
          exact taken_of_quotedExtent hq.1 h
    · next hq =>
      split at h
      · next hc =>
        cases h
        exact taken_of_identifier hc (by simpa using hq)
      · split at h
        · next hc =>
          cases h
          exact taken_of_run hc
        · split at h
          · next found hfound =>
            cases h
            obtain ⟨text, rest, htext, rfl, hk, hrest⟩ := exists_of_operatorExtent? hfound
            have hlen := length_of_operatorKind? hk
            cases text with
            | nil => simp at hlen
            | cons d ds =>
                cases htext
                exact ⟨ds, rest, rfl, rfl, .symbol (symbol?_of_operatorKind? hk),
                  endsBefore_of_operatorKind? hk hrest⟩
          · cases h

/-! ### What may follow a token -/

/-- The characters that a name or a bare number may go on with, and the quote, which
makes a radix of a letter. -/
def isGlue (c : Char) : Bool := isIdentifierPart c || c == '.' || c == '\''

/-- A text that does not begin with a character that a name or a number goes on with. -/
def Detached (rest : Text) : Prop := ∀ c ∈ rest.head?, isGlue c = false

/-- The end of the line is detached. -/
theorem detached_nil : Detached [] := by simp [Detached]

/-- A text is detached if its first character is no part of names and numbers. -/
theorem detached_cons {c : Char} (h : isGlue c = false) (rest : Text) : Detached (c :: rest) := by
  simpa [Detached] using h

/-- The characters of unquoted numbers are among those that names and numbers go on with. -/
theorem isGlue_of_isRunPart {c : Char} (h : isRunPart c) : isGlue c := by
  simp only [isRunPart, Bool.or_eq_true, Bool.and_eq_true, decide_eq_true_eq] at h
  simp only [isGlue, isIdentifierPart, Bool.or_eq_true, isAlphanum_iff, isAlpha_iff]
  rcases h with ((h | h) | h) | h
  · simp [h]
  · simp [h]
  · simp [h]
  -- What is left are the digits of a hexadecimal number, and those are capitals.
  · have hle : c.val ≤ 'F'.val := h.2
    have hup : c.isUpper := isUpper_iff.mpr ⟨h.1, UInt32.le_trans hle (by decide)⟩
    simp [hup]

/-- Names, numbers and quoted texts end before anything detached. -/
theorem Spelled.endsBefore {k : Kind} {text rest : Text}
    (hk : k = .identifier ∨ k = .number ∨ k = .chipId ∨ k = .string) (hrest : Detached rest) :
    EndsBefore k text rest := by
  have hrun : ∀ c ∈ rest.head?, ¬ isRunPart c := fun c hc h => by
    simpa [hrest c hc] using isGlue_of_isRunPart h
  rcases hk with rfl | rfl | rfl | rfl
  · refine ⟨fun c hc h => ?_, fun _ hq => ?_⟩
    · simpa [isGlue, h] using hrest c hc
    · simpa [isGlue] using hrest _ hq
  · exact fun _ => hrun
  · exact fun _ => hrun
  · trivial

/-- Operators end before a character that makes no longer operator of them. -/
theorem endsBefore_operator {k : Kind} {text rest : Text} (h : operatorKind? text = some k)
    (hdouble : ∀ c ∈ rest.head?, text = [c] → c ∉ doubledOpeners)
    (hequals : rest.head? = some '=' →
      text.length ≠ 1 ∧ text ≠ ['<', '<'] ∧ text ≠ ['>', '>']) :
    EndsBefore k text rest := by
  have hne : text ≠ [] := by
    rintro rfl
    cases h
  -- A longer operator would be one of the two kinds that begin with a shorter one.
  refine endsBefore_of_operatorKind? h fun c hc => ?_
  refine Option.eq_none_iff_forall_ne_some.mpr fun k' hk' => ?_
  rcases operatorKind?_snoc hk' hne with ⟨rfl, ht⟩ | ⟨ht, hmem⟩
  · obtain ⟨h1, h2, h3⟩ := hequals hc
    rcases ht with ht | ht | ht
    · exact h1 ht
    · exact h2 ht
    · exact h3 ht
  · exact hdouble c hc ht hmem

/-- Only a comment looks at more than the next character. -/
theorem EndsBefore.congr {k : Kind} {text rest rest' : Text} (h : EndsBefore k text rest)
    (hk : k ≠ .comment) (hrest : rest.head? = rest'.head?) : EndsBefore k text rest' := by
  cases k with
  | comment => exact absurd rfl hk
  | string | pragma | eof => trivial
  | _ => simpa only [EndsBefore, hrest] using h

/-- A character that goes on with no name, number or operator ends all tokens but comments. -/
theorem endsBefore_of_not_mem {k : Kind} {text rest : Text} (hne : text ≠ []) (hk : k ≠ .comment)
    (hrest : Detached rest) (hop : ∀ c ∈ rest.head?, c ∉ operatorOpeners) :
    EndsBefore k text rest := by
  have hnone : ∀ c ∈ rest.head?, operatorKind? (text ++ [c]) = none := fun c hc => by
    refine Option.eq_none_iff_forall_ne_some.mpr fun k' hk' => ?_
    rcases operatorKind?_snoc hk' hne with ⟨rfl, -⟩ | ⟨-, hmem⟩
    · exact hop _ hc (by decide)
    · have hall : ∀ d ∈ doubledOpeners, d ∈ operatorOpeners :=
        List.all_iff_forall_prop.mp (by decide)
      exact hop c hc (hall c hmem)
  cases k with
  | comment => exact absurd rfl hk
  | identifier | number | chipId | string => exact Spelled.endsBefore (by simp) hrest
  | pragma | eof => trivial
  | _ => exact hnone

/-- Between blanks an operator ends, whichever it is. -/
theorem endsBefore_binary (op : BinaryOp) (rest : Text) :
    EndsBefore (.binary op) op.lexeme (' ' :: rest) := by
  refine endsBefore_operator (by cases op <;> rfl) ?_ (fun h => by cases h)
  rintro c ⟨⟩ -
  decide

/-- An operator for assignments ends before everything but an equals sign. -/
theorem endsBefore_assign (op : AssignOp) {rest : Text} (h : rest.head? ≠ some '=') :
    EndsBefore (.assign op) op.lexeme rest := by
  refine endsBefore_operator (by cases op <;> rfl) (fun c _ hc => ?_) (fun he => absurd he h)
  cases op <;> cases hc
  decide

/-- An operator that counts up or down ends anywhere, since it is no beginning of another
operator. -/
theorem endsBefore_step (op : StepOp) (rest : Text) : EndsBefore (.step op) op.lexeme rest := by
  refine endsBefore_operator (by cases op <;> rfl) (fun c _ hc => ?_) fun _ => ?_
  · cases op <;> cases hc
  · cases op <;> decide

/-- An operator of one character ends unless an equals sign follows, or the same character
where two of it are an operator. -/
theorem endsBefore_single {k : Kind} {c : Char} {rest : Text} (h : operatorKind? [c] = some k)
    (hequals : rest.head? ≠ some '=') (hdouble : c ∈ doubledOpeners → rest.head? ≠ some c) :
    EndsBefore k [c] rest := by
  refine endsBefore_operator h ?_ fun he => absurd he hequals
  rintro d hd ⟨⟩ hmem
  exact hdouble hmem hd

end PicAssembly.Token
