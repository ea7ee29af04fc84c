import PicAssembly.Text.CaseMap

/-!
# `PicAssembly.Proofs.Text.Case`: lower case of ASCII text

Names are ASCII text, and there full case conversion is the conversion of ASCII letters
(`lower_eq_asciiLower`). A text that goes to lower case as an ASCII text has no capital sigma, so
each of its characters is converted on its own (`lower_append`).
-/

set_option autoImplicit false

namespace PicAssembly.Text

/-- The lower case of a character, wherever it stands. -/
abbrev lowerChar (c : Char) : Text := convert CaseTable.lowerRuns CaseTable.lowerLong c

/-- Without a capital sigma the lower case goes character by character. The sigma is the one letter
whose lower case depends on its neighbours. -/
theorem lowerFrom_eq_flatMap (before : Text) {t : Text} (h : 'Σ' ∉ t) :
    lowerFrom before t = t.flatMap lowerChar := by
  induction t generalizing before with
  | nil => rfl
  | cons c cs ih =>
      have hc : c ≠ 'Σ' := Ne.symm (List.ne_of_not_mem_cons h)
      rw [lowerFrom, if_neg hc, ih _ (List.not_mem_of_not_mem_cons h), List.flatMap_cons]

/-- Without a capital sigma, texts in a row are converted one by one. -/
theorem lower_append {t u : Text} (ht : 'Σ' ∉ t) (hu : 'Σ' ∉ u) :
    lower (t ++ u) = lower t ++ lower u := by
  have htu : 'Σ' ∉ t ++ u := fun h => (List.mem_append.mp h).elim ht hu
  rw [lower, lower, lower, lowerFrom_eq_flatMap _ htu, lowerFrom_eq_flatMap _ ht,
    lowerFrom_eq_flatMap _ hu, List.flatMap_append]

/-- ASCII characters have the lower case of ASCII letters. -/
theorem lowerChar_of_lt {c : Char} (h : c.toNat < 128) : lowerChar c = [c.toLower] := by
  have hall : ∀ n < 128, lowerChar (Char.ofNat n) = [(Char.ofNat n).toLower] := by decide +kernel
  simpa using hall c.toNat h

/-- A text of ASCII characters. -/
def IsAscii (t : Text) : Prop := ∀ c ∈ t, c.toNat < 128

/-- A capital sigma is no character of ASCII. -/
theorem IsAscii.sigma_not_mem {t : Text} (h : IsAscii t) : 'Σ' ∉ t :=
  fun hmem => absurd (h _ hmem) (by decide)

/-- In a text of ASCII characters the full case conversion is the one of ASCII. -/
theorem lower_eq_asciiLower {t : Text} (h : IsAscii t) : lower t = asciiLower t := by
  rw [lower, lowerFrom_eq_flatMap _ h.sigma_not_mem, asciiLower]
  induction t with
  | nil => rfl
  | cons c cs ih =>
      obtain ⟨hc, hcs⟩ := List.forall_mem_cons.mp h
      rw [List.flatMap_cons, lowerChar_of_lt hc, ih hcs, List.map_cons, List.singleton_append]

/-- The lower case of a text of ASCII characters is one too. -/
theorem IsAscii.lower {t : Text} (h : IsAscii t) : IsAscii (lower t) := by
  have hall : ∀ n < 128, (Char.ofNat n).toLower.toNat < 128 := by decide
  rw [lower_eq_asciiLower h, IsAscii, asciiLower, List.forall_mem_map]
  exact fun c hc => by simpa using hall c.toNat (h c hc)

/-- A capital sigma stays outside of ASCII in lower case. -/
theorem sigma_not_mem_of_isAscii_lowerFrom {before t : Text} (h : IsAscii (lowerFrom before t)) :
    'Σ' ∉ t := by
  induction t generalizing before with
  | nil => exact List.not_mem_nil
  | cons c cs ih =>
      obtain ⟨hc, hcs⟩ := List.forall_mem_append.mp h
      refine List.not_mem_cons_of_ne_of_not_mem ?_ (ih hcs)
      rintro rfl
      rw [if_pos rfl] at hc
      -- Both of its lower cases are Greek letters.
      split at hc
      all_goals exact absurd (hc _ List.mem_cons_self) (by decide)

/-- What has the lower case of an ASCII text has no capital sigma. -/
theorem IsAscii.sigma_not_mem_of_lower_eq {t u : Text} (hu : IsAscii u)
    (h : Text.lower t = Text.lower u) : 'Σ' ∉ t := by
  have ht : IsAscii (Text.lower t) := by
    rw [h]
    exact hu.lower
  exact sigma_not_mem_of_isAscii_lowerFrom ht

/-- Texts in a row have the same lower case as ASCII texts in a row if each has. -/
theorem lower_append_congr {t t' u u' : Text} (ht : IsAscii t) (hu : IsAscii u)
    (h : lower t' = lower t) (h' : lower u' = lower u) : lower (t' ++ u') = lower (t ++ u) := by
  rw [lower_append (ht.sigma_not_mem_of_lower_eq h) (hu.sigma_not_mem_of_lower_eq h'),
    lower_append ht.sigma_not_mem hu.sigma_not_mem, h, h']

end PicAssembly.Text
