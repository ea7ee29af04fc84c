import PicAssembly.Line.Basic

/-!
# `PicAssembly.Proofs.Line.Mnemonic`: the mnemonics of a statement

Mnemonics are told without regard to letter case, so a statement has all those that its own
is the same as. `Statement.rename` puts one in the place of another, and whether the statement
has a third one does not depend on that (`Statement.hasMnemonic_rename`).
-/

set_option autoImplicit false

namespace PicAssembly

namespace Text

/-- The text, or `new` if it is `old` in any letter case. -/
def renamed (old new t : Text) : Text := if sameIgnoringCase t old then new else t

/-- A text is renamed if it is the old name in some letter case. -/
theorem renamed_of_same {old new t : Text} (h : sameIgnoringCase t old) : renamed old new t = new :=
  if_pos h

/-- Any other text stays as it is. -/
theorem renamed_of_not_same {old new t : Text} (h : sameIgnoringCase t old = false) :
    renamed old new t = t :=
  if_neg (Bool.not_eq_true _ ▸ h)

/-- Two texts that differ in letter case only are the same to every other. -/
theorem sameIgnoringCase_eq_of_same {t u : Text} (h : sameIgnoringCase t u) (other : Text) :
    sameIgnoringCase t other = sameIgnoringCase u other := by
  rw [sameIgnoringCase, beq_iff_eq.mp h, ← sameIgnoringCase]

/-- A renaming does not change whether a text is one that is neither `old` nor `new`. -/
theorem sameIgnoringCase_renamed {old new other : Text}
    (hold : sameIgnoringCase old other = false) (hnew : sameIgnoringCase new other = false)
    (t : Text) : sameIgnoringCase (renamed old new t) other = sameIgnoringCase t other := by
  rw [renamed]
  split
  · next h => rw [sameIgnoringCase_eq_of_same h, hold, hnew]
  · rfl

end Text

namespace Statement

/-- The statement with the mnemonic `new` if it has the mnemonic `old`. -/
def rename (old new : Text) (s : Statement) : Statement :=
  { s with mnemonic := s.mnemonic.map (Text.renamed old new) }

/-- Renaming a mnemonic changes the statement only if it has the old one. -/
theorem rename_eq (old new : Text) (s : Statement) :
    s.rename old new = if s.hasMnemonic old then { s with mnemonic := some new } else s := by
  obtain ⟨label, mnemonic, operands, comment⟩ := s
  cases mnemonic with
  | none => rfl
  | some m =>
      show (⟨label, some (if Text.sameIgnoringCase m old then new else m), operands, comment⟩ :
        Statement) = if Text.sameIgnoringCase m old then _ else _
      split <;> rfl

/-- A statement has the mnemonic that it is spelled with. -/
theorem hasMnemonic_self {s : Statement} {m : Text} (h : s.mnemonic = some m) :
    s.hasMnemonic m := by
  rw [hasMnemonic, h]
  exact beq_self_eq_true _

/-- A statement has no other mnemonic than its own. -/
theorem hasMnemonic_eq_of_hasMnemonic {s : Statement} {m : Text} (h : s.hasMnemonic m)
    (other : Text) : s.hasMnemonic other = Text.sameIgnoringCase m other := by
  obtain ⟨label, mnemonic, operands, comment⟩ := s
  cases mnemonic with
  | none => cases h
  | some own => exact Text.sameIgnoringCase_eq_of_same h other

/-- Which of some mnemonics a statement has can be told by any one that it has, since letter case is
the only difference there can be. -/
theorem hasOneOf_eq_of_hasMnemonic {s : Statement} {m : Text} (h : s.hasMnemonic m)
    (others : List Text) : s.hasOneOf others = others.any (Text.sameIgnoringCase m) := by
  rw [hasOneOf, funext (hasMnemonic_eq_of_hasMnemonic h)]

/-- Whether a statement has a mnemonic does not depend on a renaming of another. -/
theorem hasMnemonic_rename {old new other : Text}
    (hold : Text.sameIgnoringCase old other = false)
    (hnew : Text.sameIgnoringCase new other = false) (s : Statement) :
    (s.rename old new).hasMnemonic other = s.hasMnemonic other := by
  obtain ⟨label, mnemonic, operands, comment⟩ := s
  cases mnemonic with
  | none => rfl
  | some m => exact Text.sameIgnoringCase_renamed hold hnew m

/-- Where neither name is among the others, renaming changes nothing about having one of the others.
So a renaming does not disturb the choice of lines by other mnemonics. -/
theorem hasOneOf_rename {old new : Text} {others : List Text}
    (hold : others.any (Text.sameIgnoringCase old) = false)
    (hnew : others.any (Text.sameIgnoringCase new) = false) (s : Statement) :
    (s.rename old new).hasOneOf others = s.hasOneOf others := by
  induction others with
  | nil => rfl
  | cons other others ih =>
      simp only [List.any_cons, Bool.or_eq_false_iff] at hold hnew
      rw [hasOneOf, List.any_cons, hasMnemonic_rename hold.1 hnew.1, ← hasOneOf,
        ih hold.2 hnew.2]
      rfl

end Statement

end PicAssembly
