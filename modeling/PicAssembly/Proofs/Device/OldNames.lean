import PicAssembly.Proofs.Device.BitBlocks

/-!
# `PicAssembly.Proofs.Device.OldNames`: the name that a header has for a place

A header gives names to numbers (`Device.Equates`). The register of a field is the first name of
its address, and the bit is the name of its position in the register's block that is nearest to
the name of the field, the first of several (`Device.OldName`). The three searches of the builder
find these names and no others (`Device.oldName?_eq_some_iff`).
-/

set_option autoImplicit false

namespace PicAssembly

namespace Device

/-! ### Names of numbers -/

/-- The statement gives the name to the number: `NAME equ NUMBER`. -/
structure Equates (s : Statement) (name : Text) (value : Nat) : Prop where
  label : s.label = some name
  mnemonic : s.hasMnemonic "equ".toList
  operand : ∃ radix literal rest, s.operands = .number value radix literal :: rest

/-- The first name that some statements give to a number. -/
def FirstName (value : Nat) (statements : List Statement) (name : Text) : Prop :=
  ∃ before s after, statements = before ++ s :: after ∧ Equates s name value ∧
    ∀ t ∈ before, ∀ other, ¬ Equates t other value

/-- How far a label is from a name, without blanks at the ends of the label. -/
def distanceTo (name label : Text) : Nat := EditDistance.distance name (Text.trim label)

/-- Of the names that some statements give to a number, the nearest to `wanted`, and of several
that are as near the first. -/
def NearestName (wanted : Text) (value : Nat) (statements : List Statement) (name : Text) : Prop :=
  ∃ before s after, statements = before ++ s :: after ∧ Equates s name value ∧
    (∀ t ∈ before, ∀ other, Equates t other value →
      distanceTo wanted name < distanceTo wanted other) ∧
    ∀ t ∈ after, ∀ other, Equates t other value →
      distanceTo wanted name ≤ distanceTo wanted other

/-- The register and the bit that a header has at the place of a field. -/
structure OldName (header : Program) (field : Field) (register bit : Text) : Prop where
  first : FirstName field.address header.statements register
  nearest : NearestName field.name field.bit (bitBlock header register) bit

/-- The program reads a number off a statement just if the statement gives some name to it. -/
theorem equValue?_eq_some_iff {s : Statement} {value : Nat} :
    equValue? s = some value ↔ ∃ name, Equates s name value := by
  rw [equValue?]
  constructor
  · intro h
    split at h
    · next hequ =>
      obtain ⟨hlabel, hmnemonic⟩ := Bool.and_eq_true_iff.mp hequ
      obtain ⟨name, hname⟩ := Option.isSome_iff_exists.mp hlabel
      split at h
      · next number radix literal rest hoperands =>
        cases h
        exact ⟨name, hname, hmnemonic, radix, literal, rest, hoperands⟩
      · cases h
    · cases h
  · rintro ⟨name, hlabel, hmnemonic, radix, literal, rest, hoperands⟩
    rw [hlabel, hmnemonic, hoperands]
    rfl

/-- The name that a statement gives to a number. -/
def nameOf? (value : Nat) (s : Statement) : Option Text :=
  if equValue? s = some value then s.label else none

/-- The program reads a name off a statement just if the statement gives the name to the number. -/
theorem nameOf?_eq_some_iff {s : Statement} {name : Text} {value : Nat} :
    nameOf? value s = some name ↔ Equates s name value := by
  rw [nameOf?]
  constructor
  · intro h
    split at h
    · next hvalue =>
      obtain ⟨other, hother⟩ := equValue?_eq_some_iff.mp hvalue
      have hname : other = name := Option.some.inj (hother.label.symm.trans h)
      exact hname ▸ hother
    · cases h
  · intro h
    rw [if_pos (equValue?_eq_some_iff.mpr ⟨name, h⟩), h.label]

/-! ### The three searches -/

/-- The first statement for a number is found with its name. -/
theorem find?_eq_some_iff {statements : List Statement} {value : Nat} {name : Text} :
    (∃ s, statements.find? (equValue? · = some value) = some s ∧ s.label.getD [] = name) ↔
      FirstName value statements name := by
  constructor
  · rintro ⟨s, hfind, rfl⟩
    obtain ⟨hs, before, after, hsplit, hbefore⟩ := List.find?_eq_some_iff_append.mp hfind
    obtain ⟨name, hname⟩ := equValue?_eq_some_iff.mp (of_decide_eq_true hs)
    rw [hname.label, Option.getD_some]
    refine ⟨before, s, after, hsplit, hname, fun t ht other hother => ?_⟩
    -- A statement before it that named the number would have been found first.
    have hnot := hbefore t ht
    rw [equValue?_eq_some_iff.mpr ⟨other, hother⟩] at hnot
    simp at hnot
  · rintro ⟨before, s, after, hsplit, hname, hbefore⟩
    refine ⟨s, List.find?_eq_some_iff_append.mpr ⟨?_, before, after, hsplit, fun t ht => ?_⟩, ?_⟩
    · exact decide_eq_true (equValue?_eq_some_iff.mpr ⟨name, hname⟩)
    · rw [Bool.not_eq_true', decide_eq_false_iff_not, equValue?_eq_some_iff]
      rintro ⟨other, hother⟩
      exact hbefore t ht other hother
    · rw [hname.label, Option.getD_some]

/-- Of two names that are as near the first is kept: a candidate has to give way only to a nearer
one behind it. -/
theorem nearest?_cons (name candidate : Text) (candidates : List Text) :
    nearest? name (candidate :: candidates) =
      match nearest? name candidates with
      | none => some candidate
      | some other =>
        if distanceTo name candidate ≤ distanceTo name other then some candidate
        else some other := rfl

/-- Some name is nearest unless there are none. -/
theorem nearest?_eq_none_iff {name : Text} {candidates : List Text} :
    nearest? name candidates = none ↔ candidates = [] := by
  cases candidates with
  | nil => exact iff_of_true rfl rfl
  | cons candidate candidates =>
      refine iff_of_false (fun h => ?_) (List.cons_ne_nil candidate candidates)
      rw [nearest?_cons] at h
      split at h
      · cases h
      · split at h
        · cases h
        · cases h

/-- The candidate that is found is nearer than those before it, and as near as those behind it. -/
theorem nearest?_eq_some_iff {name candidate : Text} {candidates : List Text} :
    nearest? name candidates = some candidate ↔
      ∃ before after, candidates = before ++ candidate :: after ∧
        (∀ other ∈ before, distanceTo name candidate < distanceTo name other) ∧
        ∀ other ∈ after, distanceTo name candidate ≤ distanceTo name other := by
  induction candidates generalizing candidate with
  | nil =>
      refine iff_of_false nofun ?_
      rintro ⟨before, after, hsplit, -, -⟩
      exact absurd hsplit.symm (List.append_ne_nil_of_right_ne_nil _ (List.cons_ne_nil _ _))
  | cons first rest ih =>
      rw [nearest?_cons]
      constructor
      · intro h
        split at h
        · next hnone =>
          cases h
          exact ⟨[], rest, rfl, nofun, by rw [nearest?_eq_none_iff.mp hnone]; exact nofun⟩
        · next other hother =>
          obtain ⟨before, after, hsplit, hbefore, hafter⟩ := ih.mp hother
          split at h
          · next hle =>
            -- The first is as near as the best of the rest, which nothing in the rest beats.
            cases h
            refine ⟨[], rest, rfl, nofun, fun t ht => hle.trans ?_⟩
            rw [hsplit] at ht
            rcases List.mem_append.mp ht with ht | ht
            · exact (hbefore t ht).le
            · rcases List.mem_cons.mp ht with rfl | ht
              · exact Nat.le_refl _
              · exact hafter t ht
          · next hlt =>
            cases h
            refine ⟨first :: before, after, by rw [hsplit]; rfl, ?_, hafter⟩
            exact List.forall_mem_cons.mpr ⟨Nat.lt_of_not_le hlt, hbefore⟩
      · rintro ⟨before, after, hsplit, hbefore, hafter⟩
        cases before with
        | nil =>
            obtain ⟨rfl, rfl⟩ := List.cons.inj hsplit
            cases hnearest : nearest? name rest with
            | none => rfl
            | some other =>
                obtain ⟨between, behind, hrest, -, -⟩ := ih.mp hnearest
                have hle := hafter other (hrest ▸ List.mem_append_right _ List.mem_cons_self)
                dsimp only
                rw [if_pos hle]
        | cons head before =>
            obtain ⟨rfl, rfl⟩ := List.cons.inj hsplit
            obtain ⟨hhead, hbefore⟩ := List.forall_mem_cons.mp hbefore
            rw [ih.mpr ⟨before, after, rfl, hbefore, hafter⟩]
            dsimp only
            rw [if_neg (Nat.not_le_of_lt hhead)]

/-- The search for the nearest of the names of a number finds the nearest name. The blanks at the
ends of labels count for nothing. -/
theorem nearest?_names_iff {wanted name : Text} {value : Nat} {statements : List Statement} :
    nearest? wanted ((statements.filter (equValue? · = some value)).filterMap Statement.label)
        = some name ↔ NearestName wanted value statements name := by
  -- The candidates are what `nameOf?` makes of the statements, so both sides split one list.
  have hcandidates : (statements.filter (equValue? · = some value)).filterMap Statement.label
      = statements.filterMap (nameOf? value) := by
    rw [List.filterMap_filter]
    refine List.filterMap_congr fun s _ => ?_
    rw [nameOf?]
    simp only [decide_eq_true_eq]
  rw [hcandidates, nearest?_eq_some_iff]
  constructor
  · rintro ⟨before, after, hsplit, hbefore, hafter⟩
    obtain ⟨first, rest, rfl, rfl, hrest⟩ := List.filterMap_eq_append_iff.mp hsplit
    obtain ⟨skipped, s, last, rfl, hskipped, hs, rfl⟩ := List.filterMap_eq_cons_iff.mp hrest
    refine ⟨first ++ skipped, s, last, by rw [List.append_assoc], nameOf?_eq_some_iff.mp hs,
      fun t ht other hother => ?_, fun t ht other hother => ?_⟩
    · have hname := nameOf?_eq_some_iff.mpr hother
      rcases List.mem_append.mp ht with ht | ht
      · exact hbefore other (List.mem_filterMap.mpr ⟨t, ht, hname⟩)
      · rw [hskipped t ht] at hname
        cases hname
    · exact hafter other (List.mem_filterMap.mpr ⟨t, ht, nameOf?_eq_some_iff.mpr hother⟩)
  · rintro ⟨before, s, after, rfl, hname, hbefore, hafter⟩
    refine ⟨before.filterMap (nameOf? value), after.filterMap (nameOf? value), ?_,
      fun other hother => ?_, fun other hother => ?_⟩
    · rw [List.filterMap_append, List.filterMap_cons_some (nameOf?_eq_some_iff.mpr hname)]
    · obtain ⟨t, ht, hother⟩ := List.mem_filterMap.mp hother
      exact hbefore t ht other (nameOf?_eq_some_iff.mp hother)
    · obtain ⟨t, ht, hother⟩ := List.mem_filterMap.mp hother
      exact hafter t ht other (nameOf?_eq_some_iff.mp hother)

/-- The look-up of the old name of a field finds it just if the header has one at the place of the
field. -/
theorem oldName?_eq_some_iff {header : Program} {field : Field} {register bit : Text} :
    oldName? header field = some (register, bit) ↔ OldName header field register bit := by
  constructor
  · intro h
    obtain ⟨s, hfind, h⟩ := Option.bind_eq_some_iff.mp h
    obtain ⟨nearest, hnearest, h⟩ := Option.bind_eq_some_iff.mp h
    cases h
    exact ⟨find?_eq_some_iff.mp ⟨s, hfind, rfl⟩, nearest?_names_iff.mp hnearest⟩
  · rintro ⟨hregister, hbit⟩
    obtain ⟨s, hfind, rfl⟩ := find?_eq_some_iff.mpr hregister
    refine Option.bind_eq_some_iff.mpr ⟨s, hfind, Option.bind_eq_some_iff.mpr ⟨bit, ?_, rfl⟩⟩
    exact nearest?_names_iff.mpr hbit

end Device

end PicAssembly
