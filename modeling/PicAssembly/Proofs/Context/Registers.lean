import Mathlib.Data.List.Nodup
import PicAssembly.Context
import PicAssembly.Proofs.Text.Case

/-!
# `PicAssembly.Proofs.Context.Registers`: new names of bits in a context

Pairs are put into a table one after the other, and the last one for a key counts
(`Table.get?_putAll`). The keys of bits are put in and looked up in lower case, so a bit is found
in any letter case (`Context.register?_of_mem`) and no other bit is
(`Context.register?_eq_none`).
-/

set_option autoImplicit false

namespace PicAssembly

/-- The last pair for a key counts, and a pair counts more than what was in the table. -/
theorem Table.get?_putAll (t : Table) (pairs : List (Text × Text)) (key : Text) :
    (t.putAll pairs).get? key = (pairs.reverse.lookup key).or (t.get? key) := by
  induction pairs generalizing t with
  | nil => rfl
  | cons pair pairs ih =>
      obtain ⟨k, value⟩ := pair
      have hlast : [(k, value)].lookup key = if key = k then some value else none := by
        by_cases hkey : key = k
        · simp [hkey]
        · simp [List.lookup_cons, beq_eq_false_iff_ne.mpr hkey, hkey]
      -- The first pair is the last to be looked at, and right before the table.
      rw [putAll, List.foldl_cons, ← putAll, ih, get?_put, List.reverse_cons, List.lookup_append,
        Option.or_assoc, hlast]
      split <;> rfl

/-- With no key twice, every entry is found under its key. -/
theorem Table.lookup_of_mem {entries : List (Text × Text)} (h : (entries.map Prod.fst).Nodup)
    {key value : Text} (hentry : (key, value) ∈ entries) : entries.lookup key = some value := by
  obtain ⟨front, back, rfl⟩ := List.append_of_mem hentry
  rw [List.map_append, List.map_cons, List.nodup_append] at h
  refine List.lookup_eq_some_iff.mpr ⟨front, back, rfl, fun other hother => bne_iff_ne.mpr ?_⟩
  exact Ne.symm (h.2.2 _ (List.mem_map_of_mem hother) _ List.mem_cons_self)

namespace Context

variable {pairs : List (Text × Text)}

/-- What is found in a context that only has these names of bits. -/
theorem register?_addRegisters_empty (register bit : Text) :
    (Context.empty.addRegisters pairs).register? register bit
      = (pairs.map fun pair => (Text.lower pair.1, pair.2)).reverse.lookup
          (Text.lower (register ++ '.' :: bit)) := by
  rw [register?, addRegisters, Table.get?_putAll]
  exact Option.or_none

/-- If the keys differ in lower case, the bit of each pair has the name of the pair. -/
theorem register?_of_mem (hkeys : (pairs.map fun pair => Text.lower pair.1).Nodup)
    {pair : Text × Text} (hpair : pair ∈ pairs) {register bit : Text}
    (h : Text.lower (register ++ '.' :: bit) = Text.lower pair.1) :
    (Context.empty.addRegisters pairs).register? register bit = some pair.2 := by
  rw [register?_addRegisters_empty, h]
  refine Table.lookup_of_mem ?_ (List.mem_reverse.mpr (List.mem_map.mpr ⟨pair, hpair, rfl⟩))
  rw [List.map_reverse, List.map_map]
  exact List.nodup_reverse.mpr hkeys

/-- What is no key in lower case is not found. -/
theorem register?_eq_none {register bit : Text}
    (h : ∀ pair ∈ pairs, Text.lower pair.1 ≠ Text.lower (register ++ '.' :: bit)) :
    (Context.empty.addRegisters pairs).register? register bit = none := by
  rw [register?_addRegisters_empty, List.lookup_eq_none_iff]
  intro entry hentry
  obtain ⟨pair, hpair, rfl⟩ := List.mem_map.mp (List.mem_reverse.mp hentry)
  exact bne_iff_ne.mpr (Ne.symm (h pair hpair))

end Context

end PicAssembly
