import PicAssembly.Text.Basic

/-!
# `PicAssembly.Table`: values under keys, in the order the keys came

A table keeps its entries in the order in which their keys were first put in. A
key that is put in again keeps its place and gets the new value.

* `get?_put`: what is put under a key is found there, and nothing else changes.
* `keys_put`: a new key goes to the end, and an old one keeps its place.
-/

set_option autoImplicit false

namespace PicAssembly

/-- Keys and their values. -/
structure Table where
  entries : List (Text × Text)
  deriving DecidableEq, Repr

namespace Table

/-- The table without entries. -/
def empty : Table := ⟨[]⟩

/-- Whether the table has no entries. -/
def isEmpty (t : Table) : Bool := t.entries.isEmpty

/-- How many keys there are. -/
def size (t : Table) : Nat := t.entries.length

/-- The value under a key. -/
def get? (t : Table) (key : Text) : Option Text := t.entries.lookup key

/-- Entries with a value put under a key. -/
def putInto (key value : Text) : List (Text × Text) → List (Text × Text)
  | [] => [(key, value)]
  | (k, v) :: rest => if k = key then (key, value) :: rest else (k, v) :: putInto key value rest

/-- Puts a value under a key. -/
def put (t : Table) (key value : Text) : Table := ⟨putInto key value t.entries⟩

/-- What a look-up gives after an insertion, on the list of entries. -/
theorem lookup_putInto (key value other : Text) (entries : List (Text × Text)) :
    (putInto key value entries).lookup other =
      if other = key then some value else entries.lookup other := by
  induction entries with
  | nil =>
    by_cases h : other = key
    · simp [putInto, h]
    · simp [putInto, List.lookup_cons, beq_eq_false_iff_ne.mpr h, h]
  | cons entry rest ih =>
    obtain ⟨k, v⟩ := entry
    rw [putInto]
    split
    · next hk =>
      subst hk
      by_cases h : other = k
      · simp [h]
      · simp [List.lookup_cons, beq_eq_false_iff_ne.mpr h, h]
    · next hk =>
      by_cases h : other = k
      · subst h
        simp [hk]
      · simp [List.lookup_cons, beq_eq_false_iff_ne.mpr h, ih]

/-- What a look-up gives after an insertion: the new value for its key, and what it gave before for
every other key. All facts on look-ups in tables that grow come from this one. -/
theorem get?_put (t : Table) (key value other : Text) :
    (t.put key value).get? other = if other = key then some value else t.get? other :=
  lookup_putInto key value other t.entries

/-- The keys, in order. -/
def keys (t : Table) : List Text := t.entries.map Prod.fst

/-- A key that is there keeps its place, and a new one comes last. -/
theorem keys_put (t : Table) (key value : Text) :
    (t.put key value).keys = if key ∈ t.keys then t.keys else t.keys ++ [key] := by
  obtain ⟨entries⟩ := t
  simp only [put, keys]
  induction entries with
  | nil => simp [putInto]
  | cons entry rest ih =>
    obtain ⟨k, v⟩ := entry
    rw [putInto]
    split
    · next hk => simp [hk]
    · next hk =>
      have hk' : ¬ key = k := fun h => hk h.symm
      by_cases h : key ∈ rest.map Prod.fst <;> simp_all

/-- Puts in several pairs of a key and a value, in order. -/
def putAll (t : Table) (pairs : List (Text × Text)) : Table :=
  pairs.foldl (fun t pair => t.put pair.1 pair.2) t

end Table

end PicAssembly
