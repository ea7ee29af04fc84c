import Mathlib.Data.List.Induction
import PicAssembly.Proofs.Context.Registers

/-!
# `PicAssembly.Proofs.Context.LastWord`: contexts that are put together in steps

A context begins empty, and each addition puts some pairs into one of its three tables. In
whichever order the additions come, a table depends on the pairs for it alone
(`Context.table_ofAdditions`), and the last pair for a key counts:

* `Context.lastWord_ofAdditions`: what a context answers for a bit, for a name and for a symbol.
-/

set_option autoImplicit false

namespace PicAssembly

/-- The value of the last pair with a key that fits, if there is one. -/
inductive LastWord (fits : Text → Prop) (pairs : List (Text × Text)) : Option Text → Prop where
  | said {front back : List (Text × Text)} {key value : Text} :
      pairs = front ++ (key, value) :: back → fits key → (∀ pair ∈ back, ¬ fits pair.1) →
      LastWord fits pairs (some value)
  | unsaid : (∀ pair ∈ pairs, ¬ fits pair.1) → LastWord fits pairs none

/-- The names are all those that were added, each once, in the order in which each was first
added. -/
structure InFirstOrder (added names : List Text) : Prop where
  nodup : names.Nodup
  mem_iff : ∀ name, name ∈ names ↔ name ∈ added
  order : names.Pairwise fun a b => added.idxOf a < added.idxOf b

section

variable {added names : List Text} {pairs : List (Text × Text)} {key : Text} {value : Option Text}

/-- The look-up in the pairs from the last one on gives the last word on a key. -/
theorem lastWord_lookup (pairs : List (Text × Text)) (key : Text) :
    LastWord (· = key) pairs (pairs.reverse.lookup key) := by
  cases hlookup : pairs.reverse.lookup key with
  | none =>
      refine .unsaid fun pair hpair hkey => ?_
      have h := List.lookup_eq_none_iff.mp hlookup pair (List.mem_reverse.mpr hpair)
      exact bne_iff_ne.mp h hkey.symm
  | some value =>
      obtain ⟨back, front, hsplit, hback⟩ := List.lookup_eq_some_iff.mp hlookup
      have hpairs : pairs = front.reverse ++ (key, value) :: back.reverse := by
        rw [← List.reverse_reverse pairs, hsplit]
        simp
      refine .said hpairs rfl fun pair hpair hkey => ?_
      exact bne_iff_ne.mp (hback pair (List.mem_reverse.mp hpair)) hkey.symm

/-- Where the keys are changed before they are compared, the last key that fits after the change
counts. -/
theorem LastWord.of_map {change : Text → Text}
    (h : LastWord (· = key) (pairs.map fun pair => (change pair.1, pair.2)) value) :
    LastWord (fun k => change k = key) pairs value := by
  cases h with
  | said hsplit hkey hback =>
      obtain ⟨front, _, rfl, -, hrest⟩ := List.map_eq_append_iff.mp hsplit
      obtain ⟨⟨k, v⟩, back, rfl, hpair, rfl⟩ := List.map_eq_cons_iff.mp hrest
      cases hpair
      exact .said rfl hkey fun pair hpair => hback _ (List.mem_map_of_mem hpair)
  | unsaid hnone => exact .unsaid fun pair hpair => hnone _ (List.mem_map_of_mem hpair)

/-- A name that is added goes to the end unless it is there already. -/
theorem InFirstOrder.concat (h : InFirstOrder added names) (name : Text) :
    InFirstOrder (added ++ [name]) (if name ∈ names then names else names ++ [name]) := by
  -- Names that were added before keep their places.
  have hplace {a : Text} (ha : a ∈ names) : (added ++ [name]).idxOf a = added.idxOf a :=
    List.idxOf_append_of_mem ((h.mem_iff a).mp ha)
  have horder : names.Pairwise fun a b =>
      (added ++ [name]).idxOf a < (added ++ [name]).idxOf b := by
    refine h.order.imp_of_mem fun {a b} ha hb hab => ?_
    rwa [hplace ha, hplace hb]
  split
  · next hname =>
    refine ⟨h.nodup, fun a => ?_, horder⟩
    rw [List.mem_append, List.mem_singleton, h.mem_iff]
    exact ⟨Or.inl, fun ha => ha.elim id fun ha => ha ▸ (h.mem_iff name).mp hname⟩
  · next hname =>
    have hadded : name ∉ added := mt (h.mem_iff name).mpr hname
    refine ⟨List.nodup_append.mpr ⟨h.nodup, List.nodup_singleton name, ?_⟩, fun a => ?_, ?_⟩
    · rintro a ha b hb rfl
      exact hname (List.mem_singleton.mp hb ▸ ha)
    · rw [List.mem_append, List.mem_append, h.mem_iff]
    · refine List.pairwise_append.mpr ⟨horder, List.pairwise_singleton _ _, fun a ha b hb => ?_⟩
      rw [List.mem_singleton.mp hb, hplace ha, List.idxOf_append_of_notMem hadded]
      have hlt := List.idxOf_lt_length_iff.mpr ((h.mem_iff a).mp ha)
      omega

end

namespace Table

variable {pairs : List (Text × Text)}

/-- Pairs are put into a table one after the other, so more of them are put in behind the others. -/
theorem putAll_append (t : Table) (pairs more : List (Text × Text)) :
    t.putAll (pairs ++ more) = (t.putAll pairs).putAll more :=
  List.foldl_append

/-- A table that is filled with pairs has their keys in order. -/
theorem inFirstOrder_keys_putAll (pairs : List (Text × Text)) :
    InFirstOrder (pairs.map Prod.fst) (empty.putAll pairs).keys := by
  induction pairs using List.reverseRecOn with
  | nil => exact ⟨List.nodup_nil, fun name => Iff.rfl, .nil⟩
  | append_singleton pairs pair ih =>
      have hstep : empty.putAll (pairs ++ [pair]) = (empty.putAll pairs).put pair.1 pair.2 :=
        putAll_append empty pairs [pair]
      rw [hstep, keys_put, List.map_append]
      exact ih.concat pair.1

/-- A table that pairs are put into has the last word on each key. -/
theorem lastWord_get?_putAll (pairs : List (Text × Text)) (key : Text) :
    LastWord (· = key) pairs ((empty.putAll pairs).get? key) := by
  have h := lastWord_lookup pairs key
  rwa [get?_putAll, show empty.get? key = none from rfl, Option.or_none]

/-- In a table that is filled with pairs, every entry has the value of the last one for it. -/
theorem lastWord_of_mem_putAll {entry : Text × Text} (h : entry ∈ (empty.putAll pairs).entries) :
    LastWord (· = entry.1) pairs (some entry.2) := by
  have hfound : (empty.putAll pairs).get? entry.1 = some entry.2 :=
    lookup_of_mem (inFirstOrder_keys_putAll pairs).nodup h
  exact hfound ▸ lastWord_get?_putAll pairs entry.1

end Table

namespace Context

/-- The tables of a context that pairs are added to. -/
inductive Store where
  | registers
  | replacements
  | defines
  deriving DecidableEq

namespace Store

/-- The key under which a table keeps the value for a key. -/
def key : Store → Text → Text
  | .registers, k => Text.lower k
  | .replacements, k => k
  | .defines, k => k

/-- The pairs as a table keeps them. -/
def keyed (store : Store) (pairs : List (Text × Text)) : List (Text × Text) :=
  pairs.map fun pair => (store.key pair.1, pair.2)

/-- The table of the context that is meant. -/
def table : Store → Context → Table
  | .registers, c => c.registers
  | .replacements, c => c.replacements
  | .defines, c => c.defines

end Store

/-- Pairs that are added to one of the tables. -/
structure Addition where
  store : Store
  pairs : List (Text × Text)

/-- The context with the pairs in the table that they are for. -/
def add (c : Context) (addition : Addition) : Context :=
  match addition.store with
  | .registers => c.addRegisters addition.pairs
  | .replacements => c.addReplacements addition.pairs
  | .defines => c.addDefines addition.pairs

/-- An empty context with some additions, one after the other. -/
def ofAdditions (additions : List Addition) : Context := additions.foldl add empty

/-- All the pairs for one table, in the order in which they are added. -/
def pairsFor (store : Store) (additions : List Addition) : List (Text × Text) :=
  additions.flatMap fun addition => if addition.store = store then addition.pairs else []

section

/-- Pairs in a row get their keys one by one. -/
theorem Store.keyed_append (store : Store) (pairs more : List (Text × Text)) :
    store.keyed (pairs ++ more) = store.keyed pairs ++ store.keyed more :=
  List.map_append

/-- Replacements are kept under the keys that they are given with. -/
theorem Store.keyed_replacements (pairs : List (Text × Text)) :
    keyed .replacements pairs = pairs := List.map_id pairs

/-- Defined symbols are kept under the keys that they are given with. -/
theorem Store.keyed_defines (pairs : List (Text × Text)) : keyed .defines pairs = pairs :=
  List.map_id pairs

/-- An addition changes its own table only. -/
theorem table_add (c : Context) (addition : Addition) (store : Store) :
    store.table (c.add addition)
      = (store.table c).putAll
          (store.keyed (if addition.store = store then addition.pairs else [])) := by
  obtain ⟨own, pairs⟩ := addition
  by_cases hown : own = store
  · subst hown
    rw [if_pos rfl]
    cases own with
    | registers => rfl
    | replacements => rw [Store.keyed_replacements]; rfl
    | defines => rw [Store.keyed_defines]; rfl
  · rw [if_neg hown]
    cases own <;> cases store <;> first | rfl | exact absurd rfl hown

/-- A table holds the pairs for it, whatever is added to the others. -/
theorem table_foldl_add (c : Context) (additions : List Addition) (store : Store) :
    store.table (additions.foldl add c)
      = (store.table c).putAll (store.keyed (pairsFor store additions)) := by
  induction additions generalizing c with
  | nil => rfl
  | cons addition additions ih =>
      rw [List.foldl_cons, ih, table_add, ← Table.putAll_append, ← Store.keyed_append, pairsFor,
        pairsFor, List.flatMap_cons]

/-- A table of the context is what the pairs for it make of an empty one. What is added to other
tables does not matter to it. -/
theorem table_ofAdditions (additions : List Addition) (store : Store) :
    store.table (ofAdditions additions)
      = Table.empty.putAll (store.keyed (pairsFor store additions)) := by
  rw [ofAdditions, table_foldl_add]
  cases store <;> rfl

end

/-- Whatever is added to a context and in whichever order, the last pair counts: for a bit the last
one with its name in any letter case, for a name the last one with just this name. The symbols to
define are in the order in which they were first added, each with the value that was added last. -/
theorem lastWord_ofAdditions (additions : List Addition) :
    (∀ register bit, LastWord (fun key => Text.lower key = Text.lower (register ++ '.' :: bit))
      (pairsFor .registers additions) ((ofAdditions additions).register? register bit)) ∧
    (∀ name, LastWord (· = name) (pairsFor .replacements additions)
      ((ofAdditions additions).replacement? name)) ∧
    InFirstOrder ((pairsFor .defines additions).map Prod.fst)
      (ofAdditions additions).defines.keys ∧
    ∀ entry ∈ (ofAdditions additions).defines.entries,
      LastWord (· = entry.1) (pairsFor .defines additions) (some entry.2) := by
  have hregisters := table_ofAdditions additions .registers
  have hreplacements := table_ofAdditions additions .replacements
  have hdefines := table_ofAdditions additions .defines
  rw [Store.keyed_replacements] at hreplacements
  rw [Store.keyed_defines] at hdefines
  -- Each table is what the pairs for it make of an empty one, whatever was added in between.
  refine ⟨fun register bit => ?_, fun name => ?_, ?_, fun entry hentry => ?_⟩
  · have h := Table.lastWord_get?_putAll (Store.registers.keyed (pairsFor .registers additions))
      (Text.lower (register ++ '.' :: bit))
    rw [← hregisters] at h
    exact h.of_map
  · have h := Table.lastWord_get?_putAll (pairsFor .replacements additions) name
    rwa [← hreplacements] at h
  · have h := Table.inFirstOrder_keys_putAll (pairsFor .defines additions)
    rwa [← hdefines] at h
  · have h : entry ∈ (Store.defines.table (ofAdditions additions)).entries := hentry
    rw [hdefines] at h
    exact Table.lastWord_of_mem_putAll h

/-- Bits in two letter cases, a name in another one, and a symbol that is defined again. -/
theorem lastWord_ofAdditions_mixed :
    let additions : List Addition := [⟨.registers, [("STATUS.C".toList, "CARRY".toList)]⟩,
      ⟨.defines, [("A".toList, "1".toList), ("B".toList, "2".toList)]⟩,
      ⟨.replacements, [("FSR".toList, "FSR0".toList)]⟩,
      ⟨.registers, [("status.c".toList, "C".toList)]⟩, ⟨.defines, [("A".toList, "3".toList)]⟩]
    (ofAdditions additions).register? "Status".toList "C".toList = some "C".toList ∧
    (ofAdditions additions).replacement? "fsr".toList = none ∧
    (ofAdditions additions).defines.keys = ["A".toList, "B".toList] ∧
    LastWord (· = "A".toList) (pairsFor .defines additions) (some "3".toList) := by
  intro additions
  obtain ⟨-, -, -, hentries⟩ := lastWord_ofAdditions additions
  refine ⟨by decide +kernel, by decide +kernel, by decide +kernel,
    hentries ("A".toList, "3".toList) (by decide +kernel)⟩

end Context

end PicAssembly
