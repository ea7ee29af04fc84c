import Mathlib.Data.List.Forall2
import PicAssembly.Device.Description
import PicAssembly.Proofs.Text.Edges
import PicAssembly.Proofs.Text.Numerals
import PicAssembly.Proofs.Token.Spelling

/-!
# `PicAssembly.Proofs.Device.Records`: the parts of a record

A record has a name, an address and some decimal numbers between commas, with blanks around them
and perhaps more parts behind them (`Device.WritesRecord`). It is spoiled if it has too few parts,
or if one of its numbers has no digit or does not fit in 64 bits (`Device.SpoilsRecord`).

How many numbers there are is a parameter, so registers and fields have the same lemmas:
`Device.exists_parts_of_writesRecord` and `Device.parts_of_spoilsRecord` say what the reader
makes of the parts. What it makes of the record then is one case for each kind.
-/

set_option autoImplicit false

namespace PicAssembly

/-- No digit is blank. -/
theorem Numeral.isBlank_of_digit? {base : Nat} {c : Char} (hc : (digit? base c).isSome) :
    Text.isBlank c = false := by
  have hall : ∀ n : Fin 128, '0' ≤ Char.ofNat n ∧ Char.ofNat n ≤ '9' ∨
      'a' ≤ Char.ofNat n ∧ Char.ofNat n ≤ 'f' ∨ 'A' ≤ Char.ofNat n ∧ Char.ofNat n ≤ 'F' →
        Text.isBlank (Char.ofNat n) = false := by decide +kernel
  exact Token.forall_ascii (P := fun c => '0' ≤ c ∧ c ≤ '9' ∨ 'a' ≤ c ∧ c ≤ 'f' ∨
    'A' ≤ c ∧ c ≤ 'F' → Text.isBlank c = false) hall (toNat_lt_of_digit? hc) (range_of_digit? hc)

namespace Device

open Numeral (Spells digit? limit)

/-! ### Numbers -/

/-- What may stand before the digits of an address. -/
def addressMarks : List Text := [[], ['0', 'x'], ['0', 'X']]

/-- A piece of a record is a part of it with blanks around. -/
def Pads (part piece : Text) : Prop :=
  ∃ before after, piece = before ++ part ++ after ∧ (∀ c ∈ before, Text.isBlank c) ∧
    ∀ c ∈ after, Text.isBlank c

/-- The piece is a number, with one of some marks before its digits. -/
def WritesNumber (marks : List Text) (base n : Nat) (piece : Text) : Prop :=
  ∃ mark ∈ marks, ∃ digits, Pads (mark ++ digits) piece ∧ Spells base digits n

/-- The piece cannot be read as a number: there is no digit behind the mark, or the number does
not fit in 64 bits. -/
def SpoilsNumber (marks : List Text) (base : Nat) (piece : Text) : Prop :=
  ∃ mark ∈ marks, ∃ digits, Pads (mark ++ digits) piece ∧
    ((∀ c ∈ digits, digit? base c = none) ∨ ∃ n, Spells base digits n ∧ limit ≤ n)

section

variable {base n : Nat} {piece part mark digits : Text}

/-- The blanks around a part are lost when the piece is trimmed. -/
theorem Pads.trim_eq (h : Pads part piece) : Text.trim piece = Text.trim part := by
  obtain ⟨before, after, rfl, hbefore, hafter⟩ := h
  rw [Text.trim_append_of_isBlank hafter, Text.trim_append_left_of_isBlank hbefore]

/-- A part is a piece without blanks. -/
theorem pads_self (part : Text) : Pads part part :=
  ⟨[], [], by rw [List.nil_append, List.append_nil], by simp, by simp⟩

/-- A separator that is no blank stands in the part. -/
theorem Pads.not_mem (h : Pads part piece) {sep : Char} (hsep : Text.isBlank sep = false)
    (hpart : sep ∉ part) : sep ∉ piece := by
  obtain ⟨before, after, rfl, hbefore, hafter⟩ := h
  have hblank {blanks : Text} (hblanks : ∀ c ∈ blanks, Text.isBlank c) : sep ∉ blanks :=
    fun hmem => Bool.false_ne_true (hsep.symm.trans (hblanks sep hmem))
  simp [hblank hbefore, hblank hafter, hpart]

/-- Digits are no blanks, so nothing is trimmed off them. -/
theorem trimmed_of_isDigits (h : Numeral.IsDigits base digits) : Text.Trimmed digits :=
  ⟨fun c hc => Numeral.isBlank_of_digit? (h c (List.mem_of_mem_head? hc)),
    fun c hc => Numeral.isBlank_of_digit? (h c (List.mem_of_mem_getLast? hc))⟩

/-- The reader takes away the mark before the digits of a number. -/
structure Strips (marks : List Text) (base : Nat) (read : Text → Option Nat) : Prop where
  base_pos : 0 < base
  solid : ∀ mark ∈ marks, ∀ c ∈ mark, Text.isBlank c = false
  read_append : ∀ mark ∈ marks, ∀ t : Text, '0' ∉ t ∨ Numeral.IsDigits base t →
    read (mark ++ t) = Numeral.parse? base t

/-- The reader of plain numbers knows no mark but the empty one. -/
theorem strips_parse? (hbase : 0 < base) : Strips [[]] base (Numeral.parse? base) where
  base_pos := hbase
  solid := by simp
  read_append := by simp

/-- The reader of addresses takes either mark away, or reads the digits without one. -/
theorem strips_address? : Strips addressMarks 16 address? where
  base_pos := by decide
  solid := by
    have h : addressMarks.all fun mark => mark.all fun c => !Text.isBlank c := by decide
    simpa using h
  read_append := by
    intro mark hmark t ht
    -- Digits do not begin with a mark themselves.
    have hx (x : Char) (hx : digit? 16 x = none) : Text.dropFront? ['0', x] t = none := by
      refine Option.eq_none_iff_forall_ne_some.mpr fun rest hrest => ?_
      rw [Text.dropFront?_eq_some_iff.mp hrest] at ht
      rcases ht with hzero | hdigits
      · exact hzero List.mem_cons_self
      · have hsome := hdigits x (List.mem_cons_of_mem _ List.mem_cons_self)
        rw [hx] at hsome
        cases hsome
    simp only [addressMarks, List.mem_cons, List.not_mem_nil, or_false] at hmark
    rcases hmark with rfl | rfl | rfl
    · rw [List.nil_append, address?, hx 'x' rfl, hx 'X' rfl]
      rfl
    · rfl
    · rfl

variable {marks : List Text} {read : Text → Option Nat}

/-- A number that is written is read, if it fits in 64 bits. -/
theorem Strips.read_of_writes (h : Strips marks base read)
    (hpiece : WritesNumber marks base n piece) :
    read (Text.trim piece) = if n < limit then some n else none := by
  obtain ⟨mark, hmark, digits, hpads, hspells⟩ := hpiece
  obtain ⟨u, -, hu, htrim⟩ := Text.exists_trim_append (h.solid mark hmark) digits
  rw [hpads.trim_eq, htrim, hu (trimmed_of_isDigits hspells.isDigits),
    h.read_append mark hmark digits (.inr hspells.isDigits), Numeral.parse?_of_spells hspells]

/-- A number that is spoilt is not read: there are no digits, or their value does not fit in 64
bits. -/
theorem Strips.read_of_spoils (h : Strips marks base read)
    (hpiece : SpoilsNumber marks base piece) :
    read (Text.trim piece) = none := by
  obtain ⟨mark, hmark, digits, hpads, hnone | ⟨n, hspells, hn⟩⟩ := hpiece
  · obtain ⟨u, hu, -, htrim⟩ := Text.exists_trim_append (h.solid mark hmark) digits
    have hzero : '0' ∉ u := fun hmem =>
      Option.some_ne_none 0 ((Numeral.digit?_zero h.base_pos).symm.trans (hnone '0' (hu hmem)))
    rw [hpads.trim_eq, htrim, h.read_append mark hmark u (.inl hzero)]
    exact Numeral.parse?_eq_none fun c hc => hnone c (hu hc)
  · rw [h.read_of_writes ⟨mark, hmark, digits, hpads, hspells⟩, if_neg (Nat.not_lt_of_le hn)]

end

/-! ### Records -/

/-- The record of a name, an address and some decimal numbers, perhaps with more parts. -/
def WritesRecord (name : Text) (address : Nat) (numbers : List Nat) (record : Text) : Prop :=
  ∃ first second others more, record = Text.join [','] (first :: second :: others ++ more) ∧
    Pads name first ∧ WritesNumber addressMarks 16 address second ∧
    List.Forall₂ (WritesNumber [[]] 10) numbers others

/-- A record that is to have some decimal numbers behind its name and its address has too few
parts, or one of the numbers cannot be read. -/
def SpoilsRecord (count : Nat) (record : Text) : Prop :=
  ∃ pieces, record = Text.join [','] pieces ∧ (∀ piece ∈ pieces, ',' ∉ piece) ∧
    (pieces.length < count + 2 ∨
      ∃ first second others more, pieces = first :: second :: others ++ more ∧
        others.length = count ∧
        (SpoilsNumber addressMarks 16 second ∨ ∃ piece ∈ others, SpoilsNumber [[]] 10 piece))

section

variable {name record : Text} {address count : Nat} {numbers : List Nat}

/-- A number is written without commas, so it stays one part of its record. -/
theorem comma_not_mem_of_writesNumber {marks : List Text} {base n : Nat} {piece : Text}
    (hmarks : ∀ mark ∈ marks, ',' ∉ mark) (h : WritesNumber marks base n piece) :
    ',' ∉ piece := by
  obtain ⟨mark, hmark, digits, hpads, hspells⟩ := h
  refine hpads.not_mem (by decide) fun hmem => ?_
  rcases List.mem_append.mp hmem with hmem | hmem
  · exact hmarks mark hmark hmem
  · exact Bool.false_ne_true (hspells.isDigits ',' hmem)

/-- Numbers are written without commas, so the record has one part for each. -/
theorem comma_not_mem_of_forall₂ {base : Nat} {others : List Text}
    (h : List.Forall₂ (WritesNumber [[]] base) numbers others) : ∀ piece ∈ others, ',' ∉ piece := by
  induction h with
  | nil => simp
  | cons hn _ ih =>
      exact List.forall_mem_cons.mpr ⟨comma_not_mem_of_writesNumber (by decide) hn, ih⟩

/-- The parts of a record are its name and its numbers, as they are read. -/
theorem exists_parts_of_writesRecord (h : WritesRecord name address numbers record)
    (hname : Text.Trimmed name) (hcomma : ',' ∉ name) (haddress : address < limit)
    (hnumbers : ∀ n ∈ numbers, n < limit) :
    ∃ second others more, parts record = name :: second :: others ++ more ∧
      address? second = some address ∧
      List.Forall₂ (fun n part => Numeral.parse? 10 part = some n) numbers others := by
  obtain ⟨first, second, others, more, rfl, hfirst, hsecond, hothers⟩ := h
  -- No piece holds a comma, so the record is split where its pieces end.
  have hfree : ∀ piece ∈ first :: second :: others, ',' ∉ piece := by
    refine List.forall_mem_cons.mpr ⟨hfirst.not_mem (by decide) hcomma, List.forall_mem_cons.mpr
      ⟨comma_not_mem_of_writesNumber (by decide) hsecond, ?_⟩⟩
    exact comma_not_mem_of_forall₂ hothers
  obtain ⟨tail, htail⟩ := Text.exists_splitAt_join_append (List.cons_ne_nil _ _) hfree more
  refine ⟨Text.trim second, others.map Text.trim, tail.map Text.trim, ?_, ?_, ?_⟩
  · rw [parts, htail, List.map_append, List.map_cons, List.map_cons, hfirst.trim_eq,
      Text.trim_eq_self hname]
  · rw [strips_address?.read_of_writes hsecond, if_pos haddress]
  · refine List.forall₂_map_right_iff.mpr ?_
    refine ((List.forall₂_and_left _ _).mpr ⟨hnumbers, hothers⟩).imp fun n piece h => ?_
    rw [(strips_parse? (by decide)).read_of_writes h.2, if_pos h.1]

/-- A spoiled record has too few parts, or one of its numbers is not read. -/
theorem parts_of_spoilsRecord (h : SpoilsRecord count record) :
    (parts record).length < count + 2 ∨
      ∃ name second others more, parts record = name :: second :: others ++ more ∧
        others.length = count ∧
        (address? second = none ∨ ∃ part ∈ others, Numeral.parse? 10 part = none) := by
  obtain ⟨pieces, rfl, hfree, hfew | ⟨first, second, others, more, rfl, hcount, hbad⟩⟩ := h
  · left
    cases pieces with
    | nil => exact Nat.succ_lt_succ (Nat.succ_pos count)
    | cons piece pieces =>
        rwa [parts, Text.splitAt_join (List.cons_ne_nil _ _) hfree, List.length_map]
  · right
    refine ⟨Text.trim first, Text.trim second, others.map Text.trim, more.map Text.trim, ?_, ?_, ?_⟩
    -- The pieces are the parts, but for blanks, and the one that is spoilt stays so.
    · rw [parts, Text.splitAt_join (by simp) hfree, List.map_append, List.map_cons, List.map_cons]
    · rw [List.length_map, hcount]
    · refine hbad.imp strips_address?.read_of_spoils ?_
      rintro ⟨piece, hpiece, hspoils⟩
      exact ⟨Text.trim piece, List.mem_map_of_mem hpiece,
        (strips_parse? (by decide)).read_of_spoils hspoils⟩

end

end Device

end PicAssembly
