import Mathlib.Data.List.TakeWhile
import Mathlib.Data.Nat.Digits.Defs
import PicAssembly.Text.Numeral

/-!
# `PicAssembly.Proofs.Text.Numerals`: digits and what they are worth

The value of some digits is the sum over their places (`Numeral.positional`). Reading and writing
go through the digits in one direction each, and neither of them knows places:

* `Numeral.leadingValue_eq`: the reader gives the value of the longest run of digits at the
  beginning, whatever comes behind it.
* `Numeral.leadingWord?_eq`: to give up at the first digit that leaves 64 bits is to give up just
  if the value does not fit. No digit takes anything away, so what is too large stays too large.
* `Numeral.parse?_of_spells`: a text that is digits is read as its value, if that fits.
* `Numeral.positional_write`: what is written for a magnitude has its value.
-/

set_option autoImplicit false

namespace PicAssembly.Numeral

variable {base : Nat}

/-- Every character is a digit of the base. -/
def IsDigits (base : Nat) (t : Text) : Prop := ∀ c ∈ t, (digit? base c).isSome

instance (base : Nat) : DecidablePred (IsDigits base) := fun t =>
  decidable_of_iff (t.all fun c => (digit? base c).isSome) List.all_eq_true

/-- The longest run of digits of the base at the beginning of a text. -/
def leadingDigits (base : Nat) (t : Text) : Text := t.takeWhile fun c => (digit? base c).isSome

/-- The value of the digits in a text by their places. The last digit counts ones. -/
def positional (base : Nat) (t : Text) : Nat :=
  Nat.ofDigits base (t.filterMap (digit? base)).reverse

/-- There are three ranges of digits, whatever the base. -/
theorem range_of_digit? {c : Char} (hc : (digit? base c).isSome) :
    '0' ≤ c ∧ c ≤ '9' ∨ 'a' ≤ c ∧ c ≤ 'f' ∨ 'A' ≤ c ∧ c ≤ 'F' := by
  obtain ⟨d, hd⟩ := Option.isSome_iff_exists.mp hc
  rw [digit?, Option.filter_eq_some_iff] at hd
  split at hd
  · next hrange => exact .inl hrange
  · split at hd
    · next hrange => exact .inr (.inl hrange)
    · split at hd
      · next hrange => exact .inr (.inr hrange)
      · cases hd.1

/-- Digits are ASCII characters. -/
theorem toNat_lt_of_digit? {c : Char} (hc : (digit? base c).isSome) : c.toNat < 128 := by
  have hbound {last : Char} (hlast : last.toNat < 128) (hle : c ≤ last) : c.toNat < 128 :=
    Nat.lt_of_le_of_lt hle hlast
  rcases range_of_digit? hc with hrange | hrange | hrange
  · exact hbound (by decide) hrange.2
  · exact hbound (by decide) hrange.2
  · exact hbound (by decide) hrange.2

/-- Zero is a digit of every base. -/
theorem digit?_zero (hbase : 0 < base) : digit? base '0' = some 0 := by
  rw [digit?, Option.filter_eq_some_iff]
  exact ⟨rfl, decide_eq_true hbase⟩

/-- A plus sign is no digit, so the sign that the library accepts in front of a number spells
none. -/
theorem digit?_plus (base : Nat) : digit? base '+' = none := rfl

/-- In a text of digits the leading digits are all of them. -/
theorem leadingDigits_eq_self {t : Text} (h : IsDigits base t) : leadingDigits base t = t :=
  List.takeWhile_eq_self_iff.mpr h

/-- A digit put behind others makes room for itself. -/
theorem positional_concat {c : Char} {d : Nat} (hc : digit? base c = some d) (t : Text) :
    positional base (t ++ [c]) = positional base t * base + d := by
  rw [positional, List.filterMap_append, List.filterMap_cons_some hc, List.filterMap_nil,
    List.reverse_append, List.reverse_singleton, List.singleton_append, Nat.ofDigits_cons,
    ← positional, Nat.mul_comm, Nat.add_comm]

/-- What is no digit adds nothing behind others. -/
theorem positional_concat_of_none {c : Char} (hc : digit? base c = none) (t : Text) :
    positional base (t ++ [c]) = positional base t := by
  rw [positional, List.filterMap_append, List.filterMap_cons_none hc, List.filterMap_nil,
    List.append_nil, ← positional]

/-- A zero in front of others adds nothing. -/
theorem positional_zero_cons (hbase : 0 < base) (t : Text) :
    positional base ('0' :: t) = positional base t := by
  rw [positional, List.filterMap_cons_some (digit?_zero hbase), List.reverse_cons,
    Nat.ofDigits_append, Nat.ofDigits_singleton, Nat.mul_zero, Nat.add_zero, ← positional]

/-! ### Reading -/

/-- What was read before is moved up by as many places as there are digits to come. -/
theorem leadingValue_go_eq (t : Text) (n : Nat) :
    leadingValue.go base n t
      = n * base ^ ((leadingDigits base t).filterMap (digit? base)).length
        + positional base (leadingDigits base t) := by
  induction t generalizing n with
  | nil => simp [leadingValue.go, leadingDigits, positional]
  | cons c cs ih =>
      rw [leadingValue.go]
      cases hc : digit? base c with
      | none => simp [leadingDigits, positional, hc]
      | some d =>
          have hfront : leadingDigits base (c :: cs) = c :: leadingDigits base cs := by
            simp [leadingDigits, hc]
          show leadingValue.go base (n * base + d) cs = _
          rw [ih, hfront, positional, positional, List.filterMap_cons_some hc,
            List.reverse_cons, Nat.ofDigits_append, Nat.ofDigits_singleton, List.length_reverse,
            List.length_cons, Nat.pow_succ]
          ring

/-- The value of the leading digits is the one by their places. -/
theorem leadingValue_eq (base : Nat) (t : Text) :
    leadingValue base t = positional base (leadingDigits base t) := by
  rw [leadingValue, leadingValue_go_eq, Nat.zero_mul, Nat.zero_add]

/-! ### Reading within 64 bits -/

/-- The check before the product and the one before the sum come to one: the new magnitude fits. -/
theorem pushDigit?_eq (base n d : Nat) :
    pushDigit? base n d = if n * base + d < limit then some (n * base + d) else none := by
  rw [pushDigit?, word?]
  by_cases hroom : n * base < limit
  · rw [if_pos hroom]
    rfl
  · have hsum : ¬ n * base + d < limit := by omega
    rw [if_neg hroom, if_neg hsum]
    rfl

/-- There is no digit in the base zero. -/
theorem pos_of_digit? {c : Char} {d : Nat} (hc : digit? base c = some d) : 0 < base := by
  have hd : d < base := by
    rw [digit?, Option.filter_eq_some_iff] at hc
    exact of_decide_eq_true hc.2
  omega

/-- The value read so far never gets smaller. -/
theorem le_leadingValue_go (t : Text) (n : Nat) : n ≤ leadingValue.go base n t := by
  induction t generalizing n with
  | nil => exact Nat.le_refl n
  | cons c cs ih =>
      rw [leadingValue.go]
      cases hc : digit? base c with
      | none => exact Nat.le_refl n
      | some d =>
          have hpush : n ≤ n * base + d := by
            have hplace : n ≤ n * base := Nat.le_mul_of_pos_right n (pos_of_digit? hc)
            omega
          exact Nat.le_trans hpush (ih (n * base + d))

/-- With a value that fits, the reader fails just if the value at its end does not fit. By
`le_leadingValue_go` a value that has grown too large stays so. -/
theorem leadingWord?_go_eq (t : Text) {n : Nat} (hn : n < limit) :
    leadingWord?.go base n t
      = if leadingValue.go base n t < limit then some (leadingValue.go base n t) else none := by
  induction t generalizing n with
  | nil => exact (if_pos hn).symm
  | cons c cs ih =>
      rw [leadingWord?.go, leadingValue.go]
      cases hc : digit? base c with
      | none => exact (if_pos hn).symm
      | some d =>
          show (pushDigit? base n d).bind (leadingWord?.go base · cs) = _
          rw [pushDigit?_eq]
          by_cases hpush : n * base + d < limit
          · rw [if_pos hpush, Option.bind_some, ih hpush]
          · -- The reader stops here, and the value of all digits is no smaller.
            have hle : n * base + d ≤ leadingValue.go base (n * base + d) cs :=
              le_leadingValue_go cs (n * base + d)
            have hlarge : ¬ leadingValue.go base (n * base + d) cs < limit := by omega
            rw [if_neg hpush, Option.bind_none, if_neg hlarge]

/-- The reader within 64 bits is the reader without a bound, with the bound checked at its end. -/
theorem leadingWord?_eq (base : Nat) (t : Text) :
    leadingWord? base t
      = if leadingValue base t < limit then some (leadingValue base t) else none :=
  leadingWord?_go_eq t (by decide)

/-- At least one digit, and what the digits are worth. Letters are in either case, and zeros may
come first. -/
structure Spells (base : Nat) (digits : Text) (n : Nat) : Prop where
  ne_nil : digits ≠ []
  isDigits : IsDigits base digits
  value : positional base digits = n

instance (base : Nat) (digits : Text) (n : Nat) : Decidable (Spells base digits n) :=
  decidable_of_iff (digits ≠ [] ∧ IsDigits base digits ∧ positional base digits = n)
    ⟨fun h => ⟨h.1, h.2.1, h.2.2⟩, fun h => ⟨h.ne_nil, h.isDigits, h.value⟩⟩

/-- Digits are read as what they are worth, if that fits. -/
theorem parse?_of_spells {digits : Text} {n : Nat} (h : Spells base digits n) :
    parse? base digits = if n < limit then some n else none := by
  obtain ⟨c, cs, rfl⟩ := List.exists_cons_of_ne_nil h.ne_nil
  have hc : '+' ≠ c := by
    rintro rfl
    exact absurd (h.isDigits _ List.mem_cons_self) (by simp [digit?_plus])
  have hsign : (Text.dropFront? ['+'] (c :: cs)).getD (c :: cs) = c :: cs := by
    rw [Text.dropFront?, if_neg hc, Option.getD_none]
  have hnone : ((c :: cs).any fun d => (digit? base d).isNone) = false := by
    rw [List.any_eq_false]
    intro d hd
    have hdigit := h.isDigits d hd
    simp [Option.isNone_iff_eq_none, Option.isSome_iff_ne_none.mp hdigit]
  rw [parse?]
  rw [hsign, hnone, leadingValue_eq, leadingDigits_eq_self h.isDigits, h.value]
  simp [Option.filter]

/-- Without a digit there is no number. -/
theorem parse?_eq_none {t : Text} (h : ∀ c ∈ t, digit? base c = none) : parse? base t = none := by
  have hsubset : (Text.dropFront? ['+'] t).getD t ⊆ t := by
    cases hdrop : Text.dropFront? ['+'] t with
    | none => exact List.Subset.refl t
    | some rest =>
        rw [Text.dropFront?_eq_some_iff.mp hdrop]
        exact List.subset_cons_self '+' rest
  rw [parse?]
  generalize (Text.dropFront? ['+'] t).getD t = u at hsubset
  cases u with
  | nil => rfl
  | cons c cs =>
      have hc := h c (hsubset List.mem_cons_self)
      simp [hc]

/-! ### Writing -/

/-- The character for a digit is read back as that digit, in upper case too. -/
theorem digit?_toUpper_digitChar {d : Nat} (hd : d < base) (hbase : base ≤ 16) :
    digit? base (Nat.digitChar d).toUpper = some d := by
  have hall : ∀ base : Fin 17, ∀ d : Fin 16, d.val < base.val →
      digit? base (Nat.digitChar d).toUpper = some d.val := by decide +kernel
  exact hall ⟨base, by omega⟩ ⟨d, by omega⟩ hd

/-- The library writes a number with the characters for digits of the base. -/
theorem mem_toDigits {n : Nat} (hbase : 1 < base) {c : Char} (hc : c ∈ Nat.toDigits base n) :
    ∃ d < base, c = Nat.digitChar d := by
  induction n using Nat.strongRecOn with
  | ind n ih =>
      rw [Nat.toDigits_eq_if hbase] at hc
      split at hc
      · next hn => exact ⟨n, hn, List.mem_singleton.mp hc⟩
      · next hn =>
        rcases List.mem_append.mp hc with hc | hc
        · exact ih (n / base) (Nat.div_lt_self (by omega) hbase) hc
        · exact ⟨n % base, Nat.mod_lt n (by omega), List.mem_singleton.mp hc⟩

/-- The program writes a number with those characters in upper case. -/
theorem mem_write {n : Nat} (hbase : 1 < base) {c : Char} (hc : c ∈ write base n) :
    ∃ d < base, c = (Nat.digitChar d).toUpper := by
  obtain ⟨digit, hdigit, hupper⟩ := List.mem_map.mp hc
  obtain ⟨d, hd, hchar⟩ := mem_toDigits hbase hdigit
  exact ⟨d, hd, by rw [← hupper, hchar]⟩

/-- What is written consists of digits of the base. -/
theorem isDigits_write (hbase : 1 < base) (hle : base ≤ 16) (n : Nat) :
    IsDigits base (write base n) := by
  intro c hc
  obtain ⟨d, hd, hchar⟩ := mem_write hbase hc
  rw [hchar, digit?_toUpper_digitChar hd hle]
  rfl

/-- A number is written with at least one digit. -/
theorem write_ne_nil (base n : Nat) : write base n ≠ [] := by
  rw [write]
  exact fun h => Nat.toDigits_ne_nil (List.map_eq_nil_iff.mp h)

/-- What is written has no lower-case letters. -/
theorem isLower_of_mem_write (hbase : 1 < base) (hle : base ≤ 16) {n : Nat} {c : Char}
    (hc : c ∈ write base n) : c.isLower = false := by
  have hall : ∀ d : Fin 16, (Nat.digitChar d).toUpper.isLower = false := by decide
  obtain ⟨d, hd, hchar⟩ := mem_write hbase hc
  rw [hchar]
  exact hall ⟨d, by omega⟩

/-- A number as it is written: at least one digit, and letters in upper case. -/
structure Written (base : Nat) (digits : Text) : Prop where
  ne_nil : digits ≠ []
  isDigits : IsDigits base digits
  isLower : ∀ c ∈ digits, c.isLower = false

/-- What is written has the form of a written number. -/
theorem written_write (hbase : 1 < base) (hle : base ≤ 16) (n : Nat) :
    Written base (write base n) where
  ne_nil := write_ne_nil base n
  isDigits := isDigits_write hbase hle n
  isLower := fun _ hc => isLower_of_mem_write hbase hle hc

/-- A number that is written is worth itself. -/
theorem positional_write (hbase : 1 < base) (hle : base ≤ 16) (n : Nat) :
    positional base (write base n) = n := by
  induction n using Nat.strongRecOn with
  | ind n ih =>
      rw [write, Nat.toDigits_eq_if hbase]
      split
      · next hn =>
        have hone := positional_concat (digit?_toUpper_digitChar hn hle) []
        rw [List.nil_append] at hone
        rw [List.map_singleton, hone]
        exact (congrArg (· + n) (Nat.zero_mul base)).trans (Nat.zero_add n)
      · next hn =>
        have hmod : n % base < base := Nat.mod_lt n (by omega)
        rw [List.map_append, List.map_singleton,
          positional_concat (digit?_toUpper_digitChar hmod hle), ← write,
          ih (n / base) (Nat.div_lt_self (by omega) hbase)]
        exact Nat.div_add_mod' n base

/-- A number that is written spells itself. -/
theorem spells_write (hbase : 1 < base) (hle : base ≤ 16) (n : Nat) :
    Spells base (write base n) n :=
  ⟨write_ne_nil base n, isDigits_write hbase hle n, positional_write hbase hle n⟩

/-- Decimal digits have no upper case. -/
theorem decimal_eq_write (n : Nat) : decimal n = write 10 n := by
  have hall : ∀ d : Fin 10, (Nat.digitChar d).toUpper = Nat.digitChar d := by decide
  have hsame : ∀ c ∈ Nat.toDigits 10 n, id c = c.toUpper := by
    intro c hc
    obtain ⟨d, hd, hchar⟩ := mem_toDigits (by decide) hc
    rw [hchar]
    exact (hall ⟨d, hd⟩).symm
  calc decimal n = (Nat.toDigits 10 n).map id := (List.map_id _).symm
    _ = write 10 n := List.map_congr_left hsame

end PicAssembly.Numeral
