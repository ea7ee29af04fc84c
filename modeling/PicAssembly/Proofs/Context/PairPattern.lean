import PicAssembly.PairFile
import PicAssembly.Proofs.Text.Edges
import PicAssembly.Proofs.Text.Pattern

/-!
# `PicAssembly.Proofs.Context.PairPattern`: what the pattern of a pair captures

A side of a pair is matched in front of an equals sign or the end of the line. The blanks before
it are skipped, since it begins with none, and the blanks behind it are left to the pattern behind
the group, since the group takes as little as it can. So it captures what is left of the side by
trimming (`PairFile.first?_side`).

* `PairFile.pair?_eq_some_iff`: a line holds a pair just if one equals sign is in it, with more
  than blanks on both sides of it, and the pair is of the two sides without their blanks.
-/

set_option autoImplicit false

namespace PicAssembly

namespace PairFile

open Pattern (first?_both first?_group first?_one_nil first?_one_cons first?_finish first?_many
  first?_few_nil first?_few_cons first?_some_eq_none_iff captures?_eq_first?)

/-- The line has one equals sign, and the sides of it make the pair. -/
inductive IsPair : Text → Text × Text → Prop where
  | sides {left right : Text} : '=' ∉ left → '=' ∉ right → Text.trim left ≠ [] →
      Text.trim right ≠ [] → IsPair (left ++ '=' :: right) (Text.trim left, Text.trim right)

variable {α : Type}

/-- Blanks in front of an equals sign, or at the end. -/
theorem dropWhile_append_of_stop {left rest : Text} (hrest : ∀ c ∈ rest.head?, c = '=') :
    (left ++ rest).dropWhile Text.isBlank = left.dropWhile Text.isBlank ++ rest := by
  rw [List.dropWhile_append]
  split
  · next hnil =>
    rw [List.isEmpty_iff.mp hnil, List.nil_append]
    cases rest with
    | nil => rfl
    | cons c cs =>
        have hc : c = '=' := hrest c rfl
        subst hc
        rfl
  · rfl

/-- What comes next is asked first with nothing taken, then with one character, and so on. It has
no answer as long as something that is not blank stands before the equals sign, and from then on
what was taken makes no difference for whether it has one. -/
theorem first?_few_side (next : List Text → Text → Text → Option α)
    (hstop : ∀ captured taken c cs, c ≠ '=' → next captured taken (c :: cs) = none)
    (hsame : ∀ captured taken taken' rest,
      next captured taken rest = none → next captured taken' rest = none)
    {left rest : Text} (hleft : '=' ∉ left) (hrest : ∀ c ∈ rest.head?, c = '=') :
    (Pattern.few (· != '=')).first? (left ++ rest)
        (fun way => next way.captured way.taken (way.rest.dropWhile Text.isBlank))
      = next [] (Text.trimEnd left) rest := by
  induction left generalizing next with
  | nil =>
      cases rest with
      | nil =>
          rw [List.append_nil, first?_few_nil]
          rfl
      | cons c cs =>
          have hc : c = '=' := hrest c rfl
          subst hc
          rw [List.nil_append, first?_few_cons, if_neg (by decide), Option.or_none]
          rfl
  | cons d left ih =>
      have hd : d ≠ '=' := fun h => hleft (h ▸ List.mem_cons_self)
      have hleft' : '=' ∉ left := fun h => hleft (List.mem_cons_of_mem d h)
      -- One character more is taken, so the rest is read with a `next` that puts it in front.
      have hmore := ih (fun captured taken => next captured (d :: taken))
        (fun captured taken => hstop captured (d :: taken))
        (fun captured taken taken' => hsame captured (d :: taken) (d :: taken')) hleft'
      rw [List.cons_append, first?_few_cons, if_pos (bne_iff_ne.mpr hd)]
      show (next [] [] ((d :: left ++ rest).dropWhile Text.isBlank)).or
          ((Pattern.few (· != '=')).first? (left ++ rest) fun way =>
            next way.captured (d :: way.taken) (way.rest.dropWhile Text.isBlank))
        = next [] (Text.trimEnd (d :: left)) rest
      rw [hmore, dropWhile_append_of_stop hrest]
      by_cases hblank : ∀ c ∈ d :: left, Text.isBlank c
      · rw [List.dropWhile_eq_nil_iff.mpr hblank, List.nil_append,
          Text.trimEnd_eq_nil_iff.mpr hblank]
        cases hnext : next [] [] rest with
        | none => rw [Option.none_or, hsame [] [] _ rest hnext]
        | some answer => rfl
      · -- The first of the characters that are not blank is no equals sign either.
        have hne : (d :: left).dropWhile Text.isBlank ≠ [] := fun hnil =>
          hblank (List.dropWhile_eq_nil_iff.mp hnil)
        obtain ⟨c, cs, hdrop⟩ := List.exists_cons_of_ne_nil hne
        have hc : c ≠ '=' := by
          intro h
          refine hleft ((List.dropWhile_subset Text.isBlank) ?_)
          rw [hdrop, h]
          exact List.mem_cons_self
        rw [hdrop, List.cons_append, hstop [] [] c _ hc, Option.none_or, Text.trimEnd_cons hblank]

/-- A side behind the blanks before it. -/
def sideBehind : Pattern :=
  .both (.group (.both (.one fun c => c != '=' && !Text.isBlank c) (.few (· != '=')))) <|
  .many Text.isBlank

/-- A text that begins with no blank is captured up to its last character that is none. -/
theorem first?_sideBehind (next : List Text → Text → Option α)
    (hstop : ∀ captured c cs, c ≠ '=' → next captured (c :: cs) = none)
    (hsame : ∀ captured captured' rest, next captured rest = none → next captured' rest = none)
    {t rest : Text} (ht : '=' ∉ t) (hhead : ∀ c, t.head? = some c → Text.isBlank c = false)
    (hrest : ∀ c ∈ rest.head?, c = '=') :
    sideBehind.first? (t ++ rest) (fun way => next way.captured way.rest)
      = if Text.trimEnd t = [] then none else next [Text.trimEnd t] rest := by
  have hequals {c : Char} (hc : Text.isBlank c) : c ≠ '=' := by
    rintro rfl
    exact absurd hc (by decide)
  -- What comes next does not begin with a blank, so the blanks behind the group are taken.
  have hbehind (captured : List Text) (t : Text) :
      (Pattern.many Text.isBlank).first? t
          (fun way => next (captured ++ way.captured) way.rest)
        = next captured (t.dropWhile Text.isBlank) := by
    rw [first?_many fun way c cs hc hway => by rw [hway]; exact hstop _ c cs (hequals hc)]
    show next (captured ++ []) _ = _
    rw [List.append_nil]
  rw [sideBehind, first?_both, first?_group, first?_both]
  cases t with
  | nil =>
      rw [List.nil_append, if_pos (show Text.trimEnd [] = [] from rfl)]
      cases rest with
      | nil => rfl
      | cons c cs =>
          have hc : c = '=' := hrest c rfl
          subst hc
          rfl
  | cons c u =>
      have hc : c ≠ '=' := fun h => ht (h ▸ List.mem_cons_self)
      have hu : '=' ∉ u := fun h => ht (List.mem_cons_of_mem c h)
      have hblank : Text.isBlank c = false := hhead c rfl
      have hsolid : ¬ ∀ d ∈ c :: u, Text.isBlank d := fun h =>
        Bool.false_ne_true (hblank.symm.trans (h c List.mem_cons_self))
      rw [List.cons_append, first?_one_cons, if_pos (by simp [hc, hblank]),
        Text.trimEnd_cons hsolid, if_neg (List.cons_ne_nil _ _)]
      show (Pattern.few (· != '=')).first? (u ++ rest) (fun way =>
          (Pattern.many Text.isBlank).first? way.rest fun way' =>
            next ((c :: way.taken) :: way.captured ++ way'.captured) way'.rest) = _
      simp only [hbehind]
      exact first?_few_side (fun captured taken rest => next ((c :: taken) :: captured) rest)
        (fun _ _ => hstop _) (fun _ _ _ => hsame _ _) hu hrest

/-- A side in front of an equals sign, or at the end, is captured without its blanks. -/
theorem first?_side (next : List Text → Text → Option α)
    (hstop : ∀ captured c cs, c ≠ '=' → next captured (c :: cs) = none)
    (hsame : ∀ captured captured' rest, next captured rest = none → next captured' rest = none)
    {left rest : Text} (hleft : '=' ∉ left) (hrest : ∀ c ∈ rest.head?, c = '=') :
    side.first? (left ++ rest) (fun way => next way.captured way.rest)
      = if Text.trim left = [] then none else next [Text.trim left] rest := by
  have hstart : '=' ∉ Text.trimStart left := fun h => hleft (List.dropWhile_subset _ h)
  show (Pattern.both (.many Text.isBlank) sideBehind).first? _ _ = _
  rw [first?_both, first?_many]
  · show sideBehind.first? ((left ++ rest).dropWhile Text.isBlank)
      (fun way => next ([] ++ way.captured) way.rest) = _
    rw [dropWhile_append_of_stop hrest]
    exact first?_sideBehind next hstop hsame hstart
      (fun c hc => Text.isBlank_of_head?_trimStart hc) hrest
  -- The first character that the group takes is no blank, so the blanks before it are taken.
  · intro way c cs hc hway
    show sideBehind.first? way.rest _ = none
    rw [hway, sideBehind, first?_both, first?_group, first?_both, first?_one_cons,
      if_neg (by simp [hc])]

/-- The pattern for what follows a side begins with an equals sign, or with the end. -/
theorem captures?_pattern {left rest : Text} (hleft : '=' ∉ left)
    (hrest : ∀ c ∈ rest.head?, c = '=') :
    pattern.captures? (left ++ rest) =
      if Text.trim left = [] then none
      else (Pattern.both (.one (· == '=')) (.both side .finish)).first? rest
        fun way => some ([Text.trim left] ++ way.captured) := by
  rw [captures?_eq_first?, pattern, first?_both]
  refine first?_side (fun captured rest =>
    (Pattern.both (.one (· == '=')) (.both side .finish)).first? rest
      fun way => some (captured ++ way.captured)) ?_ ?_ hleft hrest
  · intro captured c cs hc
    rw [first?_both, first?_one_cons, if_neg (by simpa using hc)]
  · intro captured captured' rest h
    rw [first?_some_eq_none_iff] at h ⊢
    exact h

/-- The pattern on two sides at an equals sign: neither may be blank, and no second equals sign may
follow. Blanks around the sides are not captured. -/
theorem captures?_pattern_sides {left right : Text} (rest : Text) (hleft : '=' ∉ left)
    (hright : '=' ∉ right) (hrest : ∀ c ∈ rest.head?, c = '=') :
    pattern.captures? (left ++ '=' :: (right ++ rest)) =
      if Text.trim left = [] then none
      else if Text.trim right = [] then none
      else if rest = [] then some [Text.trim left, Text.trim right] else none := by
  have hequals : ∀ c ∈ ('=' :: (right ++ rest)).head?, c = '=' := fun c hc =>
    (Option.some.inj hc).symm
  -- The first side and the equals sign are read, then the second side up to the next one.
  rw [captures?_pattern hleft hequals, first?_both, first?_one_cons,
    if_pos (show ('=' == '=') = true from rfl)]
  show (if Text.trim left = [] then none else
    (Pattern.both side .finish).first? (right ++ rest)
      fun way => some (Text.trim left :: way.captured)) = _
  rw [first?_both]
  -- Behind the second side only the end of the line is asked for.
  have hside := first?_side (fun captured rest => Pattern.finish.first? rest
      fun way => some (Text.trim left :: (captured ++ way.captured)))
    (fun captured c cs _ => by rw [first?_finish, if_neg (List.cons_ne_nil c cs)])
    (fun captured captured' rest h => by
      rw [first?_some_eq_none_iff] at h ⊢
      exact h) hright hrest
  show (if Text.trim left = [] then none else side.first? (right ++ rest) fun way =>
    Pattern.finish.first? way.rest
      fun way' => some (Text.trim left :: (way.captured ++ way'.captured))) = _
  rw [hside, first?_finish]
  rfl

/-- Every text is what stands before its first equals sign, and the rest from there. -/
theorem exists_side (t : Text) :
    ∃ left rest, t = left ++ rest ∧ '=' ∉ left ∧ ∀ c ∈ rest.head?, c = '=' := by
  refine ⟨t.takeWhile (· != '='), t.dropWhile (· != '='), List.takeWhile_append_dropWhile.symm,
    fun h => ?_, fun c hc => ?_⟩
  · exact absurd (List.mem_takeWhile_imp h) (by decide)
  · have hhead := List.head?_dropWhile_not (· != '=') t
    rw [Option.mem_def.mp hc] at hhead
    simpa using hhead

/-- The pair that is read from a line is what the pattern captures. -/
theorem pair?_eq_some_iff_captures? {line : Text} {pair : Text × Text} :
    pair? line = some pair ↔ pattern.captures? line = some [pair.1, pair.2] := by
  rw [pair?]
  constructor
  · intro h
    split at h
    · next key value hcaptures =>
      cases h
      exact hcaptures
    · cases h
  · intro h
    rw [h]

/-- A line holds a pair just if it has one equals sign, with more than blanks on both sides. -/
theorem pair?_eq_some_iff {line : Text} {pair : Text × Text} :
    pair? line = some pair ↔ IsPair line pair := by
  rw [pair?_eq_some_iff_captures?]
  constructor
  · intro h
    -- The line is cut at its first equals sign, and what is behind that at the next.
    obtain ⟨left, rest, rfl, hleft, hrest⟩ := exists_side line
    cases rest with
    | nil =>
        rw [captures?_pattern hleft hrest, Option.ite_none_left_eq_some] at h
        cases h.2
    | cons c t =>
        have hc : c = '=' := hrest c rfl
        subst hc
        obtain ⟨right, rest', rfl, hright, hrest'⟩ := exists_side t
        rw [captures?_pattern_sides rest' hleft hright hrest', Option.ite_none_left_eq_some,
          Option.ite_none_left_eq_some, Option.ite_none_right_eq_some] at h
        obtain ⟨key, value⟩ := pair
        obtain ⟨hkey, hvalue, rfl, hpair⟩ := h
        obtain ⟨rfl, rfl⟩ : Text.trim left = key ∧ Text.trim right = value := by simpa using hpair
        rw [List.append_nil]
        exact .sides hleft hright hkey hvalue
  · intro h
    cases h with
    | @sides left right hleft hright hkey hvalue =>
        have hcaptures := captures?_pattern_sides [] hleft hright (by simp)
        rw [List.append_nil, if_neg hkey, if_neg hvalue, if_pos rfl] at hcaptures
        exact hcaptures

end PairFile

end PicAssembly
