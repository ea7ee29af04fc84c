import Mathlib.Data.List.DropRight
import PicAssembly.Text.Blank

/-!
# `PicAssembly.Proofs.Text.Edges`: texts without blanks at their ends

`Text.Solid t` says that `t` does not end in a blank, so that `trimEnd` keeps what stands
before it. Every printed line ends in a solid text. `Text.Trimmed t` adds that it does not
begin in one: this is what comments and the values of directives are like, and what `trim`
keeps (`trim_eq_self`) and makes (`trimmed_trim`).

A program is printed as its lines in a row, and `splitAt_join` cuts such a row at the places
where it was joined.
-/

set_option autoImplicit false

namespace PicAssembly.Text

/-- The text does not end in a blank. -/
def Solid (t : Text) : Prop := ∀ c ∈ t.getLast?, isBlank c = false

/-- The text has no blanks at its ends. -/
structure Trimmed (t : Text) : Prop where
  head : ∀ c ∈ t.head?, isBlank c = false
  solid : Solid t

-- The instances are named: with all of the library in scope, the search finds one first that goes
-- through every character there is.
instance (t : Text) : Decidable (Solid t) := Option.decidableForallMem t.getLast?

instance (t : Text) : Decidable (Trimmed t) :=
  letI : Decidable (∀ c ∈ t.head?, isBlank c = false) := Option.decidableForallMem t.head?
  decidable_of_iff ((∀ c ∈ t.head?, isBlank c = false) ∧ Solid t)
    ⟨fun h => ⟨h.1, h.2⟩, fun h => ⟨h.head, h.solid⟩⟩

/-- The empty text ends in no blank. -/
theorem solid_nil : Solid [] := by simp [Solid]

/-- What the recursion of `trimEnd` takes away is the library's run of blanks at the end, so the
facts on `List.rdropWhile` hold of it. -/
theorem trimEnd_eq_rdropWhile (t : Text) : trimEnd t = t.rdropWhile isBlank := rfl

/-- Trimming at the end takes blanks away. -/
theorem exists_trimEnd (t : Text) :
    ∃ blanks, t = trimEnd t ++ blanks ∧ ∀ c ∈ blanks, isBlank c := by
  refine ⟨t.rtakeWhile isBlank, (List.rdropWhile_append_rtakeWhile).symm, fun c hc => ?_⟩
  exact List.mem_rtakeWhile_imp hc

/-- A text that ends in no blank loses nothing at its end. -/
theorem trimEnd_eq_self {t : Text} (h : Solid t) : trimEnd t = t := by
  rw [trimEnd_eq_rdropWhile, List.rdropWhile_eq_self_iff]
  intro hne hlast
  have := h (t.getLast hne) (List.getLast?_eq_some_getLast hne)
  simp [this] at hlast

/-- What is trimmed at the end does not end in a blank. -/
theorem solid_trimEnd (t : Text) : Solid (trimEnd t) := by
  intro c hc
  have hne : trimEnd t ≠ [] := by
    rintro hnil
    simp [hnil] at hc
  have hlast := List.rdropWhile_last_not isBlank t hne
  rw [List.getLast?_eq_some_getLast hne] at hc
  cases hc
  exact Bool.eq_false_iff.mpr hlast

/-- A text that ends in a solid one is solid. -/
theorem Solid.append {u : Text} (h : Solid u) (hne : u ≠ []) (t : Text) : Solid (t ++ u) := by
  intro c hc
  rw [List.getLast?_append_of_ne_nil t hne] at hc
  exact h c hc

/-- A text that ends in this character ends in no blank. -/
theorem solid_append_singleton {c : Char} (h : isBlank c = false) (t : Text) :
    Solid (t ++ [c]) :=
  Solid.append (u := [c]) (by simpa [Solid] using h) (by simp) t

/-- Blanks at the end are trimmed. -/
theorem trimEnd_append_of_isBlank {u : Text} (h : ∀ c ∈ u, isBlank c) (t : Text) :
    trimEnd (t ++ u) = trimEnd t := by
  simp only [trimEnd, List.reverse_append]
  congr 1
  rw [List.dropWhile_append_of_pos]
  simpa using h

/-- Nothing is left of a text just if it is made of blanks. -/
theorem trimEnd_eq_nil_iff {t : Text} : trimEnd t = [] ↔ ∀ c ∈ t, isBlank c := by
  rw [trimEnd_eq_rdropWhile, List.rdropWhile_eq_nil_iff]

/-- A character stays that is not blank or stands before one that is not. -/
theorem trimEnd_cons {c : Char} {t : Text} (h : ¬ ∀ d ∈ c :: t, isBlank d) :
    trimEnd (c :: t) = c :: trimEnd t := by
  rw [trimEnd, trimEnd, List.reverse_cons, List.dropWhile_append]
  split
  · next hnil =>
    have hblank : ∀ d ∈ t, isBlank d := fun d hd =>
      List.dropWhile_eq_nil_iff.mp (List.isEmpty_iff.mp hnil) d (List.mem_reverse.mpr hd)
    have hc : ¬ isBlank c := fun hc => h (List.forall_mem_cons.mpr ⟨hc, hblank⟩)
    rw [List.isEmpty_iff.mp hnil, List.dropWhile_cons_of_neg hc]
    rfl
  · rw [List.reverse_append]
    rfl

/-! ### Both ends -/

/-- What a text begins with, once it has no blanks in front, is no blank. -/
theorem isBlank_of_head?_trimStart {c : Char} {t : Text} (h : (trimStart t).head? = some c) :
    isBlank c = false := by
  have hnot := List.head?_dropWhile_not isBlank t
  rw [show t.dropWhile isBlank = trimStart t from rfl, h] at hnot
  exact hnot

/-- Trimming leaves no blanks at either end, so a second time changes nothing. -/
theorem trimmed_trim (t : Text) : Trimmed (trim t) := by
  refine ⟨fun c hc => ?_, solid_trimEnd _⟩
  obtain ⟨blanks, hsplit, -⟩ := exists_trimEnd (trimStart t)
  -- What trimming at the end leaves begins like what it was given.
  have hhead : (trimStart t).head? = some c := by
    rw [hsplit, List.head?_append]
    rw [trim] at hc
    simp [Option.mem_def.mp hc]
  exact isBlank_of_head?_trimStart hhead

/-- Trimming keeps a text without blanks at its ends. -/
theorem trim_eq_self {t : Text} (h : Trimmed t) : trim t = t := by
  have hstart : trimStart t = t := by
    cases t with
    | nil => rfl
    | cons c cs => simp [trimStart, h.head c rfl]
  rw [trim, hstart, trimEnd_eq_self h.solid]

/-- A text is blank just if nothing is left of it. -/
theorem trim_eq_nil_iff {t : Text} : trim t = [] ↔ ∀ c ∈ t, isBlank c := by
  rw [trim, trimEnd_eq_nil_iff, trimStart]
  constructor
  · intro h c hc
    by_contra hblank
    -- The first character that is not blank would be left.
    have hne : t.dropWhile isBlank ≠ [] := fun hnil =>
      hblank (List.dropWhile_eq_nil_iff.mp hnil c hc)
    have hhead := h _ (List.head_mem hne)
    exact Bool.false_ne_true ((List.head_dropWhile_not isBlank hne).symm.trans hhead)
  · intro h c hc
    exact h c (List.dropWhile_subset _ hc)

/-- Trimming at the end adds no characters. -/
theorem mem_of_mem_trimEnd {c : Char} {t : Text} (h : c ∈ trimEnd t) : c ∈ t := by
  obtain ⟨blanks, hsplit, -⟩ := exists_trimEnd t
  rw [hsplit]
  exact List.mem_append_left blanks h

/-- Trimming adds no characters. -/
theorem mem_of_mem_trim {c : Char} {t : Text} (h : c ∈ trim t) : c ∈ t :=
  List.dropWhile_subset _ (mem_of_mem_trimEnd h)

/-- Blanks at the end are trimmed, wherever the text begins. -/
theorem trim_append_of_isBlank {u : Text} (h : ∀ c ∈ u, isBlank c) (t : Text) :
    trim (t ++ u) = trim t := by
  rw [trim, trim, trimStart, trimStart, List.dropWhile_append]
  split
  · next hnil =>
    rw [List.isEmpty_iff.mp hnil, List.dropWhile_eq_nil_iff.mpr h]
  · exact trimEnd_append_of_isBlank h _

/-- Blanks at the start are trimmed. -/
theorem trim_cons_of_isBlank {c : Char} (h : isBlank c) (t : Text) : trim (c :: t) = trim t := by
  simp [trim, trimStart, h]

/-- Blanks at the start are trimmed. -/
theorem trim_append_left_of_isBlank {blanks : Text} (h : ∀ c ∈ blanks, isBlank c) (t : Text) :
    trim (blanks ++ t) = trim t := by
  induction blanks with
  | nil => rfl
  | cons c blanks ih =>
      obtain ⟨hc, hblanks⟩ := List.forall_mem_cons.mp h
      rw [List.cons_append, trim_cons_of_isBlank hc, ih hblanks]

/-- What is not blank stays. -/
theorem trimEnd_append_of_not_isBlank {mark : Text} (hmark : ∀ c ∈ mark, isBlank c = false)
    (t : Text) : trimEnd (mark ++ t) = mark ++ trimEnd t := by
  induction mark with
  | nil => rfl
  | cons c mark ih =>
      obtain ⟨hc, hmark⟩ := List.forall_mem_cons.mp hmark
      have hsolid : ¬ ∀ d ∈ c :: (mark ++ t), isBlank d := fun hall =>
        Bool.false_ne_true (hc.symm.trans (hall c List.mem_cons_self))
      rw [List.cons_append, trimEnd_cons hsolid, ih hmark, List.cons_append]

/-- What is not blank stays, and what stands behind it may lose blanks at its ends. -/
theorem exists_trim_append {mark : Text} (hmark : ∀ c ∈ mark, isBlank c = false) (t : Text) :
    ∃ u, u ⊆ t ∧ (Trimmed t → u = t) ∧ trim (mark ++ t) = mark ++ u := by
  cases mark with
  | nil => exact ⟨trim t, fun c hc => mem_of_mem_trim hc, trim_eq_self, rfl⟩
  | cons c mark =>
      have hstart : trimStart (c :: mark ++ t) = c :: mark ++ t := by
        simp [trimStart, hmark c List.mem_cons_self]
      refine ⟨trimEnd t, fun d hd => mem_of_mem_trimEnd hd, fun h => trimEnd_eq_self h.solid, ?_⟩
      rw [trim, hstart, trimEnd_append_of_not_isBlank hmark]

/-! ### Texts in a row -/

/-- The separator stands behind the first text if there is a second one. -/
theorem join_cons_cons (sep t u : Text) (ts : List Text) :
    join sep (t :: u :: ts) = t ++ sep ++ join sep (u :: ts) := by
  simp [join, List.intercalate]

/-- One text alone needs no separator. -/
theorem join_singleton (sep t : Text) : join sep [t] = t := by
  simp [join, List.intercalate]

/-- What holds of the characters of some texts holds of them in a row. -/
theorem forall_mem_join {P : Char → Prop} {sep : Text} {ts : List Text} (hsep : ∀ c ∈ sep, P c)
    (h : ∀ t ∈ ts, ∀ c ∈ t, P c) : ∀ c ∈ join sep ts, P c := by
  induction ts with
  | nil => simp [join]
  | cons t ts ih =>
      have ht := h t List.mem_cons_self
      cases ts with
      | nil => rwa [join_singleton]
      | cons u ts =>
          rw [join_cons_cons]
          exact List.forall_mem_append.mpr ⟨List.forall_mem_append.mpr ⟨ht, hsep⟩,
            ih fun v hv => h v (List.mem_cons_of_mem t hv)⟩

/-- Texts that are solid and not empty are so in a row. -/
theorem solid_join {ts : List Text} (h : ∀ t ∈ ts, t ≠ [] ∧ Solid t) (sep : Text) :
    Solid (join sep ts) ∧ (ts ≠ [] → join sep ts ≠ []) := by
  -- That the rest is not empty is carried along, since an empty one would leave the end to the
  -- separator.
  induction ts with
  | nil => exact ⟨solid_nil, fun hne => absurd rfl hne⟩
  | cons t ts ih =>
      obtain ⟨hne, hsolid⟩ := h t List.mem_cons_self
      cases ts with
      | nil =>
          rw [join_singleton]
          exact ⟨hsolid, fun _ => hne⟩
      | cons u ts =>
          obtain ⟨hrest, hrest'⟩ := ih fun v hv => h v (List.mem_cons_of_mem t hv)
          rw [join_cons_cons]
          exact ⟨hrest.append (hrest' (by simp)) _, by simp [hne]⟩

/-- A text without separators is one piece. -/
theorem splitAt_of_not_mem {sep : Char} {t : Text} (h : sep ∉ t) : splitAt sep t = [t] := by
  induction t with
  | nil => rfl
  | cons c cs ih =>
      obtain ⟨hc, hcs⟩ := not_or.mp (List.mem_cons.not.mp h)
      rw [splitAt, if_neg (Ne.symm hc), ih hcs]

/-- The first piece ends at the first separator. -/
theorem splitAt_append {sep : Char} {t : Text} (h : sep ∉ t) (u : Text) :
    splitAt sep (t ++ sep :: u) = t :: splitAt sep u := by
  induction t with
  | nil => rw [List.nil_append, splitAt, if_pos rfl]
  | cons c cs ih =>
      obtain ⟨hc, hcs⟩ := not_or.mp (List.mem_cons.not.mp h)
      rw [List.cons_append, splitAt, if_neg (Ne.symm hc), ih hcs]

/-- A text without separators that is put behind another goes to its last piece. The pieces before
that do not depend on what is put there. -/
theorem exists_splitAt_append (sep : Char) (t : Text) :
    ∃ front last, ∀ ending : Text, sep ∉ ending →
      splitAt sep (t ++ ending) = front ++ [last ++ ending] := by
  induction t with
  | nil => exact ⟨[], [], fun ending h => splitAt_of_not_mem h⟩
  | cons c cs ih =>
      obtain ⟨front, last, ih⟩ := ih
      by_cases hc : c = sep
      · refine ⟨[] :: front, last, fun ending h => ?_⟩
        rw [List.cons_append, splitAt, if_pos hc, ih ending h, List.cons_append]
      · -- The character goes to the first piece, which may be the last one too.
        cases front with
        | nil =>
            refine ⟨[], c :: last, fun ending h => ?_⟩
            rw [List.cons_append, splitAt, if_neg hc, ih ending h]
            rfl
        | cons piece front =>
            refine ⟨(c :: piece) :: front, last, fun ending h => ?_⟩
            rw [List.cons_append, splitAt, if_neg hc, ih ending h]
            rfl

/-- Texts without separators are the pieces of what they are joined to. -/
theorem splitAt_join {sep : Char} {ts : List Text} (hne : ts ≠ []) (h : ∀ t ∈ ts, sep ∉ t) :
    splitAt sep (join [sep] ts) = ts := by
  induction ts with
  | nil => exact absurd rfl hne
  | cons t ts ih =>
      obtain ⟨ht, hts⟩ := List.forall_mem_cons.mp h
      cases ts with
      | nil => rw [join_singleton, splitAt_of_not_mem ht]
      | cons u ts =>
          rw [join_cons_cons, List.append_assoc, List.singleton_append, splitAt_append ht,
            ih (by simp) hts]

/-- Pieces without separators come first, whatever follows them. -/
theorem exists_splitAt_join_append {sep : Char} {front : List Text} (hne : front ≠ [])
    (h : ∀ t ∈ front, sep ∉ t) (more : List Text) :
    ∃ tail, splitAt sep (join [sep] (front ++ more)) = front ++ tail := by
  induction front with
  | nil => exact absurd rfl hne
  | cons t front ih =>
      obtain ⟨ht, hfront⟩ := List.forall_mem_cons.mp h
      -- The last of the pieces ends at a separator or at the end.
      cases front with
      | nil =>
          cases more with
          | nil => exact ⟨[], by rw [List.append_nil, join_singleton, splitAt_of_not_mem ht]⟩
          | cons u more =>
              refine ⟨splitAt sep (join [sep] (u :: more)), ?_⟩
              rw [List.singleton_append, join_cons_cons, List.append_assoc, List.singleton_append,
                splitAt_append ht, List.singleton_append]
      | cons u front =>
          obtain ⟨tail, htail⟩ := ih (by simp) hfront
          refine ⟨tail, ?_⟩
          rw [List.cons_append, List.cons_append, join_cons_cons, List.append_assoc,
            List.singleton_append, splitAt_append ht, ← List.cons_append, htail, ← List.cons_append]

/-- A text is cut at the separator that no other follows. -/
theorem splitAtLast?_eq_some_iff {sep : Char} {t before after : Text} :
    splitAtLast? sep t = some (before, after) ↔ t = before ++ sep :: after ∧ sep ∉ after := by
  -- Seen from the end, what stands behind the last separator comes first.
  have hback := List.takeWhile_append_dropWhile (p := (· != sep)) (l := t.reverse)
  have hdrop := congrArg (List.drop (t.reverse.takeWhile (· != sep)).length) hback
  rw [List.drop_left] at hdrop
  rw [splitAtLast?, ← hdrop]
  constructor
  · intro h
    split at h
    · cases h
    · next mark rest hrest =>
      cases h
      obtain rfl : mark = sep := by
        have hhead := List.head?_dropWhile_not (· != sep) t.reverse
        rw [hrest] at hhead
        simpa using hhead
      rw [hrest] at hback
      refine ⟨by simpa using congrArg List.reverse hback.symm, fun h => ?_⟩
      simpa using List.mem_takeWhile_imp (List.mem_reverse.mp h)
  · rintro ⟨rfl, hafter⟩
    have hpass : ∀ c ∈ after.reverse, (c != sep) = true := fun c hc =>
      bne_iff_ne.mpr fun h => hafter (h ▸ List.mem_reverse.mp hc)
    have hreverse : (before ++ sep :: after).reverse = after.reverse ++ sep :: before.reverse := by
      simp
    rw [hreverse, List.takeWhile_append_of_pos hpass, List.dropWhile_append_of_pos hpass]
    simp

/-- Both sides of the last separator are parts of the text. -/
theorem mem_of_splitAtLast? {sep : Char} {t before after : Text}
    (h : splitAtLast? sep t = some (before, after)) : ∀ c ∈ before ++ after, c ∈ t := by
  obtain ⟨rfl, -⟩ := splitAtLast?_eq_some_iff.mp h
  intro c hc
  rcases List.mem_append.mp hc with hc | hc
  · exact List.mem_append_left _ hc
  · exact List.mem_append_right _ (List.mem_cons_of_mem sep hc)

end PicAssembly.Text
