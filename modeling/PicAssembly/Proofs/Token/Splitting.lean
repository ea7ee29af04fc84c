import PicAssembly.Proofs.Token.Printing
import PicAssembly.Proofs.Token.Remainder

/-!
# `PicAssembly.Proofs.Token.Splitting`: a scan in two parts

The tokens of a text are the tokens of its parts, where a part begins at a token
(`Token.Scans.split_spelled`) or at the first semicolon (`Token.scans_append_iff`). The second
needs that the first semicolon opens a comment. In a literal it opens none, and then the literal
is cut in two.
-/

set_option autoImplicit false

namespace PicAssembly.Token

/-- The comment that a text is, if it begins with a semicolon. -/
def tailLexemes (tail : Text) : List Lexeme := if tail = [] then [] else [⟨.comment, tail⟩]

/-- Only one token can be taken off the front. -/
theorem Spelled.unique {k k' : Kind} {text text' t t' : Text} (h : Spelled k text)
    (he : EndsBefore k text t) (h' : Spelled k' text') (he' : EndsBefore k' text' t')
    (heq : text ++ t = text' ++ t') : k = k' ∧ text = text' ∧ t = t' := by
  obtain ⟨c, cs, rfl⟩ := List.exists_cons_of_ne_nil h.ne_nil
  obtain ⟨c', cs', rfl⟩ := List.exists_cons_of_ne_nil h'.ne_nil
  obtain ⟨rfl, htail⟩ := List.cons.inj heq
  have hextent := (extent_of_spelled h he).symm.trans
    ((congrArg (extent false c) htail).trans (extent_of_spelled h' he'))
  have hpair := Prod.mk.inj (Except.ok.inj hextent)
  obtain ⟨hcs, ht⟩ := List.append_inj htail (Nat.succ.inj hpair.2)
  exact ⟨hpair.1, congrArg _ hcs, ht⟩

namespace Scans

/-- A blank at the front is no token. -/
theorem of_blank {c : Char} {t : Text} {ls : List Lexeme} (hc : isSeparator c)
    (h : Scans (c :: t) ls []) : Scans t ls [] := by
  generalize htext : c :: t = text at h
  cases h with
  | done => cases htext
  | blank _ h =>
      cases htext
      exact h
  | @lexeme l t' _ _ hl _ _ =>
      obtain ⟨d, ds, hd⟩ := List.exists_cons_of_ne_nil hl.ne_nil
      rw [hd] at htext hl
      obtain ⟨rfl, -⟩ := List.cons.inj htext
      rw [hl.head_not_isSeparator] at hc
      cases hc

/-- A token at the front is the first token. -/
theorem split_spelled {k : Kind} {text t : Text} {ms : List Lexeme}
    (h : Scans (text ++ t) ms []) (hs : Spelled k text) (he : EndsBefore k text t) :
    ∃ ls, ms = ⟨k, text⟩ :: ls ∧ Scans t ls [] := by
  obtain ⟨c, cs, rfl⟩ := List.exists_cons_of_ne_nil hs.ne_nil
  generalize htext : c :: cs ++ t = whole at h
  cases h with
  | done => cases htext
  | blank hc _ =>
      cases htext
      rw [hs.head_not_isSeparator] at hc
      cases hc
  | @lexeme l t' _ ls hl hends h =>
      obtain ⟨hk, hc, ht⟩ := hs.unique he hl hends htext
      refine ⟨ls, ?_, ht ▸ h⟩
      rw [hk, hc]

end Scans

/-- A blank in front belongs to no token. -/
theorem scans_blank_iff {c : Char} {t : Text} {ls : List Lexeme} (hc : isSeparator c) :
    Scans (c :: t) ls [] ↔ Scans t ls [] := ⟨.of_blank hc, .blank hc⟩

/-- A name behind a space is the first token. -/
theorem scans_name_iff {name t : Text} {ms : List Lexeme} (hname : IsName name)
    (ht : Detached t) : Scans (' ' :: (name ++ t)) ms [] ↔
      ∃ ls, ms = ⟨.identifier, name⟩ :: ls ∧ Scans t ls [] := by
  have hends : EndsBefore .identifier name t := Spelled.endsBefore (Or.inl rfl) ht
  rw [scans_blank_iff (by decide)]
  constructor
  · exact fun h => h.split_spelled (.identifier hname) hends
  · rintro ⟨ls, rfl, h⟩
    exact (Scans.single (.identifier hname) hends).append h

/-- A text that ends neither in a blank nor has a semicolon in it ends before the blanks and the
comment behind `u`. -/
theorem exists_append_of_solid {w u gap tail t : Text} (h : u ++ (gap ++ tail) = w ++ t)
    (hsolid : Text.Solid w) (hw : ';' ∉ w) (hgap : ∀ c ∈ gap, isSeparator c)
    (htail : ∀ c ∈ tail.head?, c = ';') : ∃ a, u = w ++ a ∧ t = a ++ (gap ++ tail) := by
  rcases List.append_eq_append_iff.mp h with ⟨a, hwa, hright⟩ | ⟨a, hua, ht⟩
  · by_cases hnil : a = []
    · subst hnil
      exact ⟨[], by simpa using hwa.symm, hright.symm⟩
    -- What is behind `u` begins with blanks, and the last of them would be the last of `w`.
    · have hsubset : a ⊆ gap := by
        rcases List.append_eq_append_iff.mp hright with ⟨b, rfl, htb⟩ | ⟨b, rfl, -⟩
        · cases b with
          | nil => simp
          | cons c b =>
              obtain rfl : c = ';' := htail c (by rw [htb]; rfl)
              exact absurd (by rw [hwa]; simp) hw
        · exact List.subset_append_left a b
      have hlast : a.getLast hnil ∈ w.getLast? := by
        rw [hwa, List.getLast?_append_of_ne_nil u hnil]
        exact List.getLast?_eq_some_getLast hnil
      have hfalse := hsolid _ hlast
      rw [isBlank_of_isSeparator (hgap _ (hsubset (List.getLast_mem hnil)))] at hfalse
      cases hfalse
  · exact ⟨a, hua, ht⟩

/-- A text that begins with a semicolon is all comment. -/
theorem eq_of_append_eq_comment {u gap tail body : Text} (h : u ++ (gap ++ tail) = ';' :: body)
    (hu : ';' ∉ u) (hgap : ∀ c ∈ gap, isSeparator c) : u = [] ∧ tail = ';' :: body := by
  have hfront : ';' ∉ u ++ gap := by
    rw [List.mem_append, not_or]
    exact ⟨hu, fun hmem => absurd (hgap ';' hmem) (by decide)⟩
  rw [← List.append_assoc] at h
  cases hnil : u ++ gap with
  | nil =>
      rw [hnil, List.nil_append] at h
      exact ⟨(List.append_eq_nil_iff.mp hnil).1, h⟩
  | cons c front =>
      rw [hnil] at h hfront
      obtain ⟨rfl, -⟩ := List.cons.inj h
      exact absurd List.mem_cons_self hfront

/-- The part of a text before its first semicolon, if none of the tokens before the comment
has one. Blanks before the semicolon belong to neither part. -/
theorem Scans.split_tail {u gap tail : Text} {ms : List Lexeme}
    (h : Scans (u ++ (gap ++ tail)) ms []) (hu : ';' ∉ u) (hgap : ∀ c ∈ gap, isSeparator c)
    (htail : ∀ c ∈ tail.head?, c = ';') (hms : ∀ l ∈ ms, l.kind ≠ .comment → ';' ∉ l.text) :
    ∃ ls, ms = ls ++ tailLexemes tail ∧ Scans u ls [] := by
  generalize htext : u ++ (gap ++ tail) = text at h
  generalize hrest : ([] : Text) = rest at h
  induction h generalizing u gap with
  | done t =>
      subst hrest
      obtain ⟨rfl, hright⟩ := List.append_eq_nil_iff.mp htext
      obtain ⟨-, rfl⟩ := List.append_eq_nil_iff.mp hright
      exact ⟨[], rfl, .done []⟩
  | @blank c t _ ls hc _ ih =>
      cases u with
      | nil =>
          cases gap with
          | nil =>
              obtain rfl : tail = c :: t := htext
              obtain rfl : c = ';' := htail c rfl
              exact absurd hc (by decide)
          | cons g gap =>
              obtain ⟨-, ht⟩ := List.cons.inj htext
              exact ih (u := []) hu (fun d hd => hgap d (List.mem_cons_of_mem g hd)) hms ht hrest
      | cons d u =>
          obtain ⟨rfl, ht⟩ := List.cons.inj htext
          obtain ⟨ls, hls, hscans⟩ :=
            ih (fun hmem => hu (List.mem_cons_of_mem d hmem)) hgap hms ht hrest
          exact ⟨ls, hls, .blank hc hscans⟩
  | @lexeme l t _ ls hl he hscans ih =>
      obtain ⟨hl', hms⟩ := List.forall_mem_cons.mp hms
      by_cases hk : l.kind = .comment
      -- A comment is the last token, and it begins with the first semicolon.
      · rw [hk] at hl he
        obtain ⟨body, hbody⟩ := hl.exists_comment
        obtain rfl : t = [] := he
        subst hrest
        rw [List.append_nil, hbody] at htext
        obtain ⟨rfl, rfl⟩ := eq_of_append_eq_comment htext hu hgap
        refine ⟨[], ?_, .done []⟩
        rw [hscans.eq_nil, tailLexemes, if_neg (List.cons_ne_nil _ _), List.nil_append, ← hk,
          ← hbody]
      · obtain ⟨a, rfl, rfl⟩ := exists_append_of_solid htext (hl.solid hk) (hl' hk) hgap htail
        obtain ⟨ls, rfl, hrest'⟩ :=
          ih (fun hmem => hu (List.mem_append_right _ hmem)) hgap hms rfl hrest
        refine ⟨l :: ls, rfl, .lexeme hl ?_ hrest'⟩
        cases a with
        | nil => exact endsBefore_nil _ _
        | cons c cs => exact he.congr hk rfl

/-- A text without semicolons has no comments. -/
theorem Scans.kind_ne_comment {u : Text} {ls : List Lexeme} (h : Scans u ls [])
    (hu : ';' ∉ u) : ∀ l ∈ ls, l.kind ≠ .comment := by
  intro l hl hk
  have hspelled := h.spelled l hl
  rw [hk] at hspelled
  obtain ⟨body, hbody⟩ := hspelled.exists_comment
  exact hu (h.mem_of_mem_text l hl ';' (by simp [hbody]))

/-- What stands behind the tokens of a text adds no token but the comment. -/
theorem Scans.append_tail {u gap tail : Text} {ls : List Lexeme} (h : Scans u ls [])
    (hu : ';' ∉ u) (hgap : ∀ c ∈ gap, isSeparator c) (htail : ∀ c ∈ tail.head?, c = ';') :
    Scans (u ++ (gap ++ tail)) (ls ++ tailLexemes tail) [] := by
  have hends : Ends (gap ++ tail) := by
    intro c hc
    cases gap with
    | nil => exact Or.inr (htail c hc)
    | cons g gap =>
        cases hc
        exact Or.inl (isBlank_of_isSeparator (hgap c List.mem_cons_self))
  refine (h.extend (h.kind_ne_comment hu) hends).append (.blanks hgap ?_)
  cases tail with
  | nil => exact .done []
  | cons c cs =>
      obtain rfl : c = ';' := htail c rfl
      simpa [tailLexemes] using Scans.single (.comment cs) (endsBefore_nil .comment (';' :: cs))

/-- The tokens of a line in which the first semicolon opens a comment: those of the part before
it, and the comment. -/
theorem scans_append_iff {u gap tail : Text} {ms : List Lexeme} (hu : ';' ∉ u)
    (hgap : ∀ c ∈ gap, isSeparator c) (htail : ∀ c ∈ tail.head?, c = ';') :
    (Scans (u ++ (gap ++ tail)) ms [] ∧ ∀ l ∈ ms, l.kind ≠ .comment → ';' ∉ l.text) ↔
      ∃ ls, ms = ls ++ tailLexemes tail ∧ Scans u ls [] := by
  constructor
  · exact fun ⟨h, hms⟩ => h.split_tail hu hgap htail hms
  · rintro ⟨ls, rfl, h⟩
    refine ⟨h.append_tail hu hgap htail, fun l hl hk => ?_⟩
    rcases List.mem_append.mp hl with hl | hl
    · exact fun hmem => hu (h.mem_of_mem_text l hl ';' hmem)
    · rw [tailLexemes] at hl
      split at hl
      · cases hl
      · rw [List.mem_singleton.mp hl] at hk
        exact absurd rfl hk

end PicAssembly.Token
