import PicAssembly.Proofs.Text.Edges
import PicAssembly.Proofs.Token.Reading
import PicAssembly.Sandbox

/-!
# `PicAssembly.Proofs.Project.Components`: paths by their components

A path has more than one spelling: `src//a.s`, `src/./a.s` and `src/a.s` lead to one file. So paths
are compared by their components (`FilePath.components`), and not as texts.

* `FilePath.components_eq_iff`: when two paths have the same components.
* `FilePath.exists_components_append`: an ending of a path is the ending of its last component.
* `Sandbox.find_eq_of_components_eq`: where two paths with the same components lead anywhere in a
  sandbox, they lead to the same thing.
-/

set_option autoImplicit false

namespace PicAssembly

namespace FilePath

/-! ### The components of a path -/

/-- What a path begins with besides names: the root of all files, or a point, which is kept where it
stands first. The root is told by its slash, which is in no name. -/
def origin (path : Text) : List Text :=
  if path.head? = some '/' then [['/']]
  else if (names path).head? = some ['.'] then [['.']] else []

/-- The components of a path, by which paths are compared. Behind its beginning, names that stand
for the directory that they are looked up in do not count. Two points do: what they lead to depends
on the files that there are. -/
def components (path : Text) : List Text :=
  origin path ++ (names path).filter (!isSelf ·)

/-- A path begins at the root, or with a point, or with a name like any other. -/
theorem origin_cases (path : Text) :
    origin path = [['/']] ∨ origin path = [['.']] ∨ origin path = [] := by
  rw [origin]
  split
  · exact .inl rfl
  · split
    · exact .inr (.inl rfl)
    · exact .inr (.inr rfl)

/-- A path begins with the root just if its first character is the slash of the root. -/
theorem origin_eq_root_iff {path : Text} : origin path = [['/']] ↔ path.head? = some '/' := by
  rw [origin]
  split
  · next hroot => exact iff_of_true rfl hroot
  · next hroot =>
    refine iff_of_false ?_ hroot
    split
    · decide
    · decide

/-- What a path begins with besides names is one mark: the root or a point. -/
theorem origin_eq_of_mem {path mark : Text} (h : mark ∈ origin path) :
    origin path = [mark] ∧ (mark = ['/'] ∨ mark = ['.']) := by
  rcases origin_cases path with hroot | hpoint | hnone
  · rw [hroot] at h
    obtain rfl := List.mem_singleton.mp h
    exact ⟨hroot, .inl rfl⟩
  · rw [hpoint] at h
    obtain rfl := List.mem_singleton.mp h
    exact ⟨hpoint, .inr rfl⟩
  · rw [hnone] at h
    cases h

/-- What a path begins with is not mistaken for a name of any path: no name has a slash, and a point
does not count as a name. -/
theorem not_mem_names_of_mem_origin {path mark : Text} (h : mark ∈ origin path) (path' : Text) :
    mark ∉ (names path').filter (!isSelf ·) := by
  intro hname
  obtain ⟨hmem, hself⟩ := List.mem_filter.mp hname
  rcases (origin_eq_of_mem h).2 with rfl | rfl
  · exact Text.not_mem_of_mem_splitAt hmem List.mem_cons_self
  · exact absurd hself (by decide)

/-- Paths with the same components begin alike. -/
theorem origin_eq_of_components_eq {path path' : Text} (h : components path = components path') :
    origin path = origin path' := by
  -- What the one path begins with is a component of the other, and so what that begins with.
  have hmark {path path' mark : Text} (h : components path = components path')
      (hmark : mark ∈ origin path) : mark ∈ origin path' := by
    have hmem : mark ∈ components path' := h ▸ List.mem_append_left _ hmark
    exact (List.mem_append.mp hmem).resolve_right (not_mem_names_of_mem_origin hmark path')
  cases horigin : origin path with
  | nil =>
      cases horigin' : origin path' with
      | nil => rfl
      | cons mark rest =>
          have hmem : mark ∈ origin path' := horigin' ▸ List.mem_cons_self
          have hnone := hmark h.symm hmem
          rw [horigin] at hnone
          cases hnone
  | cons mark rest =>
      have hmem : mark ∈ origin path := horigin ▸ List.mem_cons_self
      rw [(origin_eq_of_mem (hmark h hmem)).1, ← horigin, (origin_eq_of_mem hmem).1]

/-- Paths have the same components just if they begin alike and have the same names, but for those
that do not count. -/
theorem components_eq_iff {path path' : Text} : components path = components path' ↔
    origin path = origin path' ∧
      (names path).filter (!isSelf ·) = (names path').filter (!isSelf ·) := by
  constructor
  · intro h
    have horigin := origin_eq_of_components_eq h
    rw [components, components, horigin] at h
    exact ⟨horigin, List.append_cancel_left h⟩
  · rintro ⟨horigin, hnames⟩
    rw [components, components, horigin, hnames]

/-- Slashes in a row and behind the last name, and points behind the first name. -/
example : components "src//./main.s/".toList = components "src/main.s".toList := by decide

/-- A path from the root is another one, and so is a path that begins with a point. -/
example : (["main.s", "/main.s", "./main.s"].map fun path => components path.toList).Nodup := by
  decide

/-- An ending of a name, such as `.asm`. It has a second character, so that a name that is nothing
but the ending is no point. -/
structure IsEnding (ending : Text) : Prop where
  head : ending.head? = some '.'
  length : 2 ≤ ending.length
  slash : '/' ∉ ending

/-- What begins a path begins it with any ending. -/
theorem exists_origin_append (base : Text) :
    ∃ first, ∀ ending : Text, IsEnding ending → origin (base ++ ending) = first := by
  cases base with
  | nil =>
      refine ⟨[], fun ending h => ?_⟩
      have hroot : ¬ ending.head? = some '/' := by simp [h.head]
      have hpoint : ¬ (names ending).head? = some ['.'] := by
        intro hname
        rw [names, Text.splitAt_of_not_mem h.slash] at hname
        cases hname
        exact absurd h.length (by decide)
      rw [List.nil_append, origin, if_neg hroot, if_neg hpoint]
  | cons c cs =>
      obtain ⟨front, last, hnames⟩ := Text.exists_splitAt_append '/' (c :: cs)
      cases front with
      | nil =>
          refine ⟨if c = '/' then [['/']] else [], fun ending h => ?_⟩
          -- The one name has the ending and a character before it, so it is no point.
          have hpoint : ¬ (names (c :: cs ++ ending)).head? = some ['.'] := by
            intro hname
            rw [names, hnames ending h.slash] at hname
            have hone := congrArg List.length (Option.some.inj hname)
            simp only [List.length_append, List.length_singleton] at hone
            have hlength := h.length
            omega
          rw [origin, if_neg hpoint]
          simp
      | cons name front =>
          refine ⟨if c = '/' then [['/']] else if name = ['.'] then [['.']] else [],
            fun ending h => ?_⟩
          rw [origin, names, hnames ending h.slash]
          simp

/-- A path with an ending has the ending at its last component. -/
theorem exists_components_append (base : Text) :
    ∃ front last, ∀ ending : Text, IsEnding ending →
      components (base ++ ending) = front ++ [last ++ ending] := by
  obtain ⟨first, hfirst⟩ := exists_origin_append base
  obtain ⟨front, last, hnames⟩ := Text.exists_splitAt_append '/' base
  refine ⟨first ++ front.filter (!isSelf ·), last, fun ending h => ?_⟩
  -- The last name is longer than a point, so it counts.
  have hlast : isSelf (last ++ ending) = false := by
    have hlong : 2 ≤ (last ++ ending).length := by
      have hlength := h.length
      rw [List.length_append]
      omega
    generalize last ++ ending = name at hlong
    match name, hlong with
    | _ :: _ :: _, _ => simp [isSelf]
  rw [components, hfirst ending h, names, hnames ending h.slash, List.filter_append,
    List.append_assoc]
  simp [hlast]

/-! ### Paths in a directory -/

/-- A name at the root of the project is its own path. -/
theorem join_nil (name : Text) : join [] name = name := by
  rw [join]
  split <;> rfl

/-- A name with an ending is a path with this ending, whatever the ending is. -/
theorem exists_join_append (dir stem : Text) :
    ∃ base, ∀ ending : Text, IsEnding ending → join dir (stem ++ ending) = base ++ ending := by
  have hhead {ending : Text} (h : IsEnding ending) :
      (stem ++ ending).head? = some '/' ↔ stem.head? = some '/' := by
    cases stem with
    | nil => simp [h.head]
    | cons c stem => simp
  by_cases hroot : stem.head? = some '/'
  · exact ⟨stem, fun ending h => if_pos ((hhead h).mpr hroot)⟩
  by_cases hdir : dir.isEmpty || dir.getLast? = some '/'
  · refine ⟨dir ++ stem, fun ending h => ?_⟩
    rw [join, if_neg (mt (hhead h).mp hroot), if_pos hdir, List.append_assoc]
  · refine ⟨dir ++ '/' :: stem, fun ending h => ?_⟩
    rw [join, if_neg (mt (hhead h).mp hroot), if_neg hdir, List.append_assoc, List.cons_append]

end FilePath

namespace Sandbox

/-- The first name leads to the same place whatever names are behind it, and one that stands for the
directory that it is looked up in leads nowhere else. -/
theorem exists_follow_cons {root : Entry} {name : Text} {names place found : List Text}
    (h : follow root place (name :: names) = .ok found) :
    ∃ next, (∀ behind, follow root place (name :: behind) = follow root next behind) ∧
      (FilePath.isSelf name → next = place) := by
  rw [follow] at h
  split at h
  · next members hmembers =>
    split at h
    · next hself =>
      refine ⟨place, fun behind => ?_, fun _ => rfl⟩
      simp only [follow, hmembers, if_pos hself]
    · next hself =>
      split at h
      · next hparent =>
        refine ⟨place.dropLast, fun behind => ?_, fun hself' => absurd hself' hself⟩
        simp only [follow, hmembers, if_neg hself, if_pos hparent]
      · next hparent =>
        split at h
        · cases h
        · next hlong =>
          split at h
          · next hmember =>
            -- The name is found in the directory, and what is behind it is looked up there.
            refine ⟨place ++ [name], fun behind => ?_, fun hself' => absurd hself' hself⟩
            simp only [follow, hmembers, if_neg hself, if_neg hparent, if_neg hlong, if_pos hmember]
          · cases h
  · cases h
  · cases h

/-- Names that stand for the directory that they are looked up in can be left out. -/
theorem follow_filter_of_ok {root : Entry} {names place found : List Text}
    (h : follow root place names = .ok found) :
    follow root place (names.filter (!FilePath.isSelf ·)) = .ok found := by
  induction names generalizing place with
  | nil => exact h
  | cons name names ih =>
      obtain ⟨next, hstep, hself⟩ := exists_follow_cons h
      rw [hstep] at h
      by_cases hname : FilePath.isSelf name
      · rw [List.filter_cons_of_neg (by simp [hname])]
        exact hself hname ▸ ih h
      · rw [List.filter_cons_of_pos (by simp [hname]), hstep]
        exact ih h

/-- What is under a path is found by its names from the root, or from the place of the sandbox. -/
theorem exists_follow_of_find {s : Sandbox} {path : Text} {entry : Entry}
    (h : s.find path = .ok entry) :
    ∃ found, follow s.root (if path.head? = some '/' then [] else s.place) (FilePath.names path)
      = .ok found ∧ s.root.at? found = some entry := by
  obtain ⟨start, hstart, hbehind⟩ := bind_eq_ok_iff.mp h
  obtain ⟨found, hfound, hentry⟩ := bind_eq_ok_iff.mp hbehind
  -- Where the path begins is all that a sandbox adds to its names.
  have hplace : start = if path.head? = some '/' then [] else s.place := by
    rw [Sandbox.start] at hstart
    split at hstart
    · cases hstart
    · split at hstart
      · cases hstart
      · exact (Except.ok.inj hstart).symm
  refine ⟨found, hplace ▸ hfound, ?_⟩
  cases hat : s.root.at? found with
  | none =>
      rw [hat] at hentry
      cases hentry
  | some entry' =>
      rw [hat] at hentry
      cases hentry
      rfl

/-- Where two paths with the same components lead anywhere, they lead to the same. One of them may
lead nowhere all the same, since a slash behind the name of a file asks for a directory. -/
theorem find_eq_of_components_eq {s : Sandbox} {path path' : Text} {entry entry' : Entry}
    (h : s.find path = .ok entry) (h' : s.find path' = .ok entry')
    (hcomponents : FilePath.components path = FilePath.components path') : entry = entry' := by
  obtain ⟨horigin, hnames⟩ := FilePath.components_eq_iff.mp hcomponents
  have hroot : path.head? = some '/' ↔ path'.head? = some '/' := by
    rw [← FilePath.origin_eq_root_iff, horigin, FilePath.origin_eq_root_iff]
  obtain ⟨found, hfound, hentry⟩ := exists_follow_of_find h
  obtain ⟨found', hfound', hentry'⟩ := exists_follow_of_find h'
  have hplace := follow_filter_of_ok hfound
  simp only [hroot, hnames] at hplace
  cases hplace.symm.trans (follow_filter_of_ok hfound')
  exact Option.some.inj (hentry.symm.trans hentry')

end Sandbox

end PicAssembly
