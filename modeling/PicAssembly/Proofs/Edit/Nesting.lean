import Mathlib.Data.List.Induction
import PicAssembly.Edit.Conditionals
import PicAssembly.Proofs.Line.Mnemonic

/-!
# `PicAssembly.Proofs.Edit.Nesting`: conditionals one in the other

The edit of conditionals gives every `ifdef NAME` the next `endif` that is free, and it does not
ask which block that ends. So it is enough to count, and an `endif` is turned if somewhere behind
an earlier line more such conditionals than `endif`s have come (`Conditional.Awaited`).

Whether that agrees with the nesting is another question. With `Conditional.openBlocks`, the
blocks that are open at a line, it does so for all lines of a nested program just if no block
of another kind stands in a block of `ifdef NAME` (`Edit.conditionals_respects_nesting`).
-/

set_option autoImplicit false

namespace PicAssembly

namespace Conditional

/-! ### Blocks -/

/-- The mnemonics that open a block. -/
def openers : List Text := ["if".toList, "ifdef".toList, "ifndef".toList]

/-- Whether the statement is an `ifdef` with a name. -/
def isNamed (s : Statement) : Bool := (symbol? s).isSome

/-- Whether the statement ends a block. -/
def isEnd (s : Statement) : Bool := s.hasMnemonic "endif".toList

/-- The blocks that are open behind a line, the innermost first, from those open before it. -/
def follow (blocks : List Statement) (line : Line) : List Statement :=
  match line.statement? with
  | none => blocks
  | some s =>
    if s.hasOneOf openers then s :: blocks else if isEnd s then blocks.tail else blocks

/-- The blocks that are open behind some lines. -/
def openBlocks (before : List Line) : List Statement := before.foldl follow []

/-- Whether every end has a block to end and no block is left open, from these blocks on. -/
def nestedFrom : (blocks : List Statement) → List Line → Bool
  | blocks, [] => blocks.isEmpty
  | blocks, line :: lines =>
    !(line.statement?.any isEnd && blocks.isEmpty) && nestedFrom (follow blocks line) lines

/-- Whether the blocks of the lines are properly nested. -/
def Nested (lines : List Line) : Prop := nestedFrom [] lines

instance (lines : List Line) : Decidable (Nested lines) :=
  inferInstanceAs (Decidable (nestedFrom [] lines = true))

/-- Whether the statement opens a block that is not one of `ifdef NAME`. -/
def isOther (s : Statement) : Bool := s.hasOneOf openers && !isNamed s

/-- Whether no block of another kind stands in a block of `ifdef NAME`, with these blocks around
the lines. -/
def unmixedFrom : (blocks : List Statement) → List Line → Bool
  | _, [] => true
  | blocks, line :: lines =>
    !(line.statement?.any isOther && blocks.any isNamed) && unmixedFrom (follow blocks line) lines

/-- Whether no block of another kind stands in a block of `ifdef NAME`. -/
def Unmixed (lines : List Line) : Prop := unmixedFrom [] lines

instance (lines : List Line) : Decidable (Unmixed lines) :=
  inferInstanceAs (Decidable (unmixedFrom [] lines = true))

/-- How many lines of a stretch are of a kind. -/
def count (kind : Statement → Bool) (stretch : List Line) : Nat :=
  stretch.countP fun line => line.statement?.any kind

/-- Up to here some stretch of the lines has more statements `ifdef NAME` than ends. -/
def Awaited (before : List Line) : Prop :=
  ∃ stretch, stretch <:+ before ∧ count isEnd stretch < count isNamed stretch

/-- What becomes of a line if an end is awaited there, or is not. -/
inductive Becomes (awaited : Prop) : Line → Line → Prop where
  | opening {s : Statement} {name : Text} (h : symbol? s = some name) :
      Becomes awaited (.statement s) (.directive ⟨"#ifdef".toList, name, s.comment⟩)
  | ending {s : Statement} (h : isEnd s) (hawaited : awaited) :
      Becomes awaited (.statement s) (.directive ⟨"#endif".toList, [], s.comment⟩)
  | kept {line : Line} (hnamed : line.statement?.any isNamed = false)
      (hend : line.statement?.any isEnd → ¬ awaited) : Becomes awaited line line

/-- A statement `ifdef NAME` opens a block. -/
theorem hasOneOf_of_isNamed {s : Statement} (h : isNamed s) : s.hasOneOf openers := by
  rw [isNamed, symbol?] at h
  split at h
  · next hifdef =>
    rw [Statement.hasOneOf_eq_of_hasMnemonic hifdef]
    decide
  · cases h

/-- What opens a block ends none. -/
theorem isEnd_of_hasOneOf {s : Statement} (h : s.hasOneOf openers) : isEnd s = false := by
  refine Bool.eq_false_iff.mpr fun hend => ?_
  rw [Statement.hasOneOf_eq_of_hasMnemonic hend] at h
  exact absurd h (by decide)

/-- A line does not open a block and end one: it has one mnemonic. -/
theorem any_isEnd_of_any_isNamed {line : Line} (h : line.statement?.any isNamed) :
    line.statement?.any isEnd = false := by
  cases hs : line.statement? with
  | none => rfl
  | some s =>
      rw [hs, Option.any_some] at h
      exact isEnd_of_hasOneOf (hasOneOf_of_isNamed h)

/-- Properly nested lines close all blocks that were open before them. -/
theorem foldl_follow_of_nestedFrom {lines : List Line} : ∀ {blocks : List Statement},
    nestedFrom blocks lines → lines.foldl follow blocks = [] := by
  induction lines with
  | nil => exact fun h => List.isEmpty_iff.mp h
  | cons line lines ih => exact fun h => ih (Bool.and_eq_true_iff.mp h).2

/-- Behind properly nested lines no block is open. -/
theorem Nested.openBlocks_eq_nil {lines : List Line} (h : Nested lines) : openBlocks lines = [] :=
  foldl_follow_of_nestedFrom h

/-- That no block of another kind stands in a block of `ifdef NAME`, told by the lines that open
one. -/
theorem unmixedFrom_iff {lines : List Line} : ∀ {blocks : List Statement},
    unmixedFrom blocks lines ↔ ∀ before s after, lines = before ++ .statement s :: after →
      isOther s → (before.foldl follow blocks).any isNamed = false := by
  induction lines with
  | nil => simp [unmixedFrom]
  | cons line lines ih =>
      intro blocks
      rw [unmixedFrom, Bool.and_eq_true_iff, ih]
      constructor
      · rintro ⟨hline, hlines⟩ before s after hsplit hother
        -- The other block begins on this line or behind it.
        cases before with
        | nil =>
            obtain ⟨rfl, -⟩ := List.cons.inj hsplit
            simpa [Line.statement?, hother] using hline
        | cons _ before =>
            obtain ⟨rfl, htail⟩ := List.cons.inj hsplit
            exact hlines before s after htail hother
      · intro h
        refine ⟨?_, fun before s after hsplit => h (line :: before) s after (by rw [hsplit]; rfl)⟩
        cases line with
        | directive d => rfl
        | definition d => rfl
        | statement s =>
            by_cases hother : isOther s
            · simpa [Line.statement?, hother] using h [] s lines rfl hother
            · simp [Line.statement?, hother]

/-- The same with no blocks open before the lines. -/
theorem unmixed_iff {lines : List Line} : Unmixed lines ↔
    ∀ before s after, lines = before ++ .statement s :: after → isOther s →
      (openBlocks before).any isNamed = false := unmixedFrom_iff

/-! ### One step of the edit -/

/-- How many conditionals are to be closed behind a line. -/
def advance (waiting : Nat) (line : Line) : Nat :=
  if line.statement?.any isNamed then waiting + 1
  else if line.statement?.any isEnd then waiting - 1
  else waiting

/-- The edit of the first line, and the count for the others. -/
theorem exists_convertFrom_cons (n : Nat) (line : Line) :
    ∃ line', Becomes (0 < n) line line' ∧
      ∀ lines, convertFrom n (line :: lines) = line' :: convertFrom (advance n line) lines := by
  cases line with
  | directive d => exact ⟨.directive d, .kept rfl (fun h => by cases h), fun _ => rfl⟩
  | definition d => exact ⟨.definition d, .kept rfl (fun h => by cases h), fun _ => rfl⟩
  | statement s =>
      -- A statement opens a block with a name, or it is an end that something waits for, or it is
      -- kept and counts for nothing.
      cases hname : symbol? s with
      | some name =>
          have hnamed : isNamed s = true := by rw [isNamed, hname, Option.isSome_some]
          refine ⟨_, .opening hname, fun lines => ?_⟩
          simp [convertFrom, hname, advance, Line.statement?, hnamed]
      | none =>
          have hnamed : isNamed s = false := by rw [isNamed, hname, Option.isSome_none]
          by_cases hend : isEnd s ∧ 0 < n
          · have hconvert : s.hasMnemonic "endif".toList ∧ 0 < n := hend
            refine ⟨_, .ending hend.1 hend.2, fun lines => ?_⟩
            rw [convertFrom, hname]
            simp only [if_pos hconvert, advance, Line.statement?, Option.any_some, hnamed, hend.1,
              Bool.false_eq_true, if_false, if_true]
          · have hconvert : ¬ (s.hasMnemonic "endif".toList ∧ 0 < n) := hend
            refine ⟨_, .kept hnamed fun h hn => hend ⟨h, hn⟩, fun lines => ?_⟩
            have hadvance : advance n (.statement s) = n := by
              by_cases h : isEnd s
              · have hn : n = 0 := Nat.eq_zero_of_not_pos fun hn => hend ⟨h, hn⟩
                simp [advance, Line.statement?, hnamed, hn]
              · simp [advance, Line.statement?, hnamed, h]
            rw [convertFrom, hname, hadvance]
            exact if_neg hconvert

/-- How many conditionals are to be closed behind some lines. -/
def waiting (before : List Line) : Nat := before.foldl advance 0

/-- The edit goes through lines in a row by going through the first and then, with the count it has
come to, through the second. -/
theorem convertFrom_append (n : Nat) (before after : List Line) :
    convertFrom n (before ++ after)
      = convertFrom n before ++ convertFrom (before.foldl advance n) after := by
  induction before generalizing n with
  | nil => rfl
  | cons line before ih =>
      obtain ⟨line', -, hcons⟩ := exists_convertFrom_cons n line
      rw [List.cons_append, hcons, hcons, ih]
      rfl

/-- The edit leaves as many lines as there are. -/
theorem length_convertFrom (n : Nat) (lines : List Line) :
    (convertFrom n lines).length = lines.length := by
  induction lines generalizing n with
  | nil => rfl
  | cons line lines ih =>
      obtain ⟨line', -, hcons⟩ := exists_convertFrom_cons n line
      rw [hcons, List.length_cons, ih, List.length_cons]

/-- Every line stays in its place, as what the count makes of it. -/
theorem exists_getElem?_convertFrom (before : List Line) (line : Line) (after : List Line) :
    ∃ line', Becomes (0 < waiting before) line line' ∧
      (convertFrom 0 (before ++ line :: after))[before.length]? = some line' := by
  obtain ⟨line', hbecomes, hcons⟩ := exists_convertFrom_cons (waiting before) line
  refine ⟨line', hbecomes, ?_⟩
  rw [convertFrom_append, ← waiting, hcons, List.getElem?_append_right
    (Nat.le_of_eq (length_convertFrom 0 before)), length_convertFrom, Nat.sub_self]
  rfl

/-- The three kinds of lines, and what they do to the open blocks and to the count. -/
theorem step_cases (line : Line) :
    (∃ s, line = .statement s ∧ s.hasOneOf openers ∧
      (∀ blocks, follow blocks line = s :: blocks) ∧
      ∀ n, advance n line = if isNamed s then n + 1 else n) ∨
    (∃ s, line = .statement s ∧ isEnd s ∧ (∀ blocks, follow blocks line = blocks.tail) ∧
      ∀ n, advance n line = n - 1) ∨
    ((∀ blocks, follow blocks line = blocks) ∧ ∀ n, advance n line = n) := by
  cases line with
  | directive d => exact .inr (.inr ⟨fun _ => rfl, fun _ => rfl⟩)
  | definition d => exact .inr (.inr ⟨fun _ => rfl, fun _ => rfl⟩)
  | statement s =>
      by_cases hopens : s.hasOneOf openers
      -- What opens a block ends none, and the other way round.
      · have hend := isEnd_of_hasOneOf hopens
        refine .inl ⟨s, rfl, hopens, fun _ => if_pos hopens, fun n => ?_⟩
        simp [advance, Line.statement?, hend]
      · have hnamed : isNamed s = false :=
          Bool.eq_false_iff.mpr fun hnamed => hopens (hasOneOf_of_isNamed hnamed)
        by_cases hend : isEnd s
        · refine .inr (.inl ⟨s, rfl, hend, fun _ => ?_, fun n => ?_⟩)
          · simp [follow, Line.statement?, hopens, hend]
          · simp [advance, Line.statement?, hnamed, hend]
        · refine .inr (.inr ⟨fun _ => ?_, fun n => ?_⟩)
          · simp [follow, Line.statement?, hopens, hend]
          · simp [advance, Line.statement?, hnamed, hend]

/-- The count behind one more line is one step further. -/
theorem waiting_concat (before : List Line) (line : Line) :
    waiting (before ++ [line]) = advance (waiting before) line := by
  rw [waiting, List.foldl_append]
  rfl

/-- The blocks behind one more line are one step further. -/
theorem openBlocks_concat (before : List Line) (line : Line) :
    openBlocks (before ++ [line]) = follow (openBlocks before) line := by
  rw [openBlocks, List.foldl_append]
  rfl

/-! ### The count and the stretches -/

/-- One more line adds one to a count if it is of the kind. -/
theorem count_concat (kind : Statement → Bool) (stretch : List Line) (line : Line) :
    count kind (stretch ++ [line])
      = count kind stretch + if line.statement?.any kind then 1 else 0 := by
  rw [count, List.countP_append, List.countP_singleton, count]

/-- The count is the largest surplus of conditionals over ends that a stretch up to there has. -/
theorem lt_waiting_iff {before : List Line} {n : Nat} :
    n < waiting before ↔
      ∃ stretch, stretch <:+ before ∧ count isEnd stretch + n < count isNamed stretch := by
  induction before using List.reverseRecOn generalizing n with
  | nil => simp [waiting, count]
  | append_singleton before line ih =>
      -- A stretch up to here is empty, and then too short, or it ends with this line.
      have hsuffix : (∃ stretch, stretch <:+ before ++ [line] ∧
          count isEnd stretch + n < count isNamed stretch) ↔
          ∃ stretch, stretch <:+ before ∧
            count isEnd (stretch ++ [line]) + n < count isNamed (stretch ++ [line]) := by
        simp only [List.suffix_concat_iff]
        constructor
        · rintro ⟨_, rfl | ⟨stretch, rfl, hstretch⟩, h⟩
          · exact absurd h (by simp [count])
          · exact ⟨stretch, hstretch, h⟩
        · rintro ⟨stretch, hstretch, h⟩
          exact ⟨_, .inr ⟨stretch, rfl, hstretch⟩, h⟩
      rw [waiting_concat, hsuffix]
      simp only [count_concat, advance]
      -- An opener adds one to what waits and to every stretch; an end takes one off both.
      by_cases hnamed : line.statement?.any isNamed
      · have hend : line.statement?.any isEnd = false := any_isEnd_of_any_isNamed hnamed
        simp only [hnamed, hend, if_true, Bool.false_eq_true, if_false, Nat.add_zero]
        cases n with
        | zero => exact iff_of_true (Nat.succ_pos _) ⟨[], List.nil_suffix, by simp [count]⟩
        | succ n => simp only [Nat.succ_lt_succ_iff, ih, Nat.add_succ, Nat.add_zero]
      · by_cases hend : line.statement?.any isEnd
        · simp only [hnamed, hend, if_true, Bool.false_eq_true, if_false, Nat.add_zero,
            Nat.lt_sub_iff_add_lt, ih, Nat.add_assoc, Nat.add_comm 1 n]
        · simp only [hnamed, hend, Bool.false_eq_true, if_false, Nat.add_zero, ih]

/-- An end is awaited just if some stretch of the lines up to there has more statements `ifdef NAME`
than ends. The count starts again at nothing when ends run out, so the stretch need not be all of
them. -/
theorem pos_waiting_iff {before : List Line} : 0 < waiting before ↔ Awaited before :=
  lt_waiting_iff

/-! ### The count and the open blocks -/

/-- Of the open blocks those of `ifdef NAME` are inside. -/
def NamedInside (blocks : List Statement) : Prop :=
  blocks.Pairwise fun inner outer => isNamed outer → isNamed inner

/-- Where the blocks of `ifdef NAME` are inside, one is open just if the innermost block is one. -/
theorem NamedInside.pos_countP_iff {opener : Statement} {outer : List Statement}
    (h : NamedInside (opener :: outer)) :
    0 < (opener :: outer).countP isNamed ↔ isNamed opener := by
  rw [List.countP_pos_iff]
  constructor
  · rintro ⟨s, hs, hnamed⟩
    rcases List.mem_cons.mp hs with rfl | hs
    · exact hnamed
    · exact List.rel_of_pairwise_cons h hs hnamed
  · exact fun hnamed => ⟨opener, List.mem_cons_self, hnamed⟩

/-- An end takes a conditional off the count just if it ends one. -/
theorem NamedInside.countP_tail {opener : Statement} {outer : List Statement}
    (h : NamedInside (opener :: outer)) :
    (opener :: outer).countP isNamed - 1 = outer.countP isNamed := by
  by_cases hnamed : isNamed opener
  · rw [List.countP_cons_of_pos hnamed, Nat.add_sub_cancel]
  · have hzero : ¬ 0 < (opener :: outer).countP isNamed := h.pos_countP_iff.not.mpr hnamed
    rw [List.countP_cons_of_neg hnamed] at hzero ⊢
    omega

/-- In an unmixed program as many ends are awaited as blocks of `ifdef NAME` are open, and these
are the innermost. -/
theorem Unmixed.waiting_eq {lines : List Line} (h : Unmixed lines) (before : List Line) :
    before <+: lines → waiting before = (openBlocks before).countP isNamed ∧
      NamedInside (openBlocks before) := by
  induction before using List.reverseRecOn with
  | nil => exact fun _ => ⟨rfl, .nil⟩
  | append_singleton before line ih =>
      rintro ⟨after, rfl⟩
      obtain ⟨hwaiting, hinside⟩ := ih ⟨line :: after, by simp⟩
      rw [waiting_concat, openBlocks_concat]
      rcases step_cases line with ⟨s, rfl, hopens, hfollow, hadvance⟩ |
        ⟨s, rfl, hend, hfollow, hadvance⟩ | ⟨hfollow, hadvance⟩
      · rw [hfollow, hadvance, hwaiting, List.countP_cons]
        refine ⟨by split <;> rfl, List.pairwise_cons.mpr ⟨fun outer houter hnamed => ?_, hinside⟩⟩
        -- A block of another kind would stand in a block of `ifdef NAME`.
        by_contra hother
        have hnone := unmixed_iff.mp h before s after (by simp) (by simp [isOther, hopens, hother])
        exact absurd hnamed (List.any_eq_false.mp hnone outer houter)
      · rw [hfollow, hadvance, hwaiting]
        cases hblocks : openBlocks before with
        | nil => exact ⟨rfl, .nil⟩
        | cons opener outer =>
            rw [hblocks] at hinside
            exact ⟨hinside.countP_tail, (List.pairwise_cons.mp hinside).2⟩
      · rw [hfollow, hadvance]
        exact ⟨hwaiting, hinside⟩


/-- In these lines an end is awaited just where it ends a block of `ifdef NAME`. -/
def AwaitedByNesting (lines : List Line) : Prop :=
  ∀ before s after opener outer, lines = before ++ .statement s :: after → isEnd s →
    openBlocks before = opener :: outer → (Awaited before ↔ isNamed opener)

/-- Without mixed blocks an end is awaited just where it ends a block of `ifdef NAME`. -/
theorem Unmixed.awaitedByNesting {lines : List Line} (h : Unmixed lines) :
    AwaitedByNesting lines := by
  intro before s after opener outer hlines _ hblocks
  obtain ⟨hwaiting, hinside⟩ := h.waiting_eq before ⟨.statement s :: after, hlines.symm⟩
  rw [hblocks] at hwaiting hinside
  rw [← pos_waiting_iff, hwaiting, hinside.pos_countP_iff]

/-- If the ends are awaited by nesting, as many are awaited as blocks of `ifdef NAME` are open. -/
theorem AwaitedByNesting.waiting_eq {lines : List Line} (h : AwaitedByNesting lines)
    (before : List Line) :
    before <+: lines → waiting before = (openBlocks before).countP isNamed := by
  induction before using List.reverseRecOn with
  | nil => exact fun _ => rfl
  | append_singleton before line ih =>
      rintro ⟨after, rfl⟩
      have hwaiting := ih ⟨line :: after, by simp⟩
      rw [waiting_concat, openBlocks_concat]
      -- The line opens a block, or ends the innermost one, or does neither.
      rcases step_cases line with ⟨s, rfl, -, hfollow, hadvance⟩ |
        ⟨s, rfl, hend, hfollow, hadvance⟩ | ⟨hfollow, hadvance⟩
      · rw [hfollow, hadvance, hwaiting, List.countP_cons]
        split <;> rfl
      · rw [hfollow, hadvance, hwaiting]
        cases hblocks : openBlocks before with
        | nil => rfl
        | cons opener outer =>
            -- Something waits for the end just if the block that it ends has a name.
            have hawaited := h before s after opener outer (by simp) hend hblocks
            rw [← pos_waiting_iff, hwaiting, hblocks] at hawaited
            rw [List.tail_cons]
            by_cases hnamed : isNamed opener
            · rw [List.countP_cons_of_pos hnamed, Nat.add_sub_cancel]
            · have hzero := hawaited.not.mpr hnamed
              rw [List.countP_cons_of_neg hnamed] at hzero ⊢
              omega
      · rw [hfollow, hadvance, hwaiting]

/-- A block that is open is ended somewhere, with the same blocks around it. -/
theorem exists_end {after : List Line} : ∀ {before : List Line} {inner outer : List Statement}
    {s : Statement}, openBlocks before = inner ++ s :: outer → openBlocks (before ++ after) = [] →
    ∃ middle t rest, after = middle ++ .statement t :: rest ∧ isEnd t ∧
      openBlocks (before ++ middle) = s :: outer := by
  induction after with
  | nil =>
      intro before inner outer s hbefore hended
      rw [List.append_nil, hbefore] at hended
      simp at hended
  | cons line after ih =>
      intro before inner outer s hbefore hended
      -- Unless this line ends the block, the block is open behind it, and the others go on.
      have hgo : (∃ inner', openBlocks (before ++ [line]) = inner' ++ s :: outer) →
          ∃ middle t rest, line :: after = middle ++ .statement t :: rest ∧ isEnd t ∧
            openBlocks (before ++ middle) = s :: outer := by
        rintro ⟨inner', hinner'⟩
        obtain ⟨middle, t, rest, rfl, ht, hmiddle⟩ := ih hinner' (by simpa using hended)
        exact ⟨line :: middle, t, rest, rfl, ht, by simpa using hmiddle⟩
      rcases step_cases line with ⟨t, rfl, -, hfollow, -⟩ | ⟨t, rfl, ht, hfollow, -⟩ |
        ⟨hfollow, -⟩
      · exact hgo ⟨t :: inner, by rw [openBlocks_concat, hfollow, hbefore, List.cons_append]⟩
      · cases inner with
        | nil => exact ⟨[], t, after, rfl, ht, by rw [List.append_nil, hbefore, List.nil_append]⟩
        | cons i inner =>
            exact hgo ⟨inner, by rw [openBlocks_concat, hfollow, hbefore, List.cons_append,
              List.tail_cons]⟩
      · exact hgo ⟨inner, by rw [openBlocks_concat, hfollow, hbefore]⟩

/-- Where a block of another kind stands in a block of `ifdef NAME`, its end is awaited. -/
theorem AwaitedByNesting.unmixed {lines : List Line} (h : AwaitedByNesting lines)
    (hended : openBlocks lines = []) : Unmixed lines := by
  refine unmixed_iff.mpr fun before s after hlines hs => ?_
  obtain ⟨hopens, hother⟩ := Bool.and_eq_true_iff.mp hs
  by_contra hnamed
  obtain ⟨outer, houter, hnamed⟩ := List.any_eq_true.mp (Bool.not_eq_false _ ▸ hnamed)
  have hblocks : openBlocks (before ++ [.statement s]) = [] ++ s :: openBlocks before := by
    rw [openBlocks_concat]
    exact if_pos hopens
  have hclosed : openBlocks (before ++ [.statement s] ++ after) = [] := by
    simpa [hlines] using hended
  -- The block that is open inside a block of `ifdef NAME` has an end, at which an end is awaited
  -- for the outer one. By the nesting it ends the inner one, which is of another kind.
  obtain ⟨middle, t, rest, hafter, ht, hmiddle⟩ := exists_end hblocks hclosed
  have hsplit : lines = (before ++ [.statement s] ++ middle) ++ .statement t :: rest := by
    simp [hlines, hafter]
  have hpos : 0 < waiting (before ++ [.statement s] ++ middle) := by
    rw [h.waiting_eq _ ⟨_, hsplit.symm⟩, hmiddle, List.countP_pos_iff]
    exact ⟨outer, List.mem_cons_of_mem s houter, hnamed⟩
  have hs := (h _ t rest s _ hsplit ht hmiddle).mp (pos_waiting_iff.mp hpos)
  simp [hs] at hother

/-- An end is turned just where it is awaited. -/
theorem Becomes.eq_ending_iff {awaited : Prop} {s : Statement} {line' : Line}
    (h : Becomes awaited (.statement s) line') (hs : isEnd s) :
    line' = .directive ⟨"#endif".toList, [], s.comment⟩ ↔ awaited := by
  cases h with
  | @opening _ name hname =>
      have hnamed : isNamed s := by rw [isNamed, hname, Option.isSome_some]
      rw [isEnd_of_hasOneOf (hasOneOf_of_isNamed hnamed)] at hs
      cases hs
  | ending _ hawaited => exact iff_of_true rfl hawaited
  | kept _ hend => exact iff_of_false (fun h => by cases h) (hend hs)

end Conditional

namespace Edit

open Conditional

/-- The edit of conditionals turns every `ifdef NAME`, and the ends that are awaited, whatever
blocks they end. In a nested program these are the ends of the blocks of `ifdef NAME`, just if no
block of another kind stands in one of these. -/
theorem conditionals_respects_nesting (context : Context) {file : SourceFile} {p : Program}
    (hp : file.program = some p) :
    ∃ p', conditionals.change context file = .done { file with program := some p' } ∧
      p'.lines.length = p.lines.length ∧
      (∀ before line after, p.lines = before ++ line :: after →
        ∃ line', p'.lines[before.length]? = some line' ∧
          Becomes (Awaited before) line line') ∧
      (Nested p.lines →
        ((∀ before s after opener outer, p.lines = before ++ .statement s :: after → isEnd s →
          openBlocks before = opener :: outer →
          (p'.lines[before.length]? = some (.directive ⟨"#endif".toList, [], s.comment⟩) ↔
            isNamed opener)) ↔ Unmixed p.lines)) := by
  -- Line by line the edit goes by its count, and the count tells whether an end is awaited.
  have hlines : ∀ before line after, p.lines = before ++ line :: after →
      ∃ line', (convertFrom 0 p.lines)[before.length]? = some line' ∧
        Becomes (Awaited before) line line' := by
    intro before line after hlines
    obtain ⟨line', hbecomes, hget⟩ := exists_getElem?_convertFrom before line after
    rw [pos_waiting_iff] at hbecomes
    exact ⟨line', hlines ▸ hget, hbecomes⟩
  have hends : ∀ before s after, p.lines = before ++ .statement s :: after → isEnd s →
      ((convertFrom 0 p.lines)[before.length]?
        = some (.directive ⟨"#endif".toList, [], s.comment⟩) ↔ Awaited before) := by
    intro before s after hsplit hs
    obtain ⟨line', hget, hbecomes⟩ := hlines before _ after hsplit
    rw [hget, Option.some_inj, hbecomes.eq_ending_iff hs]
  refine ⟨⟨convertFrom 0 p.lines⟩, ?_, length_convertFrom 0 p.lines, hlines, fun hnested => ?_⟩
  · exact congrArg (fun program => Outcome.done { file with program })
      (congrArg (Option.map _) hp)
  · constructor
    · intro h
      -- Where all ends are converted as the nesting asks, they are awaited by the nesting.
      have hagree : AwaitedByNesting p.lines :=
        fun before s after opener outer hsplit hs hblocks =>
          (hends before s after hsplit hs).symm.trans
            (h before s after opener outer hsplit hs hblocks)
      exact hagree.unmixed hnested.openBlocks_eq_nil
    · intro h before s after opener outer hsplit hs hblocks
      exact (hends before s after hsplit hs).trans
        (h.awaitedByNesting before s after opener outer hsplit hs hblocks)

/-- Two blocks one behind the other, the first of them of `ifdef NAME`. -/
theorem conditionals_respects_nesting_unmixed :
    let ifdef : Statement := ⟨none, some "ifdef".toList, [.identifier ['A']], none⟩
    let ifB : Statement := ⟨none, some "IF".toList, [.identifier ['B']], none⟩
    let endif : Statement := ⟨none, some "endif".toList, [], none⟩
    let lines : List Line := [.statement ifdef, .statement endif, .statement ifB, .statement endif]
    let file : SourceFile := ⟨"main.asm".toList, [], [], some ⟨lines⟩⟩
    Nested lines ∧ Unmixed lines ∧
      ∃ p', conditionals.change .empty file = .done { file with program := some p' } ∧
        p'.lines[1]? = some (.directive ⟨"#endif".toList, [], none⟩) ∧
        p'.lines[3]? ≠ some (.directive ⟨"#endif".toList, [], none⟩) := by
  intro ifdef ifB endif lines file
  have hp : file.program = some ⟨lines⟩ := rfl
  have hnested : Nested lines := by decide
  have hunmixed : Unmixed lines := by decide
  obtain ⟨p', hp', -, -, hends⟩ := conditionals_respects_nesting .empty hp
  have hturned := (hends hnested).mpr hunmixed
  refine ⟨hnested, hunmixed, p', hp', ?_, ?_⟩
  · exact (hturned [.statement ifdef] endif _ ifdef [] rfl (by decide) rfl).mpr rfl
  · exact (hturned [.statement ifdef, .statement endif, .statement ifB] endif _ ifB [] rfl
      (by decide) rfl).not.mpr (by decide)

/-- The end of a block of `if` is turned for the `ifdef NAME` around it, and the end of that
stays. -/
theorem not_respects_nesting :
    let ifdef : Statement := ⟨none, some "ifdef".toList, [.identifier ['A']], none⟩
    let ifB : Statement := ⟨none, some "if".toList, [.identifier ['B']], none⟩
    let endif : Statement := ⟨none, some "endif".toList, [], none⟩
    let lines : List Line := [.statement ifdef, .statement ifB, .statement endif, .statement endif]
    let lines' : List Line := [.directive ⟨"#ifdef".toList, ['A'], none⟩, .statement ifB,
      .directive ⟨"#endif".toList, [], none⟩, .statement endif]
    let file : SourceFile := ⟨"main.asm".toList, [], [], some ⟨lines⟩⟩
    Program.parse " ifdef A\n if B\n endif\n endif".toList = .ok ⟨lines⟩ ∧ Nested lines ∧
      conditionals.change .empty file = .done { file with program := some ⟨lines'⟩ } ∧
      openBlocks (lines.take 2) = [ifB, ifdef] ∧ isNamed ifB = false ∧
      openBlocks (lines.take 3) = [ifdef] ∧ isNamed ifdef = true := by
  intro ifdef ifB endif lines lines' file
  exact ⟨by decide +kernel, by decide, rfl, rfl, rfl, rfl, rfl⟩

end Edit

end PicAssembly
