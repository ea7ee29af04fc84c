import Mathlib.Data.List.Infix
import Mathlib.Data.List.TakeWhile
import PicAssembly.Device.Correspondence
import PicAssembly.Program.Parser

/-!
# `PicAssembly.Proofs.Device.BitBlocks`: where the bits of a register stand

The bits of a register stand under a heading, which is a comment with the name of the register and
the word `Bits`, and a line with only a comment on it ends the block. `Device.Block` says which
statements these are, for any notion of a heading and for any answer to the question what a block
is that nothing ends. `Device.blockOf` finds them (`Device.blockOf_eq_iff`).

* `Device.bitBlock_eq_iff`: the block that is looked up is the one under the last comment that
  contains the heading's text, and there is none unless a line with only a comment follows.
* `Device.not_ownBlock`: it is not always the register's own. The text of a heading is found in the
  heading of a register with a longer name as well.
-/

set_option autoImplicit false

namespace PicAssembly

namespace Device

/-! ### Headings and ends of blocks -/

/-- A comment on the line contains the heading of the register, wherever that is. -/
def Announces (register : Text) (line : Line) : Prop :=
  ∃ comment ∈ line.statement?.bind Statement.comment, register ++ " Bits".toList <:+: comment

/-- The text stands somewhere in another, but not behind a character of an identifier. -/
def HasWord (word t : Text) : Prop :=
  ∃ n ≤ t.length, word <+: t.drop n ∧ ∀ c ∈ (t.take n).getLast?, Token.isIdentifierPart c = false

/-- A comment on the line contains the heading of the register, with its name as a whole word. -/
def AnnouncesWord (register : Text) (line : Line) : Prop :=
  ∃ comment ∈ line.statement?.bind Statement.comment, HasWord (register ++ " Bits".toList) comment

/-- The line has a comment and nothing else on it. -/
def IsCommentOnly (line : Line) : Prop :=
  ∃ s ∈ line.statement?, s.label = none ∧ s.mnemonic = none ∧ s.operands = [] ∧ s.comment ≠ none

instance (register : Text) : DecidablePred (Announces register) := fun line =>
  inferInstanceAs (Decidable (∃ comment ∈ line.statement?.bind Statement.comment, _))

instance (word t : Text) : Decidable (HasWord word t) :=
  letI (n : Nat) : Decidable (∀ c ∈ (t.take n).getLast?, Token.isIdentifierPart c = false) :=
    Option.decidableForallMem (t.take n).getLast?
  inferInstanceAs (Decidable (∃ n ≤ t.length, _))

instance (register : Text) : DecidablePred (AnnouncesWord register) := fun line =>
  inferInstanceAs (Decidable (∃ comment ∈ line.statement?.bind Statement.comment, _))

instance : DecidablePred IsCommentOnly := fun line =>
  inferInstanceAs (Decidable (∃ s ∈ line.statement?, _))

/-- The search of the program for a part of a text finds it just if it stands there somewhere. -/
theorem contains_iff {part t : Text} : Text.contains part t ↔ part <:+: t := by
  induction t with
  | nil => rw [Text.contains, List.isEmpty_iff, List.infix_nil]
  | cons c cs ih =>
      rw [Text.contains, Bool.or_eq_true, List.isPrefixOf_iff_prefix, ih, List.infix_cons_iff]

/-- The program looks for the heading of a register in the comment of a line. -/
theorem mentions_iff {register : Text} {line : Line} :
    mentions (register ++ " Bits".toList) line ↔ Announces register line := by
  rw [mentions, Option.any_eq_true]
  exact exists_congr fun comment => and_congr_right fun _ => contains_iff

/-! ### Blocks -/

/-- The statements behind the last heading, up to the next line with only a comment. Those behind a
heading that no such line follows are passed on to `unended`. -/
inductive Block (heads : Line → Prop) (unended : List Statement → List Statement)
    (lines : List Line) : List Statement → Prop where
  | missing : (∀ line ∈ lines, ¬ heads line) → Block heads unended lines []
  | ended {before block after : List Line} {heading last : Line} :
      lines = before ++ heading :: (block ++ last :: after) → heads heading →
      (∀ line ∈ block ++ last :: after, ¬ heads line) → (∀ line ∈ block, ¬ IsCommentOnly line) →
      IsCommentOnly last → Block heads unended lines (block.filterMap Line.statement?)
  | unended {before rest : List Line} {heading : Line} : lines = before ++ heading :: rest →
      heads heading → (∀ line ∈ rest, ¬ heads line) → (∀ line ∈ rest, ¬ IsCommentOnly line) →
      Block heads unended lines (unended (rest.filterMap Line.statement?))

/-- Looks for the last heading, and for the next line with only a comment. -/
def blockOf (heads : Line → Prop) [DecidablePred heads] (unended : List Statement → List Statement)
    (lines : List Line) : List Statement :=
  match afterLast? heads lines with
  | none => []
  | some rest =>
    if rest.any IsCommentOnly then
      (rest.takeWhile (¬ IsCommentOnly ·)).filterMap Line.statement?
    else unended (rest.filterMap Line.statement?)

/-- There is no last line of a kind just if no line is of the kind. -/
theorem afterLast?_eq_none_iff {p : Line → Bool} {lines : List Line} :
    afterLast? p lines = none ↔ ∀ line ∈ lines, p line = false := by
  rw [afterLast?]
  constructor
  · intro h line hline
    split at h
    · next hlength =>
      -- Nothing was dropped, so the run of lines without `p` is all of them.
      have hall : (lines.reverse.takeWhile fun line => !p line) = lines.reverse :=
        (List.takeWhile_prefix _).eq_of_length (by rw [hlength, List.length_reverse])
      have hline := List.takeWhile_eq_self_iff.mp hall line (List.mem_reverse.mpr hline)
      simpa using hline
    · cases h
  · intro h
    have hall : (lines.reverse.takeWhile fun line => !p line) = lines.reverse :=
      List.takeWhile_eq_self_iff.mpr fun line hline => by
        rw [h line (List.mem_reverse.mp hline)]
        rfl
    rw [hall, List.length_reverse, if_pos rfl]

/-- The lines behind the last one of a kind, told by what stands before them: one line of the kind,
and none behind it. -/
theorem afterLast?_eq_some_iff {p : Line → Bool} {lines rest : List Line} :
    afterLast? p lines = some rest ↔
      ∃ before heading, lines = before ++ heading :: rest ∧ p heading ∧
        ∀ line ∈ rest, p line = false := by
  -- Seen from the end, the lines without `p` come first and then the last one with it.
  have hsplit := List.takeWhile_append_dropWhile (p := fun line => !p line) (l := lines.reverse)
  rw [afterLast?]
  constructor
  · intro h
    split at h
    · cases h
    · next hlength =>
      cases h
      cases hdrop : lines.reverse.dropWhile fun line => !p line with
      | nil =>
          rw [hdrop, List.append_nil] at hsplit
          refine absurd ?_ hlength
          rw [hsplit, List.length_reverse]
      | cons heading before =>
          have hheading := List.head?_dropWhile_not (fun line => !p line) lines.reverse
          rw [hdrop] at hheading
          rw [hdrop] at hsplit
          refine ⟨before.reverse, heading, ?_, by simpa using hheading, fun line hline => ?_⟩
          · have hreverse := congrArg List.reverse hsplit
            simpa using hreverse.symm
          · have hline := List.mem_takeWhile_imp (List.mem_reverse.mp hline)
            simpa using hline
  · rintro ⟨before, heading, rfl, hheading, hrest⟩
    have hpass : ∀ line ∈ rest.reverse, (!p line) = true := fun line hline => by
      rw [hrest line (List.mem_reverse.mp hline)]
      rfl
    have hreverse : (before ++ heading :: rest).reverse
        = rest.reverse ++ heading :: before.reverse := by simp
    rw [hreverse, List.takeWhile_append_of_pos hpass,
      List.takeWhile_cons_of_neg (by simp [hheading]), List.append_nil, List.reverse_reverse,
      if_neg]
    simp
    omega

section

variable {heads : Line → Prop} [DecidablePred heads] {unended : List Statement → List Statement}
  {lines : List Line} {statements : List Statement}

/-- The same for a kind that is told by a proposition. -/
theorem afterLast?_heads_eq_some_iff {rest : List Line} :
    afterLast? heads lines = some rest ↔
      ∃ before heading, lines = before ++ heading :: rest ∧ heads heading ∧
        ∀ line ∈ rest, ¬ heads line := by
  rw [afterLast?_eq_some_iff]
  simp only [decide_eq_true_eq, decide_eq_false_iff_not]

/-- What `blockOf` gives is the block. -/
theorem block_blockOf (heads : Line → Prop) [DecidablePred heads]
    (unended : List Statement → List Statement) (lines : List Line) :
    Block heads unended lines (blockOf heads unended lines) := by
  rw [blockOf]
  split
  · next hnone =>
    refine .missing fun line hline => ?_
    have hheads := afterLast?_eq_none_iff.mp hnone line hline
    simpa using hheads
  · next rest hrest =>
    obtain ⟨before, heading, hlines, hheading, hbehind⟩ := afterLast?_heads_eq_some_iff.mp hrest
    split
    · next hany =>
      -- The block ends at the first line with only a comment.
      have hsplit := List.takeWhile_append_dropWhile (p := (¬ IsCommentOnly ·)) (l := rest)
      cases hdrop : rest.dropWhile (¬ IsCommentOnly ·) with
      | nil =>
          obtain ⟨line, hline, hcomment⟩ := List.any_eq_true.mp hany
          have hnot := List.dropWhile_eq_nil_iff.mp hdrop line hline
          simp [hcomment] at hnot
      | cons last after =>
          have hlast := List.head?_dropWhile_not (¬ IsCommentOnly ·) rest
          rw [hdrop] at hsplit hlast
          refine .ended (hlines.trans (by rw [hsplit])) hheading (by rwa [hsplit])
            (fun line hline => ?_) (by simpa using hlast)
          have hnot := List.mem_takeWhile_imp hline
          simpa using hnot
    · next hany =>
      have hnone : ∀ line ∈ rest, ¬ IsCommentOnly line := by simpa using hany
      exact .unended hlines hheading hbehind hnone

/-- There is no other block than what `blockOf` gives. -/
theorem Block.blockOf_eq (h : Block heads unended lines statements) :
    blockOf heads unended lines = statements := by
  rw [blockOf]
  cases h with
  | missing hnone =>
      have hafter : afterLast? heads lines = none :=
        afterLast?_eq_none_iff.mpr fun line hline => by simpa using hnone line hline
      rw [hafter]
  | @ended before block after heading last hlines hheading hbehind hblock hlast =>
      have hafter : afterLast? heads lines = some (block ++ last :: after) :=
        afterLast?_heads_eq_some_iff.mpr ⟨before, heading, hlines, hheading, hbehind⟩
      have hpass : ∀ line ∈ block, decide (¬ IsCommentOnly line) = true := fun line hline =>
        decide_eq_true (hblock line hline)
      rw [hafter]
      dsimp only
      -- The block has an end, and the lines are cut off there.
      rw [if_pos (by simp [hlast]), List.takeWhile_append_of_pos hpass,
        List.takeWhile_cons_of_neg (by simp [hlast]), List.append_nil]
  | @unended before rest heading hlines hheading hbehind hnone =>
      have hafter : afterLast? heads lines = some rest :=
        afterLast?_heads_eq_some_iff.mpr ⟨before, heading, hlines, hheading, hbehind⟩
      rw [hafter]
      dsimp only
      rw [if_neg (by simpa using hnone)]

/-- The relation and the computation say the same, so a block is looked up by its three cases. -/
theorem blockOf_eq_iff :
    blockOf heads unended lines = statements ↔ Block heads unended lines statements := by
  refine ⟨fun h => ?_, Block.blockOf_eq⟩
  have hblock := block_blockOf heads unended lines
  rw [h] at hblock
  exact hblock

end

/-! ### The block that is looked up -/

/-- A remark has a comment and neither a label nor a mnemonic. It may have operands. -/
theorem isRemark_iff {line : Line} :
    isRemark line ↔
      ∃ s ∈ line.statement?, s.label = none ∧ s.mnemonic = none ∧ s.comment ≠ none := by
  rw [isRemark, Option.any_eq_true]
  refine exists_congr fun s => and_congr_right fun _ => ?_
  rw [Bool.and_eq_true, Bool.and_eq_true, Option.isNone_iff_eq_none, Option.isNone_iff_eq_none,
    Option.isSome_iff_ne_none, and_assoc]

/-- Two conditions that agree on the lines cut off the same beginning. -/
theorem takeWhile_congr {p q : Line → Bool} {lines : List Line}
    (h : ∀ line ∈ lines, p line = q line) : lines.takeWhile p = lines.takeWhile q := by
  induction lines with
  | nil => rfl
  | cons line lines ih =>
      rw [List.takeWhile_cons, List.takeWhile_cons, h line List.mem_cons_self,
        ih fun other hother => h other (List.mem_cons_of_mem line hother)]

/-- Where no operands stand alone in front of a comment, a remark is a line with only a comment. -/
theorem isRemark_eq_decide {header : Program} {line : Line} (hline : line ∈ header.lines)
    (hoperands : ∀ s ∈ header.statements, s.label = none → s.mnemonic = none → s.comment ≠ none →
      s.operands = []) :
    isRemark line = decide (IsCommentOnly line) := by
  refine Bool.eq_iff_iff.mpr (isRemark_iff.trans ?_)
  rw [decide_eq_true_iff]
  refine exists_congr fun s => and_congr_right fun hs => ?_
  have hmem : s ∈ header.statements := List.mem_filterMap.mpr ⟨line, hline, hs⟩
  constructor
  · rintro ⟨hlabel, hmnemonic, hcomment⟩
    exact ⟨hlabel, hmnemonic, hoperands s hmem hlabel hmnemonic hcomment, hcomment⟩
  · rintro ⟨hlabel, hmnemonic, -, hcomment⟩
    exact ⟨hlabel, hmnemonic, hcomment⟩

/-- The lines are looked through for a heading, and those behind it for a remark. -/
theorem bitBlock_eq_blockOf {header : Program} (register : Text)
    (hremark : ∀ line ∈ header.lines, isRemark line = decide (IsCommentOnly line)) :
    bitBlock header register = blockOf (Announces register) (fun _ => []) header.lines := by
  have hheads : mentions (register ++ " Bits".toList)
      = fun line => decide (Announces register line) :=
    funext fun line => Bool.eq_iff_iff.mpr (mentions_iff.trans decide_eq_true_iff.symm)
  rw [bitBlock, blockOf, hheads]
  cases hafter : afterLast? (fun line => decide (Announces register line)) header.lines with
  | none => rfl
  | some rest =>
      obtain ⟨before, heading, hlines, -, -⟩ := afterLast?_eq_some_iff.mp hafter
      -- The lines behind the heading are lines of the header, where the two conditions agree.
      have hrest : ∀ line ∈ rest, isRemark line = decide (IsCommentOnly line) := by
        intro line hline
        refine hremark line ?_
        rw [hlines]
        exact List.mem_append_right before (List.mem_cons_of_mem heading hline)
      have hany : rest.any isRemark = rest.any IsCommentOnly := by
        rw [Bool.eq_iff_iff, List.any_eq_true, List.any_eq_true]
        exact exists_congr fun line => and_congr_right fun hline => by rw [hrest line hline]
      have htake : (rest.takeWhile fun line => !isRemark line)
          = rest.takeWhile (¬ IsCommentOnly ·) :=
        takeWhile_congr fun line hline => by rw [hrest line hline, decide_not]
      dsimp only
      rw [hany, htake]

/-- The statements that are looked up for a register are those behind the last comment that
contains its heading, up to the next line with only a comment. There are none unless such a line
follows. -/
theorem bitBlock_eq_iff {header : Program} {register : Text} {statements : List Statement}
    (hoperands : ∀ s ∈ header.statements, s.label = none → s.mnemonic = none → s.comment ≠ none →
      s.operands = []) :
    bitBlock header register = statements ↔
      Block (Announces register) (fun _ => []) header.lines statements := by
  have hremark : ∀ line ∈ header.lines, isRemark line = decide (IsCommentOnly line) :=
    fun line hline => isRemark_eq_decide hline hoperands
  rw [bitBlock_eq_blockOf register hremark, blockOf_eq_iff]

/-- The statement `NAME equ NUMBER`, on a line of its own. -/
def equLine (name : Text) (value : Nat) (literal : Text) : Line :=
  .statement ⟨some name, some "EQU".toList, [.number value .hexadecimal literal], none⟩

/-- A line with only a comment. -/
def remarkLine (text : Text) : Line := .statement ⟨none, none, [], some text⟩

/-- A block that a heading ends, with one under a longer name before it. -/
theorem bitBlock_eq_iff_status :
    let carry := equLine ['C'] 0 "H'0'".toList
    let zero := equLine ['Z'] 2 "H'2'".toList
    let header : Program := ⟨[remarkLine "XSTATUS Bits".toList, zero,
      remarkLine "----- STATUS Bits -----".toList, carry, zero, remarkLine "WREG Bits".toList]⟩
    (∀ s ∈ header.statements, s.label = none → s.mnemonic = none → s.comment ≠ none →
      s.operands = []) ∧
    Block (Announces "STATUS".toList) (fun _ => []) header.lines
      ([carry, zero].filterMap Line.statement?) := by
  intro carry zero header
  have hoperands : ∀ s ∈ header.statements, s.label = none → s.mnemonic = none →
      s.comment ≠ none → s.operands = [] := by decide
  exact ⟨hoperands, (bitBlock_eq_iff hoperands).mp (by decide +kernel)⟩

/-- The block of a register's own: the heading has its name as a whole word, and a block that no
line with only a comment ends goes on to the end of the program. -/
def OwnBlock (header : Program) (register : Text) : List Statement → Prop :=
  Block (AnnouncesWord register) id header.lines

/-- The block that is looked up is not always the register's own. The heading of a register with a
longer name is taken for it, the last block of a program is left out if nothing ends it, and
operands alone in front of a comment end a block. -/
theorem not_ownBlock :
    let longer : Program := ⟨[equLine "CON".toList 3 "H'3'".toList, remarkLine "INTCON Bits".toList,
      equLine "GIE".toList 0 "H'0'".toList, remarkLine "end".toList]⟩
    let last : Program := ⟨[equLine "STATUS".toList 3 "H'3'".toList,
      remarkLine "STATUS Bits".toList, equLine ['C'] 0 "H'0'".toList]⟩
    let number : Line := .statement ⟨none, none, [.number 5 .hexadecimal ['5']], some "five".toList⟩
    let between : Program := ⟨[equLine "STATUS".toList 3 "H'3'".toList,
      remarkLine "STATUS Bits".toList, number, equLine ['C'] 0 "H'0'".toList,
      remarkLine "end".toList]⟩
    (Program.parse "CON EQU H'3'\n; INTCON Bits\nGIE EQU H'0'\n; end".toList = .ok longer ∧
      ¬ OwnBlock longer "CON".toList (bitBlock longer "CON".toList)) ∧
    (Program.parse "STATUS EQU H'3'\n; STATUS Bits\nC EQU H'0'".toList = .ok last ∧
      ¬ OwnBlock last "STATUS".toList (bitBlock last "STATUS".toList)) ∧
    (Program.parse "STATUS EQU H'3'\n; STATUS Bits\n 5 ; five\nC EQU H'0'\n; end".toList
        = .ok between ∧
      ¬ OwnBlock between "STATUS".toList (bitBlock between "STATUS".toList)) := by
  intro longer last number between
  -- A block of a register's own is what `blockOf` computes, so it is enough to compare.
  have hne {header : Program} {register : Text}
      (h : blockOf (AnnouncesWord register) id header.lines ≠ bitBlock header register) :
      ¬ OwnBlock header register (bitBlock header register) := fun hblock => h hblock.blockOf_eq
  exact ⟨⟨by decide +kernel, hne (by decide +kernel)⟩, ⟨by decide +kernel, hne (by decide +kernel)⟩,
    ⟨by decide +kernel, hne (by decide +kernel)⟩⟩

end Device

end PicAssembly
