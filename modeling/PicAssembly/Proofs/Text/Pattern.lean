import PicAssembly.Text.Pattern

/-!
# `PicAssembly.Proofs.Text.Pattern`: matching by what comes next

What stands behind a pattern decides which of its ways is taken. `first? pattern t next` is the
answer of the first way for which `next` has one, and a pattern in front of another is matched
with the other one in `next` (`first?_both`).

* `first?_many`: a greedy repetition takes all it can if nothing behind it may begin with a
  character of its class.
* `first?_few_cons`: a lazy repetition takes a character only if `next` has no answer without it.
-/

set_option autoImplicit false

namespace PicAssembly

namespace Pattern

variable {α : Type}

/-- The answer of the first way for which `next` has one. -/
def first? (pattern : Pattern) (t : Text) (next : Way → Option α) : Option α :=
  (pattern.ways t).findSome? next

/-- What a pattern captures is the answer of its first way of matching, so `first?` with a
continuation says everything about a search. -/
theorem captures?_eq_first? (pattern : Pattern) (t : Text) :
    pattern.captures? t = pattern.first? t fun way => some way.captured := by
  rw [captures?, first?]
  cases pattern.ways t with
  | nil => rfl
  | cons way ways => rfl

/-- Where every way has an answer, there is none only if there is no way. -/
theorem first?_some_eq_none_iff {pattern : Pattern} {t : Text} {answer : Way → α} :
    (pattern.first? t fun way => some (answer way)) = none ↔ pattern.ways t = [] := by
  rw [first?]
  cases pattern.ways t with
  | nil => exact iff_of_true rfl rfl
  | cons way ways => exact iff_of_false (Option.some_ne_none _) (List.cons_ne_nil way ways)

/-- Two patterns in a row: each way of the first goes on with each way of the second. -/
theorem first?_both (first second : Pattern) (t : Text) (next : Way → Option α) :
    (both first second).first? t next =
      first.first? t fun way => second.first? way.rest fun way' => next (way.followedBy way') := by
  show ((first.ways t).flatMap fun way => (second.ways way.rest).map way.followedBy).findSome? next
    = (first.ways t).findSome? fun way =>
        (second.ways way.rest).findSome? fun way' => next (way.followedBy way')
  induction first.ways t with
  | nil => rfl
  | cons way ways ih =>
      rw [List.flatMap_cons, List.findSome?_append, List.findSome?_map, List.findSome?_cons, ih]
      show Option.or ((second.ways way.rest).findSome? fun way' => next (way.followedBy way')) _ = _
      cases (second.ways way.rest).findSome? fun way' => next (way.followedBy way') with
      | none => rfl
      | some answer => rfl

/-- A group matches as the pattern inside does, and captures what that took. -/
theorem first?_group (inner : Pattern) (t : Text) (next : Way → Option α) :
    (group inner).first? t next = inner.first? t fun way => next way.grouped := by
  show ((inner.ways t).map Way.grouped).findSome? next = _
  rw [List.findSome?_map]
  rfl

/-- One character does not match where there is none. -/
theorem first?_one_nil (p : Char → Bool) (next : Way → Option α) :
    (one p).first? [] next = none := rfl

/-- One character matches just if it is of the class. -/
theorem first?_one_cons (p : Char → Bool) (c : Char) (cs : Text) (next : Way → Option α) :
    (one p).first? (c :: cs) next = if p c then next (.behind c (.stay cs)) else none := by
  show (if p c then [Way.behind c (.stay cs)] else []).findSome? next = _
  split
  · rw [List.findSome?_singleton]
  · rfl

/-- The end of the text matches at the end only. -/
theorem first?_finish (t : Text) (next : Way → Option α) :
    finish.first? t next = if t = [] then next (.stay []) else none := by
  cases t with
  | nil =>
      show [Way.stay []].findSome? next = _
      rw [List.findSome?_singleton, if_pos rfl]
  | cons c cs => rfl

/-- As few characters as possible are none at the end of the text. -/
theorem first?_few_nil (p : Char → Bool) (next : Way → Option α) :
    (few p).first? [] next = next (.stay []) := by
  show [Way.stay []].findSome? next = _
  rw [List.findSome?_singleton]

/-- As few characters as possible: first none, and only if nothing comes of it one and then more. -/
theorem first?_few_cons (p : Char → Bool) (c : Char) (cs : Text) (next : Way → Option α) :
    (few p).first? (c :: cs) next =
      (next (.stay (c :: cs))).or
        (if p c then (few p).first? cs fun way => next (.behind c way) else none) := by
  have htaken : (if p c then (runs p cs).map (Way.behind c) else []).findSome? next
      = if p c then (few p).first? cs fun way => next (.behind c way) else none := by
    split
    · rw [List.findSome?_map]
      rfl
    · rfl
  show (Way.stay (c :: cs) :: if p c then (runs p cs).map (Way.behind c) else []).findSome? next = _
  rw [List.findSome?_cons, htaken]
  cases next (.stay (c :: cs)) with
  | none => rfl
  | some answer => rfl

/-- As many characters as possible: first one and then more, and only if nothing comes of it
none. -/
theorem first?_many_cons (p : Char → Bool) (c : Char) (cs : Text) (next : Way → Option α) :
    (many p).first? (c :: cs) next =
      (if p c then (many p).first? cs fun way => next (.behind c way) else none).or
        (next (.stay (c :: cs))) := by
  show (Way.stay (c :: cs) :: if p c then (runs p cs).map (Way.behind c) else []).reverse.findSome?
    next = _
  rw [List.reverse_cons, List.findSome?_append, List.findSome?_singleton]
  split
  · rw [← List.map_reverse, List.findSome?_map]
    rfl
  · rfl

/-- Nothing is given back to what comes next if that begins with no character of the class. -/
theorem first?_many {p : Char → Bool} {next : Way → Option α}
    (hnext : ∀ way c cs, p c → way.rest = c :: cs → next way = none) (t : Text) :
    (many p).first? t next = next ⟨t.takeWhile p, [], t.dropWhile p⟩ := by
  induction t generalizing next with
  | nil =>
      show [Way.stay []].findSome? next = _
      rw [List.findSome?_singleton]
      rfl
  | cons c cs ih =>
      rw [first?_many_cons]
      by_cases hc : p c
      · rw [if_pos hc, hnext (.stay (c :: cs)) c cs hc rfl, Option.or_none,
          ih fun way d ds hd hrest => hnext (.behind c way) d ds hd hrest,
          List.takeWhile_cons_of_pos hc, List.dropWhile_cons_of_pos hc]
        rfl
      · rw [if_neg hc, Option.none_or, List.takeWhile_cons_of_neg hc, List.dropWhile_cons_of_neg hc]
        rfl

end Pattern

end PicAssembly
