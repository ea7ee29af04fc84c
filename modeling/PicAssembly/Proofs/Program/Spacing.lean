import Mathlib.Data.List.Forall2
import PicAssembly.Program.Parser
import PicAssembly.Proofs.Line.Spacing

/-!
# `PicAssembly.Proofs.Program.Spacing`: programs are read whatever their spacing

How a line is spaced and how lines are ended makes no difference to what is read
(`Program.readAlike_spacing`): a line may be spaced anew (`Token.Respaced`), and a carriage return
may stand before every line feed (`Text.crlf`). That a line can be cut into tokens is assumed,
since in an open literal a blank counts.
-/

set_option autoImplicit false

namespace PicAssembly

namespace Text

/-- The text with a carriage return before every line feed. -/
def crlf (t : Text) : Text := t.flatMap fun c => if c = '\n' then ['\r', '\n'] else [c]

/-- Only a line feed gets a carriage return before it. -/
theorem crlf_cons_of_ne {c : Char} (h : c ≠ '\n') (t : Text) : crlf (c :: t) = c :: crlf t := by
  rw [crlf, List.flatMap_cons, if_neg h]
  rfl

/-- A character that separates nothing belongs to the first piece. -/
theorem splitAt_cons_of_ne {sep c : Char} {t first : Text} {pieces : List Text} (h : c ≠ sep)
    (ht : splitAt sep t = first :: pieces) : splitAt sep (c :: t) = (c :: first) :: pieces := by
  rw [splitAt, if_neg h, ht]

/-- The same line twice, the second time maybe with a carriage return behind it. -/
def SameButEnd (line line' : Text) : Prop := ∃ u, line' = line ++ u ∧ ∀ c ∈ u, c = '\r'

/-- With carriage returns before its line feeds a text has the same lines. -/
theorem splitAt_crlf (t : Text) :
    List.Forall₂ SameButEnd (splitAt '\n' t) (splitAt '\n' (crlf t)) := by
  induction t with
  | nil => exact .cons ⟨[], rfl, by simp⟩ .nil
  | cons c cs ih =>
      by_cases hc : c = '\n'
      · subst hc
        have hcrlf : crlf ('\n' :: cs) = ['\r'] ++ '\n' :: crlf cs := rfl
        have hleft : splitAt '\n' ('\n' :: cs) = [] :: splitAt '\n' cs :=
          splitAt_append List.not_mem_nil cs
        rw [hcrlf, splitAt_append (by decide), hleft]
        exact .cons ⟨['\r'], rfl, by simp⟩ ih
      · rw [crlf_cons_of_ne hc]
        -- The character goes to the first piece on both sides.
        generalize hpieces : splitAt '\n' cs = pieces, hpieces' : splitAt '\n' (crlf cs) = pieces'
          at ih
        cases ih with
        | nil => exact absurd hpieces (splitAt_ne_nil '\n' cs)
        | cons hfirst hrest =>
            obtain ⟨u, rfl, hu⟩ := hfirst
            rw [splitAt_cons_of_ne hc hpieces, splitAt_cons_of_ne hc hpieces']
            exact .cons ⟨u, rfl, hu⟩ hrest

end Text

/-- Two faults of one kind with one message. -/
def Error.SaysTheSame (e e' : Error) : Prop := e.SameCause e' ∧ e.message = e'.message

namespace Program

/-- A file is read like another if each of its lines is. -/
theorem readAlike_parseLines {E : Error → Error → Prop} {texts texts' : List Text}
    (h : List.Forall₂ (fun text text' => ∀ index,
      ReadAlike E Eq (Line.parse text index) (Line.parse text' index)) texts texts') :
    ∀ index, ReadAlike E Eq (parseLines index texts) (parseLines index texts') := by
  induction h with
  | nil => exact fun _ => .ok rfl
  | cons hline _ ih =>
      intro index
      refine (hline index).bind ?_
      rintro line _ rfl
      refine (ih (index + 1)).bind ?_
      rintro lines _ rfl
      exact .ok rfl

/-- A file whose lines can be cut into tokens is read the same with carriage returns. -/
theorem readAlike_crlf {text : Text} (h : ∀ line ∈ Text.splitAt '\n' text, ∃ index c,
    Cursor.ofScanner (.ofLine line index) = .ok c) :
    ReadAlike Error.SameCause Eq (parse text) (parse text.crlf) := by
  have hline : ∀ line line', ((∃ index c, Cursor.ofScanner (.ofLine line index) = .ok c) ∧
      Text.SameButEnd line line') → ∀ index,
      ReadAlike Error.SameCause Eq (Line.parse line index) (Line.parse line' index) := by
    rintro line _ ⟨⟨index', c, hc⟩, u, rfl, hu⟩ index
    obtain ⟨d, hd⟩ := Cursor.exists_ofScanner hc index
    exact Line.readAlike_append_blanks hd (fun ch hch => by rw [hu ch hch]; decide) index
  have hlines := (List.forall₂_and_left _ _).mpr ⟨h, Text.splitAt_crlf text⟩
  exact (readAlike_parseLines (hlines.imp hline) 0).bind fun _ _ heq =>
    .ok (congrArg Program.mk heq)

/-- What is read from a line depends on its tokens only, and not on the spacing between them. In
particular it makes no difference to a file whether its lines end in carriage returns. -/
theorem readAlike_spacing :
    (∀ (text line : Text) (index index' : Nat) (tokens : List Token) (eof : Token),
      (Scanner.ofLine text index).run = (tokens, .ok eof) → Token.Respaced tokens line →
        ReadAlike Error.SaysTheSame Eq (Line.parse text index) (Line.parse line index')) ∧
    ∀ text : Text,
      (∀ line ∈ Text.splitAt '\n' text, ∃ index tokens eof,
        (Scanner.ofLine line index).run = (tokens, .ok eof)) →
        ReadAlike Error.SaysTheSame Eq (parse text) (parse text.crlf) := by
  -- Faults for one cause say the same, so the lemmas on causes are enough.
  have hsays : ∀ e e' : Error, e.SameCause e' → e.SaysTheSame e' := fun _ _ h => ⟨h, h.message_eq⟩
  constructor
  · intro text line index index' tokens eof hrun hrespaced
    have hc := Cursor.ofScanner_eq_ok_iff (c := ⟨tokens, eof, text, index⟩).mpr ⟨hrun, rfl, rfl⟩
    exact (Line.readAlike_of_respaced hc hrespaced index').mono hsays
  · intro text h
    refine (readAlike_crlf fun line hline => ?_).mono hsays
    obtain ⟨index, tokens, eof, hrun⟩ := h line hline
    exact ⟨index, _, Cursor.ofScanner_eq_ok_iff (c := ⟨tokens, eof, line, index⟩).mpr
      ⟨hrun, rfl, rfl⟩⟩

/-- A line with a label, an operator between its operands and a comment, and a file of two
lines. -/
theorem readAlike_spacing_labelled :
    ReadAlike Error.SaysTheSame Eq (Line.parse "lbl:movlw H'0A'+x;y".toList 0)
      (Line.parse "lbl : movlw\tH'0A' + x  ;y\r".toList 0) ∧
    ReadAlike Error.SaysTheSame Eq (parse "x\n nop ;y\n".toList)
      (parse "x\r\n nop ;y\r\n".toList) := by
  refine ⟨readAlike_spacing.1 _ _ 0 0
    [⟨.identifier, "lbl".toList, 0, 0⟩, ⟨.colon, ":".toList, 0, 3⟩,
      ⟨.identifier, "movlw".toList, 0, 4⟩, ⟨.number, "H'0A'".toList, 0, 10⟩,
      ⟨.binary .add, "+".toList, 0, 15⟩, ⟨.identifier, "x".toList, 0, 16⟩,
      ⟨.comment, ";y".toList, 0, 17⟩] ⟨.eof, [], 0, 19⟩ (by decide +kernel) ?_,
    readAlike_spacing.2 "x\n nop ;y\n".toList fun line hline => ⟨0, ?_⟩⟩
  · have hspace : ∀ c ∈ [' '], Token.isSpacing c := by simp [Token.isSpacing]
    have hspaces : ∀ c ∈ [' ', ' '], Token.isSpacing c := by simp [Token.isSpacing]
    have htab : ∀ c ∈ ['\t'], Token.isSpacing c := by simp [Token.isSpacing]
    have hreturn : ∀ c ∈ ['\r'], Token.isSpacing c := by simp [Token.isSpacing]
    exact ⟨[], _, (by decide), by simp, by simp,
      .cons _ hspace (by simp) <| .cons _ hspace (by simp) <| .cons _ htab (by simp) <|
      .cons _ hspace (by simp) <| .cons _ hspace (by simp) <| .cons _ hspaces (by simp) <|
      .cons _ hreturn (by simp) .nil⟩
  · have hline : line ∈ ["x".toList, " nop ;y".toList, []] := hline
    simp only [List.mem_cons, List.not_mem_nil, or_false] at hline
    rcases hline with rfl | rfl | rfl <;> exact ⟨_, _, rfl⟩

end Program

end PicAssembly
