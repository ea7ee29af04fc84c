import Mathlib.Data.List.Forall2
import PicAssembly.Proofs.Token.Scanning

/-!
# `PicAssembly.Proofs.Token.Reading`: cursors and the tokens they move over

The readers of a line pass a cursor on. `Cursor.Reads c ls c'` says what a reader has done
to it: `c'` is `c` behind the tokens `ls`. Reading is sequential (`Reads.append`), nothing of
a line is lost (`Reads.lexemes`), and one token is read by `consume` (`reads_consume`,
`reads_of_lexemes`).

`Cursor.kind` answers with the token at the end of the line when there is no other. A cursor
that the scanner made has a token of the kind `eof` there, and `kind_eq_headKind` turns the
question into one about the list of tokens.
-/

set_option autoImplicit false

namespace PicAssembly

open Token (Lexeme Scans Spelled)

/-- A reading in two parts succeeds if both parts do. -/
theorem bind_eq_ok_iff {ε α β : Type} {x : Except ε α} {f : α → Except ε β} {b : β} :
    (x >>= f) = .ok b ↔ ∃ a, x = .ok a ∧ f a = .ok b := by
  cases x <;> simp [bind, Except.bind]

/-- A reader fails just if it has no result. With it the equivalences on results say when there is a
fault. -/
theorem exists_eq_error_iff {ε α : Type} {x : Except ε α} :
    (∃ e, x = .error e) ↔ ¬ ∃ a, x = .ok a := by
  cases x <;> simp

/-- To change the faults of a reading is not to change when it succeeds. -/
theorem mapError_eq_ok_iff {ε ε' α : Type} {f : ε → ε'} {x : Except ε α} {a : α} :
    x.mapError f = .ok a ↔ x = .ok a := by
  cases x <;> simp [Except.mapError]

/-- All members of a list have answers if each has one. -/
theorem exists_mapM_eq_ok_iff {ε α β : Type} {f : α → Except ε β} {xs : List α} :
    (∃ ys, xs.mapM f = .ok ys) ↔ ∀ x ∈ xs, ∃ y, f x = .ok y := by
  induction xs with
  | nil => exact iff_of_true ⟨[], rfl⟩ (by simp)
  | cons x xs ih =>
      rw [List.forall_mem_cons, ← ih, List.mapM_cons]
      simp only [bind_eq_ok_iff]
      constructor
      · rintro ⟨_, y, hy, ys, hys, -⟩
        exact ⟨⟨y, hy⟩, ys, hys⟩
      · rintro ⟨⟨y, hy⟩, ys, hys⟩
        exact ⟨_, y, hy, ys, hys, rfl⟩

/-- The answers stand in the order of the members. -/
theorem forall₂_of_mapM {ε α β : Type} {f : α → Except ε β} {xs : List α} {ys : List β}
    (h : xs.mapM f = .ok ys) : List.Forall₂ (fun x y => f x = .ok y) xs ys := by
  induction xs generalizing ys with
  | nil =>
      cases h
      exact .nil
  | cons x xs ih =>
      rw [List.mapM_cons] at h
      obtain ⟨y, hy, h⟩ := bind_eq_ok_iff.mp h
      obtain ⟨ys', hys, h⟩ := bind_eq_ok_iff.mp h
      cases h
      exact .cons hy (ih hys)

/-- What holds of every answer holds of the answers to all. -/
theorem forall_mem_of_mapM {ε α β : Type} {f : α → Except ε β} {P : β → Prop} {xs : List α}
    {ys : List β} (h : xs.mapM f = .ok ys) (hP : ∀ x ∈ xs, ∀ y, f x = .ok y → P y) :
    ∀ y ∈ ys, P y := by
  induction xs generalizing ys with
  | nil =>
      cases h
      simp
  | cons x xs ih =>
      rw [List.mapM_cons] at h
      obtain ⟨y, hy, h⟩ := bind_eq_ok_iff.mp h
      obtain ⟨ys', hys, h⟩ := bind_eq_ok_iff.mp h
      cases h
      obtain ⟨hx, hxs⟩ := List.forall_mem_cons.mp hP
      exact List.forall_mem_cons.mpr ⟨hx y hy, ih hys hxs⟩

/-- The kind of the first of some tokens, that of the end of the line if there is none. -/
def Token.headKind : List Lexeme → Token.Kind
  | [] => .eof
  | l :: _ => l.kind

/-- The tokens of a scan do not begin with a directive. -/
theorem Token.Scans.headKind_ne_pragma {t rest : Text} {ls : List Lexeme}
    (h : Scans t ls rest) : Token.headKind ls ≠ .pragma := by
  cases ls with
  | nil => simp [Token.headKind]
  | cons l ls => exact (h.spelled l List.mem_cons_self).kind_ne_pragma

namespace Cursor

/-- The tokens still to be read, without their places. -/
def lexemes (c : Cursor) : List Lexeme := c.rest.map Token.lexeme

/-- There are as many tokens to read as the cursor holds. -/
theorem length_lexemes (c : Cursor) : c.lexemes.length = c.rest.length := by
  simp [lexemes]

/-- Where tokens are ahead, something is left to read. -/
theorem length_pos_of_lexemes {c : Cursor} {ls r : List Lexeme} (h : c.lexemes = ls ++ r)
    (hne : ls ≠ []) : 0 < c.rest.length := by
  rw [← length_lexemes, h, List.length_append]
  exact Nat.add_pos_left (List.length_pos_iff.mpr hne) r.length

/-- `c'` is the cursor `c` behind the tokens `ls`. -/
def Reads (c : Cursor) (ls : List Lexeme) (c' : Cursor) : Prop :=
  ∃ tokens, c = { c' with rest := tokens ++ c'.rest } ∧ tokens.map Token.lexeme = ls

namespace Reads

/-- No tokens lie between a cursor and itself. -/
theorem refl (c : Cursor) : Reads c [] c := ⟨[], rfl, rfl⟩

/-- Reading some tokens and then some more. -/
theorem append {c c' c'' : Cursor} {ls ms : List Lexeme} (h : Reads c ls c')
    (h' : Reads c' ms c'') : Reads c (ls ++ ms) c'' := by
  obtain ⟨tokens, rfl, rfl⟩ := h
  obtain ⟨tokens', hc, rfl⟩ := h'
  refine ⟨tokens ++ tokens', ?_, by simp⟩
  rw [hc, List.append_assoc]

/-- What is read after one token comes behind it. -/
theorem cons {c c' c'' : Cursor} {l : Lexeme} {ls : List Lexeme} (h : Reads c [l] c')
    (h' : Reads c' ls c'') : Reads c (l :: ls) c'' := h.append h'

/-- The tokens before a reading are those read and those left. -/
theorem lexemes {c c' : Cursor} {ls : List Lexeme} (h : Reads c ls c') :
    c.lexemes = ls ++ c'.lexemes := by
  obtain ⟨tokens, rfl, rfl⟩ := h
  simp [Cursor.lexemes]

/-- What is left is determined by what was there and what was read. -/
theorem lexemes_eq {c c' : Cursor} {ls r : List Lexeme} (h : Reads c ls c')
    (hc : c.lexemes = ls ++ r) : c'.lexemes = r :=
  List.append_cancel_left (h.lexemes.symm.trans hc)

/-- After the first token the others are left. -/
theorem tail_eq {c c' : Cursor} {l : Lexeme} {r : List Lexeme} (h : Reads c [l] c')
    (hc : c.lexemes = l :: r) : c'.lexemes = r := h.lexemes_eq hc

/-- The end of the line stays the same. -/
theorem eof {c c' : Cursor} {ls : List Lexeme} (h : Reads c ls c') : c'.eof = c.eof := by
  obtain ⟨tokens, rfl, -⟩ := h
  rfl

/-- Every token read is one token less. -/
theorem length {c c' : Cursor} {ls : List Lexeme} (h : Reads c ls c') :
    c.rest.length = ls.length + c'.rest.length := by
  obtain ⟨tokens, rfl, rfl⟩ := h
  simp

/-- A token that is read is one less to read. It is the measure by which the readers end. -/
theorem length_succ {c c' : Cursor} {l : Lexeme} (h : Reads c [l] c') :
    c.rest.length = c'.rest.length + 1 := by
  rw [h.length, List.length_singleton, Nat.add_comm]

end Reads

/-! ### The token ahead -/

/-- If there is a token, `consume` reads it. -/
theorem reads_of_lexemes {c : Cursor} {l : Lexeme} {r : List Lexeme}
    (h : c.lexemes = l :: r) : Reads c [l] c.consume ∧ (c.peek 0).lexeme = l := by
  obtain ⟨rest, eof, source, line⟩ := c
  cases rest with
  | nil => cases h
  | cons token tokens =>
      obtain ⟨rfl, -⟩ := List.cons.inj h
      exact ⟨⟨[token], rfl, rfl⟩, rfl⟩

/-- Behind the last token stands the end of the line. -/
theorem kind_eq_headKind {c : Cursor} (h : c.eof.kind = .eof) :
    c.kind = Token.headKind c.lexemes := by
  obtain ⟨rest, eof, source, line⟩ := c
  cases rest with
  | nil => exact h
  | cons token tokens => rfl

/-- The kind the readers decide by is the one of the first token ahead. -/
theorem kind_of_lexemes {c : Cursor} {l : Lexeme} {r : List Lexeme} (h : c.lexemes = l :: r) :
    c.kind = l.kind := congrArg Lexeme.kind (reads_of_lexemes h).2

/-- The text ahead is the one of the first token. -/
theorem text_of_lexemes {c : Cursor} {l : Lexeme} {r : List Lexeme} (h : c.lexemes = l :: r) :
    (c.peek 0).text = l.text := congrArg Lexeme.text (reads_of_lexemes h).2

/-- What is not the end of the line is a token. -/
theorem reads_consume {c : Cursor} (h : c.eof.kind = .eof) (hk : c.kind ≠ .eof) :
    Reads c [(c.peek 0).lexeme] c.consume := by
  obtain ⟨rest, eof, source, line⟩ := c
  cases rest with
  | nil => exact absurd h hk
  | cons token tokens => exact ⟨[token], rfl, rfl⟩

/-- A reader that wants the kind of the first token gets the token and goes behind it. -/
theorem expect_of_lexemes {c : Cursor} {l : Lexeme} {r : List Lexeme} (h : c.lexemes = l :: r) :
    c.expect l.kind = .ok (c.peek 0, c.consume) := by
  simp [expect, advance, kind_of_lexemes h]

/-! ### Cursors over the tokens of a scan -/

/-- The cursor ends at the end of a line, and its tokens have the forms of their kinds. -/
structure Proper (c : Cursor) : Prop where
  eof : c.eof.kind = .eof
  spelled : ∀ l ∈ c.lexemes, Spelled l.kind l.text

/-- What is left after reading is still the end of a line, with tokens of the right forms. -/
theorem Reads.proper {c c' : Cursor} {ls : List Lexeme} (h : Reads c ls c') (hc : c.Proper) :
    c'.Proper := by
  refine ⟨h.eof ▸ hc.eof, fun l hl => hc.spelled l ?_⟩
  rw [h.lexemes]
  exact List.mem_append_right ls hl

namespace Proper

/-- Only the end of the line is the end of the line. -/
theorem lexemes_eq_nil {c : Cursor} (h : c.Proper) (hk : c.kind = .eof) : c.lexemes = [] := by
  rw [kind_eq_headKind h.eof] at hk
  cases hc : c.lexemes with
  | nil => rfl
  | cons l r =>
      rw [hc] at hk
      exact absurd hk (h.spelled l (by simp [hc])).kind_ne_eof

/-- A token ahead is read by `consume`. -/
theorem reads {c : Cursor} {k : Token.Kind} (h : c.Proper) (hk : c.kind = k) (hne : k ≠ .eof) :
    Reads c [⟨k, (c.peek 0).text⟩] c.consume := by
  subst hk
  exact reads_consume h.eof hne

/-- The token ahead has the form of its kind, unless the line is at its end. -/
theorem spelled_peek {c : Cursor} {k : Token.Kind} (h : c.Proper) (hk : c.kind = k)
    (hne : k ≠ .eof) : Spelled k (c.peek 0).text := by
  refine h.spelled ⟨k, (c.peek 0).text⟩ ?_
  rw [(h.reads hk hne).lexemes]
  simp

/-- A token of a kind with one text has that text. -/
theorem text_eq {c : Cursor} {k : Token.Kind} {text : Text} (h : c.Proper) (hk : c.kind = k)
    (hs : k.symbol? = some text) : (c.peek 0).text = text := by
  have hne : k ≠ .eof := by
    rintro rfl
    cases hs
  exact (h.spelled_peek hk hne).eq_symbol hs

/-- A punctuation mark or an operator is known by its kind, so to read it is to read its one
text. -/
theorem reads_symbol {c : Cursor} {k : Token.Kind} {text : Text} (h : c.Proper)
    (hk : c.kind = k) (hs : k.symbol? = some text) : Reads c [k.lexeme] c.consume := by
  have hne : k ≠ .eof := by
    rintro rfl
    cases hs
  have hreads := h.reads hk hne
  rwa [h.text_eq hk hs, show (⟨k, text⟩ : Lexeme) = k.lexeme by simp [Token.Kind.lexeme, hs]]
    at hreads

/-- What is expected and found is read. -/
theorem reads_of_expect {c c' : Cursor} {token : Token} {wanted : Token.Kind} (hc : c.Proper)
    (hne : wanted ≠ .eof) (h : c.expect wanted = .ok (token, c')) :
    Reads c [⟨wanted, token.text⟩] c' ∧ c.kind = wanted ∧ c' = c.consume := by
  unfold expect at h
  split at h
  · next hk =>
    cases h
    exact ⟨hc.reads hk hne, hk, rfl⟩
  · cases h

end Proper

/-! ### The cursor of a line -/

/-- A text with a scan to its end has a cursor over the tokens of the scan. -/
theorem ofScanner_of_scans {s : Scanner} {ls : List Lexeme} (h : Scans s.rest ls [])
    (hf : ∀ l ∈ ls.head?, s.ReadsPound l.kind) :
    ∃ c, ofScanner s = .ok c ∧ s.run = (c.rest, .ok c.eof) ∧ c.lexemes = ls ∧
      c.eof.kind = .eof := by
  obtain ⟨tokens, eof, hrun, hls, heof⟩ := Scanner.run_of_scans h hf
  exact ⟨⟨tokens, eof, s.source, s.line⟩, by simp [ofScanner, hrun], hrun, hls, heof⟩

/-- The cursor of a line holds the tokens of the line. -/
theorem ofScanner_eq_ok_iff {s : Scanner} {c : Cursor} :
    ofScanner s = .ok c ↔
      s.run = (c.rest, .ok c.eof) ∧ c.source = s.source ∧ c.line = s.line := by
  obtain ⟨rest, eof, source, line⟩ := c
  unfold ofScanner
  rcases s.run with ⟨tokens, outcome⟩
  cases outcome with
  | error e => simp
  | ok eof => simp [and_assoc, eq_comm]

/-- The cursor of a line that does not begin with a directive. -/
theorem proper_of_ofScanner {s : Scanner} {c : Cursor} (h : ofScanner s = .ok c)
    (hp : s.fresh = false ∨ c.kind ≠ .pragma) :
    c.Proper ∧ Scans s.rest c.lexemes [] := by
  obtain ⟨hrun, -, -⟩ := ofScanner_eq_ok_iff.mp h
  -- The cursor's kind is that of the first token of the run, if there is one.
  obtain ⟨hscans, heof⟩ := Scanner.scans_of_run hrun <| hp.imp_right fun hk token ht => by
    obtain ⟨rest, hrest⟩ : ∃ rest, c.rest = token :: rest := List.head?_eq_some_iff.mp ht
    rwa [kind, peek, hrest] at hk
  exact ⟨⟨heof, hscans.spelled⟩, hscans⟩

end Cursor

end PicAssembly
