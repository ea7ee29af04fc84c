import PicAssembly.Text.Basic

/-!
# `PicAssembly.Text.Pattern`: patterns for the beginning of a text

A pattern may match the beginning of a text in several ways, and `ways` has them
in the order of preference: a repetition prefers to take as many characters as
it can, or as few, and of two patterns in a row the preference of the first
counts before that of the second. The first way is the match.
-/

set_option autoImplicit false

namespace PicAssembly

/-- What a text is matched against. -/
inductive Pattern where
  /-- A character of a class. -/
  | one (p : Char → Bool)
  /-- Characters of a class, as many as possible. -/
  | many (p : Char → Bool)
  /-- Characters of a class, as few as possible. -/
  | few (p : Char → Bool)
  /-- A pattern that captures what it takes. -/
  | group (inner : Pattern)
  /-- Two patterns, one behind the other. -/
  | both (first second : Pattern)
  /-- The end of the text. -/
  | finish

namespace Pattern

/-- A way to match: what is taken, what the groups in it captured, and what is
left of the text. -/
structure Way where
  taken : Text
  captured : List Text
  rest : Text
  deriving DecidableEq, Repr

namespace Way

/-- The way that takes nothing. -/
def stay (t : Text) : Way := ⟨[], [], t⟩

/-- The way that takes one more character first. -/
def behind (c : Char) (way : Way) : Way := { way with taken := c :: way.taken }

/-- The way of a group: it captures what it takes before the groups in it. -/
def grouped (way : Way) : Way := { way with captured := way.taken :: way.captured }

/-- A way and then another one through what it left. -/
def followedBy (way next : Way) : Way :=
  ⟨way.taken ++ next.taken, way.captured ++ next.captured, next.rest⟩

end Way

/-- The ways to take characters of a class, from the fewest to the most. -/
def runs (p : Char → Bool) : Text → List Way
  | [] => [.stay []]
  | c :: cs => .stay (c :: cs) :: if p c then (runs p cs).map (.behind c) else []

/-- The ways to match the beginning of a text, from the one that is preferred. -/
def ways : Pattern → Text → List Way
  | one _, [] => []
  | one p, c :: cs => if p c then [.behind c (.stay cs)] else []
  | many p, t => (runs p t).reverse
  | few p, t => runs p t
  | group inner, t => (ways inner t).map .grouped
  | both first second, t =>
    (ways first t).flatMap fun way => (ways second way.rest).map way.followedBy
  | finish, t => if t.isEmpty then [.stay t] else []

/-- What the groups of a pattern capture at the beginning of a text. -/
def captures? (pattern : Pattern) (t : Text) : Option (List Text) :=
  (pattern.ways t).head?.map Way.captured

end Pattern

end PicAssembly
