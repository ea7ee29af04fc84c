import PicAssembly.Operand.Basic

/-!
# `PicAssembly.Operand.Walk`: visiting the nodes of a kind

A walk looks for the nodes of one kind, from left to right and outside in. A
node of that kind is handed to a visitor and replaced by what the visitor gives
back; nothing is looked for inside it. So a visitor meets the outermost nodes of
the kind, and may replace them freely.

`walkM` lets the visitor act in any monad. `outermost` is the list of the nodes
that it meets, and `replaceOutermost` is the walk of a visitor without effects.
-/

set_option autoImplicit false

namespace PicAssembly

/-- Where a visited node is: the index of its line, that line's label and
mnemonic, and the kinds of the nodes around it, outermost first. -/
structure Place where
  line : Nat
  label : Option Text
  mnemonic : Option Text
  parents : List Operand.Kind
  deriving DecidableEq, Repr

namespace Place

/-- A place on a line of which only the index is known. -/
def onLine (line : Nat) : Place := ⟨line, none, none, []⟩

/-- The place of what is directly inside a node of this kind. -/
def inside (place : Place) (kind : Operand.Kind) : Place :=
  { place with parents := place.parents ++ [kind] }

end Place

namespace Operand

mutual

/-- Visits the outermost nodes of a kind in an operand. -/
def walkM {m : Type → Type} [Monad m] (kind : Kind) (visit : Place → Operand → m Operand)
    (place : Place) (operand : Operand) : m Operand :=
  if operand.kind = kind then visit place operand
  else
    match operand with
    | .unary op spelling inner => do
      let inner ← walkM kind visit (place.inside .unary) inner
      return .unary op spelling inner
    | .stepped op inner => do
      let inner ← walkM kind visit (place.inside .stepped) inner
      return .stepped op inner
    | .binary op left right => do
      let left ← walkM kind visit (place.inside .binary) left
      let right ← walkM kind visit (place.inside .binary) right
      return .binary op left right
    | .assign op left right => do
      let left ← walkM kind visit (place.inside .assign) left
      let right ← walkM kind visit (place.inside .assign) right
      return .assign op left right
    | .call callee args => do
      let callee ← walkM kind visit (place.inside .call) callee
      let args ← walkAllM kind visit (place.inside .call) args
      return .call callee args
    | leaf => return leaf

/-- Visits the outermost nodes of a kind in several operands, in order. -/
def walkAllM {m : Type → Type} [Monad m] (kind : Kind) (visit : Place → Operand → m Operand)
    (place : Place) : List Operand → m (List Operand)
  | [] => return []
  | operand :: operands => do
    let operand ← walkM kind visit place operand
    let operands ← walkAllM kind visit place operands
    return operand :: operands

end

mutual

/-- The outermost nodes of a kind in an operand, with their places. -/
def outermost (kind : Kind) (place : Place) (operand : Operand) : List (Place × Operand) :=
  if operand.kind = kind then [(place, operand)]
  else
    match operand with
    | .unary _ _ inner => outermost kind (place.inside .unary) inner
    | .stepped _ inner => outermost kind (place.inside .stepped) inner
    | .binary _ left right =>
      outermost kind (place.inside .binary) left ++ outermost kind (place.inside .binary) right
    | .assign _ left right =>
      outermost kind (place.inside .assign) left ++ outermost kind (place.inside .assign) right
    | .call callee args =>
      outermost kind (place.inside .call) callee ++ outermostAll kind (place.inside .call) args
    | _ => []

/-- The outermost nodes of a kind in several operands, in order. -/
def outermostAll (kind : Kind) (place : Place) : List Operand → List (Place × Operand)
  | [] => []
  | operand :: operands => outermost kind place operand ++ outermostAll kind place operands

end

/-- Replaces the outermost nodes of a kind in several operands. -/
def replaceOutermost (kind : Kind) (f : Place → Operand → Operand) (place : Place)
    (operands : List Operand) : List Operand :=
  Id.run (walkAllM kind (fun place node => pure (f place node)) place operands)

end Operand

end PicAssembly
