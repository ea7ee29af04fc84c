import PicAssembly.Diagnostic

/-!
# `PicAssembly.Outcome`: changes that a fault can stop

A change goes through a thing from its beginning to its end. A fault stops it where
it is, and what it has done up to there stays done. So a change always leaves
something behind, and `toExcept` is the view of a caller that only wants what a
change has left at its end.
-/

set_option autoImplicit false

namespace PicAssembly

/-- What a change has left behind, and the fault that stopped it before its end, if
there was one. -/
structure Outcome (α : Type) where
  result : α
  fault : Option Error
  deriving DecidableEq, Repr

namespace Outcome

variable {α : Type}

/-- A change that came to its end. -/
def done (x : α) : Outcome α := ⟨x, none⟩

/-- A change of `x` that is made as a whole or not at all. -/
def ofExcept (x : α) : Except Error α → Outcome α
  | .ok y => done y
  | .error e => ⟨x, some e⟩

/-- The result of a change that came to its end. -/
def toExcept (o : Outcome α) : Except Error α :=
  match o.fault with
  | none => .ok o.result
  | some e => .error e

/-- Goes on with a second change, unless a fault stopped the first. -/
def andThen (o : Outcome α) (next : α → Outcome α) : Outcome α :=
  match o.fault with
  | none => next o.result
  | some _ => o

/-- Changes the members of a list in order, up to the first that a fault stops. -/
def forEach (change : α → Outcome α) : List α → Outcome (List α)
  | [] => done []
  | x :: xs =>
    match change x with
    | ⟨y, some e⟩ => ⟨y :: xs, some e⟩
    | ⟨y, none⟩ =>
      let rest := forEach change xs
      ⟨y :: rest.result, rest.fault⟩

/-- A change that came to its end leaves its result. -/
@[simp] theorem result_done (x : α) : (done x).result = x := rfl

/-- A change that came to its end was stopped by no fault. -/
@[simp] theorem fault_done (x : α) : (done x).fault = none := rfl

/-- A change came to its end with `x` just if it leaves `x` and no fault. -/
theorem eq_done_iff {o : Outcome α} {x : α} : o = done x ↔ o.result = x ∧ o.fault = none := by
  obtain ⟨result, fault⟩ := o
  simp [done]

/-- The caller that wants only finished results has `x` just if the change came to its end with
`x`. -/
theorem toExcept_eq_ok_iff {o : Outcome α} {x : α} : o.toExcept = .ok x ↔ o = done x := by
  obtain ⟨result, fault⟩ := o
  cases fault <;> simp [toExcept, done]

/-- Such a caller has some result just if no fault stopped the change. -/
theorem exists_toExcept_eq_ok_iff {o : Outcome α} :
    (∃ x, o.toExcept = .ok x) ↔ o.fault = none := by
  obtain ⟨result, fault⟩ := o
  cases fault <;> simp [toExcept]

/-- Two changes in a row come to their end just if the first does and the second does on its
result. -/
theorem andThen_eq_done_iff {o : Outcome α} {next : α → Outcome α} {x : α} :
    o.andThen next = done x ↔ ∃ y, o = done y ∧ next y = done x := by
  obtain ⟨result, fault⟩ := o
  cases fault <;> simp [andThen, done]

end Outcome

end PicAssembly
