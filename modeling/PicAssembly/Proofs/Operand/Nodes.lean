import PicAssembly.Operand.Walk

/-!
# `PicAssembly.Proofs.Operand.Nodes`: the nodes of an operand

`Operand.nodes` lists all nodes, whatever stands around them. A walk visits the outermost nodes of
a kind only. For identifiers that makes no difference, since they have nothing inside
(`Operand.filterMap_name?_outermost`).
-/

set_option autoImplicit false

namespace PicAssembly.Operand

/-- The operands that an operand is made of, from left to right. -/
def parts : Operand → List Operand
  | .unary _ _ x | .stepped _ x => [x]
  | .binary _ x y | .assign _ x y => [x, y]
  | .call callee args => callee :: args
  | _ => []

/-- Induction with one hypothesis for all parts. -/
theorem induct_parts {motive : Operand → Prop}
    (step : ∀ x, (∀ y ∈ x.parts, motive y) → motive x) (x : Operand) : motive x := by
  induction x using induct with
  | call callee args ihcallee ihargs =>
      exact step _ (List.forall_mem_cons.mpr ⟨ihcallee, ihargs⟩)
  | _ => exact step _ (by simp_all [parts])

mutual

/-- The nodes of an operand: itself, and then those of its parts from left to right. -/
def nodes : Operand → List Operand
  | .unary op spelling x => .unary op spelling x :: nodes x
  | .stepped op x => .stepped op x :: nodes x
  | .binary op x y => .binary op x y :: (nodes x ++ nodes y)
  | .assign op x y => .assign op x y :: (nodes x ++ nodes y)
  | .call callee args => .call callee args :: (nodes callee ++ nodesAll args)
  | leaf => [leaf]

/-- The nodes of several operands, in order. -/
def nodesAll : List Operand → List Operand
  | [] => []
  | x :: xs => nodes x ++ nodesAll xs

end

/-- The nodes of several operands are those of each, in order. -/
theorem nodesAll_eq_flatMap (xs : List Operand) : nodesAll xs = xs.flatMap nodes := by
  induction xs with
  | nil => rfl
  | cons x xs ih => rw [nodesAll, ih, List.flatMap_cons]

/-- The nodes of an operand are itself and the nodes of its parts, whatever its form. The equation
replaces the constructors in every later proof about nodes. -/
theorem nodes_eq (x : Operand) : x.nodes = x :: x.parts.flatMap nodes := by
  cases x <;> simp [nodes, parts, nodesAll_eq_flatMap]

/-- A node is the operand itself or a node of one of its parts. -/
theorem mem_nodes_iff {x y : Operand} : y ∈ x.nodes ↔ y = x ∨ ∃ z ∈ x.parts, y ∈ z.nodes := by
  rw [nodes_eq, List.mem_cons, List.mem_flatMap]

/-- An operand is one of its nodes. -/
theorem mem_nodes_self (x : Operand) : x ∈ x.nodes := mem_nodes_iff.mpr (.inl rfl)

/-- Some node is the operand itself or a node of one of its parts. -/
theorem exists_mem_nodes_iff {P : Operand → Prop} {x : Operand} :
    (∃ y ∈ x.nodes, P y) ↔ P x ∨ ∃ part ∈ x.parts, ∃ y ∈ part.nodes, P y := by
  constructor
  · rintro ⟨y, hy, h⟩
    rcases mem_nodes_iff.mp hy with rfl | ⟨part, hpart, hy⟩
    · exact .inl h
    · exact .inr ⟨part, hpart, y, hy, h⟩
  · rintro (h | ⟨part, hpart, y, hy, h⟩)
    · exact ⟨x, mem_nodes_self x, h⟩
    · exact ⟨y, mem_nodes_iff.mpr (.inr ⟨part, hpart, hy⟩), h⟩

/-- What is in a node is in the operand. -/
theorem nodes_trans {x y z : Operand} (hy : y ∈ x.nodes) (hz : z ∈ y.nodes) : z ∈ x.nodes := by
  induction x using induct_parts with
  | step x ih =>
      rcases mem_nodes_iff.mp hy with rfl | ⟨part, hpart, hy⟩
      · exact hz
      · exact mem_nodes_iff.mpr (.inr ⟨part, hpart, ih part hpart hy⟩)

/-- The names of the identifiers in an operand, from left to right. -/
def names (x : Operand) : List Text := x.nodes.filterMap name?

section

variable (x y : Operand)

/-- An identifier has its one name. -/
@[simp] theorem names_identifier (name : Text) : (identifier name).names = [name] := rfl

/-- A prefix operator adds no name. A keyword is an operator and not a name. -/
@[simp] theorem names_unary (op : UnaryOp) (spelling : Text) :
    (unary op spelling x).names = x.names := rfl

/-- Counting up or down adds no name. -/
@[simp] theorem names_stepped (op : StepOp) : (stepped op x).names = x.names := rfl

/-- The names of a binary operator are those of its left side and then those of its right side. -/
@[simp] theorem names_binary (op : BinaryOp) : (binary op x y).names = x.names ++ y.names :=
  List.filterMap_append

/-- The names of an assignment are those of its left side and then those of its right side. -/
@[simp] theorem names_assign (op : AssignOp) : (assign op x y).names = x.names ++ y.names :=
  List.filterMap_append

/-- The names of a call are those of what is called and then those of the arguments. -/
@[simp] theorem names_call (args : List Operand) :
    (call x args).names = x.names ++ args.flatMap names := by
  rw [names, nodes, List.filterMap_cons_none rfl, List.filterMap_append, nodesAll_eq_flatMap,
    List.filterMap_flatMap]
  rfl

end

/-- What the walk over several operands visits has the names of each of them, if that holds for each
one. The condition is the induction hypothesis for the arguments of a call. -/
theorem filterMap_name?_outermostAll {args : List Operand} (place : Place)
    (h : ∀ arg ∈ args, (outermost .identifier place arg).filterMap (fun visit => visit.2.name?)
      = arg.names) :
    (outermostAll .identifier place args).filterMap (fun visit => visit.2.name?)
      = args.flatMap names := by
  induction args with
  | nil => rfl
  | cons arg args ih =>
      obtain ⟨harg, hargs⟩ := List.forall_mem_cons.mp h
      rw [outermostAll, List.filterMap_append, List.flatMap_cons, harg, ih hargs]

/-- A walk over the identifiers meets all of them, in order. -/
theorem filterMap_name?_outermost (x : Operand) (place : Place) :
    (outermost .identifier place x).filterMap (fun visit => visit.2.name?) = x.names := by
  induction x using induct generalizing place with
  | number | string | chipId | programCounter | identifier => rfl
  | unary op spelling x ih => exact ih _
  | stepped op x ih => exact ih _
  | binary op x y ihx ihy =>
      rw [names_binary, ← ihx (place.inside .binary), ← ihy (place.inside .binary),
        ← List.filterMap_append]
      rfl
  | assign op x y ihx ihy =>
      rw [names_assign, ← ihx (place.inside .assign), ← ihy (place.inside .assign),
        ← List.filterMap_append]
      rfl
  | call callee args ihcallee ihargs =>
      have hargs := filterMap_name?_outermostAll (place.inside .call)
        fun arg harg => ihargs arg harg _
      rw [names_call, ← ihcallee (place.inside .call), ← hargs, ← List.filterMap_append]
      rfl

end PicAssembly.Operand
