import Mathlib.Data.List.Basic
import PicAssembly.Proofs.Operand.Nodes

/-!
# `PicAssembly.Proofs.Operand.Positions`: where the nodes of operands are

A path leads from an operand to one of its nodes: it gives the number of the part to go on with,
from the outside in. In a row of operands a path begins with the number of an operand. So in the
order of paths, which is that of words in a dictionary, a node comes before those inside it, and
those inside it come from left to right.

`positions` lists all nodes in that order (`pairwise_positions`), each once, with its path and the
kinds of the nodes around it (`mem_positions_iff`). `putAt` puts another operand in the place that
a path leads to. It goes through the parts on the path and changes no others: afterwards the path
leads to the new operand (`leads_putAt`), and paths that go another way lead where they did before
(`leads_putAt_of_apart`).
-/

set_option autoImplicit false

namespace PicAssembly.Operand

/-! ### Paths -/

/-- The path leads from the operand to one of its nodes, which is `target`, and the nodes that it
leads through have the kinds `parents`, from the outermost on. -/
inductive Leads : Operand → List Nat → List Kind → Operand → Prop where
  | here (x : Operand) : Leads x [] [] x
  | inside {x y target : Operand} {i : Nat} {path : List Nat} {parents : List Kind}
      (h : x.parts[i]? = some y) (rest : Leads y path parents target) :
      Leads x (i :: path) (x.kind :: parents) target

/-- The path leads to a node of one of the operands in a row. -/
def LeadsInRow (xs : List Operand) (path : List Nat) (parents : List Kind) (target : Operand) :
    Prop :=
  ∃ i rest x, path = i :: rest ∧ xs[i]? = some x ∧ x.Leads rest parents target

/-- A path leads to the operand itself or into the row of its parts, whatever the form of the
operand. -/
theorem leads_iff {x target : Operand} {path : List Nat} {parents : List Kind} :
    x.Leads path parents target ↔ (path = [] ∧ parents = [] ∧ target = x) ∨
      ∃ inner, parents = x.kind :: inner ∧ LeadsInRow x.parts path inner target := by
  constructor
  · intro h
    cases h with
    | here => exact .inl ⟨rfl, rfl, rfl⟩
    | inside h rest => exact .inr ⟨_, rfl, _, _, _, rfl, h, rest⟩
  · rintro (⟨rfl, rfl, rfl⟩ | ⟨inner, rfl, i, rest, y, rfl, hy, hrest⟩)
    · exact .here target
    · exact .inside hy hrest

/-! ### All positions -/

/-- A node in an operand or in a row of operands. -/
structure Position where
  path : List Nat
  /-- The kinds of the nodes around it, outermost first. -/
  parents : List Kind
  node : Operand
  deriving DecidableEq, Repr

namespace Position

/-- The position, seen from the row in which the operand has this number. -/
def inRow (i : Nat) (p : Position) : Position := { p with path := i :: p.path }

/-- The position, seen from the row with one operand more in front. -/
def shifted (p : Position) : Position := { p with path := p.path.modifyHead (· + 1) }

/-- A position in the parts of a node, seen from the node. -/
def inNode (kind : Kind) (p : Position) : Position := { p with parents := kind :: p.parents }

/-- In the order of paths. -/
def Before (p q : Position) : Prop := p.path < q.path

end Position

mutual

/-- The positions in an operand: its own, and then those in its parts from left to right. -/
def positions : Operand → List Position
  | .unary op spelling x =>
    ⟨[], [], .unary op spelling x⟩ :: (positions x).map fun p => (p.inRow 0).inNode .unary
  | .stepped op x =>
    ⟨[], [], .stepped op x⟩ :: (positions x).map fun p => (p.inRow 0).inNode .stepped
  | .binary op x y =>
    ⟨[], [], .binary op x y⟩ :: ((positions x).map (fun p => (p.inRow 0).inNode .binary) ++
      (positions y).map fun p => (p.inRow 1).inNode .binary)
  | .assign op x y =>
    ⟨[], [], .assign op x y⟩ :: ((positions x).map (fun p => (p.inRow 0).inNode .assign) ++
      (positions y).map fun p => (p.inRow 1).inNode .assign)
  | .call callee args =>
    ⟨[], [], .call callee args⟩ :: ((positions callee).map (fun p => (p.inRow 0).inNode .call) ++
      (rowPositions args).map fun p => p.shifted.inNode .call)
  | leaf => [⟨[], [], leaf⟩]

/-- The positions in a row of operands, in order. -/
def rowPositions : List Operand → List Position
  | [] => []
  | x :: xs => (positions x).map (.inRow 0) ++ (rowPositions xs).map .shifted

end

/-- The positions of an operand are its own and those in the row of its parts. -/
theorem positions_eq (x : Operand) :
    x.positions = ⟨[], [], x⟩ :: (rowPositions x.parts).map (.inNode x.kind) := by
  cases x <;> simp [positions, rowPositions, parts, kind, Function.comp_def, Position.inRow,
    Position.shifted]

/-- A position in a row is one in the first operand, or one in those behind it. -/
theorem mem_rowPositions_iff {xs : List Operand} {p : Position}
    (h : ∀ x ∈ xs, ∀ q, q ∈ x.positions ↔ x.Leads q.path q.parents q.node) :
    p ∈ rowPositions xs ↔ LeadsInRow xs p.path p.parents p.node := by
  induction xs generalizing p with
  | nil => simp [rowPositions, LeadsInRow]
  | cons x xs ih =>
      obtain ⟨hx, hxs⟩ := List.forall_mem_cons.mp h
      rw [rowPositions, List.mem_append, List.mem_map, List.mem_map]
      constructor
      · rintro (⟨q, hq, rfl⟩ | ⟨q, hq, rfl⟩)
        · exact ⟨0, q.path, x, rfl, rfl, (hx q).mp hq⟩
        · obtain ⟨i, rest, y, hpath, hy, hrest⟩ := (ih hxs).mp hq
          exact ⟨i + 1, rest, y, congrArg (List.modifyHead (· + 1)) hpath, hy, hrest⟩
      · obtain ⟨path, parents, node⟩ := p
        rintro ⟨i, rest, y, hpath, hy, hrest⟩
        obtain rfl : path = i :: rest := hpath
        cases i with
        -- The number of the part tells the first operand from the others.
        | zero =>
            obtain rfl : x = y := Option.some.inj hy
            exact .inl ⟨⟨rest, parents, node⟩, (hx _).mpr hrest, rfl⟩
        | succ i =>
            exact .inr ⟨⟨i :: rest, parents, node⟩, (ih hxs).mpr ⟨i, rest, y, rfl, hy, hrest⟩, rfl⟩

/-- The positions of an operand are the places that paths lead to, each with its node and the kinds
around it. -/
theorem mem_positions_iff {x : Operand} {p : Position} :
    p ∈ x.positions ↔ x.Leads p.path p.parents p.node := by
  induction x using induct_parts generalizing p with
  | step x ih =>
      rw [positions_eq, List.mem_cons, List.mem_map, leads_iff]
      constructor
      · rintro (rfl | ⟨q, hq, rfl⟩)
        · exact .inl ⟨rfl, rfl, rfl⟩
        · exact .inr ⟨q.parents, rfl, (mem_rowPositions_iff fun y hy q => ih y hy).mp hq⟩
      · obtain ⟨path, parents, node⟩ := p
        rintro (⟨hpath, hparents, hnode⟩ | ⟨inner, hparents, hrow⟩)
        · left
          rw [Position.mk.injEq]
          exact ⟨hpath, hparents, hnode⟩
        · right
          refine ⟨⟨path, inner, node⟩, (mem_rowPositions_iff fun y hy q => ih y hy).mpr hrow, ?_⟩
          exact congrArg (Position.mk path · node) hparents.symm

/-- In a row a path begins with the number of an operand. -/
theorem exists_path_eq_cons {xs : List Operand} {p : Position} (h : p ∈ rowPositions xs) :
    ∃ i rest, p.path = i :: rest := by
  obtain ⟨i, rest, -, hpath, -⟩ := (mem_rowPositions_iff fun _ _ _ => mem_positions_iff).mp h
  exact ⟨i, rest, hpath⟩

/-- In a row the positions of one operand come before those of the next, so the order of paths is
kept if each operand keeps it. -/
theorem pairwise_rowPositions {xs : List Operand}
    (h : ∀ x ∈ xs, x.positions.Pairwise Position.Before) :
    (rowPositions xs).Pairwise Position.Before := by
  induction xs with
  | nil => exact .nil
  | cons x xs ih =>
      obtain ⟨hx, hxs⟩ := List.forall_mem_cons.mp h
      rw [rowPositions, List.pairwise_append, List.pairwise_map, List.pairwise_map]
      -- Paths into the first operand begin with 0, and those into the others with more.
      refine ⟨hx.imp fun hlt => List.cons_lt_cons_iff.mpr (.inr ⟨rfl, hlt⟩), ?_, ?_⟩
      · refine (ih hxs).imp_of_mem fun {p q} hp hq hlt => ?_
        obtain ⟨i, rest, hi⟩ := exists_path_eq_cons hp
        obtain ⟨j, rest', hj⟩ := exists_path_eq_cons hq
        rw [Position.Before, hi, hj, List.cons_lt_cons_iff] at hlt
        rw [Position.Before, Position.shifted, Position.shifted, hi, hj]
        refine List.cons_lt_cons_iff.mpr (hlt.imp Nat.succ_lt_succ fun hlt => ?_)
        exact ⟨congrArg Nat.succ hlt.1, hlt.2⟩
      · intro p hp q hq
        obtain ⟨p, -, rfl⟩ := List.mem_map.mp hp
        obtain ⟨q, hmem, rfl⟩ := List.mem_map.mp hq
        obtain ⟨i, rest, hi⟩ := exists_path_eq_cons hmem
        rw [Position.Before, Position.shifted, hi]
        exact List.cons_lt_cons_iff.mpr (.inl (Nat.succ_pos i))

/-- The positions come in the order of their paths, and so none comes twice. -/
theorem pairwise_positions (x : Operand) : x.positions.Pairwise Position.Before := by
  induction x using induct_parts with
  | step x ih =>
      rw [positions_eq, List.pairwise_cons, List.pairwise_map]
      refine ⟨fun p hp => ?_, pairwise_rowPositions ih⟩
      obtain ⟨q, hq, rfl⟩ := List.mem_map.mp hp
      obtain ⟨i, rest, hi⟩ := exists_path_eq_cons hq
      rw [Position.Before, Position.inNode, hi]
      exact List.nil_lt_cons i rest

/-! ### Outermost positions -/

/-- The node has this kind and none around it has. -/
def Position.IsOutermost (kind : Kind) (p : Position) : Prop :=
  p.node.kind = kind ∧ kind ∉ p.parents

instance (kind : Kind) : DecidablePred (Position.IsOutermost kind) :=
  fun _ => inferInstanceAs (Decidable (_ ∧ _))

/-- The positions of the outermost nodes of a kind. -/
def outermostPositions (kind : Kind) (x : Operand) : List Position :=
  x.positions.filter (Position.IsOutermost kind)

/-- The positions of the outermost nodes of a kind in a row of operands. -/
def outermostInRow (kind : Kind) (xs : List Operand) : List Position :=
  (rowPositions xs).filter (Position.IsOutermost kind)

variable {kind : Kind}

/-- In a row the outermost nodes are those of the first operand and then those of the others, with
their numbers moved on by one. -/
theorem outermostInRow_cons (x : Operand) (xs : List Operand) : outermostInRow kind (x :: xs)
    = (x.outermostPositions kind).map (.inRow 0) ++ (outermostInRow kind xs).map .shifted := by
  rw [outermostInRow, rowPositions, List.filter_append, List.filter_map, List.filter_map]
  rfl

/-- A node of the kind hides those inside it. -/
theorem outermostPositions_of_kind {x : Operand} (h : x.kind = kind) :
    x.outermostPositions kind = [⟨[], [], x⟩] := by
  -- The kind of the node is among those around all positions inside it.
  have hinside : ∀ p ∈ (rowPositions x.parts).map (.inNode x.kind),
      ¬ decide (Position.IsOutermost kind p) = true := by
    intro p hp
    obtain ⟨q, -, rfl⟩ := List.mem_map.mp hp
    rw [decide_eq_true_iff]
    exact fun hq => hq.2 (h ▸ List.mem_cons_self)
  have hself : Position.IsOutermost kind ⟨[], [], x⟩ := ⟨h, List.not_mem_nil⟩
  rw [outermostPositions, positions_eq, List.filter_cons, if_pos (decide_eq_true hself),
    List.filter_eq_nil_iff.mpr hinside]

/-- In a node of another kind, the outermost ones are those in its parts. -/
theorem outermostPositions_of_ne {x : Operand} (h : x.kind ≠ kind) :
    x.outermostPositions kind = (outermostInRow kind x.parts).map (.inNode x.kind) := by
  have hself : ¬ Position.IsOutermost kind ⟨[], [], x⟩ := fun hx => h hx.1
  have hinside : (fun p => decide (Position.IsOutermost kind p)) ∘ Position.inNode x.kind
      = fun p => decide (Position.IsOutermost kind p) := by
    funext p
    refine decide_eq_decide.mpr (and_congr_right fun _ => not_congr ?_)
    exact List.mem_cons.trans (or_iff_right h.symm)
  rw [outermostPositions, positions_eq, List.filter_cons, if_neg (by simpa using hself),
    List.filter_map, hinside]
  rfl

/-! ### Putting an operand in a place -/

/-- The node with other parts, of which there are as many. -/
def withParts : Operand → List Operand → Operand
  | .unary op spelling _, [x] => .unary op spelling x
  | .stepped op _, [x] => .stepped op x
  | .binary op _ _, [x, y] => .binary op x y
  | .assign op _ _, [x, y] => .assign op x y
  | .call _ _, callee :: args => .call callee args
  | x, _ => x

/-- An operand with its own parts is itself. -/
theorem withParts_parts (x : Operand) : x.withParts x.parts = x := by cases x <;> rfl

/-- The parts that a node was given are its parts, and they go when it is given others. -/
theorem parts_withParts {x : Operand} {xs : List Operand} (h : xs.length = x.parts.length) :
    (x.withParts xs).parts = xs ∧ ∀ ys : List Operand, ys.length = x.parts.length →
      (x.withParts xs).withParts ys = x.withParts ys := by
  cases x with
  | number | string | chipId | programCounter | identifier =>
      obtain rfl := List.length_eq_zero_iff.mp h
      exact ⟨rfl, fun _ _ => rfl⟩
  | unary | stepped =>
      obtain ⟨y, rfl⟩ := List.length_eq_one_iff.mp h
      refine ⟨rfl, fun ys hys => ?_⟩
      obtain ⟨z, rfl⟩ := List.length_eq_one_iff.mp hys
      rfl
  | binary | assign =>
      obtain ⟨y, y', rfl⟩ := List.length_eq_two.mp h
      refine ⟨rfl, fun ys hys => ?_⟩
      obtain ⟨z, z', rfl⟩ := List.length_eq_two.mp hys
      rfl
  | call =>
      obtain ⟨y, ys, rfl⟩ := List.exists_cons_of_length_eq_add_one h
      refine ⟨rfl, fun zs hzs => ?_⟩
      obtain ⟨z, zs, rfl⟩ := List.exists_cons_of_length_eq_add_one hzs
      rfl

/-- The operand with `new` in the place that the path leads to. -/
def putAt (new : Operand) : (path : List Nat) → Operand → Operand
  | [], _ => new
  | i :: path, x => x.withParts (x.parts.modify i (putAt new path))

/-- The row of operands with `new` in the place that the path leads to. -/
def putInRow (new : Operand) : (path : List Nat) → List Operand → List Operand
  | [], xs => xs
  | i :: path, xs => xs.modify i (putAt new path)

/-- Putting an operand in a place leaves the row as long as it is. -/
theorem length_putInRow (new : Operand) (path : List Nat) (xs : List Operand) :
    (putInRow new path xs).length = xs.length := by
  cases path with
  | nil => rfl
  | cons i path => exact List.length_modify ..

/-- A place in the row without its first operand is the place that is moved on by one in the row. -/
theorem putInRow_shifted (new x : Operand) (path : List Nat) (xs : List Operand) :
    putInRow new (path.modifyHead (· + 1)) (x :: xs) = x :: putInRow new path xs := by
  cases path with
  | nil => rfl
  | cons i path => exact List.modify_succ_cons ..

/-- Other parts do not change the kind of the operand. -/
theorem kind_withParts (x : Operand) (xs : List Operand) : (x.withParts xs).kind = x.kind := by
  fun_cases withParts x xs <;> rfl

/-- Where a path leads inside, an operand is put in the parts. -/
theorem putAt_cons_withParts (new : Operand) {x : Operand} {xs : List Operand}
    (h : xs.length = x.parts.length) (i : Nat) (path : List Nat) :
    putAt new (i :: path) (x.withParts xs) = x.withParts (putInRow new (i :: path) xs) := by
  obtain ⟨hparts, hothers⟩ := parts_withParts h
  rw [putAt, hparts]
  exact hothers _ ((length_putInRow new (i :: path) xs).trans h)

/-- A path that begins with a part changes that part and leaves the other parts alone. -/
theorem parts_putAt_cons (new : Operand) (i : Nat) (path : List Nat) (x : Operand) :
    (putAt new (i :: path) x).parts = x.parts.modify i (putAt new path) :=
  (parts_withParts (List.length_modify ..)).1

/-- Afterwards the path leads to the operand that was put there. -/
theorem leads_putAt {x target : Operand} {path : List Nat} {parents : List Kind}
    (h : x.Leads path parents target) (new : Operand) :
    (putAt new path x).Leads path parents new := by
  induction h with
  | here => exact .here new
  | @inside x y target i path parents hy _ ih =>
      have hpart : (putAt new (i :: path) x).parts[i]? = some (putAt new path y) := by
        rw [parts_putAt_cons, List.getElem?_modify, hy]
        exact congrArg some (if_pos rfl)
      have hkind : (putAt new (i :: path) x).kind = x.kind := kind_withParts ..
      exact hkind ▸ .inside hpart ih

/-- A path that goes another way leads where it did. -/
theorem leads_putAt_of_apart {x target : Operand} {path other : List Nat} {parents : List Kind}
    (h : x.Leads other parents target) (hpath : ¬ path <+: other) (hother : ¬ other <+: path)
    (new : Operand) : (putAt new path x).Leads other parents target := by
  induction h generalizing path with
  | here => exact absurd List.nil_prefix hother
  | @inside x y target j other parents hy hrest ih =>
      cases path with
      | nil => exact absurd List.nil_prefix hpath
      | cons i path =>
          have hkind : (putAt new (i :: path) x).kind = x.kind := kind_withParts ..
          -- The part that the other path leads into changes only if both begin with it.
          have hparts : (putAt new (i :: path) x).parts[j]?
              = some (if i = j then putAt new path y else y) := by
            rw [parts_putAt_cons, List.getElem?_modify, hy]
            rfl
          refine hkind ▸ .inside hparts ?_
          split
          next hij =>
            subst hij
            rw [List.cons_prefix_cons] at hpath hother
            exact ih (fun h => hpath ⟨rfl, h⟩) (fun h => hother ⟨rfl, h⟩)
          next => exact hrest

end PicAssembly.Operand
