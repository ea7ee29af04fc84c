import PicAssembly.Program.Parser
import PicAssembly.Program.Walk
import PicAssembly.Proofs.Operand.Positions

/-!
# `PicAssembly.Proofs.Program.Visits`: what a walk visits and what it leaves

A walk calls its visitor on the outermost nodes of a kind in the operands of statements.
`Program.visits` lists them beforehand, from the program as it is: what the visitor puts in their
places is not looked at. In the list, a visit is an address (the index of the line and the path in
its operands), the place that the visitor is told, and the node.

The equations are for a visitor that acts in any lawful monad, so they hold of one that remembers
what it has seen, and of one that fails.

* `Operand.walkAllM_eq`: a walk over operands in a row is its visits one after the other, each of
  which puts what the visitor gives back in the place of the node.
* `Program.walkM_visits`: the same for a program, with what the visits are.
-/

set_option autoImplicit false

namespace PicAssembly

/-- The place of a node that has nodes of these kinds around it, seen from this place. -/
def Place.within (place : Place) (parents : List Operand.Kind) : Place :=
  { place with parents := place.parents ++ parents }

/-- The nodes around a place are gone through from the outermost one inwards. -/
theorem Place.within_cons (place : Place) (kind : Operand.Kind) (parents : List Operand.Kind) :
    place.within (kind :: parents) = (place.inside kind).within parents := by
  simp [within, inside]

/-- Actions in a row, each of which changes a state by its answer, seen through a map of states
that satisfy an invariant `I`. -/
theorem foldlM_map_through {m : Type → Type} [Monad m] [LawfulMonad m] {σ τ α α' β : Type}
    {f : σ → τ} {g : α → α'} {act : α → m β} {act' : α' → m β} {put : β → α → σ → σ}
    {put' : β → α' → τ → τ} {I : σ → Prop} {items : List α} (hact : ∀ a, act' (g a) = act a)
    (hput : ∀ a ∈ items, ∀ s answer, I s →
      put' answer (g a) (f s) = f (put answer a s) ∧ I (put answer a s)) {s : σ} (hs : I s) :
    (items.map g).foldlM (fun t a => do
        let answer ← act' a
        return put' answer a t) (f s)
      = f <$> items.foldlM (fun s a => do
        let answer ← act a
        return put answer a s) s := by
  induction items generalizing s with
  | nil => simp
  | cons a items ih =>
      obtain ⟨ha, hitems⟩ := List.forall_mem_cons.mp hput
      rw [List.map_cons, List.foldlM_cons, List.foldlM_cons, hact, bind_assoc, bind_assoc, map_bind]
      -- Whatever the action answers, both sides go on from states that belong together.
      refine congrArg (act a >>= ·) (funext fun answer => ?_)
      obtain ⟨heq, hinv⟩ := ha s answer hs
      rw [pure_bind, pure_bind, heq, ih hitems hinv]

/-! ### Operands -/

namespace Operand

variable {m : Type → Type} [Monad m] (visit : Place → Operand → m Operand)

/-- Visits some positions in an operand, one after the other. -/
def visitAll (place : Place) (ps : List Position) (x : Operand) : m Operand :=
  ps.foldlM (fun x p => do
    let new ← visit (place.within p.parents) p.node
    return putAt new p.path x) x

/-- Visits some positions in a row of operands, one after the other. -/
def visitInRow (place : Place) (ps : List Position) (xs : List Operand) : m (List Operand) :=
  ps.foldlM (fun xs p => do
    let new ← visit (place.within p.parents) p.node
    return putInRow new p.path xs) xs

variable [LawfulMonad m]

/-- Visits in the parts of a node. -/
theorem visitAll_inNode (place : Place) {ps : List Position} {x : Operand}
    (hps : ∀ p ∈ ps, ∃ i rest, p.path = i :: rest) {xs : List Operand}
    (hxs : xs.length = x.parts.length) :
    visitAll visit place (ps.map (.inNode x.kind)) (x.withParts xs)
      = x.withParts <$> visitInRow visit (place.inside x.kind) ps xs := by
  refine foldlM_map_through (I := fun xs => xs.length = x.parts.length) (fun p => ?_) ?_ hxs
  · exact congrArg (visit · p.node) (place.within_cons x.kind p.parents)
  · intro p hp xs new hxs
    obtain ⟨i, rest, hpath⟩ := hps p hp
    refine ⟨?_, (length_putInRow new p.path xs).trans hxs⟩
    show putAt new p.path (x.withParts xs) = x.withParts (putInRow new p.path xs)
    rw [hpath, putAt_cons_withParts new hxs]

/-- Visits in the first operand of a row. -/
theorem visitInRow_first (place : Place) (ps : List Position) (x : Operand) (xs : List Operand) :
    visitInRow visit place (ps.map (.inRow 0)) (x :: xs)
      = (· :: xs) <$> visitAll visit place ps x := by
  refine foldlM_map_through (f := (· :: xs)) (I := fun _ => True) (fun p => rfl) ?_ trivial
  exact fun _ _ _ _ _ => ⟨rfl, trivial⟩

/-- Visits behind the first operand of a row. -/
theorem visitInRow_shifted (place : Place) (ps : List Position) (x : Operand)
    (xs : List Operand) :
    visitInRow visit place (ps.map .shifted) (x :: xs)
      = (x :: ·) <$> visitInRow visit place ps xs := by
  refine foldlM_map_through (f := (x :: ·)) (I := fun _ => True) (fun p => rfl) ?_ trivial
  exact fun p _ xs new _ => ⟨putInRow_shifted new x p.path xs, trivial⟩

/-- A node of another kind is gone through from part to part. -/
theorem walkM_of_ne {kind : Kind} {x : Operand} (h : x.kind ≠ kind) (place : Place) :
    walkM kind visit place x
      = x.withParts <$> walkAllM kind visit (place.inside x.kind) x.parts := by
  cases x <;> rw [walkM, if_neg h] <;> simp [walkAllM, parts, withParts, Operand.kind]

variable {kind : Kind}

/-- If a walk over each operand is its visits in a row, so is the walk over a row of them. -/
theorem walkAllM_eq_of {xs : List Operand} (place : Place) (h : ∀ x ∈ xs,
      walkM kind visit place x = visitAll visit place (x.outermostPositions kind) x) :
    walkAllM kind visit place xs = visitInRow visit place (outermostInRow kind xs) xs := by
  induction xs with
  | nil => rfl
  | cons x xs ih =>
      obtain ⟨hx, hxs⟩ := List.forall_mem_cons.mp h
      -- The visits in the first operand come first, and those behind it do not look at it.
      have hsplit : visitInRow visit place (outermostInRow kind (x :: xs)) (x :: xs)
          = visitInRow visit place ((x.outermostPositions kind).map (.inRow 0)) (x :: xs) >>=
            visitInRow visit place ((outermostInRow kind xs).map .shifted) := by
        rw [outermostInRow_cons]
        exact List.foldlM_append
      rw [hsplit, visitInRow_first, bind_map_left, walkAllM, hx]
      refine congrArg (visitAll visit place _ x >>= ·) (funext fun x' => ?_)
      rw [visitInRow_shifted, ih hxs, map_eq_pure_bind]

/-- A walk over an operand is its visits one after the other. -/
theorem walkM_eq (place : Place) (x : Operand) :
    walkM kind visit place x = visitAll visit place (x.outermostPositions kind) x := by
  induction x using induct_parts generalizing place with
  | step x ih =>
      by_cases hx : x.kind = kind
      -- The node itself is the only visit, and what is put in its place is not looked at.
      · rw [outermostPositions_of_kind hx, walkM.eq_def, if_pos hx]
        simp [visitAll, putAt, Place.within]
      · have hpaths : ∀ p ∈ outermostInRow kind x.parts, ∃ i rest, p.path = i :: rest :=
          fun p hp => exists_path_eq_cons (List.mem_filter.mp hp).1
        have hparts := visitAll_inNode visit place hpaths (rfl : x.parts.length = _)
        rw [withParts_parts] at hparts
        rw [outermostPositions_of_ne hx, hparts, walkM_of_ne visit hx]
        rw [walkAllM_eq_of visit (place.inside x.kind) fun y hy => ih y hy _]

/-- A walk over operands in a row is its visits one after the other. -/
theorem walkAllM_eq (place : Place) (xs : List Operand) :
    walkAllM kind visit place xs = visitInRow visit place (outermostInRow kind xs) xs :=
  walkAllM_eq_of visit place fun x _ => walkM_eq visit place x

end Operand

/-! ### Visits -/

/-- A call of a visitor. -/
structure Visit where
  place : Place
  /-- The path in the operands of the line. -/
  path : List Nat
  node : Operand
  deriving DecidableEq, Repr

namespace Visit

/-- Where the node is in a program: its line, and the path there. -/
def address (v : Visit) : List Nat := v.place.line :: v.path

/-- The visit is to a node of the kind in these operands, which has none of the kind around it, and
the visitor is told which nodes are. -/
def IsTo (kind : Operand.Kind) (place : Place) (operands : List Operand) (v : Visit) : Prop :=
  ∃ parents, v.place = place.within parents ∧
    Operand.LeadsInRow operands v.path parents v.node ∧ v.node.kind = kind ∧ kind ∉ parents

end Visit

/-- The visits in a row of operands, in order. -/
def Operand.visitsIn (kind : Kind) (place : Place) (xs : List Operand) : List Visit :=
  (outermostInRow kind xs).map fun p => ⟨place.within p.parents, p.path, p.node⟩

namespace Line

/-- The visits on the line with this index. -/
def visits (kind : Operand.Kind) (index : Nat) : Line → List Visit
  | .statement s => Operand.visitsIn kind (s.place index) s.operands
  | _ => []

/-- Puts an operand in the place in a statement that a path leads to. -/
def putAt (new : Operand) (path : List Nat) : Line → Line
  | .statement s => .statement { s with operands := Operand.putInRow new path s.operands }
  | line => line

end Line

namespace Program

/-- The visits on some lines, the first of which has this index. -/
def visitsFrom (kind : Operand.Kind) (index : Nat) (lines : List Line) : List Visit :=
  (lines.zipIdx index).flatMap fun line => line.1.visits kind line.2

/-- The visits to the outermost nodes of a kind, in order. -/
def visits (kind : Operand.Kind) (p : Program) : List Visit := visitsFrom kind 0 p.lines

/-- Puts an operand in the place on a line that a path leads to. -/
def putAt (new : Operand) (line : Nat) (path : List Nat) (p : Program) : Program :=
  ⟨p.lines.modify line (Line.putAt new path)⟩

end Program

variable {kind : Operand.Kind}

/-- The visits in a row of operands are just those to the outermost nodes of the kind. -/
theorem Operand.mem_visitsIn_iff {place : Place} {xs : List Operand} {v : Visit} :
    v ∈ visitsIn kind place xs ↔ v.IsTo kind place xs := by
  rw [visitsIn, List.mem_map]
  constructor
  · rintro ⟨p, hp, rfl⟩
    obtain ⟨hrow, houtermost⟩ := List.mem_filter.mp hp
    obtain ⟨hkind, hparents⟩ := of_decide_eq_true houtermost
    refine ⟨p.parents, rfl, ?_, hkind, hparents⟩
    exact (mem_rowPositions_iff fun _ _ _ => mem_positions_iff).mp hrow
  · obtain ⟨vplace, path, node⟩ := v
    rintro ⟨parents, hplace, hrow, hkind, hparents⟩
    refine ⟨⟨path, parents, node⟩, List.mem_filter.mpr ⟨?_, decide_eq_true ⟨hkind, hparents⟩⟩, ?_⟩
    · exact (mem_rowPositions_iff fun _ _ _ => mem_positions_iff).mpr hrow
    · exact congrArg (Visit.mk · path node) hplace.symm

/-- The visits in a row of operands come in the order of their paths. -/
theorem Operand.pairwise_visitsIn (place : Place) (xs : List Operand) :
    (visitsIn kind place xs).Pairwise fun v w => v.address < w.address := by
  have hpaths : (outermostInRow kind xs).Pairwise Position.Before :=
    (pairwise_rowPositions fun x _ => pairwise_positions x).filter _
  refine List.pairwise_map.mpr (hpaths.imp fun hlt => ?_)
  exact List.cons_lt_cons_iff.mpr (.inr ⟨rfl, hlt⟩)

/-- The visits on a line are just those to the outermost nodes of the kind in its statement. -/
theorem Line.mem_visits_iff {line : Line} {index : Nat} {v : Visit} :
    v ∈ line.visits kind index
      ↔ ∃ s, line = .statement s ∧ v.IsTo kind (s.place index) s.operands := by
  cases line <;> simp [visits, Operand.mem_visitsIn_iff]

/-- The visitor is told the index of the line. -/
theorem Line.line_of_mem_visits {line : Line} {index : Nat} {v : Visit}
    (h : v ∈ line.visits kind index) : v.place.line = index := by
  obtain ⟨s, -, parents, hplace, -⟩ := mem_visits_iff.mp h
  rw [hplace]
  rfl

namespace Program

/-- The visits in a program are just those to the outermost nodes of the kind, each told with the
number of its line. -/
theorem mem_visits_iff {p : Program} {v : Visit} : v ∈ p.visits kind ↔
    ∃ s, p.lines[v.place.line]? = some (.statement s) ∧
      v.IsTo kind (s.place v.place.line) s.operands := by
  rw [visits, visitsFrom, List.mem_flatMap]
  constructor
  · rintro ⟨⟨line, index⟩, hline, hv⟩
    obtain ⟨s, rfl, hto⟩ := Line.mem_visits_iff.mp hv
    obtain rfl := Line.line_of_mem_visits hv
    exact ⟨s, List.mk_mem_zipIdx_iff_getElem?.mp hline, hto⟩
  · rintro ⟨s, hline, hto⟩
    refine ⟨(.statement s, v.place.line), List.mk_mem_zipIdx_iff_getElem?.mpr hline, ?_⟩
    exact Line.mem_visits_iff.mpr ⟨s, rfl, hto⟩

/-- The visits come line by line, and on a line in the order of their paths. -/
theorem pairwise_visits (p : Program) :
    (p.visits kind).Pairwise fun v w => v.address < w.address := by
  refine List.pairwise_flatMap.mpr ⟨?_, ?_⟩
  · rintro ⟨line, index⟩ -
    cases line with
    | statement s => exact Operand.pairwise_visitsIn _ s.operands
    | directive | definition => exact .nil
  · have hindices : (p.lines.zipIdx.map Prod.snd).Pairwise (· < ·) := by
      rw [List.zipIdx_map_snd]
      exact List.pairwise_lt_range'
    refine (List.pairwise_map.mp hindices).imp fun hlt v hv w hw => ?_
    refine List.cons_lt_cons_iff.mpr (.inl ?_)
    rwa [Line.line_of_mem_visits hv, Line.line_of_mem_visits hw]

variable {m : Type → Type} [Monad m] (visit : Place → Operand → m Operand)

/-- Makes some visits, one after the other. -/
def visitAll (vs : List Visit) (p : Program) : m Program :=
  vs.foldlM (fun p v => do
    let new ← visit v.place v.node
    return p.putAt new v.place.line v.path) p

variable [LawfulMonad m]

/-- Visits on one line leave the others. -/
theorem visitAll_line (before after : List Line) (s : Statement) :
    visitAll visit (Operand.visitsIn kind (s.place before.length) s.operands)
        ⟨before ++ .statement s :: after⟩
      = (fun operands => ⟨before ++ .statement { s with operands } :: after⟩) <$>
        Operand.walkAllM kind visit (s.place before.length) s.operands := by
  rw [Operand.walkAllM_eq]
  refine foldlM_map_through
    (f := fun operands => (⟨before ++ .statement { s with operands } :: after⟩ : Program))
    (I := fun _ => True) (fun p => rfl) (fun p _ xs new _ => ⟨?_, trivial⟩) trivial
  simp [putAt, List.modify_eq_take_cons_drop, Line.putAt, Place.within, Statement.place]

/-- A walk over some lines of a program is the visits there. -/
theorem visitAll_visitsFrom (before lines : List Line) :
    visitAll visit (visitsFrom kind before.length lines) ⟨before ++ lines⟩
      = (fun lines => ⟨before ++ lines⟩) <$> walkLinesM kind visit before.length lines := by
  -- The lines before are carried along, since a visit names its line by its index in the program.
  induction lines generalizing before with
  | nil => simp [visitAll, visitsFrom, walkLinesM]
  | cons line lines ih =>
      have hrest (line' : Line) : visitAll visit (visitsFrom kind (before.length + 1) lines)
            ⟨before ++ line' :: lines⟩
          = (fun lines => ⟨before ++ line' :: lines⟩) <$>
            walkLinesM kind visit (before.length + 1) lines := by
        have h := ih (before ++ [line'])
        rw [List.length_append, List.length_singleton] at h
        simpa only [List.append_assoc, List.singleton_append] using h
      cases line with
      | directive d => simpa [visitsFrom, Line.visits, walkLinesM] using hrest (.directive d)
      | definition d => simpa [visitsFrom, Line.visits, walkLinesM] using hrest (.definition d)
      | statement s =>
          have hsplit : visitAll visit (visitsFrom kind before.length (.statement s :: lines))
                ⟨before ++ .statement s :: lines⟩
              = visitAll visit (Operand.visitsIn kind (s.place before.length) s.operands)
                ⟨before ++ .statement s :: lines⟩ >>=
                visitAll visit (visitsFrom kind (before.length + 1) lines) :=
            List.foldlM_append
          rw [hsplit, visitAll_line, bind_map_left, walkLinesM, map_bind]
          refine congrArg (Operand.walkAllM kind visit _ _ >>= ·) (funext fun operands => ?_)
          rw [hrest, map_bind]
          simp

/-- A walk visits the outermost nodes of a kind in the operands of statements, each once and no
others, line by line and on a line in the order of their paths. The visitor is told the line, its
label and mnemonic, and the nodes around the one that it is given. What it gives back is put in the
place of that node, and the walk does nothing else. So it is with a row of operands by itself. -/
theorem walkM_visits (kind : Operand.Kind) (visit : Place → Operand → m Operand) (p : Program)
    (operands : List Operand) (line : Nat) :
    (∀ v, v ∈ p.visits kind ↔ ∃ s, p.lines[v.place.line]? = some (.statement s) ∧
      v.IsTo kind (s.place v.place.line) s.operands) ∧
    (p.visits kind).Pairwise (fun v w => v.address < w.address) ∧
    (p.walkM kind visit = (p.visits kind).foldlM (fun q v => do
      let new ← visit v.place v.node
      return q.putAt new v.place.line v.path) p) ∧
    (∀ v, v ∈ Operand.visitsIn kind (.onLine line) operands
      ↔ v.IsTo kind (.onLine line) operands) ∧
    (Operand.visitsIn kind (.onLine line) operands).Pairwise (fun v w => v.address < w.address) ∧
    Operand.walkAllM kind visit (.onLine line) operands
      = (Operand.visitsIn kind (.onLine line) operands).foldlM (fun xs v => do
        let new ← visit v.place v.node
        return Operand.putInRow new v.path xs) operands := by
  refine ⟨fun v => mem_visits_iff, p.pairwise_visits, ?_, fun v => Operand.mem_visitsIn_iff,
    Operand.pairwise_visitsIn _ operands, ?_⟩
  -- The lines before the first one are none, so the visits begin with index zero.
  · have h : visitAll visit (visitsFrom kind 0 p.lines) p
        = (fun lines => ⟨lines⟩) <$> walkLinesM kind visit 0 p.lines :=
      visitAll_visitsFrom visit [] p.lines
    rw [walkM, bind_pure_comp, ← h]
    rfl
  · rw [Operand.walkAllM_eq, Operand.visitsIn, List.foldlM_map]
    rfl

/-- A visitor that puts signs before names and remembers where they were. -/
theorem walkM_visits_names :
    let name (text : String) : Operand := .identifier text.toList
    let negated (x : Operand) : Operand := .unary .negate "-".toList x
    let program (x f a b : Operand) : Program := ⟨[
      .statement ⟨some "start".toList, some "movlw".toList,
        [.binary .add (.unary .low "low".toList x) (.number 1 .hexadecimal "1".toList)], none⟩,
      .definition ⟨"Y".toList, [name "z"], none⟩,
      .statement ⟨none, some "call".toList, [.call f [a, negated b]], none⟩]⟩
    let p := program (name "x") (name "f") (name "a") (name "b")
    let visit (place : Place) (node : Operand) : StateM (List Place) Operand := do
      modify (· ++ [place])
      return negated node
    let start : Place := ⟨0, some "start".toList, some "movlw".toList, [.binary, .unary]⟩
    let call : Place := ⟨2, none, some "call".toList, [.call]⟩
    Program.parse "start movlw low x + 1\n#define Y z\n call f(a, -b)".toList = .ok p ∧
    p.visits .identifier = [⟨start, [0, 0, 0], name "x"⟩, ⟨call, [0, 0], name "f"⟩,
      ⟨call, [0, 1], name "a"⟩, ⟨call.inside .unary, [0, 2, 0], name "b"⟩] ∧
    StateT.run (p.walkM .identifier visit) [] =
      (program (negated (name "x")) (negated (name "f")) (negated (name "a"))
        (negated (name "b")), [start, call, call, call.inside .unary]) := by
  intro name negated program p visit start call
  obtain ⟨-, -, hwalk, -⟩ := walkM_visits .identifier visit p [] 0
  refine ⟨by decide +kernel, by decide, ?_⟩
  rw [hwalk]
  rfl

end Program
end PicAssembly
