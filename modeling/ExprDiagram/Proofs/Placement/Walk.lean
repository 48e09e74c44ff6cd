/-
This file follows contours. The nodes of trees that stand side by side are seen row by row, each
with the distance of its frame. When the links of the frames lead from the outermost node of each
row to that of the next one and end below the last row, a walk passes through the outermost nodes of
all rows; and a thread is set from the lowest outermost node of the shorter trees to the next one of
the taller trees, with the distance between the two frames.
-/

import ExprDiagram.Placement.Contour
import ExprDiagram.Proofs.Trees.Basic
import Mathlib.Algebra.Order.Ring.Rat
import Mathlib.Tactic.Ring

namespace ExprDiagram

open RoseTree

/-! ### The ends of a row -/

/-- The entry of a list on the given side. -/
def Side.edge {Entry : Type} : Side → List Entry → Option Entry
  | left, entries => entries.head?
  | right, entries => entries.getLast?

variable {Entry Other : Type}

theorem Side.outermost_eq_edge (side : Side) (nodes : List Nat) :
    side.outermost nodes = side.edge nodes := by
  cases side <;> rfl

theorem Side.edge_map (side : Side) (change : Entry → Other) (entries : List Entry) :
    side.edge (entries.map change) = (side.edge entries).map change := by
  cases side with
  | left => exact List.head?_map
  | right => exact List.getLast?_map

theorem Side.edge_nil (side : Side) : side.edge ([] : List Entry) = none := by
  cases side <;> rfl

theorem Side.edge_mem {side : Side} {entries : List Entry} {entry : Entry}
    (edge : side.edge entries = some entry) : entry ∈ entries := by
  cases side with
  | left => exact List.mem_of_head? edge
  | right => exact List.mem_of_getLast? edge

theorem Side.exists_edge (side : Side) {entries : List Entry} (nonempty : entries ≠ []) :
    ∃ entry, side.edge entries = some entry := by
  cases side with
  | left => exact ⟨_, List.head?_eq_some_head nonempty⟩
  | right => exact ⟨_, List.getLast?_eq_some_getLast nonempty⟩

namespace Frames

/-! ### Frames of trees -/

/-- Where a node stands in its own frame. -/
def offsetOf (frames : Frames Rat) (id : Nat) : Rat := frames.offset[id]?.getD 0

/-- How far the frame of a node has been moved in that of its parent. -/
def shiftOf (frames : Frames Rat) (id : Nat) : Rat := frames.shift[id]?.getD 0

mutual
/-- The nodes of a tree, each with the distance of its frame, when the frame around the tree lies at
the given distance. -/
def framed (frames : Frames Rat) (origin : Rat) : RoseTree Nat → RoseTree (Nat × Rat)
  | .node id children =>
    .node (id, origin + frames.shiftOf id) (framedAll frames (origin + frames.shiftOf id) children)

/-- The nodes of trees in a common frame, each with the distance of its frame. -/
def framedAll (frames : Frames Rat) (origin : Rat) : List (RoseTree Nat) → List (RoseTree (Nat × Rat))
  | [] => []
  | tree :: rest => framed frames origin tree :: framedAll frames origin rest
end

theorem framedAll_eq_map (frames : Frames Rat) (origin : Rat) (trees : List (RoseTree Nat)) :
    framedAll frames origin trees = trees.map (framed frames origin) := by
  induction trees with
  | nil => rfl
  | cons tree rest inductionHypothesis => rw [framedAll, inductionHypothesis, List.map_cons]

/-- The position of a node whose frame lies at a distance. -/
def standing (frames : Frames Rat) (node : Nat × Rat) : Rat := frames.offsetOf node.1 + node.2

/-- All numbers are places of the lists of the frames. -/
structure Sized (size : Nat) (frames : Frames Rat) : Prop where
  offset : frames.offset.size = size
  shift : frames.shift.size = size
  thread : frames.thread.size = size

theorem Sized.getElem?_offset {size : Nat} {frames : Frames Rat} (sized : frames.Sized size)
    {id : Nat} (bound : id < size) : frames.offset[id]? = some (frames.offsetOf id) := by
  rw [offsetOf, Array.getElem?_eq_getElem (sized.offset.symm ▸ bound), Option.getD_some]

theorem Sized.getElem?_shift {size : Nat} {frames : Frames Rat} (sized : frames.Sized size)
    {id : Nat} (bound : id < size) : frames.shift[id]? = some (frames.shiftOf id) := by
  rw [shiftOf, Array.getElem?_eq_getElem (sized.shift.symm ▸ bound), Option.getD_some]

/-! ### Walks -/

variable {below : Array (List Nat)} {frames : Frames Rat} {side : Side}
variable {trees short tall : List (RoseTree (Nat × Rat))}

/-- The links lead from the outermost node of each row to that of the next row, and there is no link
from the last row. -/
def Linked (below : Array (List Nat)) (frames : Frames Rat) (side : Side)
    (trees : List (RoseTree (Nat × Rat))) : Prop :=
  ∀ depth node, side.edge (rowAll depth trees) = some node →
    frames.next? below side node.1 =
      some ((side.edge (rowAll (depth + 1) trees)).map fun next => (next.1, next.2 - node.2))

/-- The numbers of the nodes are places of the lists, which are long enough for all rows. -/
structure Fitting (size : Nat) (trees : List (RoseTree (Nat × Rat))) : Prop where
  bound : ∀ node ∈ valuesAll trees, node.1 < size
  height_le : heightAll trees ≤ size

theorem Fitting.edge_lt {size depth : Nat} {node : Nat × Rat} (fitting : Fitting size trees)
    (edge : side.edge (rowAll depth trees) = some node) : node.1 < size :=
  fitting.bound node (rowAll_subset_valuesAll depth trees (Side.edge_mem edge))

theorem lt_heightAll_of_edge {depth : Nat} {node : Nat × Rat}
    (edge : side.edge (rowAll depth trees) = some node) : depth < heightAll trees :=
  rowAll_ne_nil_iff.mp (List.ne_nil_of_mem (Side.edge_mem edge))

theorem edge_eq_none {depth : Nat} (beyond : heightAll trees ≤ depth) :
    side.edge (rowAll depth trees) = none := by
  have empty : rowAll depth trees = [] := by
    by_contra nonempty
    exact absurd (rowAll_ne_nil_iff.mp nonempty) (not_lt.mpr beyond)
  rw [empty, Side.edge_nil]

/-- The position of the outermost node of a row. -/
def entry (frames : Frames Rat) (side : Side) (row : List (Nat × Rat)) : Rat :=
  ((side.edge row).map frames.standing).getD 0

/-- The positions of the outermost nodes of all rows. -/
def contour (frames : Frames Rat) (side : Side) (trees : List (RoseTree (Nat × Rat))) : List Rat :=
  (List.range (heightAll trees)).map fun depth => frames.entry side (rowAll depth trees)

theorem length_contour : (frames.contour side trees).length = heightAll trees := by
  rw [contour, List.length_map, List.length_range]

/-- A walk from the outermost node of a row lists the positions of those of the rows below. -/
theorem follow?_eq (linked : frames.Linked below side trees) {size : Nat}
    (sized : frames.Sized size) (fitting : Fitting size trees) (limit depth : Nat)
    (enough : heightAll trees ≤ depth + limit) (node : Nat × Rat)
    (edge : side.edge (rowAll depth trees) = some node) :
    frames.follow? below side limit node.1 node.2 =
      some ((List.range' (depth + 1) (heightAll trees - (depth + 1))).map fun depth =>
        frames.entry side (rowAll depth trees)) := by
  have inside := lt_heightAll_of_edge edge
  induction limit generalizing depth node with
  | zero => omega
  | succ limit inductionHypothesis =>
    rw [follow?, linked depth node edge]
    by_cases last : depth + 1 < heightAll trees
    · obtain ⟨next, nextEdge⟩ := side.exists_edge (rowAll_ne_nil_iff.mpr last)
      have step := inductionHypothesis (depth + 1) (by omega) next nextEdge last
      have range : heightAll trees - (depth + 1) = heightAll trees - (depth + 1 + 1) + 1 := by omega
      have distance : node.2 + (next.2 - node.2) = next.2 := by ring
      rw [range, List.range'_succ, List.map_cons, entry, nextEdge]
      show (do
        let position ← frames.offset[next.1]?
        let rest ← frames.follow? below side limit next.1 (node.2 + (next.2 - node.2))
        some ((position + (node.2 + (next.2 - node.2))) :: rest)) = _
      rw [sized.getElem?_offset (fitting.edge_lt nextEdge), distance, step]
      rfl
    · have range : heightAll trees - (depth + 1) = 0 := by omega
      rw [edge_eq_none (not_lt.mp last), range]
      rfl

/-- The contour of a node at the outer end of the top row is that of all rows. -/
theorem contour?_eq (linked : frames.Linked below side trees) (sized : frames.Sized below.size)
    (fitting : Fitting below.size trees) {node : Nat}
    (top : side.edge (rowAll 0 trees) = some (node, frames.shiftOf node)) :
    frames.contour? below side node = some (frames.contour side trees) := by
  have walk := follow?_eq linked sized fitting below.size 0
    (fitting.height_le.trans (Nat.le_add_left _ _)) _ top
  have positive := lt_heightAll_of_edge top
  have range : heightAll trees = heightAll trees - (0 + 1) + 1 := by omega
  have bound := fitting.edge_lt top
  rw [contour, range, List.range_eq_range', List.range'_succ, List.map_cons, entry, top]
  show (do
    let distance ← frames.shift[node]?
    let position ← frames.offset[node]?
    let rest ← frames.follow? below side below.size node distance
    some ((position + distance) :: rest)) = _
  rw [sized.getElem?_shift bound, sized.getElem?_offset bound]
  show (do
    let rest ← frames.follow? below side below.size node (frames.shiftOf node)
    some ((frames.offsetOf node + frames.shiftOf node) :: rest)) = _
  rw [walk]
  rfl

/-! ### Threads -/

/-- The frames with a thread from a node to another, where both come with the distances of their
frames. -/
def tie (frames : Frames Rat) (last next : Nat × Rat) : Frames Rat :=
  { frames with
    thread := frames.thread.setIfInBounds last.1 (some (next.1, next.2 - last.2)) }

/-- Two walks at the same pace end at the last row of the shorter trees, where the thread to the
next row of the taller trees is set. -/
theorem link?_eq (linkedShort : frames.Linked below side short)
    (linkedTall : frames.Linked below side tall) {lastDepth : Nat} {last next : Nat × Rat}
    (height : heightAll short = lastDepth + 1)
    (lastEdge : side.edge (rowAll lastDepth short) = some last)
    (nextEdge : side.edge (rowAll (lastDepth + 1) tall) = some next) (limit depth : Nat)
    (enough : lastDepth < depth + limit) (inside : depth ≤ lastDepth) (first second : Nat × Rat)
    (firstEdge : side.edge (rowAll depth short) = some first)
    (secondEdge : side.edge (rowAll depth tall) = some second) :
    frames.link? below side limit first second = some (frames.tie last next) := by
  induction limit generalizing depth first second with
  | zero => omega
  | succ limit inductionHypothesis =>
    rw [link?, linkedShort depth first firstEdge, linkedTall depth second secondEdge]
    by_cases atEnd : depth = lastDepth
    · subst atEnd
      have distance : second.2 + (next.2 - second.2) = next.2 := by ring
      obtain rfl : first = last := Option.some.inj (firstEdge.symm.trans lastEdge)
      rw [edge_eq_none height.le, nextEdge]
      show some { frames with
        thread := frames.thread.setIfInBounds first.1
          (some (next.1, second.2 + (next.2 - second.2) - first.2)) } = _
      rw [distance]
      rfl
    · have deeper : depth + 1 ≤ lastDepth := by omega
      have shorter : heightAll short < heightAll tall := height ▸ lt_heightAll_of_edge nextEdge
      obtain ⟨nextShort, shortEdge⟩ := side.exists_edge
        (rowAll_ne_nil_iff.mpr (show depth + 1 < heightAll short by omega))
      obtain ⟨nextTall, tallEdge⟩ := side.exists_edge
        (rowAll_ne_nil_iff.mpr (show depth + 1 < heightAll tall by omega))
      have shortDistance : first.2 + (nextShort.2 - first.2) = nextShort.2 := by ring
      have tallDistance : second.2 + (nextTall.2 - second.2) = nextTall.2 := by ring
      rw [shortEdge, tallEdge]
      show frames.link? below side limit
        (nextShort.1, first.2 + (nextShort.2 - first.2))
        (nextTall.1, second.2 + (nextTall.2 - second.2)) = _
      rw [shortDistance, tallDistance]
      exact inductionHypothesis (depth + 1) (by omega) deeper nextShort nextTall shortEdge tallEdge

/-- A thread is set from the last row of the shorter trees to the next row of the taller trees, when
the given nodes are at the outer ends of their top rows. -/
theorem setThread?_eq (linkedShort : frames.Linked below side short)
    (linkedTall : frames.Linked below side tall) (sized : frames.Sized below.size)
    (fittingShort : Fitting below.size short) (fittingTall : Fitting below.size tall)
    {lastDepth : Nat} {last next : Nat × Rat} (height : heightAll short = lastDepth + 1)
    (lastEdge : side.edge (rowAll lastDepth short) = some last)
    (nextEdge : side.edge (rowAll (lastDepth + 1) tall) = some next) {first second : Nat}
    (firstEdge : side.edge (rowAll 0 short) = some (first, frames.shiftOf first))
    (secondEdge : side.edge (rowAll 0 tall) = some (second, frames.shiftOf second)) :
    frames.setThread? below side first second = some (frames.tie last next) := by
  have enough : lastDepth < 0 + below.size := by
    have short := fittingShort.height_le
    omega
  have walk := link?_eq linkedShort linkedTall height lastEdge nextEdge below.size 0 enough
    (Nat.zero_le _) _ _ firstEdge secondEdge
  rw [setThread?, sized.getElem?_shift (fittingShort.edge_lt firstEdge),
    sized.getElem?_shift (fittingTall.edge_lt secondEdge)]
  exact walk

end Frames

end ExprDiagram
