/-
This file puts trees side by side. On each side the outermost node of a row belongs to the near
trees, or, below their last row, to the far ones. If the near trees have all rows of the far ones,
their links are those of all trees. Otherwise the links of the near trees end too early, and one
thread from their last row to the next row of the far trees makes up for it, whichever rows those
trees were given before.
-/

import ExprDiagram.Proofs.Placement.Changes

namespace ExprDiagram

open RoseTree

namespace Frames

variable {below : Array (List Nat)} {frames : Frames Rat} {side : Side}

/-! ### Moving -/

/-- The frames with a tree moved to the right. -/
def move (frames : Frames Rat) (root : Nat) (distance : Rat) : Frames Rat :=
  { frames with shift := frames.shift.setIfInBounds root (frames.shiftOf root + distance) }

theorem agree_move (frames : Frames Rat) (root : Nat) (distance : Rat) :
    Agree (· ≠ root) frames (frames.move root distance) :=
  ⟨fun _ _ => rfl, fun _ different =>
    (Array.getElem?_setIfInBounds_ne (Ne.symm different)).symm, fun _ _ => rfl⟩

theorem Sized.move {size : Nat} (sized : frames.Sized size) (root : Nat) (distance : Rat) :
    (frames.move root distance).Sized size :=
  ⟨sized.offset, Array.size_setIfInBounds.trans sized.shift, sized.thread⟩

theorem shiftOf_move {root : Nat} (bound : root < frames.shift.size) (distance : Rat) :
    (frames.move root distance).shiftOf root = frames.shiftOf root + distance := by
  rw [shiftOf, move, Array.getElem?_setIfInBounds_self_of_lt bound, Option.getD_some]

theorem not_mem_children {id : Nat} {children : List (RoseTree Nat)}
    (distinct : (RoseTree.node id children).values.Nodup) : id ∉ valuesAll children :=
  (List.nodup_cons.mp distinct).1

theorem framed_move {tree : RoseTree Nat} (distinct : tree.values.Nodup)
    (bound : tree.value < frames.shift.size) (origin distance : Rat) :
    framed (frames.move tree.value distance) origin tree =
      (framed frames origin tree).map fun node => (node.1, node.2 + distance) := by
  obtain ⟨id, children⟩ := tree
  have order : origin + (frames.shiftOf id + distance) = origin + distance + frames.shiftOf id := by
    ring
  have moved : (frames.move id distance).shiftOf id = frames.shiftOf id + distance :=
    shiftOf_move bound distance
  rw [← framed_add, value, framed_node, framed_node, moved, order]
  congr 1
  refine List.map_congr_left fun child member => (framed_congr (fun other inChild => ?_) _).symm
  refine (agree_move frames id distance).shiftOf fun same => ?_
  exact not_mem_children distinct (same ▸ values_subset_valuesAll member inChild)

theorem drawn_move {tree : RoseTree Nat} (distinct : tree.values.Nodup)
    (bound : tree.value < frames.shift.size) (origin distance : Rat) :
    (frames.move tree.value distance).drawn origin tree =
      ExprDiagram.translate distance (frames.drawn origin tree) := by
  rw [drawn, framed_move distinct bound, drawn, ExprDiagram.translate, map_map, map_map]
  congr 1
  funext node
  show (node.1, frames.offsetOf node.1 + (node.2 + distance)) =
    (node.1, frames.offsetOf node.1 + node.2 + distance)
  rw [add_assoc]

/-- Links lead over the same distances when all trees are moved together. -/
theorem Linked.translate {trees : List (RoseTree (Nat × Rat))}
    (linked : frames.Linked below side trees) (distance : Rat) :
    frames.Linked below side
      (trees.map (map fun node : Nat × Rat => (node.1, node.2 + distance))) := by
  intro depth node edge
  rw [rowAll_map, Side.edge_map] at edge
  obtain ⟨before, beforeEdge, rfl⟩ := Option.map_eq_some_iff.mp edge
  rw [linked depth before beforeEdge, rowAll_map, Side.edge_map, Option.map_map]
  congr 2
  funext next
  show (next.1, next.2 - before.2) = (next.1, next.2 + distance - (before.2 + distance))
  rw [add_sub_add_right_eq_sub]

theorem Linked.move {tree : RoseTree Nat} {origin : Rat}
    (linked : frames.Linked below side [framed frames origin tree])
    (listed : tree.ListedIn below) (distinct : tree.values.Nodup)
    (bound : tree.value < frames.shift.size) (distance : Rat) :
    (frames.move tree.value distance).Linked below side
      [framed (frames.move tree.value distance) origin tree] := by
  rw [framed_move distinct bound]
  refine (linked.translate distance).congr fun node member => next?_congr rfl ?_
  intro nodes found child inNodes
  have inTree : node.1 ∈ tree.values := by
    rw [List.map_singleton, ← framed_add] at member
    have inTrees := @mem_of_mem_framedAll frames (origin + distance) [tree] node member
    rwa [valuesAll_singleton] at inTrees
  obtain ⟨others, foundOthers, inside⟩ := listed.below_subset node.1 inTree
  obtain rfl : nodes = others := Option.some.inj (found.symm.trans foundOthers)
  obtain ⟨id, children⟩ := tree
  refine (agree_move frames id distance).shift child fun same => ?_
  exact not_mem_children distinct (same ▸ inside inNodes)

/-! ### Threads -/

theorem agree_tie (frames : Frames Rat) (last next : Nat × Rat) :
    Agree (· ≠ last.1) frames (frames.tie last next) :=
  ⟨fun _ _ => rfl, fun _ _ => rfl, fun _ different =>
    (Array.getElem?_setIfInBounds_ne (Ne.symm different)).symm⟩

theorem framed_tie (frames : Frames Rat) (last next : Nat × Rat) :
    framed (frames.tie last next) = framed frames := by
  funext origin tree
  exact @framed_congr (frames.tie last next) frames tree (fun _ _ => rfl) origin

theorem drawn_tie (frames : Frames Rat) (last next : Nat × Rat) :
    (frames.tie last next).drawn = frames.drawn := by
  funext origin tree
  rw [drawn, framed_tie]
  rfl

theorem Sized.tie {size : Nat} (sized : frames.Sized size) (last next : Nat × Rat) :
    (frames.tie last next).Sized size :=
  ⟨sized.offset, sized.shift, Array.size_setIfInBounds.trans sized.thread⟩

theorem next?_tie_of_ne {id : Nat} {last next : Nat × Rat} (different : id ≠ last.1) :
    (frames.tie last next).next? below side id = frames.next? below side id :=
  next?_congr ((agree_tie frames last next).thread id different).symm fun _ _ _ _ => rfl

theorem next?_tie_self {last next : Nat × Rat} (bound : last.1 < frames.thread.size) :
    (frames.tie last next).next? below side last.1 =
      some (some (next.1, next.2 - last.2)) := by
  rw [next?, tie, Array.getElem?_setIfInBounds_self_of_lt bound]
  rfl

/-! ### Side by side -/

variable {near far both : List (RoseTree (Nat × Rat))}

/-- On one side, the rows of two groups of trees show the near trees before the far ones. -/
def Beside (side : Side) (near far both : List (RoseTree (Nat × Rat))) : Prop :=
  ∀ depth, side.edge (rowAll depth both) =
    (side.edge (rowAll depth near)).or (side.edge (rowAll depth far))

theorem beside_left (first second : List (RoseTree (Nat × Rat))) :
    Beside .left first second (first ++ second) := by
  intro depth
  rw [rowAll_append]
  exact List.head?_append

theorem beside_right (first second : List (RoseTree (Nat × Rat))) :
    Beside .right second first (first ++ second) := by
  intro depth
  rw [rowAll_append]
  exact List.getLast?_append

theorem Beside.edge_near (beside : Beside side near far both) {depth : Nat} {node : Nat × Rat}
    (edge : side.edge (rowAll depth near) = some node) :
    side.edge (rowAll depth both) = some node := by
  rw [beside depth, edge, Option.some_or]

theorem Beside.edge_far (beside : Beside side near far both) {depth : Nat}
    (beyond : heightAll near ≤ depth) :
    side.edge (rowAll depth both) = side.edge (rowAll depth far) := by
  rw [beside depth, edge_eq_none beyond, Option.none_or]

/-- Near trees that have all rows of the far ones hide them. -/
theorem Linked.beside_taller (linked : frames.Linked below side near)
    (beside : Beside side near far both) (taller : heightAll far ≤ heightAll near) :
    frames.Linked below side both := by
  have hidden : ∀ depth, side.edge (rowAll depth both) = side.edge (rowAll depth near) := by
    intro depth
    by_cases inside : depth < heightAll near
    · obtain ⟨node, edge⟩ := side.exists_edge (rowAll_ne_nil_iff.mpr inside)
      rw [edge, beside.edge_near edge]
    · have beyond := not_lt.mp inside
      rw [beside.edge_far beyond, edge_eq_none beyond, edge_eq_none (taller.trans beyond)]
  intro depth node edge
  rw [hidden] at edge ⊢
  exact linked depth node edge

/-- A thread from the last row of the near trees to the next row of the far ones joins their links.
The node that the thread starts from had no next node, so that it is none of those above it, and it
is none of the far ones. -/
theorem Linked.beside_tie (linkedNear : frames.Linked below side near)
    (linkedFar : frames.Linked below side far) (beside : Beside side near far both)
    {lastDepth : Nat} {last next : Nat × Rat} (height : heightAll near = lastDepth + 1)
    (lastEdge : side.edge (rowAll lastDepth near) = some last)
    (nextEdge : side.edge (rowAll (lastDepth + 1) far) = some next)
    (bound : last.1 < frames.thread.size)
    (disjoint : ∀ node ∈ valuesAll far, node.1 ≠ last.1) :
    (frames.tie last next).Linked below side both := by
  have noNext : frames.next? below side last.1 = some none := by
    rw [linkedNear lastDepth last lastEdge, edge_eq_none height.le, Option.map_none]
  intro depth node edge
  rcases lt_trichotomy depth lastDepth with above | rfl | below
  · obtain ⟨current, currentEdge⟩ := side.exists_edge
      (rowAll_ne_nil_iff.mpr (show depth < heightAll near by omega))
    obtain ⟨following, followingEdge⟩ := side.exists_edge
      (rowAll_ne_nil_iff.mpr (show depth + 1 < heightAll near by omega))
    obtain rfl : current = node :=
      Option.some.inj ((beside.edge_near currentEdge).symm.trans edge)
    have step := linkedNear depth current currentEdge
    have different : current.1 ≠ last.1 := by
      intro same
      rw [same, noNext, followingEdge] at step
      cases step
    rw [next?_tie_of_ne different, step, followingEdge, beside.edge_near followingEdge]
  · obtain rfl : last = node := Option.some.inj ((beside.edge_near lastEdge).symm.trans edge)
    rw [next?_tie_self bound, beside.edge_far height.le, nextEdge, Option.map_some]
  · have beyond : heightAll near ≤ depth := by omega
    rw [beside.edge_far beyond] at edge
    have different := disjoint node (rowAll_subset_valuesAll depth far (Side.edge_mem edge))
    rw [next?_tie_of_ne different, linkedFar depth node edge,
      beside.edge_far (beyond.trans (Nat.le_succ _))]

end Frames

end ExprDiagram
