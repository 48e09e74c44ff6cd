/-
This file shows that the frames come to hold the plain drawings. A tree is settled when its frames
draw what the plain way draws and its links follow its outermost nodes on both sides. Trees are
packed when the same holds of all of them side by side. Moving one more settled tree next to packed
trees, and setting the thread that is missing, packs it too; and a node above packed trees is
settled when it stands at their mean. So every tree is settled when all its nodes have been placed,
each after those below it, and nothing outside the tree has changed.
-/

import ExprDiagram.Proofs.Placement.Joining
import ExprDiagram.Proofs.Placement.Outline

namespace ExprDiagram

open RoseTree

namespace Frames

variable {below : Array (List Nat)} {frames first second : Frames Rat}

/-- The frames hold the plain drawing of a tree that has not been moved. -/
structure Settled (below : Array (List Nat)) (frames : Frames Rat) (tree : RoseTree Nat) : Prop where
  unmoved : frames.shiftOf tree.value = 0
  drawn : frames.drawn 0 tree = plain tree
  linked : ∀ side, frames.Linked below side [framed frames 0 tree]

/-- The frames hold the plain drawings of trees that stand side by side. -/
structure Packed (below : Array (List Nat)) (frames : Frames Rat) (trees : List (RoseTree Nat)) :
    Prop where
  drawn : trees.map (frames.drawn 0) = pack [] (trees.map plain)
  linked : ∀ side, frames.Linked below side (trees.map (framed frames 0))

theorem Settled.congr {tree : RoseTree Nat} (settled : Settled below first tree)
    (listed : tree.ListedIn below) (agree : Agree (· ∈ tree.values) first second) :
    Settled below second tree := by
  refine ⟨?_, ?_, fun side => ?_⟩
  · rw [← agree.shiftOf tree.value_mem_values, settled.unmoved]
  · rw [← drawn_congr agree, settled.drawn]
  · refine @Agree.linked below first second side [tree] 0 ?_
      (List.forall_mem_singleton.mpr listed) (settled.linked side)
    rwa [valuesAll_singleton]

theorem Packed.singleton {tree : RoseTree Nat} (settled : Settled below frames tree) :
    Packed below frames [tree] := by
  refine ⟨?_, settled.linked⟩
  have still : clearance [] (plain tree) = 0 := by
    rw [clearance, heightAll, Nat.zero_min]
    rfl
  rw [List.map_singleton, List.map_singleton, pack, pack, still, settled.drawn]
  exact congrArg List.singleton (translate_zero _).symm

theorem Packed.apart {trees : List (RoseTree Nat)} (packed : Packed below frames trees) :
    ∀ depth, Apart (positionsAt depth (trees.map (frames.drawn 0))) := by
  rw [packed.drawn]
  refine pack_apart (fun depth => List.Pairwise.nil) fun drawing member => ?_
  obtain ⟨tree, _, rfl⟩ := List.mem_map.mp member
  exact plain_apart tree

theorem Settled.apart {tree : RoseTree Nat} (settled : Settled below frames tree) :
    ∀ depth, Apart (positionsAt depth [frames.drawn 0 tree]) := by
  rw [settled.drawn]
  exact plain_apart tree

/-! ### Tops -/

theorem edge_top (frames : Frames Rat) (side : Side) (trees : List (RoseTree Nat)) :
    side.edge (rowAll 0 (trees.map (framed frames 0))) =
      (side.edge trees).map fun tree => (tree.value, frames.shiftOf tree.value) := by
  rw [rowAll_zero, List.map_map, ← Side.edge_map]
  congr 1
  refine List.map_congr_left fun tree _ => ?_
  obtain ⟨id, children⟩ := tree
  show (id, 0 + frames.shiftOf id) = (id, frames.shiftOf id)
  rw [zero_add]

theorem fitting {trees : List (RoseTree Nat)} (grove : Grove below trees) (origin : Rat) :
    Fitting below.size (trees.map (framed frames origin)) := by
  refine ⟨fun node member => grove.values_lt _ (mem_of_mem_framedAll member), ?_⟩
  rw [heightAll_framedAll]
  exact (heightAll_le_length trees).trans grove.length_le

/-! ### Threads -/

/-- When the near trees on one side are the lower ones, a thread from their last row joins the links
on this side; on the other side the higher trees are near and need none. -/
theorem setThread?_joins {side opposite : Side} {near far both : List (RoseTree (Nat × Rat))}
    (linkedNear : frames.Linked below side near)
    (linkedFar : ∀ side, frames.Linked below side far)
    (beside : Beside side near far both) (besideOpposite : Beside opposite far near both)
    (lower : heightAll near < heightAll far) (sized : frames.Sized below.size)
    (fittingNear : Fitting below.size near) (fittingFar : Fitting below.size far)
    (disjoint : ∀ node ∈ valuesAll near, ∀ other ∈ valuesAll far, other.1 ≠ node.1)
    {nearTop farTop : Nat}
    (nearEdge : side.edge (rowAll 0 near) = some (nearTop, frames.shiftOf nearTop))
    (farEdge : side.edge (rowAll 0 far) = some (farTop, frames.shiftOf farTop)) :
    ∃ last ∈ valuesAll near, ∃ next,
      frames.setThread? below side nearTop farTop = some (frames.tie last next) ∧
        (frames.tie last next).Linked below side both ∧
        (frames.tie last next).Linked below opposite both := by
  obtain ⟨lastDepth, height⟩ : ∃ lastDepth, heightAll near = lastDepth + 1 :=
    Nat.exists_eq_succ_of_ne_zero (lt_heightAll_of_edge nearEdge).ne'
  obtain ⟨last, lastEdge⟩ := side.exists_edge
    (rowAll_ne_nil_iff.mpr (show lastDepth < heightAll near by omega))
  obtain ⟨next, nextEdge⟩ := side.exists_edge
    (rowAll_ne_nil_iff.mpr (show lastDepth + 1 < heightAll far by omega))
  have inNear : last ∈ valuesAll near :=
    rowAll_subset_valuesAll lastDepth near (Side.edge_mem lastEdge)
  refine ⟨last, inNear, next, ?_, ?_, ?_⟩
  · exact setThread?_eq linkedNear (linkedFar side) sized fittingNear fittingFar height lastEdge
      nextEdge nearEdge farEdge
  · refine linkedNear.beside_tie (linkedFar side) beside height lastEdge nextEdge ?_
      (disjoint last inNear)
    rw [sized.thread]
    exact fittingNear.bound last inNear
  · refine Linked.beside_taller ((linkedFar opposite).congr fun node member => ?_)
      besideOpposite lower.le
    exact (next?_tie_of_ne (disjoint last inNear node member)).symm

/-- Two groups of trees that stand side by side are joined by at most one thread. -/
theorem threads_join {left right : List (RoseTree (Nat × Rat))}
    (linkedLeft : ∀ side, frames.Linked below side left)
    (linkedRight : ∀ side, frames.Linked below side right) (sized : frames.Sized below.size)
    (fittingLeft : Fitting below.size left) (fittingRight : Fitting below.size right)
    (disjoint : ∀ node ∈ valuesAll left, ∀ other ∈ valuesAll right, node.1 ≠ other.1)
    {top previous next : Nat}
    (topEdge : Side.left.edge (rowAll 0 left) = some (top, frames.shiftOf top))
    (previousEdge : Side.right.edge (rowAll 0 left) = some (previous, frames.shiftOf previous))
    (nextEdge : ∀ side, Side.edge side (rowAll 0 right) = some (next, frames.shiftOf next)) :
    ∃ joined : Frames Rat,
      (if heightAll left < heightAll right then frames.setThread? below .left top next
        else if heightAll right < heightAll left then
          frames.setThread? below .right next previous
        else some frames) = some joined ∧
      (joined = frames ∨ ∃ last ∈ valuesAll (left ++ right), ∃ next, joined = frames.tie last next) ∧
      ∀ side, joined.Linked below side (left ++ right) := by
  by_cases lower : heightAll left < heightAll right
  · obtain ⟨last, inLeft, next, joins, onLeft, onRight⟩ := setThread?_joins (linkedLeft .left)
      linkedRight (beside_left left right) (beside_right left right) lower sized fittingLeft
      fittingRight (fun node member other inRight => (disjoint node member other inRight).symm)
      topEdge (nextEdge .left)
    have inBoth : last ∈ valuesAll (left ++ right) := by
      rw [valuesAll_append]
      exact List.mem_append_left _ inLeft
    refine ⟨_, (if_pos lower).trans joins, .inr ⟨last, inBoth, next, rfl⟩, fun side => ?_⟩
    cases side with
    | left => exact onLeft
    | right => exact onRight
  · rw [if_neg lower]
    by_cases higher : heightAll right < heightAll left
    · obtain ⟨last, inRight, next, joins, onRight, onLeft⟩ := setThread?_joins (linkedRight .right)
        linkedLeft (beside_right left right) (beside_left left right) higher sized fittingRight
        fittingLeft (fun node member other inLeft => disjoint other inLeft node member)
        (nextEdge .right) previousEdge
      have inBoth : last ∈ valuesAll (left ++ right) := by
        rw [valuesAll_append]
        exact List.mem_append_right _ inRight
      refine ⟨_, (if_pos higher).trans joins, .inr ⟨last, inBoth, next, rfl⟩, fun side => ?_⟩
      cases side with
      | left => exact onLeft
      | right => exact onRight
    · refine ⟨frames, if_neg higher, .inl rfl, fun side => ?_⟩
      cases side with
      | left => exact (linkedLeft .left).beside_taller (beside_left left right) (not_lt.mp lower)
      | right =>
        exact (linkedRight .right).beside_taller (beside_right left right) (not_lt.mp higher)

/-! ### Packing -/

variable {placed rest : List (RoseTree Nat)} {top previous next : RoseTree Nat}

theorem agree_move_next (grove : Grove below (placed ++ [next])) (distance : Rat) :
    Agree (· ∈ valuesAll placed) frames (frames.move next.value distance) := by
  refine (agree_move frames next.value distance).mono fun id inPlaced same => ?_
  have inNext : next.value ∈ valuesAll [next] :=
    values_subset_valuesAll List.mem_cons_self next.value_mem_values
  exact grove.disjoint id inPlaced (same ▸ inNext)

/-- A settled tree that has been moved by the clearance adds its drawing to the packed ones. -/
theorem Packed.drawn_move (packed : Packed below frames placed)
    (settled : Settled below frames next) (grove : Grove below (placed ++ [next]))
    (bound : next.value < frames.shift.size) {distance : Rat}
    (enough : distance = clearance (placed.map (frames.drawn 0)) (frames.drawn 0 next)) :
    (placed ++ [next]).map ((frames.move next.value distance).drawn 0) =
      pack [] ((placed ++ [next]).map plain) := by
  have still : placed.map ((frames.move next.value distance).drawn 0) =
      placed.map (frames.drawn 0) :=
    List.map_congr_left fun tree member => (drawn_congr
      ((agree_move_next grove distance).mono fun id inTree =>
        values_subset_valuesAll member inTree) 0).symm
  rw [List.map_append, still, List.map_singleton,
    Frames.drawn_move (grove.right.tree List.mem_cons_self) bound, enough, settled.drawn,
    packed.drawn, List.map_append, List.map_singleton, pack_append, pack, pack]

/-- Moving a settled tree by the clearance, and setting a thread, packs it to the right of packed
trees. -/
theorem Packed.step (packed : Packed below frames placed) (settled : Settled below frames next)
    (grove : Grove below (placed ++ [next])) (sized : frames.Sized below.size)
    (head : placed.head? = some top) (last : placed.getLast? = some previous) {distance : Rat}
    (enough : distance = clearance (placed.map (frames.drawn 0)) (frames.drawn 0 next)) :
    ∃ joined : Frames Rat,
      (if heightAll placed < heightAll [next] then
          (frames.move next.value distance).setThread? below .left top.value next.value
        else if heightAll [next] < heightAll placed then
          (frames.move next.value distance).setThread? below .right next.value previous.value
        else some (frames.move next.value distance)) = some joined ∧
      joined.Sized below.size ∧ Agree (· ∉ valuesAll (placed ++ [next])) frames joined ∧
      Packed below joined (placed ++ [next]) := by
  have bound : next.value < frames.shift.size := by
    rw [sized.shift]
    exact (grove.right.listed next List.mem_cons_self).value_lt
  have drawn := packed.drawn_move settled grove bound enough
  have outside : Agree (· ∉ valuesAll (placed ++ [next])) frames
      (frames.move next.value distance) := by
    refine (agree_move frames next.value distance).mono fun id outside same => outside ?_
    rw [same]
    exact values_subset_valuesAll (List.mem_append_right _ List.mem_cons_self)
      next.value_mem_values
  have linkedPlaced := fun side =>
    (agree_move_next grove distance).linked grove.left.listed (packed.linked side)
  have linkedNext := fun side => (settled.linked side).move
    (grove.right.listed next List.mem_cons_self) (grove.right.tree List.mem_cons_self) bound distance
  have sizedMoved := sized.move next.value distance
  generalize frames.move next.value distance = moved at *
  have disjoint : ∀ node ∈ valuesAll (placed.map (framed moved 0)),
      ∀ other ∈ valuesAll ([next].map (framed moved 0)), node.1 ≠ other.1 := by
    intro node inPlaced other inNext same
    exact grove.disjoint node.1 (mem_of_mem_framedAll inPlaced)
      (same ▸ mem_of_mem_framedAll inNext)
  have topEdge := edge_top moved .left placed
  have previousEdge := edge_top moved .right placed
  rw [show Side.left.edge placed = some top from head] at topEdge
  rw [show Side.right.edge placed = some previous from last] at previousEdge
  obtain ⟨joined, joins, same, linked⟩ := threads_join linkedPlaced linkedNext sizedMoved
    (fitting grove.left 0) (fitting grove.right 0) disjoint topEdge previousEdge
    (fun side => (edge_top moved side [next]).trans (by cases side <;> rfl))
  rw [heightAll_framedAll, ← List.map_singleton, heightAll_framedAll] at joins
  refine ⟨joined, joins, ?_⟩
  rcases same with rfl | ⟨thread, inBoth, target, rfl⟩
  · refine ⟨sizedMoved, outside, drawn, fun side => ?_⟩
    rw [List.map_append]
    exact linked side
  · refine ⟨sizedMoved.tie thread target, outside.trans ?_, ?_, fun side => ?_⟩
    · refine (agree_tie moved thread target).mono fun id outside same => outside ?_
      rw [← List.map_singleton, ← List.map_append] at inBoth
      exact same ▸ mem_of_mem_framedAll inBoth
    · rwa [drawn_tie]
    · rw [framed_tie, List.map_append]
      exact linked side

theorem Packed.covers {joined : Frames Rat} (packed : Packed below frames placed)
    (packedJoined : Packed below joined (placed ++ [next])) :
    Covers (joined.contour .right ((placed ++ [next]).map (framed joined 0)))
      (frames.contour .right (placed.map (framed frames 0))) := by
  rw [contour_right packed.apart, contour_right packedJoined.apart, ← heightAll_drawn joined 0,
    ← heightAll_drawn frames 0, packedJoined.drawn, packed.drawn, List.map_append, pack_append]
  exact covers_append _ _

/-- One step of the loop, when the contours it asks for are known. -/
theorem spread?_cons {first previous next : Nat} {merged contour left : List Rat} {more : List Nat}
    (right : frames.contour? below .right previous = some contour)
    (leftContour : frames.contour? below .left next = some left)
    (shift : frames.shift[next]? = some (frames.shiftOf next))
    (covers : maxContour merged contour = contour) :
    frames.spread? below first previous merged (next :: more) =
      (if contour.length < left.length then
          (frames.move next (gap contour left)).setThread? below .left first next
        else if left.length < contour.length then
          (frames.move next (gap contour left)).setThread? below .right next previous
        else some (frames.move next (gap contour left))).bind fun joined =>
      joined.spread? below first next contour more := by
  rw [spread?, right, leftContour]
  simp only [Option.bind_eq_bind, Option.bind_some, shift, covers]
  by_cases lower : contour.length < left.length
  · rw [if_pos lower, if_pos lower]
    rfl
  · rw [if_neg lower, if_neg lower]
    by_cases higher : left.length < contour.length
    · rw [if_pos higher, if_pos higher]
      rfl
    · rw [if_neg higher, if_neg higher]
      rfl

theorem Packed.contour?_right (packed : Packed below frames placed) (grove : Grove below placed)
    (sized : frames.Sized below.size) (last : placed.getLast? = some previous) :
    frames.contour? below .right previous.value =
      some (frames.contour .right (placed.map (framed frames 0))) := by
  refine contour?_eq (packed.linked .right) sized (fitting grove 0) ?_
  rw [edge_top, show Side.right.edge placed = some previous from last, Option.map_some]

theorem Settled.contour?_left (settled : Settled below frames next) (grove : Grove below [next])
    (sized : frames.Sized below.size) :
    frames.contour? below .left next.value = some (frames.contour .left [framed frames 0 next]) :=
  contour?_eq (settled.linked .left) sized (fitting grove 0) (edge_top frames .left [next])

/-- The right contour of packed trees is known from the tree placed last, whose walk goes on along
the threads to those before it; what was merged before adds nothing. -/
theorem spread?_packed (packed : Packed below frames placed)
    (settled : ∀ tree ∈ rest, Settled below frames tree) (grove : Grove below (placed ++ rest))
    (sized : frames.Sized below.size) (head : placed.head? = some top)
    (last : placed.getLast? = some previous) {merged : List Rat}
    (covers : Covers (frames.contour .right (placed.map (framed frames 0))) merged) :
    ∃ spread : Frames Rat,
      frames.spread? below top.value previous.value merged (rest.map value) = some spread ∧
      spread.Sized below.size ∧ Agree (· ∉ valuesAll (placed ++ rest)) frames spread ∧
      Packed below spread (placed ++ rest) := by
  induction rest generalizing frames placed previous merged with
  | nil => exact ⟨frames, rfl, sized, Agree.refl frames, by rwa [List.append_nil]⟩
  | cons next rest inductionHypothesis =>
    have order : placed ++ next :: rest = placed ++ [next] ++ rest := by
      rw [List.append_assoc, List.singleton_append]
    rw [order] at grove ⊢
    have settledNext := settled next List.mem_cons_self
    have right := packed.contour?_right grove.left.left sized last
    have left := settledNext.contour?_left grove.left.right sized
    have shift : frames.shift[next.value]? = some (frames.shiftOf next.value) :=
      sized.getElem?_shift (grove.left.right.listed next List.mem_cons_self).value_lt
    have enough := gap_eq_clearance packed.apart settledNext.apart
    obtain ⟨joined, joins, sizedJoined, agree, packedJoined⟩ :=
      packed.step settledNext grove.left sized head last enough
    have heightPlaced := heightAll_framedAll frames 0 placed
    have heightNext := heightAll_framedAll frames 0 [next]
    rw [← heightPlaced, ← heightNext, List.map_singleton] at joins
    rw [List.map_cons, spread?_cons right left shift (maxContour_eq covers), length_contour,
      length_contour, joins]
    have settledRest : ∀ tree ∈ rest, Settled below joined tree := by
      intro tree member
      refine (settled tree (List.mem_cons_of_mem _ member)).congr (grove.right.listed tree member)
        (agree.mono fun id inTree inPlaced => ?_)
      exact grove.disjoint id inPlaced (values_subset_valuesAll member inTree)
    obtain ⟨spread, done, sizedSpread, agreeSpread, packedSpread⟩ :=
      inductionHypothesis packedJoined settledRest grove sizedJoined
        (by rw [List.head?_append, head, Option.some_or])
        List.getLast?_concat (packed.covers packedJoined)
    refine ⟨spread, done, sizedSpread, (agree.mono fun id outside inside => ?_).trans agreeSpread,
      packedSpread⟩
    rw [valuesAll_append] at outside
    exact outside (List.mem_append_left _ inside)

end Frames

end ExprDiagram
