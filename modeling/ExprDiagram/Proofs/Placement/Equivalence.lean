/-
This file compares the positions on the page. The walk from the root enters for each node of a tree
the position that the drawing of its frames has for it. For settled frames this is the plain
drawing, moved so that the root stands at zero: threads, shifts and contours find the same
positions as a look at all nodes of all subtrees.
-/

import ExprDiagram.Proofs.Placement.Completion

namespace ExprDiagram

open RoseTree

namespace Frames

variable {below : Array (List Nat)} {frames : Frames Rat}

/-- The entries of the stack for trees with the frame around them at an origin; the walk takes the
last of them first. -/
def pushed (origin : Rat) (trees : List (RoseTree Nat)) : List (RoseTree Nat × Rat) :=
  (trees.map fun tree => (tree, origin)).reverse

/-- What the walk keeps of an entry of the stack. -/
def top (item : RoseTree Nat × Rat) : Nat × Rat := (item.1.value, item.2)

theorem mem_pushed {origin : Rat} {trees : List (RoseTree Nat)} {tree : RoseTree Nat}
    (member : tree ∈ trees) : (tree, origin) ∈ pushed origin trees :=
  List.mem_reverse.mpr (List.mem_map_of_mem member)

theorem map_fst_pushed (origin : Rat) (trees : List (RoseTree Nat)) :
    (pushed origin trees).map Prod.fst = trees.reverse := by
  rw [pushed, List.map_reverse, List.map_map]
  exact congrArg List.reverse (List.map_id' trees)

theorem map_top_pushed (origin : Rat) (trees : List (RoseTree Nat)) :
    (pushed origin trees).map top =
      ((trees.map value).map fun child => (child, origin)).reverse := by
  rw [pushed, List.map_reverse, List.map_map, List.map_map]
  rfl

/-- The numbers of a stack stay the same, apart from the one that is taken, in some order. -/
theorem valuesAll_pushed (origin : Rat) (children : List (RoseTree Nat))
    (rest : List (RoseTree Nat × Rat)) :
    (valuesAll ((pushed origin children ++ rest).map Prod.fst)).Perm
      (valuesAll children ++ valuesAll (rest.map Prod.fst)) := by
  rw [List.map_append, map_fst_pushed, valuesAll_append]
  exact (valuesAll_reverse_perm children).append_right _

theorem grove_pushed {id : Nat} {origin outer : Rat} {children : List (RoseTree Nat)}
    {rest : List (RoseTree Nat × Rat)}
    (grove : Grove below (((RoseTree.node id children, outer) :: rest).map Prod.fst)) :
    Grove below ((pushed origin children ++ rest).map Prod.fst) := by
  have distinct := grove.distinct
  rw [List.map_cons, valuesAll, values, List.cons_append, List.nodup_cons] at distinct
  refine ⟨fun tree member => ?_, (valuesAll_pushed origin children rest).nodup_iff.mpr distinct.2⟩
  rw [List.map_append, map_fst_pushed, List.mem_append, List.mem_reverse] at member
  rcases member with inChildren | inRest
  · cases grove.listed (.node id children) List.mem_cons_self with
    | node _ all => exact all tree inChildren
  · exact grove.listed tree (List.mem_cons_of_mem _ inRest)

/-- The walk enters the positions of all nodes of the trees on the stack, and no others. -/
theorem descend?_drawn (sized : frames.Sized below.size) (stack : List (RoseTree Nat × Rat))
    (grove : Grove below (stack.map Prod.fst)) (limit : Nat)
    (enough : (valuesAll (stack.map Prod.fst)).length ≤ limit) (positions : Array Rat)
    (size : positions.size = below.size) :
    ∃ result : Array Rat,
      descend? below frames.offset frames.shift limit (stack.map top) positions = some result ∧
      result.size = below.size ∧
      (∀ id ∉ valuesAll (stack.map Prod.fst), result[id]? = positions[id]?) ∧
      ∀ item ∈ stack, ∀ node ∈ (frames.drawn item.2 item.1).values,
        result[node.1]? = some node.2 := by
  induction limit generalizing stack positions with
  | zero =>
    cases stack with
    | nil => exact ⟨positions, rfl, size, fun _ _ => rfl, fun item member => by cases member⟩
    | cons item rest =>
      obtain ⟨⟨id, children⟩, outer⟩ := item
      rw [List.map_cons, valuesAll, values, List.cons_append, List.length_cons] at enough
      exact absurd enough (Nat.not_succ_le_zero _)
  | succ limit inductionHypothesis =>
    cases stack with
    | nil => exact ⟨positions, rfl, size, fun _ _ => rfl, fun item member => by cases member⟩
    | cons item rest =>
      obtain ⟨⟨id, children⟩, outer⟩ := item
      have order := valuesAll_pushed (outer + frames.shiftOf id) children rest
      have distinct := grove.distinct
      rw [List.map_cons, valuesAll, values, List.cons_append, List.nodup_cons] at distinct
      have listed := grove.listed (.node id children) List.mem_cons_self
      have bound : id < below.size := listed.value_lt
      have enoughPushed : (valuesAll ((pushed (outer + frames.shiftOf id) children ++ rest).map
          Prod.fst)).length ≤ limit := by
        rw [order.length_eq]
        rw [List.map_cons, valuesAll, values, List.cons_append] at enough
        exact Nat.le_of_succ_le_succ enough
      obtain ⟨result, walk, sizeResult, unchanged, entered⟩ := inductionHypothesis _
        (grove_pushed grove) enoughPushed
        (positions.setIfInBounds id (frames.offsetOf id + (outer + frames.shiftOf id)))
        (Array.size_setIfInBounds.trans size)
      refine ⟨result, ?_, sizeResult, fun other outside => ?_, List.forall_mem_cons.mpr
        ⟨fun node member => ?_, fun item member => ?_⟩⟩
      · have here : below[id]? = some (children.map value) := by
          cases listed with
          | node here _ => exact here
        rw [List.map_cons, top, value, descend?, here, sized.getElem?_offset bound,
          sized.getElem?_shift bound, ← walk, List.map_append, map_top_pushed]
      · rw [List.map_cons, valuesAll, values, List.cons_append, List.mem_cons, not_or] at outside
        rw [unchanged other fun member => outside.2 (order.mem_iff.mp member),
          Array.getElem?_setIfInBounds_ne (Ne.symm outside.1)]
      · rw [drawn_node, values, List.mem_cons] at member
        rcases member with rfl | inChildren
        · rw [unchanged id fun member => distinct.1 (order.mem_iff.mp member),
            Array.getElem?_setIfInBounds_self_of_lt (size.symm ▸ bound)]
        · rw [valuesAll_eq_flatMap] at inChildren
          obtain ⟨drawing, inDrawings, inDrawing⟩ := List.mem_flatMap.mp inChildren
          obtain ⟨child, inTrees, rfl⟩ := List.mem_map.mp inDrawings
          exact entered _ (List.mem_append_left _ (mem_pushed inTrees)) node inDrawing
      · exact entered item (List.mem_append_right _ member)

/-- A settled tree is drawn around its root from the origin that the walk starts with. -/
theorem Settled.drawn_centred {tree : RoseTree Nat} (settled : Settled below frames tree) :
    frames.drawn (-(frames.offsetOf tree.value + frames.shiftOf tree.value)) tree = centred tree := by
  have root : (plain tree).value.2 = frames.offsetOf tree.value + frames.shiftOf tree.value := by
    obtain ⟨id, children⟩ := tree
    rw [← settled.drawn, drawn_node, zero_add]
    rfl
  rw [← zero_add (-(frames.offsetOf tree.value + frames.shiftOf tree.value)), drawn_add,
    settled.drawn, ← root, centred]

/-- The frames of a settled tree give the positions of its plain drawing, moved so that the root
stands at zero. -/
theorem positions?_eq {tree : RoseTree Nat} (settled : Settled below frames tree)
    (sized : frames.Sized below.size) (listed : tree.ListedIn below)
    (distinct : tree.values.Nodup) :
    frames.positions? below tree.value = some (plainOffsets below.size tree) := by
  have bound := listed.value_lt
  have values := valuesAll_singleton tree
  have grove := Grove.singleton listed distinct
  obtain ⟨result, walk, size, unchanged, entered⟩ := descend?_drawn sized
    [(tree, -(frames.offsetOf tree.value + frames.shiftOf tree.value))] grove _
    (grove.length_le.trans (size_le_visitBound below)) (Array.replicate frames.offset.size 0)
    (Array.size_replicate.trans sized.offset)
  have positioned : frames.positions? below tree.value = some result := by
    rw [positions?, sized.getElem?_offset bound, sized.getElem?_shift bound]
    exact walk
  rw [positioned, plainOffsets]
  congr 1
  refine Array.ext (size.trans Array.size_ofFn.symm) fun id inside insideOther => ?_
  rw [Array.getElem_ofFn]
  have lookedUp : result[id]? = some (((centred tree).values.lookup id).getD 0) := by
    cases found : (centred tree).values.lookup id with
    | none =>
      have outside : id ∉ tree.values := by
        rw [← ids_centred tree, values_map]
        intro member
        obtain ⟨node, inDrawing, rfl⟩ := List.mem_map.mp member
        have different := List.lookup_eq_none_iff.mp found node inDrawing
        rw [bne_self_eq_false] at different
        cases different
      rw [unchanged id fun member => outside (values ▸ member), Array.getElem?_replicate,
        sized.offset, if_pos (size ▸ inside), Option.getD_none]
    | some position =>
      obtain ⟨before, after, split, _⟩ := List.lookup_eq_some_iff.mp found
      have member : (id, position) ∈ (centred tree).values := by
        rw [split]
        exact List.mem_append_right _ List.mem_cons_self
      rw [← settled.drawn_centred] at member
      exact entered _ List.mem_cons_self (id, position) member
  exact Option.some.inj ((Array.getElem?_eq_getElem inside).symm.trans lookedUp)

/-- A tree has frames, and they give the positions of its plain drawing. -/
theorem ofTree?_positions {tree : RoseTree Nat} (listed : tree.ListedIn below)
    (distinct : tree.values.Nodup) :
    ∃ frames : Frames Rat, ofTree? below tree.value = some frames ∧
      frames.positions? below tree.value = some (plainOffsets below.size tree) := by
  obtain ⟨frames, computed, sized, settled⟩ := ofTree?_settled listed distinct
  exact ⟨frames, computed, positions?_eq settled sized listed distinct⟩

end Frames

/-- The positions that are computed with threads, shifts and contours are those of the plain
drawing of the tree. -/
theorem offsets?_eq_plainOffsets (below : Array (List Nat)) (tree : RoseTree Nat)
    (listed : tree.ListedIn below) (distinct : tree.values.Nodup) :
    offsets? tree.value below = some (plainOffsets below.size tree) := by
  obtain ⟨frames, computed, sized, settled⟩ := Frames.ofTree?_settled listed distinct
  rw [offsets?, computed]
  exact Frames.positions?_eq settled sized listed distinct

/-- A tree with nine leaves in a row next to a node that only a thread leads to. -/
def threaded : RoseTree Nat :=
  .node 0 [.node 1 [.node 2 [.node 3 [.node 4 [], .node 5 [], .node 6 [], .node 7 [], .node 8 [],
      .node 9 [], .node 10 [], .node 11 [], .node 12 []]]],
    .node 13 [.node 14 [.node 15 []], .node 16 [], .node 17 [.node 18 [.node 19 []]]]]

/-- The lists of that tree. -/
def threadedBelow : Array (List Nat) :=
  #[[1, 13], [2], [3], [4, 5, 6, 7, 8, 9, 10, 11, 12], [], [], [], [], [], [], [], [], [],
    [14, 16, 17], [15], [], [], [18], [19], []]

theorem offsets?_threaded :
    threaded.ListedIn threadedBelow ∧ threaded.values.Nodup ∧
      offsets? 0 threadedBelow = some (plainOffsets 20 threaded) :=
  ⟨by decide, by decide, offsets?_eq_plainOffsets threadedBelow threaded (by decide) (by decide)⟩

end ExprDiagram
