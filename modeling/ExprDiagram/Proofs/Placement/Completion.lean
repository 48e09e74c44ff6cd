/-
This file places all nodes of a tree, each after those below it. Placing a node packs the trees
below it, which are settled by then, and settles the node; so, from frames that are as at the
beginning for all numbers of the tree, the whole tree gets settled.
-/

import ExprDiagram.Proofs.Placement.Settled

namespace ExprDiagram

open RoseTree

namespace Frames

variable {below : Array (List Nat)} {frames : Frames Rat} {id : Nat}
variable {children trees : List (RoseTree Nat)}

/-! ### A node above packed trees -/

/-- The frames with a node at a position. -/
def stand (frames : Frames Rat) (id : Nat) (position : Rat) : Frames Rat :=
  { frames with offset := frames.offset.setIfInBounds id position }

theorem agree_stand (frames : Frames Rat) (id : Nat) (position : Rat) :
    Agree (· ≠ id) frames (frames.stand id position) :=
  ⟨fun _ different => (Array.getElem?_setIfInBounds_ne (Ne.symm different)).symm,
    fun _ _ => rfl, fun _ _ => rfl⟩

theorem Sized.stand {size : Nat} (sized : frames.Sized size) (id : Nat) (position : Rat) :
    (frames.stand id position).Sized size :=
  ⟨Array.size_setIfInBounds.trans sized.offset, sized.shift, sized.thread⟩

theorem offsetOf_stand (bound : id < frames.offset.size) (position : Rat) :
    (frames.stand id position).offsetOf id = position := by
  rw [offsetOf, stand, Array.getElem?_setIfInBounds_self_of_lt bound, Option.getD_some]

/-- Without a thread a walk goes on to the outermost node below, if there is one. -/
theorem next?_untied {side : Side} {nodes : List Nat} (untied : frames.thread[id]? = some none)
    (here : below[id]? = some nodes) :
    frames.next? below side id =
      (side.outermost nodes).elim (some none) fun child =>
        frames.shift[child]?.map fun shift => some (child, shift) := by
  rw [next?, untied]
  simp only [here, Option.bind_eq_bind, Option.bind_some]
  cases side.outermost nodes with
  | none => rfl
  | some child => exact Option.map_eq_bind.symm

/-- The links of a node that has not been moved and has no thread lead to the outermost tops of the
trees below it. -/
theorem Linked.above {side : Side}
    (linked : frames.Linked below side (children.map (framed frames 0)))
    (listed : below[id]? = some (children.map value)) (unmoved : frames.shiftOf id = 0)
    (untied : frames.thread[id]? = some none) (sized : frames.Sized below.size)
    (bound : ∀ child ∈ children, child.value < below.size) :
    frames.Linked below side [framed frames 0 (.node id children)] := by
  intro depth node edge
  rw [framed_node, unmoved, add_zero] at edge ⊢
  rw [rowAll_singleton] at edge ⊢
  cases depth with
  | zero =>
    obtain rfl : (id, 0) = node := by
      rw [row_zero] at edge
      cases side <;> exact Option.some.inj edge
    rw [row_succ, edge_top, next?_untied untied listed, Side.outermost_eq_edge, Side.edge_map]
    cases outermost : side.edge children with
    | none => rfl
    | some child =>
      have inside := bound child (Side.edge_mem outermost)
      show (frames.shift[child.value]?.map fun shift => some (child.value, shift)) =
        some (some (child.value, frames.shiftOf child.value - 0))
      rw [sized.getElem?_shift inside, sub_zero, Option.map_some]
  | succ depth =>
    rw [row_succ] at edge ⊢
    exact linked depth node edge

theorem packed_nil (below : Array (List Nat)) (frames : Frames Rat) : Packed below frames [] := by
  refine ⟨rfl, fun side depth node edge => ?_⟩
  have empty : side.edge (rowAll depth []) = some node := edge
  rw [rowAll, List.flatMap_nil, Side.edge_nil] at empty
  cases empty

/-- The frames in which the subtrees below a node have been packed, also when there is none. -/
def spreadAll? (below : Array (List Nat)) (frames : Frames Rat) : List Nat → Option (Frames Rat)
  | [] => some frames
  | first :: rest => frames.spread? below first first [] rest

theorem spreadAll_packed (grove : Grove below children) (sized : frames.Sized below.size)
    (settled : ∀ child ∈ children, Settled below frames child) :
    ∃ spread : Frames Rat,
      spreadAll? below frames (children.map value) = some spread ∧ spread.Sized below.size ∧
      Agree (· ∉ valuesAll children) frames spread ∧ Packed below spread children := by
  cases children with
  | nil => exact ⟨frames, rfl, sized, Agree.refl frames, packed_nil below frames⟩
  | cons first rest =>
    have packed := Packed.singleton (settled first List.mem_cons_self)
    refine spread?_packed packed (fun tree member => settled tree (List.mem_cons_of_mem _ member))
      grove sized rfl rfl fun depth entry found => ?_
    cases found

/-- The positions below a node are those of the drawings. -/
theorem positions_drawn (sized : frames.Sized below.size)
    (bound : ∀ tree ∈ trees, tree.value < below.size) :
    (trees.map value).mapM (fun child => do
        return (← frames.offset[child]?) + (← frames.shift[child]?)) =
      some ((trees.map (frames.drawn 0)).map fun drawing => drawing.value.2) := by
  induction trees with
  | nil => rfl
  | cons tree rest inductionHypothesis =>
    have inside := bound tree List.mem_cons_self
    rw [List.map_cons, List.mapM_cons, inductionHypothesis fun other member =>
        bound other (List.mem_cons_of_mem _ member),
      sized.getElem?_offset inside, sized.getElem?_shift inside]
    obtain ⟨id, children⟩ := tree
    rw [List.map_cons, List.map_cons, drawn_node, zero_add]
    rfl

/-- The placing of a node, when the subtrees below it get packed. -/
theorem place?_eq {nodes : List Nat} {spread : Frames Rat} {positions : List Rat}
    (here : below[id]? = some nodes)
    (spreads : spreadAll? below frames nodes = some spread)
    (collected : nodes.mapM (fun child => do
        return (← spread.offset[child]?) + (← spread.shift[child]?)) = some positions) :
    place? below frames id = some (spread.stand id (average positions)) := by
  rw [place?, here, stand, ← mean_eq_average]
  cases nodes with
  | nil =>
    obtain rfl : frames = spread := Option.some.inj spreads
    obtain rfl : [] = positions := Option.some.inj collected
    rfl
  | cons first rest =>
    rw [spreadAll?] at spreads
    simp only [Option.bind_eq_bind, Option.bind_some, spreads]
    simp only [Option.bind_eq_bind] at collected
    rw [collected]
    rfl

/-- Placing a node above settled trees settles the node. -/
theorem place?_settled (listed : (RoseTree.node id children).ListedIn below)
    (distinct : (RoseTree.node id children).values.Nodup) (sized : frames.Sized below.size)
    (unmoved : frames.shiftOf id = 0) (untied : frames.thread[id]? = some none)
    (settled : ∀ child ∈ children, Settled below frames child) :
    ∃ placed : Frames Rat, place? below frames id = some placed ∧ placed.Sized below.size ∧
      Agree (· ∉ (RoseTree.node id children).values) frames placed ∧
      Settled below placed (.node id children) := by
  have grove := Grove.children listed distinct
  have outside : id ∉ valuesAll children := not_mem_children distinct
  have bound : id < below.size := listed.value_lt
  have here : below[id]? = some (children.map value) := by
    cases listed with
    | node here _ => exact here
  have boundAll : ∀ child ∈ children, child.value < below.size :=
    fun child member => (grove.listed child member).value_lt
  obtain ⟨spread, spreads, sizedSpread, agree, packed⟩ := spreadAll_packed grove sized settled
  have placed := place?_eq here spreads (positions_drawn sizedSpread boundAll)
  rw [packed.drawn] at placed
  generalize meanHere : average ((pack [] (children.map plain)).map fun drawing =>
    drawing.value.2) = position at placed
  have stands := agree_stand spread id position
  have standsAt := @offsetOf_stand spread id (sizedSpread.offset.symm ▸ bound) position
  have sizedPlaced := sizedSpread.stand id position
  have unmovedPlaced : (spread.stand id position).shiftOf id = 0 :=
    (agree.shiftOf outside).symm.trans unmoved
  have untiedPlaced : (spread.stand id position).thread[id]? = some none :=
    (agree.thread id outside).symm.trans untied
  generalize spread.stand id position = final at *
  have same : Agree (· ∈ valuesAll children) spread final :=
    stands.mono fun other inChildren equal => outside (equal ▸ inChildren)
  refine ⟨final, placed, sizedPlaced, ?_, unmovedPlaced, ?_, fun side => ?_⟩
  · refine (agree.mono fun other beyond inChildren => ?_).trans (stands.mono fun other beyond => ?_)
    · exact beyond (List.mem_cons_of_mem _ inChildren)
    · exact (List.ne_of_not_mem_cons beyond)
  · have drawings : children.map (final.drawn 0) = pack [] (children.map plain) := by
      rw [← packed.drawn]
      exact List.map_congr_left fun child member => (drawn_congr (same.mono fun other inChild =>
        values_subset_valuesAll member inChild) 0).symm
    rw [drawn_node, unmovedPlaced, standsAt, add_zero, add_zero, drawings, plain_node, meanHere]
  · exact (same.linked grove.listed (packed.linked side)).above here unmovedPlaced untiedPlaced
      sizedPlaced boundAll

/-! ### Whole trees -/

/-- The frames are as at the beginning for some numbers. -/
def Fresh (frames : Frames Rat) (ids : List Nat) : Prop :=
  ∀ id ∈ ids, frames.shiftOf id = 0 ∧ frames.thread[id]? = some none

theorem Fresh.congr {first second : Frames Rat} {ids : List Nat} (fresh : Fresh first ids)
    (agree : Agree (· ∈ ids) first second) : Fresh second ids := by
  intro id member
  rw [← agree.shiftOf member, ← agree.thread id member]
  exact fresh id member

theorem fresh_initial {size : Nat} {ids : List Nat} (bound : ∀ id ∈ ids, id < size) :
    Fresh (initial size) ids := by
  intro id member
  have inside := bound id member
  rw [shiftOf, initial, Array.getElem?_replicate, Array.getElem?_replicate, if_pos inside,
    if_pos inside]
  exact ⟨rfl, rfl⟩

/-- Placing trees one after the other settles them all, if it settles each. -/
theorem foldlM_settled (single : ∀ tree ∈ trees, ∀ frames : Frames Rat, frames.Sized below.size →
      Fresh frames tree.values → ∃ placed : Frames Rat,
        tree.postorder.foldlM (place? below) frames = some placed ∧ placed.Sized below.size ∧
        Agree (· ∉ tree.values) frames placed ∧ Settled below placed tree)
    (grove : Grove below trees) (sized : frames.Sized below.size)
    (fresh : Fresh frames (valuesAll trees)) :
    ∃ placed : Frames Rat, (postorderAll trees).foldlM (place? below) frames = some placed ∧
      placed.Sized below.size ∧ Agree (· ∉ valuesAll trees) frames placed ∧
      ∀ tree ∈ trees, Settled below placed tree := by
  induction trees generalizing frames with
  | nil => exact ⟨frames, rfl, sized, Agree.refl frames, fun tree member => by cases member⟩
  | cons tree rest inductionHypothesis =>
    have split : Grove below ([tree] ++ rest) := grove
    have disjoint := split.disjoint
    rw [valuesAll_singleton] at disjoint
    rw [valuesAll] at fresh ⊢
    obtain ⟨first, runs, sizedFirst, agreeFirst, settledFirst⟩ :=
      single tree List.mem_cons_self frames sized
        fun id member => fresh id (List.mem_append_left _ member)
    have freshRest : Fresh first (valuesAll rest) := by
      refine Fresh.congr (fun id member => fresh id (List.mem_append_right _ member))
        (agreeFirst.mono fun id inRest inTree => disjoint id inTree inRest)
    obtain ⟨placed, runsRest, sizedPlaced, agreePlaced, settledRest⟩ := inductionHypothesis
      (fun other member => single other (List.mem_cons_of_mem _ member)) split.right sizedFirst
      freshRest
    refine ⟨placed, ?_, sizedPlaced, ?_, List.forall_mem_cons.mpr ⟨?_, settledRest⟩⟩
    · rw [postorderAll, List.foldlM_append, runs]
      exact runsRest
    · refine (agreeFirst.mono fun id outside inTree => ?_).trans
        (agreePlaced.mono fun id outside inRest => ?_)
      · exact outside (List.mem_append_left _ inTree)
      · exact outside (List.mem_append_right _ inRest)
    · exact settledFirst.congr (grove.listed tree List.mem_cons_self)
        (agreePlaced.mono fun id inTree => disjoint id inTree)

/-- Placing all nodes of a tree, each after those below it, settles the tree. -/
theorem foldlM_postorder {tree : RoseTree Nat} (listed : tree.ListedIn below)
    (distinct : tree.values.Nodup) (sized : frames.Sized below.size)
    (fresh : Fresh frames tree.values) :
    ∃ placed : Frames Rat, tree.postorder.foldlM (place? below) frames = some placed ∧
      placed.Sized below.size ∧ Agree (· ∉ tree.values) frames placed ∧
      Settled below placed tree := by
  induction tree using RoseTree.induct generalizing frames with
  | node id children inductionHypothesis =>
    have grove := Grove.children listed distinct
    have outside : id ∉ valuesAll children := not_mem_children distinct
    obtain ⟨between, runs, sizedBetween, agreeBetween, settled⟩ := foldlM_settled
      (fun tree member frames sized fresh => inductionHypothesis tree member
        (grove.listed tree member) (grove.tree member) sized fresh)
      grove sized (fun other member => fresh other (List.mem_cons_of_mem _ member))
    obtain ⟨unmoved, untied⟩ := fresh id List.mem_cons_self
    rw [agreeBetween.shiftOf outside] at unmoved
    rw [agreeBetween.thread id outside] at untied
    obtain ⟨placed, places, sizedPlaced, agreePlaced, settledPlaced⟩ :=
      place?_settled listed distinct sizedBetween unmoved untied settled
    refine ⟨placed, ?_, sizedPlaced, (agreeBetween.mono fun other beyond inChildren => ?_).trans
      agreePlaced, settledPlaced⟩
    · rw [postorder, List.foldlM_append, runs]
      show (do
        let placed ← place? below between id
        some placed) = some placed
      rw [places]
      rfl
    · exact beyond (List.mem_cons_of_mem _ inChildren)

/-- The frames of a tree hold its plain drawing. -/
theorem ofTree?_settled {tree : RoseTree Nat} (listed : tree.ListedIn below)
    (distinct : tree.values.Nodup) :
    ∃ placed : Frames Rat, ofTree? below tree.value = some placed ∧ placed.Sized below.size ∧
      Settled below placed tree := by
  have sized : (initial below.size : Frames Rat).Sized below.size :=
    ⟨Array.size_replicate, Array.size_replicate, Array.size_replicate⟩
  obtain ⟨placed, runs, sizedPlaced, _, settled⟩ :=
    foldlM_postorder listed distinct sized (fresh_initial listed.values_lt)
  refine ⟨placed, ?_, sizedPlaced, settled⟩
  rw [ofTree?, postOrder?_eq listed distinct]
  exact runs

end Frames

end ExprDiagram
