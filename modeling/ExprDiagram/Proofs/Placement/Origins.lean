/-
This file says what the walk from the root adds up. A waiting node comes with the origin of the
frame around it; when it is taken, its own shift is added to this origin, and the sum goes to its
position and to the nodes below it. So the position of a node is its own offset, the origin that the
walk starts with, and all shifts on the way down to the node, and the offsets of other nodes do not
count. Which of the waiting nodes is taken next makes no difference: each entry is made of numbers
that belong to the way to one node, and in a tree there is only one way to each.
-/

import ExprDiagram.Proofs.Placement.Descent
import ExprDiagram.Proofs.Placement.Equivalence

namespace ExprDiagram

open RoseTree

/-! ### Ways down -/

/-- The nodes on a way down from one node to another, both included. -/
inductive WayDown (below : Array (List Nat)) : Nat → Nat → List Nat → Prop
  | here (node : Nat) : WayDown below node node [node]
  | down {node child last : Nat} {nodes way : List Nat} (found : below[node]? = some nodes)
    (member : child ∈ nodes) (others : WayDown below child last way) :
    WayDown below node last (node :: way)

variable {below : Array (List Nat)} {tree : RoseTree Nat} {node last : Nat} {way : List Nat}

/-- A way down from the root of a tree ends in a node of the tree. -/
theorem WayDown.mem_values (listed : tree.ListedIn below)
    (wayDown : WayDown below tree.value last way) : last ∈ tree.values := by
  induction tree using RoseTree.induct generalizing way with
  | node id children inductionHypothesis =>
    cases wayDown with
    | here => exact List.mem_cons_self
    | down found member others =>
      cases listed with
      | node here all =>
        obtain rfl := Option.some.inj (here.symm.trans found)
        obtain ⟨child, inChildren, rfl⟩ := List.mem_map.mp member
        exact List.mem_cons_of_mem _ (values_subset_valuesAll inChildren
          (inductionHypothesis child inChildren (all child inChildren) others))

/-- There is a way down to each node of a tree. -/
theorem exists_wayDown (listed : tree.ListedIn below) (member : last ∈ tree.values) :
    ∃ way, WayDown below tree.value last way := by
  induction tree using RoseTree.induct with
  | node id children inductionHypothesis =>
    cases listed with
    | node here all =>
      rcases List.mem_cons.mp member with rfl | inChildren
      · exact ⟨_, .here last⟩
      · rw [valuesAll_eq_flatMap] at inChildren
        obtain ⟨child, childMember, inChild⟩ := List.mem_flatMap.mp inChildren
        obtain ⟨way, others⟩ :=
          inductionHypothesis child childMember (all child childMember) inChild
        exact ⟨_, .down here (List.mem_map_of_mem childMember) others⟩

/-- There is only one way down to each node of a tree. -/
theorem WayDown.unique (listed : tree.ListedIn below) (distinct : tree.values.Nodup)
    {other : List Nat} (wayDown : WayDown below tree.value last way)
    (otherDown : WayDown below tree.value last other) : way = other := by
  induction tree using RoseTree.induct generalizing way other with
  | node id children inductionHypothesis =>
    have grove := Grove.children listed distinct
    have outside : id ∉ valuesAll children := (List.nodup_cons.mp distinct).1
    cases listed with
    | node here all =>
      -- Behind the root a way goes on in one of the trees below it, and does not come back.
      have onward : ∀ {nodes : List Nat} {child : Nat} {way : List Nat},
          below[id]? = some nodes → child ∈ nodes → WayDown below child last way →
          ∃ tree ∈ children, tree.value = child ∧ last ∈ tree.values := by
        intro nodes child way found member others
        obtain rfl := Option.some.inj (here.symm.trans found)
        obtain ⟨tree, inChildren, rfl⟩ := List.mem_map.mp member
        exact ⟨tree, inChildren, rfl, others.mem_values (all tree inChildren)⟩
      cases wayDown with
      | here =>
        cases otherDown with
        | here => rfl
        | down found member others =>
          obtain ⟨tree, inChildren, _, inTree⟩ := onward found member others
          exact absurd (values_subset_valuesAll inChildren inTree) outside
      | down found member others =>
        obtain ⟨tree, inChildren, rfl, inTree⟩ := onward found member others
        cases otherDown with
        | here => exact absurd (values_subset_valuesAll inChildren inTree) outside
        | down foundOther memberOther othersOther =>
          obtain ⟨second, inSeconds, same, inSecond⟩ := onward foundOther memberOther othersOther
          obtain rfl := eq_of_mem_values grove.distinct inChildren inSeconds inTree inSecond
          rw [← same] at othersOther
          exact congrArg (List.cons id) (inductionHypothesis tree inChildren (all tree inChildren)
            (grove.tree inChildren) others othersOther)

/-! ### Walks in any order -/

section

variable {α : Type} [Coordinate α]

/-- A walk enters the positions of waiting nodes, each of which comes with the origin of the frame
around it. Any of the waiting nodes may be taken; those below it wait from then on. -/
inductive Walk (below : Array (List Nat)) (offset shift : Array α) :
    List (Nat × α) → Array α → Array α → Prop
  | done (positions : Array α) : Walk below offset shift [] positions positions
  | take {waiting rest : List (Nat × α)} {node : Nat} {outer offsetHere shiftHere : α}
    {nodes : List Nat} {positions result : Array α}
    (taken : waiting.Perm ((node, outer) :: rest)) (found : below[node]? = some nodes)
    (stands : offset[node]? = some offsetHere) (moved : shift[node]? = some shiftHere)
    (others : Walk below offset shift
      ((nodes.map fun child => (child, outer + shiftHere)) ++ rest)
      (positions.setIfInBounds node (offsetHere + (outer + shiftHere))) result) :
    Walk below offset shift waiting positions result

variable {offset shift positions result : Array α}

theorem Walk.perm {waiting other : List (Nat × α)} (same : waiting.Perm other)
    (walk : Walk below offset shift waiting positions result) :
    Walk below offset shift other positions result := by
  cases walk with
  | done => exact same.nil_eq ▸ .done positions
  | take taken found stands moved others =>
    exact .take (same.symm.trans taken) found stands moved others

/-- The walk that takes the latest of the waiting nodes is one of them. -/
theorem walk_of_descend? {limit : Nat} {stack : List (Nat × α)}
    (computed : descend? below offset shift limit stack positions = some result) :
    Walk below offset shift stack positions result := by
  induction limit generalizing stack positions with
  | zero =>
    cases stack with
    | nil => exact Option.some.inj computed ▸ .done positions
    | cons top rest => cases computed
  | succ limit inductionHypothesis =>
    cases stack with
    | nil => exact Option.some.inj computed ▸ .done positions
    | cons top rest =>
      obtain ⟨node, outer⟩ := top
      rw [descend?] at computed
      split at computed
      · rename_i nodes offsetHere shiftHere found stands moved
        exact .take (List.Perm.refl _) found stands moved
          ((inductionHypothesis computed).perm ((List.reverse_perm _).append_right rest))
      · cases computed

end

/-! ### Entries -/

variable {offset shift positions result : Array Rat} {waiting : List (Nat × Rat)}

/-- The entry of a node along a way down to it: its own offset, the origin around the way, and the
shifts of all nodes on the way. -/
def Folded (offset shift : Array Rat) (origin : Rat) (way : List Nat) (last : Nat)
    (position : Rat) : Prop :=
  ∃ (own : Rat) (distances : List Rat), offset[last]? = some own ∧
    way.map (shift[·]?) = distances.map some ∧ position = own + origin + distances.sum

theorem Folded.unique {origin first second : Rat} (here : Folded offset shift origin way last first)
    (there : Folded offset shift origin way last second) : first = second := by
  obtain ⟨own, distances, stands, moved, rfl⟩ := here
  obtain ⟨other, others, standsOther, movedOther, rfl⟩ := there
  obtain rfl := Option.some.inj (stands.symm.trans standsOther)
  rw [List.map_injective_iff.mpr (Option.some_injective Rat) (moved.symm.trans movedOther)]

/-- What a walk leaves of an entry: it comes from a way down from one of the waiting nodes, or there
is no such way and it has not been changed. -/
theorem Walk.entry (walk : Walk below offset shift waiting positions result)
    (size : positions.size = below.size) (last : Nat) :
    (∃ start ∈ waiting, ∃ way position, WayDown below start.1 last way ∧
      Folded offset shift start.2 way last position ∧ result[last]? = some position) ∨
    (∀ start ∈ waiting, ∀ way, ¬ WayDown below start.1 last way) ∧
      result[last]? = positions[last]? := by
  induction walk with
  | done => exact .inr ⟨fun start member => absurd member List.not_mem_nil, rfl⟩
  | @take waiting rest node outer offsetHere shiftHere nodes positions result taken found stands
      moved others inductionHypothesis =>
    rcases inductionHypothesis (Array.size_setIfInBounds.trans size) with
      ⟨start, member, way, position, wayDown, folded, entered⟩ | ⟨without, unchanged⟩
    · rcases List.mem_append.mp member with inBelow | inRest
      · obtain ⟨child, inNodes, rfl⟩ := List.mem_map.mp inBelow
        obtain ⟨own, distances, standsLast, movedWay, rfl⟩ := folded
        refine .inl ⟨(node, outer), taken.mem_iff.mpr List.mem_cons_self, _, _,
          .down found inNodes wayDown, ⟨own, shiftHere :: distances, standsLast, ?_, ?_⟩, entered⟩
        · rw [List.map_cons, List.map_cons, moved, movedWay]
        · rw [List.sum_cons]
          ring
      · exact .inl ⟨start, taken.mem_iff.mpr (List.mem_cons_of_mem _ inRest), way, position,
          wayDown, folded, entered⟩
    · by_cases same : last = node
      · subst same
        have bound := (Array.getElem?_eq_some_iff.mp found).1
        refine .inl ⟨(last, outer), taken.mem_iff.mpr List.mem_cons_self, [last],
          offsetHere + (outer + shiftHere), .here last,
          ⟨offsetHere, [shiftHere], stands, ?_, ?_⟩, ?_⟩
        · rw [List.map_singleton, List.map_singleton, moved]
        · rw [List.sum_singleton, add_assoc]
        · rw [unchanged, Array.getElem?_setIfInBounds_self_of_lt (size.symm ▸ bound)]
      · refine .inr ⟨fun start member way wayDown => ?_, ?_⟩
        · rcases List.mem_cons.mp (taken.mem_iff.mp member) with rfl | inRest
          · cases wayDown with
            | here => exact same rfl
            | down foundHere inNodes others =>
              obtain rfl := Option.some.inj (found.symm.trans foundHere)
              exact without _ (List.mem_append_left _ (List.mem_map_of_mem inNodes)) _ others
          · exact without start (List.mem_append_right _ inRest) way wayDown
        · rw [unchanged, Array.getElem?_setIfInBounds_ne (Ne.symm same)]

theorem Walk.size_eq (walk : Walk below offset shift waiting positions result) :
    result.size = positions.size := by
  induction walk with
  | done => rfl
  | take _ _ _ _ _ inductionHypothesis =>
    exact inductionHypothesis.trans Array.size_setIfInBounds

/-! ### Positions -/

/-- What the positions of a tree have to be, given where its nodes stand in their frames and how far
these are moved: each node of the tree has the entry of the only way down to it, and all other nodes
stand at zero. -/
structure Positioned (below : Array (List Nat)) (tree : RoseTree Nat) (offset shift : Array Rat)
    (origin : Rat) (positions : Array Rat) : Prop where
  size : positions.size = below.size
  inside : ∀ node ∈ tree.values, ∃ way position, WayDown below tree.value node way ∧
    (∀ other, WayDown below tree.value node other → other = way) ∧
    Folded offset shift origin way node position ∧ positions[node]? = some position
  outside : ∀ node < below.size, node ∉ tree.values → positions[node]? = some 0

theorem Positioned.unique {origin : Rat} {first second : Array Rat}
    (here : Positioned below tree offset shift origin first)
    (there : Positioned below tree offset shift origin second) : first = second := by
  refine Array.ext_getElem? fun node => ?_
  by_cases bound : node < below.size
  · by_cases member : node ∈ tree.values
    · obtain ⟨way, position, wayDown, _, folded, entered⟩ := here.inside node member
      obtain ⟨other, positionOther, _, only, foldedOther, enteredOther⟩ := there.inside node member
      obtain rfl := only way wayDown
      rw [entered, enteredOther, folded.unique foldedOther]
    · rw [here.outside node bound member, there.outside node bound member]
  · rw [Array.getElem?_eq_none (here.size ▸ Nat.le_of_not_lt bound),
      Array.getElem?_eq_none (there.size ▸ Nat.le_of_not_lt bound)]

/-- Every walk from the root of a tree, whichever nodes it takes first, finds its positions. -/
theorem Walk.positioned (listed : tree.ListedIn below) (distinct : tree.values.Nodup)
    (size : offset.size = below.size) {origin : Rat}
    (walk : Walk below offset shift [(tree.value, origin)] (Array.replicate offset.size 0) result) :
    Positioned below tree offset shift origin result := by
  have blank : (Array.replicate offset.size (0 : Rat)).size = below.size :=
    Array.size_replicate.trans size
  refine ⟨walk.size_eq.trans blank, fun node member => ?_, fun node bound outside => ?_⟩
  · rcases walk.entry blank node with ⟨start, inStarts, way, position, wayDown, folded, entered⟩ |
      ⟨without, _⟩
    · obtain rfl := List.mem_singleton.mp inStarts
      exact ⟨way, position, wayDown,
        fun other otherDown => otherDown.unique listed distinct wayDown, folded, entered⟩
    · obtain ⟨way, wayDown⟩ := exists_wayDown listed member
      exact absurd wayDown (without _ List.mem_cons_self way)
  · rcases walk.entry blank node with ⟨start, inStarts, way, _, wayDown, _, _⟩ | ⟨_, unchanged⟩
    · obtain rfl := List.mem_singleton.mp inStarts
      exact absurd (wayDown.mem_values listed) outside
    · rw [unchanged, Array.getElem?_replicate, if_pos (size ▸ bound)]

/-- The walk over the lists of a tree comes to an end. -/
theorem exists_absolute (listed : tree.ListedIn below) (distinct : tree.values.Nodup)
    (size : offset.size = below.size) (sizeShift : shift.size = below.size) (origin : Rat) :
    ∃ positions, absolute? below tree.value offset shift origin = some positions := by
  have grove := Grove.singleton listed distinct
  -- The boundaries of the frames have no part in this walk; any will do.
  obtain ⟨positions, computed, _⟩ := @Frames.descend?_drawn below
    ⟨offset, shift, Array.replicate below.size none⟩ ⟨size, sizeShift, Array.size_replicate⟩
    [(tree, origin)] grove _ (grove.length_le.trans (size_le_visitBound below))
    (Array.replicate offset.size 0) (Array.size_replicate.trans size)
  exact ⟨positions, computed⟩

/-- The positions of a tree fold the shifts along the ways down from its root: a node stands at its
own offset, moved by the origin and by the shifts of all nodes on the way to it, and nodes outside
the tree stand at zero. A walk finds these positions and no others, in whichever order it takes the
nodes that wait. -/
theorem absolute?_folds (below : Array (List Nat)) (tree : RoseTree Nat)
    (listed : tree.ListedIn below) (distinct : tree.values.Nodup) (offset shift : Array Rat)
    (size : offset.size = below.size) (sizeShift : shift.size = below.size) (origin : Rat) :
    ∃ positions : Array Rat, absolute? below tree.value offset shift origin = some positions ∧
      Positioned below tree offset shift origin positions ∧
      ∀ result, Walk below offset shift [(tree.value, origin)] (Array.replicate offset.size 0)
        result ↔ result = positions := by
  obtain ⟨positions, computed⟩ := exists_absolute listed distinct size sizeShift origin
  have walk : Walk below offset shift [(tree.value, origin)] (Array.replicate offset.size 0)
      positions := walk_of_descend? computed
  have positioned := walk.positioned listed distinct size
  refine ⟨positions, computed, positioned, fun result => ⟨fun other => ?_, fun same => same ▸ walk⟩⟩
  exact (other.positioned listed distinct size).unique positioned

theorem absolute?_folds_branched :
    branched.ListedIn branchedBelow ∧ branched.values.Nodup ∧
      absolute? branchedBelow 3 (#[9, 4, 0, 1, 2, 7, 5, 6] : Array Rat)
        #[8, 1, 3, 2, 9, 4, 6, 5] 10 = some #[29, 17, 16, 13, 23, 0, 37, 32] ∧
      Positioned branchedBelow branched #[9, 4, 0, 1, 2, 7, 5, 6] #[8, 1, 3, 2, 9, 4, 6, 5] 10
        #[29, 17, 16, 13, 23, 0, 37, 32] := by
  have listed : branched.ListedIn branchedBelow := by decide
  have distinct : branched.values.Nodup := by decide
  obtain ⟨positions, computed, positioned, _⟩ := absolute?_folds branchedBelow branched listed
    distinct #[9, 4, 0, 1, 2, 7, 5, 6] #[8, 1, 3, 2, 9, 4, 6, 5] rfl rfl 10
  have evaluated : absolute? branchedBelow 3 (#[9, 4, 0, 1, 2, 7, 5, 6] : Array Rat)
      #[8, 1, 3, 2, 9, 4, 6, 5] 10 = some #[29, 17, 16, 13, 23, 0, 37, 32] := by decide +kernel
  obtain rfl := Option.some.inj (evaluated.symm.trans computed)
  exact ⟨listed, distinct, evaluated, positioned⟩

end ExprDiagram
