/-
This file shows that the shape of a subtree is its own. The drawing of a subtree is moved as a
whole, once for each node above it, and nothing else is done to it; so it looks wherever it stands
as it would look alone. The mean of the positions of some drawings moves with them, so that a node
which was put over the mean of its children stays there.
-/

import ExprDiagram.Proofs.Placement.Equivalence
import ExprDiagram.Proofs.Trees.Subtrees
import Mathlib.Tactic.FieldSimp
import Mathlib.Tactic.Ring

namespace ExprDiagram

open RoseTree

variable {below : Array (List Nat)} {tree small : RoseTree Nat} {depth id : Nat}

/-! ### Moved drawings -/

theorem value_translate (distance : Rat) (drawing : Drawing) :
    (translate distance drawing).value = (drawing.value.1, drawing.value.2 + distance) :=
  value_map _ drawing

theorem translate_translate (first second : Rat) (drawing : Drawing) :
    translate second (translate first drawing) = translate (first + second) drawing := by
  rw [translate, translate, map_map, translate]
  congr 1
  funext item
  exact congrArg (Prod.mk item.1) (add_assoc item.2 first second)

theorem mem_pack_of_mem {placed drawings : List Drawing} {drawing : Drawing}
    (member : drawing ∈ placed) : drawing ∈ pack placed drawings := by
  induction drawings generalizing placed with
  | nil => exact member
  | cons next rest inductionHypothesis =>
    exact inductionHypothesis (List.mem_append_left _ member)

/-- Packing moves each drawing as a whole. -/
theorem exists_translate_mem_pack (placed : List Drawing) {drawings : List Drawing}
    {drawing : Drawing} (member : drawing ∈ drawings) :
    ∃ distance, translate distance drawing ∈ pack placed drawings := by
  induction drawings generalizing placed with
  | nil => cases member
  | cons next rest inductionHypothesis =>
    rcases List.mem_cons.mp member with rfl | inRest
    · refine ⟨clearance placed drawing, ?_⟩
      rw [pack]
      exact mem_pack_of_mem (List.mem_append_right _ List.mem_cons_self)
    · exact inductionHypothesis _ inRest

/-- The drawing of a subtree stands in that of the whole tree, moved by some distance. -/
theorem exists_subtree_plain (subtree : Subtree depth small tree) :
    ∃ distance, Subtree depth (translate distance (plain small)) (plain tree) := by
  induction subtree with
  | top tree => exact ⟨0, by rw [translate_zero]; exact .top _⟩
  | inside member _ inductionHypothesis =>
    obtain ⟨distance, inChild⟩ := inductionHypothesis
    obtain ⟨moved, inPacked⟩ :=
      exists_translate_mem_pack [] (List.mem_map_of_mem (f := plain) member)
    refine ⟨distance + moved, ?_⟩
    rw [plain_node, ← translate_translate]
    exact .inside inPacked (inChild.map _)

theorem exists_subtree_centred (subtree : Subtree depth small tree) :
    ∃ distance, Subtree depth (translate distance (plain small)) (centred tree) := by
  obtain ⟨distance, inPlain⟩ := exists_subtree_plain subtree
  refine ⟨distance + -(plain tree).value.2, ?_⟩
  rw [← translate_translate]
  exact inPlain.map _

/-! ### Means -/

/-- The mean of numbers that are moved by a distance moves by the same distance. -/
theorem mean_map_add {numbers : List Rat} (nonempty : numbers ≠ []) (distance : Rat) :
    numbers.sum / numbers.length + distance =
      (numbers.map (· + distance)).sum / (numbers.map (· + distance)).length := by
  have positive : (numbers.length : Rat) ≠ 0 :=
    Nat.cast_ne_zero.mpr (List.length_eq_zero_iff.not.mpr nonempty)
  rw [List.sum_map_add, List.map_id', List.map_const', List.sum_replicate, nsmul_eq_mul,
    List.length_map]
  field_simp

theorem map_top_pack (children : List (RoseTree Nat)) :
    (pack [] (children.map plain)).map (fun drawing => drawing.value.1) = children.map value := by
  have ids := congrArg (List.map value) (ids_pack [] (children.map plain))
  rw [List.map_nil, List.nil_append, List.map_map, List.map_map, List.map_map] at ids
  calc (pack [] (children.map plain)).map (fun drawing => drawing.value.1)
      = (pack [] (children.map plain)).map (value ∘ map Prod.fst) :=
        List.map_congr_left fun drawing _ => (value_map Prod.fst drawing).symm
    _ = children.map (value ∘ map Prod.fst ∘ plain) := ids
    _ = children.map value := List.map_congr_left fun child _ => congrArg value (ids_plain child)

/-- In a drawing that has been moved, the top of a tree stands over the mean of its children. -/
theorem exists_translate_plain_node (distance : Rat) (id : Nat) {children : List (RoseTree Nat)}
    (nonempty : children ≠ []) :
    ∃ drawings : List Drawing, drawings.map (fun drawing => drawing.value.1) = children.map value ∧
      translate distance (plain (.node id children)) =
        .node (id, (drawings.map fun drawing => drawing.value.2).sum / drawings.length)
          drawings := by
  have tops := map_top_pack children
  generalize packed : pack [] (children.map plain) = placed at tops
  have some_placed : placed.map (fun drawing => drawing.value.2) ≠ [] := by
    rw [ne_eq, List.map_eq_nil_iff]
    rintro rfl
    exact nonempty (List.map_eq_nil_iff.mp tops.symm)
  have positions : (placed.map (translate distance)).map (fun drawing => drawing.value.2) =
      (placed.map fun drawing => drawing.value.2).map (· + distance) := by
    rw [List.map_map, List.map_map]
    refine List.map_congr_left fun drawing _ => ?_
    rw [Function.comp_apply, Function.comp_apply, value_translate]
  refine ⟨placed.map (translate distance), ?_, ?_⟩
  · rw [List.map_map, ← tops]
    refine List.map_congr_left fun drawing _ => ?_
    rw [Function.comp_apply, value_translate]
  · have moved := mean_map_add some_placed distance
    rw [List.length_map, List.length_map, List.length_map] at moved
    rw [plain_node, packed, translate, map_node, average, if_neg some_placed, List.length_map,
      positions, List.length_map, ← moved]
    rfl

/-! ### Positions -/

/-- What holds of the positions of a tree: the root stands at zero, a node with children at the mean
of their positions, and the nodes of a subtree stand around its top as they do when the subtree is
placed alone. -/
structure Balanced (below : Array (List Nat)) (tree : RoseTree Nat) (offset : Array Rat) :
    Prop where
  root : offset[tree.value]? = some 0
  mean : ∀ node ∈ tree.values, ∀ children, below[node]? = some children → children ≠ [] →
    ∃ positions : List Rat, children.map (offset[·]?) = positions.map some ∧
      offset[node]? = some (positions.sum / positions.length)
  rigid : ∀ depth small, Subtree depth small tree → ∃ own top,
    offsets? small.value below = some own ∧ offset[small.value]? = some top ∧
      ∀ node ∈ small.values, ∃ position,
        offset[node]? = some position ∧ own[node]? = some (position - top)

/-- The positions of a tree are those of its centred drawing. -/
theorem exists_offsets (listed : tree.ListedIn below) (distinct : tree.values.Nodup) :
    ∃ offset : Array Rat, offsets? tree.value below = some offset ∧
      ∀ item ∈ (centred tree).values, offset[item.1]? = some item.2 := by
  obtain ⟨frames, computed, positions⟩ := Frames.ofTree?_positions listed distinct
  refine ⟨plainOffsets below.size tree, ?_, fun item member => ?_⟩
  · rw [offsets?, computed]
    exact positions
  · have keys : ((centred tree).values.map Prod.fst).Nodup := by
      rwa [← values_map, ids_centred]
    have inTree : item.1 ∈ tree.values := by
      rw [← ids_centred tree, values_map]
      exact List.mem_map_of_mem member
    rw [plainOffsets, Array.getElem?_ofFn, dif_pos (listed.values_lt _ inTree),
      lookup_of_mem keys member, Option.getD_some]

theorem RoseTree.Subtree.listed (subtree : Subtree depth small tree)
    (listed : tree.ListedIn below) : small.ListedIn below := by
  induction subtree with
  | top => exact listed
  | inside member _ inductionHypothesis =>
    cases listed with
    | node _ all => exact inductionHypothesis (all _ member)

theorem mem_translate (distance : Rat) {position : Rat} {node : Nat} {drawing : Drawing}
    (member : (node, position) ∈ drawing.values) :
    (node, position + distance) ∈ (translate distance drawing).values := by
  rw [translate, values_map]
  exact List.mem_map_of_mem member

theorem exists_mem_plain {node : Nat} (member : node ∈ tree.values) :
    ∃ position, (node, position) ∈ (plain tree).values := by
  rw [← ids_plain tree, values_map] at member
  obtain ⟨⟨_, position⟩, inDrawing, rfl⟩ := List.mem_map.mp member
  exact ⟨position, inDrawing⟩

theorem top_mem_plain (tree : RoseTree Nat) :
    (tree.value, (plain tree).value.2) ∈ (plain tree).values := by
  have top : (plain tree).value.1 = tree.value := by
    rw [← value_map Prod.fst, ids_plain]
  rw [← top]
  exact (plain tree).value_mem_values

section

variable {offset : Array Rat}
  (stands : ∀ item ∈ (centred tree).values, offset[item.1]? = some item.2)

include stands

theorem root_stands : offset[tree.value]? = some 0 := by
  have inCentred := mem_translate (-(plain tree).value.2) (top_mem_plain tree)
  rw [add_neg_cancel] at inCentred
  exact stands _ inCentred

theorem mean_stands (listed : tree.ListedIn below) {node : Nat} (member : node ∈ tree.values)
    {children : List Nat} (found : below[node]? = some children) (nonempty : children ≠ []) :
    ∃ positions : List Rat, children.map (offset[·]?) = positions.map some ∧
      offset[node]? = some (positions.sum / positions.length) := by
  obtain ⟨depth, ⟨id, trees⟩, subtree, rfl⟩ := exists_subtree member
  obtain ⟨distance, drawn⟩ := exists_subtree_centred subtree
  cases subtree.listed listed with
  | node here _ =>
    obtain rfl := Option.some.inj (here.symm.trans found)
    obtain ⟨drawings, tops, node_eq⟩ :=
      exists_translate_plain_node distance id (List.map_eq_nil_iff.not.mp nonempty)
    rw [node_eq] at drawn
    have inside : ∀ item ∈ (RoseTree.node _ drawings).values, offset[item.1]? = some item.2 :=
      fun item inDrawing => stands item (drawn.values_infix.subset inDrawing)
    refine ⟨drawings.map fun drawing => drawing.value.2, ?_, ?_⟩
    · rw [← tops, List.map_map, List.map_map]
      refine List.map_congr_left fun drawing member => inside drawing.value ?_
      exact List.mem_cons_of_mem _ (values_subset_valuesAll member drawing.value_mem_values)
    · rw [List.length_map]
      exact inside _ List.mem_cons_self

theorem rigid_stands (listed : tree.ListedIn below) (distinct : tree.values.Nodup)
    (subtree : Subtree depth small tree) :
    ∃ own top, offsets? small.value below = some own ∧ offset[small.value]? = some top ∧
      ∀ node ∈ small.values, ∃ position,
        offset[node]? = some position ∧ own[node]? = some (position - top) := by
  obtain ⟨distance, drawn⟩ := exists_subtree_centred subtree
  have inside : ∀ node position, (node, position) ∈ (plain small).values →
      offset[node]? = some (position + distance) := fun node position inPlain =>
    stands _ (drawn.values_infix.subset (mem_translate _ inPlain))
  obtain ⟨own, computed, standsOwn⟩ :=
    exists_offsets (subtree.listed listed) (distinct.sublist subtree.values_sublist)
  refine ⟨own, _, computed, inside _ _ (top_mem_plain small), fun node member => ?_⟩
  obtain ⟨position, inPlain⟩ := exists_mem_plain member
  refine ⟨_, inside node position inPlain, ?_⟩
  rw [standsOwn _ (mem_translate _ inPlain), add_sub_add_right_eq_sub, sub_eq_add_neg]

end

/-- The positions of a tree exist, with its root at zero, its parents centred over their children
and its subtrees rigid. -/
theorem offsets?_balanced (below : Array (List Nat)) (tree : RoseTree Nat)
    (listed : tree.ListedIn below) (distinct : tree.values.Nodup) :
    ∃ offset : Array Rat, offsets? tree.value below = some offset ∧ Balanced below tree offset := by
  obtain ⟨offset, computed, stands⟩ := exists_offsets listed distinct
  exact ⟨offset, computed, root_stands stands,
    fun _ member _ found nonempty => mean_stands stands listed member found nonempty,
    fun _ _ subtree => rigid_stands stands listed distinct subtree⟩

theorem offsets?_balanced_threaded :
    threaded.ListedIn threadedBelow ∧ threaded.values.Nodup ∧
      ∃ offset : Array Rat, offsets? 0 threadedBelow = some offset ∧
        Balanced threadedBelow threaded offset :=
  ⟨by decide, by decide, offsets?_balanced threadedBelow threaded (by decide) (by decide)⟩

end ExprDiagram
