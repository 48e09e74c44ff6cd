/-
This file lays trees out the plain way, without frames, contours or threads. A subtree is laid out
on its own; then, from left to right, the whole subtree is moved to the right of those before it, by
what a look at all their nodes in every row they share asks for; the node above stands at the mean of
the positions below it. What the drawing is supposed to look like can be read off here: in every
row, neighbours are at least one unit apart.
-/

import ExprDiagram.Proofs.Trees.Basic
import Mathlib.Algebra.Order.Ring.Rat
import Mathlib.Tactic.Linarith

namespace ExprDiagram

open RoseTree

/-- A tree whose nodes are placed: each value is the number of a node and its position. -/
abbrev Drawing := RoseTree (Nat × Rat)

/-- The drawing with all nodes moved by the same distance. -/
def translate (distance : Rat) (drawing : Drawing) : Drawing :=
  drawing.map fun (id, position) => (id, position + distance)

/-- The positions of all nodes in a row of drawings that stand side by side. -/
def positionsAt (depth : Nat) (drawings : List Drawing) : List Rat :=
  (rowAll depth drawings).map Prod.snd

/-- The largest position of any node in a row. -/
def rightmost (depth : Nat) (drawings : List Drawing) : Rat :=
  (positionsAt depth drawings).max?.getD 0

/-- The smallest position of any node in a row. -/
def leftmost (depth : Nat) (drawings : List Drawing) : Rat :=
  (positionsAt depth drawings).min?.getD 0

/-- How far a drawing has to be moved to keep one unit from the drawings that are placed already, in
every row it shares with them. It is never moved to the left. -/
def clearance (placed : List Drawing) (next : Drawing) : Rat :=
  (List.range (min (heightAll placed) next.height)).foldl
    (fun largest depth => max largest (1 + rightmost depth placed - leftmost depth [next])) 0

/-- Places drawings one by one to the right of those that are placed already. -/
def pack (placed : List Drawing) : List Drawing → List Drawing
  | [] => placed
  | next :: rest => pack (placed ++ [translate (clearance placed next) next]) rest

/-- The arithmetic mean, and zero if there are no numbers. -/
def average (numbers : List Rat) : Rat :=
  if numbers = [] then 0 else numbers.sum / numbers.length

mutual
/-- The drawing of a tree. -/
def plain : RoseTree Nat → Drawing
  | .node id children =>
    let placed := pack [] (plainAll children)
    .node (id, average (placed.map fun drawing => drawing.value.2)) placed

/-- The drawings of trees, each on its own. -/
def plainAll : List (RoseTree Nat) → List Drawing
  | [] => []
  | tree :: rest => plain tree :: plainAll rest
end

/-- The drawing of a tree whose root stands at zero. -/
def centred (tree : RoseTree Nat) : Drawing :=
  translate (-(plain tree).value.2) (plain tree)

/-- The positions of the nodes of a tree whose root stands at zero, by their numbers; numbers that
are not in the tree stand at zero too. -/
def plainOffsets (size : Nat) (tree : RoseTree Nat) : Array Rat :=
  Array.ofFn fun node : Fin size => ((centred tree).values.lookup node.val).getD 0

/-! ### Moving drawings -/

theorem plainAll_eq_map (trees : List (RoseTree Nat)) : plainAll trees = trees.map plain := by
  induction trees with
  | nil => rfl
  | cons tree rest inductionHypothesis => rw [plainAll, inductionHypothesis, List.map_cons]

theorem plain_node (id : Nat) (children : List (RoseTree Nat)) :
    plain (.node id children) =
      .node (id, average ((pack [] (children.map plain)).map fun drawing => drawing.value.2))
        (pack [] (children.map plain)) := by
  rw [plain, plainAll_eq_map]

theorem translate_zero (drawing : Drawing) : translate 0 drawing = drawing := by
  induction drawing using RoseTree.induct with
  | node top children inductionHypothesis =>
    obtain ⟨id, position⟩ := top
    rw [translate, map_node]
    show RoseTree.node (id, position + 0) (children.map (translate 0)) = _
    rw [add_zero]
    rw [map_eq_self inductionHypothesis]

theorem ids_translate (distance : Rat) (drawing : Drawing) :
    (translate distance drawing).map Prod.fst = drawing.map Prod.fst := by
  rw [translate, map_map]
  rfl

theorem ids_pack (placed drawings : List Drawing) :
    (pack placed drawings).map (map Prod.fst) =
      placed.map (map Prod.fst) ++ drawings.map (map Prod.fst) := by
  induction drawings generalizing placed with
  | nil => rw [pack, List.map_nil, List.append_nil]
  | cons next rest inductionHypothesis =>
    rw [pack, inductionHypothesis, List.map_append, List.map_singleton, ids_translate,
      List.append_assoc, List.singleton_append, List.map_cons]

/-- A drawing has the numbers of the tree in their places. -/
theorem ids_plain (tree : RoseTree Nat) : (plain tree).map Prod.fst = tree := by
  induction tree using RoseTree.induct with
  | node id children inductionHypothesis =>
    rw [plain_node, map_node, ids_pack, List.map_nil, List.nil_append, List.map_map]
    exact congrArg (RoseTree.node id) (map_eq_self inductionHypothesis)

theorem ids_centred (tree : RoseTree Nat) : (centred tree).map Prod.fst = tree := by
  rw [centred, ids_translate, ids_plain]

theorem positionsAt_append (depth : Nat) (first second : List Drawing) :
    positionsAt depth (first ++ second) = positionsAt depth first ++ positionsAt depth second := by
  rw [positionsAt, rowAll_append, List.map_append, positionsAt, positionsAt]

theorem positionsAt_translate (depth : Nat) (distance : Rat) (drawing : Drawing) :
    positionsAt depth [translate distance drawing] =
      (positionsAt depth [drawing]).map (· + distance) := by
  simp only [positionsAt, rowAll_singleton, translate, row_map, List.map_map]
  rfl

theorem positionsAt_ne_nil_iff {depth : Nat} {drawings : List Drawing} :
    positionsAt depth drawings ≠ [] ↔ depth < heightAll drawings := by
  rw [positionsAt, ne_eq, List.map_eq_nil_iff]
  exact rowAll_ne_nil_iff

/-! ### Outermost positions -/

theorem rightmost_mem {depth : Nat} {drawings : List Drawing}
    (inside : depth < heightAll drawings) :
    rightmost depth drawings ∈ positionsAt depth drawings := by
  cases largest : (positionsAt depth drawings).max? with
  | none => exact absurd (List.max?_eq_none_iff.mp largest) (positionsAt_ne_nil_iff.mpr inside)
  | some position =>
    rw [rightmost, largest, Option.getD_some]
    exact (List.max?_eq_some_iff.mp largest).1

theorem le_rightmost {depth : Nat} {drawings : List Drawing} {position : Rat}
    (member : position ∈ positionsAt depth drawings) : position ≤ rightmost depth drawings := by
  cases largest : (positionsAt depth drawings).max? with
  | none =>
    rw [List.max?_eq_none_iff.mp largest] at member
    cases member
  | some bound =>
    rw [rightmost, largest, Option.getD_some]
    exact (List.max?_eq_some_iff.mp largest).2 position member

theorem leftmost_mem {depth : Nat} {drawings : List Drawing}
    (inside : depth < heightAll drawings) :
    leftmost depth drawings ∈ positionsAt depth drawings := by
  cases smallest : (positionsAt depth drawings).min? with
  | none => exact absurd (List.min?_eq_none_iff.mp smallest) (positionsAt_ne_nil_iff.mpr inside)
  | some position =>
    rw [leftmost, smallest, Option.getD_some]
    exact (List.min?_eq_some_iff.mp smallest).1

theorem leftmost_le {depth : Nat} {drawings : List Drawing} {position : Rat}
    (member : position ∈ positionsAt depth drawings) : leftmost depth drawings ≤ position := by
  cases smallest : (positionsAt depth drawings).min? with
  | none =>
    rw [List.min?_eq_none_iff.mp smallest] at member
    cases member
  | some bound =>
    rw [leftmost, smallest, Option.getD_some]
    exact (List.min?_eq_some_iff.mp smallest).2 position member

theorem isLeast_leftmost {depth : Nat} {drawings : List Drawing}
    (inside : depth < heightAll drawings) :
    IsLeast {position | position ∈ positionsAt depth drawings} (leftmost depth drawings) :=
  ⟨leftmost_mem inside, fun _ member => leftmost_le member⟩

theorem isGreatest_rightmost {depth : Nat} {drawings : List Drawing}
    (inside : depth < heightAll drawings) :
    IsGreatest {position | position ∈ positionsAt depth drawings} (rightmost depth drawings) :=
  ⟨rightmost_mem inside, fun _ member => le_rightmost member⟩

theorem le_foldl_max {Item Bound : Type} [LinearOrder Bound] (measure : Item → Bound)
    (items : List Item) (start : Bound) :
    start ≤ items.foldl (fun largest item => max largest (measure item)) start ∧
      ∀ item ∈ items, measure item ≤
        items.foldl (fun largest item => max largest (measure item)) start := by
  induction items generalizing start with
  | nil => exact ⟨le_refl start, fun item member => absurd member List.not_mem_nil⟩
  | cons first rest inductionHypothesis =>
    obtain ⟨fromStart, fromRest⟩ := inductionHypothesis (max start (measure first))
    refine ⟨(le_max_left _ _).trans fromStart, fun item member => ?_⟩
    rcases List.mem_cons.mp member with rfl | inRest
    · exact (le_max_right _ _).trans fromStart
    · exact fromRest item inRest

/-- The clearance is enough in every row that is shared. -/
theorem le_clearance {placed : List Drawing} {next : Drawing} {depth : Nat} {left right : Rat}
    (inPlaced : left ∈ positionsAt depth placed) (inNext : right ∈ positionsAt depth [next]) :
    left + 1 ≤ right + clearance placed next := by
  have shared : depth ∈ List.range (min (heightAll placed) next.height) := by
    rw [List.mem_range, lt_min_iff]
    refine ⟨positionsAt_ne_nil_iff.mp (List.ne_nil_of_mem inPlaced), ?_⟩
    have inHeight := positionsAt_ne_nil_iff.mp (List.ne_nil_of_mem inNext)
    rwa [heightAll_singleton] at inHeight
  have enough := (le_foldl_max
    (fun depth => 1 + rightmost depth placed - leftmost depth [next]) _ 0).2 depth shared
  have beforeRightmost := le_rightmost inPlaced
  have afterLeftmost := leftmost_le inNext
  rw [clearance]
  linarith

/-! ### Distances -/

/-- Each position is at least one unit to the left of those after it. -/
def Apart (positions : List Rat) : Prop :=
  positions.Pairwise fun left right => left + 1 ≤ right

theorem Apart.translate {positions : List Rat} (apart : Apart positions) (distance : Rat) :
    Apart (positions.map (· + distance)) := by
  refine List.pairwise_map.mpr (List.Pairwise.imp ?_ apart)
  intro left right separated
  linarith

theorem pack_append (placed first second : List Drawing) :
    pack placed (first ++ second) = pack (pack placed first) second := by
  induction first generalizing placed with
  | nil => rfl
  | cons next rest inductionHypothesis => rw [List.cons_append, pack, inductionHypothesis, pack]

/-- Drawings that keep the distances in their own rows keep them also when they are packed. -/
theorem pack_apart {placed drawings : List Drawing}
    (placedApart : ∀ depth, Apart (positionsAt depth placed))
    (apart : ∀ drawing ∈ drawings, ∀ depth, Apart (positionsAt depth [drawing])) :
    ∀ depth, Apart (positionsAt depth (pack placed drawings)) := by
  induction drawings generalizing placed with
  | nil => exact placedApart
  | cons next rest inductionHypothesis =>
    rw [pack]
    refine inductionHypothesis (fun depth => ?_)
      fun drawing member => apart drawing (List.mem_cons_of_mem _ member)
    rw [positionsAt_append, positionsAt_translate]
    refine List.pairwise_append.mpr
      ⟨placedApart depth, (apart next List.mem_cons_self depth).translate _, ?_⟩
    intro left inPlaced moved inMoved
    obtain ⟨right, inNext, rfl⟩ := List.mem_map.mp inMoved
    exact le_clearance inPlaced inNext

/-- In every row of the drawing of a tree, neighbours keep their distance. -/
theorem plain_apart (tree : RoseTree Nat) (depth : Nat) :
    Apart (positionsAt depth [plain tree]) := by
  induction tree using RoseTree.induct generalizing depth with
  | node id children inductionHypothesis =>
    rw [plain_node]
    cases depth with
    | zero =>
      rw [positionsAt, rowAll_singleton, row_zero, List.map_singleton]
      exact List.pairwise_singleton _ _
    | succ depth =>
      have packed := @pack_apart [] (children.map plain)
        (fun depth => List.Pairwise.nil) fun drawing member => by
          obtain ⟨child, inChildren, rfl⟩ := List.mem_map.mp member
          exact inductionHypothesis child inChildren
      have below := packed depth
      rw [positionsAt] at below
      rwa [positionsAt, rowAll_singleton, row_succ]

end ExprDiagram
