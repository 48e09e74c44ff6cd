/-
This file compares contours with drawings. When neighbours in every row keep their distance, the
outermost nodes of a row have its outermost positions, so that the contours of trees hold the
largest and smallest positions of all nodes, row by row, and the gap between two contours is the
clearance of the drawings.
-/

import ExprDiagram.Proofs.Placement.Changes
import Mathlib.Data.List.Pairwise

namespace ExprDiagram

open RoseTree

/-! ### Exact numbers -/

theorem larger_eq_max (first second : Rat) : Coordinate.larger first second = max first second := by
  show (if first < second then second else first) = max first second
  by_cases less : first < second
  · rw [if_pos less, max_eq_right less.le]
  · rw [if_neg less, max_eq_left (not_lt.mp less)]

theorem mean_eq_average (numbers : List Rat) : Coordinate.mean numbers = average numbers := by
  cases numbers with
  | nil => rfl
  | cons first rest =>
    rw [average, if_neg (List.cons_ne_nil _ _), List.sum_eq_foldl]
    rfl

/-! ### Outermost positions -/

theorem Apart.min?_eq_head? {positions : List Rat} (apart : Apart positions) :
    positions.min? = positions.head? := by
  refine List.min?_eq_head? (List.Pairwise.imp (fun {left right} separated => ?_) apart)
  exact min_eq_left (by linarith)

theorem Apart.max?_eq_getLast? {positions : List Rat} (apart : Apart positions) :
    positions.max? = positions.getLast? := by
  have ordered : positions.Pairwise (· ≤ ·) :=
    List.Pairwise.imp (fun {left right} separated => by linarith) apart
  cases positions with
  | nil => rfl
  | cons first rest =>
    rw [List.getLast?_eq_some_getLast (List.cons_ne_nil first rest)]
    exact List.max?_eq_some_iff.mpr
      ⟨List.getLast_mem _, fun position member => ordered.rel_getLast member⟩

namespace Frames

variable {frames : Frames Rat}

theorem positionsAt_drawn (frames : Frames Rat) (depth : Nat) (origin : Rat)
    (trees : List (RoseTree Nat)) :
    positionsAt depth (trees.map (frames.drawn origin)) =
      (rowAll depth (trees.map (framed frames origin))).map frames.standing := by
  have drawings : trees.map (frames.drawn origin) =
      (trees.map (framed frames origin)).map (map fun node => (node.1, frames.standing node)) := by
    rw [List.map_map]
    rfl
  rw [drawings, positionsAt, rowAll_map, List.map_map]
  rfl

theorem heightAll_drawn (frames : Frames Rat) (origin : Rat) (trees : List (RoseTree Nat)) :
    heightAll (trees.map (frames.drawn origin)) = heightAll trees := by
  rw [← heightAll_framedAll frames origin trees, ← heightAll_map
    (fun node => (node.1, frames.standing node)) (trees.map (framed frames origin)), List.map_map]
  rfl

/-- The right contour of trees holds their largest positions. -/
theorem contour_right {trees : List (RoseTree Nat)} {origin : Rat}
    (apart : ∀ depth, Apart (positionsAt depth (trees.map (frames.drawn origin)))) :
    frames.contour .right (trees.map (framed frames origin)) =
      (List.range (heightAll trees)).map fun depth =>
        rightmost depth (trees.map (frames.drawn origin)) := by
  rw [contour, heightAll_framedAll]
  refine List.map_congr_left fun depth _ => ?_
  rw [rightmost, (apart depth).max?_eq_getLast?, positionsAt_drawn, List.getLast?_map]
  rfl

/-- The left contour of trees holds their smallest positions. -/
theorem contour_left {trees : List (RoseTree Nat)} {origin : Rat}
    (apart : ∀ depth, Apart (positionsAt depth (trees.map (frames.drawn origin)))) :
    frames.contour .left (trees.map (framed frames origin)) =
      (List.range (heightAll trees)).map fun depth =>
        leftmost depth (trees.map (frames.drawn origin)) := by
  rw [contour, heightAll_framedAll]
  refine List.map_congr_left fun depth _ => ?_
  rw [leftmost, (apart depth).min?_eq_head?, positionsAt_drawn, List.head?_map]
  rfl

end Frames

/-! ### Gaps -/

theorem zip_range (first second : Nat) :
    (List.range first).zip (List.range second) =
      (List.range (min first second)).map fun depth => (depth, depth) := by
  refine List.ext_getElem ?_ fun index _ _ => ?_
  · simp only [List.length_zip, List.length_map, List.length_range]
  · simp only [List.getElem_zip, List.getElem_map, List.getElem_range]

theorem gap_range (first second : Nat) (right left : Nat → Rat) :
    gap ((List.range first).map right) ((List.range second).map left) =
      (List.range (min first second)).foldl
        (fun largest depth => max largest (1 + right depth - left depth)) 0 := by
  rw [gap, List.zip_map, zip_range, List.map_map, List.foldl_map]
  congr 1
  funext largest depth
  exact larger_eq_max _ _

/-- The gap between the contours of trees is the clearance of their drawings. -/
theorem gap_eq_clearance {frames : Frames Rat} {placed : List (RoseTree Nat)}
    {next : RoseTree Nat}
    (apartPlaced : ∀ depth, Apart (positionsAt depth (placed.map (frames.drawn 0))))
    (apartNext : ∀ depth, Apart (positionsAt depth [frames.drawn 0 next])) :
    gap (frames.contour .right (placed.map (frames.framed 0)))
        (frames.contour .left [frames.framed 0 next]) =
      clearance (placed.map (frames.drawn 0)) (frames.drawn 0 next) := by
  have left := @Frames.contour_left frames [next] 0 apartNext
  have height := frames.heightAll_drawn 0 [next]
  rw [List.map_singleton] at left height
  rw [Frames.contour_right apartPlaced, left, gap_range, clearance, frames.heightAll_drawn,
    ← height, heightAll_singleton]
  rfl

/-! ### Merged contours -/

/-- Each entry of the first contour has a counterpart in the second that is not smaller. -/
def Covers (second first : List Rat) : Prop :=
  ∀ (depth : Nat) (entry : Rat), first[depth]? = some entry →
    ∃ other, second[depth]? = some other ∧ entry ≤ other

theorem raise_eq_self {entries others : List Rat} (covers : Covers entries others) :
    raise entries others = entries := by
  induction entries generalizing others with
  | nil => rfl
  | cons entry rest inductionHypothesis =>
    cases others with
    | nil => rfl
    | cons other more =>
      obtain ⟨same, found, less⟩ := covers 0 other rfl
      obtain rfl : entry = same := Option.some.inj found
      have tail : Covers rest more := fun depth => covers (depth + 1)
      rw [raise, larger_eq_max, max_eq_left less, inductionHypothesis tail]

theorem Covers.length_le {entries others : List Rat} (covers : Covers entries others) :
    others.length ≤ entries.length := by
  by_contra longer
  have bound : entries.length < others.length := not_le.mp longer
  obtain ⟨entry, found, _⟩ := covers entries.length _ (List.getElem?_eq_getElem bound)
  rw [List.getElem?_eq_none (Nat.le_refl _)] at found
  cases found

/-- Merging a contour into one that covers it changes nothing. -/
theorem maxContour_eq {entries others : List Rat} (covers : Covers entries others) :
    maxContour others entries = entries := by
  rw [maxContour, if_pos covers.length_le, raise_eq_self covers]

/-- Trees to the right of others only raise the largest positions. -/
theorem covers_append (placed more : List Drawing) :
    Covers ((List.range (heightAll (placed ++ more))).map fun depth =>
        rightmost depth (placed ++ more))
      ((List.range (heightAll placed)).map fun depth => rightmost depth placed) := by
  intro depth entry found
  rw [List.getElem?_map] at found
  obtain ⟨inside, row, rfl⟩ := Option.map_eq_some_iff.mp found
  obtain ⟨bound, rfl⟩ := List.getElem?_eq_some_iff.mp row
  rw [List.length_range] at bound
  rw [List.getElem_range] at row ⊢
  have higher : depth < heightAll (placed ++ more) := by
    rw [heightAll_append]
    exact lt_max_of_lt_left bound
  refine ⟨rightmost depth (placed ++ more), ?_, ?_⟩
  · rw [List.getElem?_map, List.getElem?_range higher, Option.map_some]
  · refine le_rightmost ?_
    rw [positionsAt_append]
    exact List.mem_append_left _ (rightmost_mem bound)

end ExprDiagram
