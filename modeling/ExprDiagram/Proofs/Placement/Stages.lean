/-
This file goes through the placing of trees stage by stage. Trees are placed one after the other,
and a tree when the trees below its top have been placed and then the top. Between the stages more
is known of the frames than the induction over the numbers shows: the trees that are done are
settled, those to come are as at the beginning, and nothing outside the trees has changed. So what
is to be shown of the placing of a tree needs to be looked at for these two stages only.
-/

import ExprDiagram.Proofs.Placement.Completion

namespace ExprDiagram

open RoseTree

namespace Frames

variable {below : Array (List Nat)} {frames first placed : Frames Rat} {tree : RoseTree Nat}
variable {rest trees children : List (RoseTree Nat)} {id : Nat}

/-- Placing the trees makes the second frames out of the first, which are as at the beginning for
all numbers of the trees. -/
structure Placing (below : Array (List Nat)) (frames placed : Frames Rat)
    (trees : List (RoseTree Nat)) : Prop where
  grove : Grove below trees
  sized : frames.Sized below.size
  fresh : Fresh frames (valuesAll trees)
  runs : (postorderAll trees).foldlM (place? below) frames = some placed
  sizedPlaced : placed.Sized below.size
  outside : Agree (· ∉ valuesAll trees) frames placed
  settled : ∀ tree ∈ trees, Settled below placed tree

/-- Trees can be placed. -/
theorem exists_placing (grove : Grove below trees) (sized : frames.Sized below.size)
    (fresh : Fresh frames (valuesAll trees)) :
    ∃ placed : Frames Rat, Placing below frames placed trees := by
  obtain ⟨placed, runs, sizedPlaced, outside, settled⟩ := foldlM_settled
    (fun tree member frames sized fresh =>
      foldlM_postorder (grove.listed tree member) (grove.tree member) sized fresh)
    grove sized fresh
  exact ⟨placed, grove, sized, fresh, runs, sizedPlaced, outside, settled⟩

theorem exists_placing_tree (listed : tree.ListedIn below) (distinct : tree.values.Nodup) :
    ∃ placed : Frames Rat, Placing below (initial below.size) placed [tree] := by
  refine exists_placing (Grove.singleton listed distinct)
    ⟨Array.size_replicate, Array.size_replicate, Array.size_replicate⟩ (fresh_initial ?_)
  rw [valuesAll_singleton]
  exact listed.values_lt

theorem Placing.ofTree? (placing : Placing below (initial below.size) placed [tree]) :
    ofTree? below tree.value = some placed := by
  have runs := placing.runs
  rw [postorderAll_singleton] at runs
  rw [Frames.ofTree?, postOrder?_eq (placing.grove.listed tree List.mem_cons_self)
    (placing.grove.tree List.mem_cons_self)]
  exact runs

/-- The first of some trees is placed before the others. -/
theorem Placing.split (placing : Placing below frames placed (tree :: rest)) :
    ∃ first : Frames Rat, Placing below frames first [tree] ∧ Placing below first placed rest := by
  have grove : Grove below ([tree] ++ rest) := placing.grove
  have disjoint := grove.disjoint
  have fresh := placing.fresh
  rw [valuesAll] at fresh
  obtain ⟨first, placingFirst⟩ := exists_placing grove.left placing.sized
    fun id member => fresh id (List.mem_append_left _ (valuesAll_singleton tree ▸ member))
  have freshRest : Fresh first (valuesAll rest) :=
    Fresh.congr (fun id member => fresh id (List.mem_append_right _ member))
      (placingFirst.outside.mono fun id inRest inTree => disjoint id inTree inRest)
  obtain ⟨last, placingRest⟩ := exists_placing grove.right placingFirst.sizedPlaced freshRest
  have runs := placing.runs
  have runsFirst := placingFirst.runs
  rw [postorderAll_singleton] at runsFirst
  rw [postorderAll, List.foldlM_append, runsFirst] at runs
  obtain rfl := Option.some.inj (runs.symm.trans placingRest.runs)
  exact ⟨first, placingFirst, placingRest⟩

/-- A tree is placed by placing the trees below its top, and then the top. -/
theorem Placing.node (placing : Placing below frames placed [.node id children]) :
    ∃ between : Frames Rat, Placing below frames between children ∧
      place? below between id = some placed := by
  have grove := Grove.children (placing.grove.listed _ List.mem_cons_self)
    (placing.grove.tree List.mem_cons_self)
  have fresh := placing.fresh
  rw [valuesAll, values] at fresh
  obtain ⟨between, placingBelow⟩ := exists_placing grove placing.sized
    fun other member => fresh other (List.mem_append_left _ (List.mem_cons_of_mem _ member))
  have runs := placing.runs
  rw [postorderAll_singleton, postorder, List.foldlM_append, placingBelow.runs] at runs
  have places : (place? below between id).bind some = some placed := runs
  rw [Option.bind_fun_some] at places
  exact ⟨between, placingBelow, places⟩

variable {motive : Frames Rat → Frames Rat → List (RoseTree Nat) → Prop}

/-- What holds of each of some trees holds of all of them, if it can be put together. -/
theorem Placing.induct_all (nil : ∀ frames, motive frames frames [])
    (cons : ∀ {frames first placed tree rest}, Placing below frames first [tree] →
      Placing below first placed rest → Placing below frames placed (tree :: rest) →
      motive frames first [tree] → motive first placed rest → motive frames placed (tree :: rest))
    (each : ∀ tree ∈ trees, ∀ frames placed, Placing below frames placed [tree] →
      motive frames placed [tree])
    (placing : Placing below frames placed trees) : motive frames placed trees := by
  induction trees generalizing frames with
  | nil =>
    obtain rfl := Option.some.inj placing.runs
    exact nil frames
  | cons tree rest inductionHypothesis =>
    obtain ⟨first, placingFirst, placingRest⟩ := placing.split
    exact cons placingFirst placingRest placing
      (each tree List.mem_cons_self frames first placingFirst)
      (inductionHypothesis (fun other member => each other (List.mem_cons_of_mem _ member))
        placingRest)

/-- What the two stages keep holds of the placing of every tree. -/
theorem Placing.induct (nil : ∀ frames, motive frames frames [])
    (cons : ∀ {frames first placed tree rest}, Placing below frames first [tree] →
      Placing below first placed rest → Placing below frames placed (tree :: rest) →
      motive frames first [tree] → motive first placed rest → motive frames placed (tree :: rest))
    (node : ∀ {frames between placed id children}, Placing below frames between children →
      place? below between id = some placed → Placing below frames placed [.node id children] →
      motive frames between children → motive frames placed [.node id children])
    (placing : Placing below frames placed [tree]) : motive frames placed [tree] := by
  induction tree using RoseTree.induct generalizing frames placed with
  | node id children inductionHypothesis =>
    obtain ⟨between, placingBelow, places⟩ := placing.node
    exact node placingBelow places placing (placingBelow.induct_all nil cons
      fun child member frames placed => inductionHypothesis child member)

end Frames

end ExprDiagram
