/-
This file follows what threads record. A thread is true when its target stands in the row below its
holder, and the distance that is recorded leads from the frame of the one to that of the other. Moving
a tree moves holder and target together as long as no thread leads into the tree or out of it; so
threads stay true when they are set between trees that have been moved already, and when a tree is
moved that has none but its own.
-/

import ExprDiagram.Proofs.Placement.Descent
import ExprDiagram.Proofs.Placement.Completion

namespace ExprDiagram

open RoseTree

/-- In trees of different values each stands in one row. -/
theorem RoseTree.rowAll_inj {α : Type} {trees : List (RoseTree α)}
    (distinct : (valuesAll trees).Nodup) {value : α} {row other : Nat}
    (inRow : value ∈ rowAll row trees) (inOther : value ∈ rowAll other trees) : row = other := by
  obtain ⟨tree, inTrees, inTree⟩ := List.mem_flatMap.mp inRow
  obtain ⟨second, inSeconds, inSecond⟩ := List.mem_flatMap.mp inOther
  obtain rfl := eq_of_mem_values distinct inTrees inSeconds
    (row_subset_values row tree inTree) (row_subset_values other second inSecond)
  have distinctTree := distinct.sublist (valuesAll_sublist (List.singleton_sublist.mpr inTrees))
  rw [valuesAll_singleton] at distinctTree
  exact row_inj distinctTree inTree inSecond

namespace Frames

variable {below : Array (List Nat)} {frames first second : Frames Rat} {side : Side}
variable {tree : RoseTree Nat} {trees placed rest : List (RoseTree Nat)} {id : Nat}

/-- Every thread of the trees leads to the next row, over the distance between the frames. -/
def Threaded (frames : Frames Rat) (trees : List (RoseTree Nat)) : Prop :=
  ∀ row, ∀ holder ∈ rowAll row (trees.map (framed frames 0)), ∀ target step,
    frames.thread[holder.1]? = some (some (target, step)) →
      (target, holder.2 + step) ∈ rowAll (row + 1) (trees.map (framed frames 0))

/-! ### Frames in a row -/

theorem top_mem_row (frames : Frames Rat) (member : tree ∈ trees) :
    (tree.value, frames.shiftOf tree.value) ∈ rowAll 0 (trees.map (framed frames 0)) := by
  rw [rowAll_zero, List.map_map]
  refine List.mem_map.mpr ⟨tree, member, ?_⟩
  obtain ⟨id, children⟩ := tree
  show (id, 0 + frames.shiftOf id) = (id, frames.shiftOf id)
  rw [zero_add]

/-- The frame of a child is that of its parent, moved by the shift of the child. -/
theorem row_below_framed (listed : tree.ListedIn below) {origin : Rat} {row : Nat}
    {node : Nat × Rat} (inRow : node ∈ (framed frames origin tree).row row) {nodes : List Nat}
    (found : below[node.1]? = some nodes) {child : Nat} (member : child ∈ nodes) :
    (child, node.2 + frames.shiftOf child) ∈ (framed frames origin tree).row (row + 1) := by
  induction tree using RoseTree.induct generalizing origin row with
  | node top children inductionHypothesis =>
    cases listed with
    | node here all =>
      rw [framed_node] at inRow ⊢
      cases row with
      | zero =>
        obtain rfl := List.mem_singleton.mp inRow
        obtain rfl := Option.some.inj (here.symm.trans found)
        obtain ⟨⟨id, lower⟩, inChildren, rfl⟩ := List.mem_map.mp member
        rw [row_succ, rowAll_zero, List.map_map]
        exact List.mem_map_of_mem inChildren
      | succ row =>
        obtain ⟨lower, inLower, inTree⟩ := List.mem_flatMap.mp inRow
        obtain ⟨subtree, inChildren, rfl⟩ := List.mem_map.mp inLower
        exact List.mem_flatMap.mpr ⟨_, inLower,
          inductionHypothesis subtree inChildren (all subtree inChildren) inTree⟩

theorem mem_ids_row {row : Nat} {node : Nat × Rat} {origin : Rat}
    (inRow : node ∈ rowAll row (trees.map (framed frames origin))) : node.1 ∈ rowAll row trees := by
  rw [← ids_framedAll frames origin trees, rowAll_map]
  exact List.mem_map_of_mem inRow

/-- A number of different ones stands in one row, and its frame at one distance. -/
theorem framed_inj (distinct : (valuesAll trees).Nodup) {row other : Nat} {node same : Nat × Rat}
    (inRow : node ∈ rowAll row (trees.map (framed frames 0)))
    (inOther : same ∈ rowAll other (trees.map (framed frames 0))) (number : node.1 = same.1) :
    row = other ∧ node = same := by
  refine ⟨rowAll_inj distinct (mem_ids_row inRow) (number ▸ mem_ids_row inOther), ?_⟩
  rw [← ids_framedAll frames 0 trees, valuesAll_map] at distinct
  exact List.inj_on_of_nodup_map distinct (rowAll_subset_valuesAll row _ inRow)
    (rowAll_subset_valuesAll other _ inOther) number

/-! ### Changes -/

theorem Threaded.congr (threaded : Threaded first trees)
    (agree : Agree (· ∈ valuesAll trees) first second) : Threaded second trees := by
  have same : trees.map (framed first 0) = trees.map (framed second 0) :=
    List.map_congr_left fun tree member => framed_congr (fun id inTree =>
      agree.shiftOf (values_subset_valuesAll member inTree)) 0
  intro row holder inRow target step thread
  rw [← same] at inRow ⊢
  have inTrees := mem_of_mem_framedAll (rowAll_subset_valuesAll row _ inRow)
  exact threaded row holder inRow target step ((agree.thread holder.1 inTrees).trans thread)

theorem Threaded.append (threaded : Threaded frames placed) (others : Threaded frames rest) :
    Threaded frames (placed ++ rest) := by
  intro row holder inRow target step thread
  rw [List.map_append, rowAll_append] at inRow ⊢
  rcases List.mem_append.mp inRow with inPlaced | inRest
  · exact List.mem_append_left _ (threaded row holder inPlaced target step thread)
  · exact List.mem_append_right _ (others row holder inRest target step thread)

theorem threaded_nil (frames : Frames Rat) : Threaded frames [] :=
  fun _ _ inRow => absurd inRow List.not_mem_nil

/-- The threads of trees are true if those of each tree are. -/
theorem threaded_of_each (each : ∀ tree ∈ trees, Threaded frames [tree]) : Threaded frames trees := by
  induction trees with
  | nil => exact threaded_nil frames
  | cons tree rest inductionHypothesis =>
    obtain ⟨here, others⟩ := List.forall_mem_cons.mp each
    exact here.append (inductionHypothesis others)

theorem Fresh.threaded (fresh : Fresh frames (valuesAll trees)) : Threaded frames trees := by
  intro row holder inRow target step thread
  have inTrees := mem_of_mem_framedAll (rowAll_subset_valuesAll row _ inRow)
  rw [(fresh holder.1 inTrees).2] at thread
  cases thread

/-- A tree is moved with all that its threads connect. -/
theorem Threaded.move (threaded : Threaded frames [tree]) (distinct : tree.values.Nodup)
    (bound : tree.value < frames.shift.size) (distance : Rat) :
    Threaded (frames.move tree.value distance) [tree] := by
  intro row holder inRow target step thread
  rw [List.map_singleton, framed_move distinct bound, ← List.map_singleton (f := map _),
    rowAll_map] at inRow ⊢
  obtain ⟨before, inBefore, rfl⟩ := List.mem_map.mp inRow
  refine List.mem_map.mpr ⟨_, threaded row before inBefore target step thread, ?_⟩
  exact Prod.ext rfl (add_right_comm _ _ _)

/-- A node without a thread stands above trees whose threads are true. -/
theorem Threaded.above {children : List (RoseTree Nat)} (threaded : Threaded frames children)
    (unmoved : frames.shiftOf id = 0) (untied : frames.thread[id]? = some none) :
    Threaded frames [.node id children] := by
  intro row holder inRow target step thread
  rw [List.map_singleton, rowAll_singleton, framed_node, unmoved, add_zero] at inRow ⊢
  cases row with
  | zero =>
    obtain rfl := List.mem_singleton.mp inRow
    rw [untied] at thread
    cases thread
  | succ row => exact threaded row holder inRow target step thread

theorem Threaded.stand (threaded : Threaded frames trees) (id : Nat) (position : Rat) :
    Threaded (frames.stand id position) trees := by
  have same : framed (frames.stand id position) = framed frames := by
    funext origin tree
    exact @framed_congr (frames.stand id position) frames tree (fun _ _ => rfl) origin
  rw [Threaded, same]
  exact threaded

/-! ### New threads -/

/-- A walk leads to the next row, over the distance between the frames. -/
theorem Threaded.mem_next (threaded : Threaded frames trees)
    (listed : ∀ tree ∈ trees, tree.ListedIn below) {row : Nat} {node : Nat × Rat}
    (inRow : node ∈ rowAll row (trees.map (framed frames 0))) {target : Nat} {step : Rat}
    (next : frames.next? below side node.1 = some (some (target, step))) :
    (target, node.2 + step) ∈ rowAll (row + 1) (trees.map (framed frames 0)) := by
  rcases next?_eq_some next with thread | ⟨_, shifted, nodes, found, member⟩
  · exact threaded row node inRow target step thread
  · obtain ⟨lower, inFramed, inLower⟩ := List.mem_flatMap.mp inRow
    obtain ⟨tree, inTrees, rfl⟩ := List.mem_map.mp inFramed
    have inNext := row_below_framed (listed tree inTrees) inLower found member
    rw [shiftOf, shifted] at inNext
    exact List.mem_flatMap.mpr ⟨_, inFramed, inNext⟩

theorem Threaded.tie (threaded : Threaded frames trees) (distinct : (valuesAll trees).Nodup)
    {row : Nat} {last next : Nat × Rat}
    (inRow : last ∈ rowAll row (trees.map (framed frames 0)))
    (inNext : next ∈ rowAll (row + 1) (trees.map (framed frames 0))) :
    Threaded (frames.tie last next) trees := by
  intro other holder inOther target step thread
  rw [framed_tie] at inOther ⊢
  by_cases same : last.1 = holder.1
  · obtain ⟨rfl, rfl⟩ := framed_inj distinct inRow inOther same
    rw [Frames.tie, Array.getElem?_setIfInBounds_self] at thread
    obtain ⟨_, thread⟩ := Option.ite_none_right_eq_some.mp thread
    obtain ⟨rfl, rfl⟩ : next.1 = target ∧ next.2 - last.2 = step :=
      Prod.mk.injEq .. ▸ Option.some.inj (Option.some.inj thread)
    rwa [add_sub_cancel]
  · rw [Frames.tie, Array.getElem?_setIfInBounds_ne same] at thread
    exact threaded other holder inOther target step thread

/-- A thread between two trees that stand in their places is true. -/
theorem Threaded.setThread (threaded : Threaded frames trees) (grove : Grove below trees)
    {short tall joined} (inShort : short ∈ trees) (inTall : tall ∈ trees)
    (joins : frames.setThread? below side short.value tall.value = some joined) :
    Threaded joined trees := by
  simp only [setThread?, Option.bind_eq_bind, Option.bind_eq_some_iff] at joins
  obtain ⟨shortShift, shifted, tallShift, shiftedTall, linked⟩ := joins
  have topShort := top_mem_row frames inShort
  have topTall := top_mem_row frames inTall
  rw [shiftOf, shifted, Option.getD_some] at topShort
  rw [shiftOf, shiftedTall, Option.getD_some] at topTall
  have advance : ∀ short tall : Nat × Rat,
      (∃ row, short ∈ rowAll row (trees.map (framed frames 0)) ∧
        tall ∈ rowAll row (trees.map (framed frames 0))) →
      ∀ shortNext shortStep tallNext tallStep,
        frames.next? below side short.1 = some (some (shortNext, shortStep)) →
        frames.next? below side tall.1 = some (some (tallNext, tallStep)) →
        ∃ row, (shortNext, short.2 + shortStep) ∈ rowAll row (trees.map (framed frames 0)) ∧
          (tallNext, tall.2 + tallStep) ∈ rowAll row (trees.map (framed frames 0)) := by
    rintro short tall ⟨row, inShort, inTall⟩ _ _ _ _ foundShort foundTall
    exact ⟨row + 1, threaded.mem_next grove.listed inShort foundShort,
      threaded.mem_next grove.listed inTall foundTall⟩
  rcases link?_cases advance ⟨0, topShort, topTall⟩ linked with
    rfl | ⟨last, other, target, step, ⟨row, inLast, inOther⟩, _, next, rfl⟩
  · exact threaded
  · exact threaded.tie grove.distinct inLast (threaded.mem_next grove.listed inOther next)

end Frames

end ExprDiagram
