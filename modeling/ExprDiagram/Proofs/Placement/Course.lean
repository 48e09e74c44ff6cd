/-
This file says what holds throughout the placing of a tree, at every moment and not only at the end.
Over any numbers, every thread stands on a node without children that had none before and leads one
row down, so that every walk comes to an end. Over exact numbers, every thread leads to the true
position of its target; and when a subtree is about to be moved, its left contour has its smallest
position in each of its rows, and the right contour of the subtree before it has the largest position
of that subtree in each of its rows and goes on below it, along threads, with the largest position of
the subtrees further to the left.
-/

import ExprDiagram.Proofs.Placement.Equivalence
import ExprDiagram.Proofs.Placement.Shape
import ExprDiagram.Proofs.Placement.Stages
import ExprDiagram.Proofs.Placement.Threads

namespace ExprDiagram

open RoseTree

/-! ### Contours of trees side by side -/

/-- Of drawings that keep their distance, the last one has the largest position in its rows. -/
theorem isGreatest_rightmost_append {depth : Nat} {earlier : List Drawing} {last : Drawing}
    (apart : Apart (positionsAt depth (earlier ++ [last]))) (inside : depth < last.height) :
    IsGreatest {position | position ∈ positionsAt depth [last]}
      (rightmost depth (earlier ++ [last])) := by
  have inLast : depth < heightAll [last] := by rwa [heightAll_singleton]
  have inAll : depth < heightAll (earlier ++ [last]) := by
    rw [heightAll_append]
    exact lt_max_of_lt_right inLast
  have member := rightmost_mem inAll
  rw [positionsAt_append] at apart member
  rcases List.mem_append.mp member with inEarlier | inLastRow
  · -- Some position of the last drawing would be larger still.
    have beyond := (List.pairwise_append.mp apart).2.2 _ inEarlier _ (rightmost_mem inLast)
    have within := @le_rightmost depth (earlier ++ [last]) (rightmost depth [last]) (by
      rw [positionsAt_append]
      exact List.mem_append_right _ (rightmost_mem inLast))
    linarith
  · refine ⟨inLastRow, fun position inRow => le_rightmost ?_⟩
    rw [positionsAt_append]
    exact List.mem_append_right _ inRow

/-- Below the rows of the last one, the largest position is that of the drawings before it. -/
theorem rightmost_append_of_height_le {depth : Nat} {earlier : List Drawing} {last : Drawing}
    (beyond : last.height ≤ depth) :
    rightmost depth (earlier ++ [last]) = rightmost depth earlier := by
  have empty : positionsAt depth [last] = [] := by
    by_contra nonempty
    have inside := positionsAt_ne_nil_iff.mp nonempty
    rw [heightAll_singleton] at inside
    exact absurd inside (Nat.not_lt.mpr beyond)
  rw [rightmost, positionsAt_append, empty, List.append_nil, rightmost]

namespace Frames

variable {below : Array (List Nat)} {frames start : Frames Rat} {id : Nat}
variable {tree top previous next : RoseTree Nat} {trees earlier placed rest : List (RoseTree Nat)}

/-- The contours that are taken before the next subtree is moved: its left one, and the right one of
the subtree before it, which has some others further to the left. -/
structure Outlined (below : Array (List Nat)) (frames : Frames Rat)
    (earlier : List (RoseTree Nat)) (previous next : RoseTree Nat) : Prop where
  left : ∃ entries, frames.contour? below .left next.value = some entries ∧
    entries.length = next.height ∧ ∀ row entry, entries[row]? = some entry →
      IsLeast {position | position ∈ positionsAt row [frames.drawn 0 next]} entry
  right : ∃ entries, frames.contour? below .right previous.value = some entries ∧
    entries.length = max previous.height (heightAll earlier) ∧
    ∀ row entry, entries[row]? = some entry →
      (row < previous.height →
        IsGreatest {position | position ∈ positionsAt row [frames.drawn 0 previous]} entry) ∧
      (previous.height ≤ row →
        IsGreatest {position | position ∈ positionsAt row (earlier.map (frames.drawn 0))} entry)

theorem height_drawn (frames : Frames Rat) (origin : Rat) (tree : RoseTree Nat) :
    (frames.drawn origin tree).height = tree.height := by
  have heights := frames.heightAll_drawn origin [tree]
  rwa [List.map_singleton, heightAll_singleton, heightAll_singleton] at heights

theorem getElem?_map_range {length row : Nat} {values : Nat → Rat} {entry : Rat}
    (found : ((List.range length).map values)[row]? = some entry) :
    row < length ∧ values row = entry := by
  rw [List.getElem?_map] at found
  obtain ⟨place, here, same⟩ := Option.map_eq_some_iff.mp found
  obtain ⟨bound, rfl⟩ := List.getElem?_eq_some_iff.mp here
  rw [List.length_range] at bound
  rw [List.getElem_range] at same
  exact ⟨bound, same⟩

theorem Settled.outlined_left (settled : Settled below frames next) (grove : Grove below [next])
    (sized : frames.Sized below.size) :
    ∃ entries, frames.contour? below .left next.value = some entries ∧
      entries.length = next.height ∧ ∀ row entry, entries[row]? = some entry →
        IsLeast {position | position ∈ positionsAt row [frames.drawn 0 next]} entry := by
  have contour := settled.contour?_left grove sized
  have apart : ∀ depth, Apart (positionsAt depth ([next].map (frames.drawn 0))) := settled.apart
  rw [← List.map_singleton, contour_left apart] at contour
  refine ⟨_, contour, by rw [List.length_map, List.length_range, heightAll_singleton], ?_⟩
  intro row entry found
  obtain ⟨bound, rfl⟩ := getElem?_map_range found
  refine isLeast_leftmost ?_
  rwa [← List.map_singleton, heightAll_drawn]

theorem Packed.outlined_right (packed : Packed below frames (earlier ++ [previous]))
    (grove : Grove below (earlier ++ [previous])) (sized : frames.Sized below.size) :
    ∃ entries, frames.contour? below .right previous.value = some entries ∧
      entries.length = max previous.height (heightAll earlier) ∧
      ∀ row entry, entries[row]? = some entry →
        (row < previous.height →
          IsGreatest {position | position ∈ positionsAt row [frames.drawn 0 previous]} entry) ∧
        (previous.height ≤ row →
          IsGreatest {position | position ∈ positionsAt row (earlier.map (frames.drawn 0))}
            entry) := by
  have contour := packed.contour?_right grove sized List.getLast?_concat
  have height : heightAll (earlier ++ [previous]) = max previous.height (heightAll earlier) := by
    rw [heightAll_append, heightAll_singleton, Nat.max_comm]
  rw [contour_right packed.apart] at contour
  refine ⟨_, contour, by rw [List.length_map, List.length_range, height], ?_⟩
  intro row entry found
  obtain ⟨bound, rfl⟩ := getElem?_map_range found
  have apart := packed.apart row
  rw [List.map_append, List.map_singleton] at apart ⊢
  refine ⟨fun inside => isGreatest_rightmost_append apart ?_, fun beyond => ?_⟩
  · rwa [height_drawn]
  · rw [rightmost_append_of_height_le (by rwa [height_drawn])]
    refine isGreatest_rightmost ?_
    rw [heightAll_drawn]
    omega

/-- Before a tree is moved next to packed trees, the contours are those of the trees. -/
theorem outlined_of_packed (packed : Packed below frames (earlier ++ [previous]))
    (settled : Settled below frames next) (grove : Grove below (earlier ++ [previous] ++ [next]))
    (sized : frames.Sized below.size) : Outlined below frames earlier previous next :=
  ⟨settled.outlined_left grove.right sized, packed.outlined_right grove.left sized⟩

namespace Moment

/-! ### Trees side by side -/

/-- Whenever a subtree is about to be moved, the contours are those of the subtrees below its
parent. -/
def Outlines (below : Array (List Nat)) (trees : List (RoseTree Nat)) (moment : Moment Rat) : Prop :=
  ∀ id waiting first previous merged next rest, moment.waiting = id :: waiting →
    moment.task = .spread first previous merged (next :: rest) →
    ∃ tree ∈ trees, ∃ depth earlier before after later,
      Subtree depth (.node id (earlier ++ before :: after :: later)) tree ∧
      before.value = previous ∧ after.value = next ∧ later.map value = rest ∧
      Outlined below moment.frames earlier before after

/-- What holds while trees are being placed: nothing outside them has changed, their threads are
true, and the contours are those of the subtrees. -/
structure Orderly (below : Array (List Nat)) (start : Frames Rat) (trees : List (RoseTree Nat))
    (moment : Moment Rat) : Prop where
  outside : Agree (· ∉ valuesAll trees) start moment.frames
  threaded : Threaded moment.frames trees
  outlines : Outlines below trees moment

/-- The trees below a node, when some have been put side by side and the others are still to be
moved. Nothing has been done to the node. -/
structure Aligned (below : Array (List Nat)) (frames : Frames Rat) (id : Nat)
    (placed rest : List (RoseTree Nat)) : Prop where
  sized : frames.Sized below.size
  unmoved : frames.shiftOf id = 0
  untied : frames.thread[id]? = some none
  packed : Packed below frames placed
  settled : ∀ tree ∈ rest, Settled below frames tree
  threaded : Threaded frames placed
  own : ∀ tree ∈ rest, Threaded frames [tree]

theorem Aligned.threaded_node (aligned : Aligned below frames id placed rest) :
    Threaded frames [.node id (placed ++ rest)] :=
  (aligned.threaded.append (threaded_of_each aligned.own)).above aligned.unmoved aligned.untied

/-- While a tree is being moved, the threads stay true. -/
theorem Aligned.move (aligned : Aligned below frames id placed (next :: rest))
    (grove : Grove below (placed ++ next :: rest)) (outside : id ∉ valuesAll (placed ++ next :: rest))
    (distance : Rat) :
    Threaded (frames.move next.value distance) (placed ++ [next]) ∧
      Threaded (frames.move next.value distance) [.node id (placed ++ next :: rest)] := by
  have split : Grove below (placed ++ [next] ++ rest) := by
    rwa [List.append_assoc, List.singleton_append]
  have bound : next.value < frames.shift.size := by
    rw [aligned.sized.shift]
    exact (grove.right.listed next List.mem_cons_self).value_lt
  have agree := agree_move frames next.value distance
  have inNext : next.value ∈ valuesAll (placed ++ [next]) :=
    values_subset_valuesAll (List.mem_append_right _ List.mem_cons_self) next.value_mem_values
  have threadedPlaced := aligned.threaded.congr (agree_move_next split.left distance)
  have threadedNext := (aligned.own next List.mem_cons_self).move
    (grove.right.tree List.mem_cons_self) bound distance
  have threadedRest : Threaded (frames.move next.value distance) rest :=
    threaded_of_each fun tree member => (aligned.own tree (List.mem_cons_of_mem _ member)).congr
      (agree.mono fun other inTree same => by
        rw [valuesAll_singleton] at inTree
        exact split.disjoint next.value inNext (same ▸ values_subset_valuesAll member inTree))
  have all := (threadedPlaced.append threadedNext).append threadedRest
  have different : id ≠ next.value := by
    intro same
    refine outside (values_subset_valuesAll (List.mem_append_right _ List.mem_cons_self) ?_)
    exact same ▸ next.value_mem_values
  refine ⟨threadedPlaced.append threadedNext, ?_⟩
  rw [List.append_assoc, List.singleton_append] at all
  exact all.above ((agree.shiftOf different).symm.trans aligned.unmoved)
    ((agree.thread id different).symm.trans aligned.untied)

/-- When a tree has been moved and the missing thread has been set, one more tree is packed. -/
theorem Aligned.step (aligned : Aligned below frames id placed (next :: rest))
    (grove : Grove below (placed ++ next :: rest)) (outside : id ∉ valuesAll (placed ++ next :: rest))
    (head : placed.head? = some top) (last : placed.getLast? = some previous)
    {joined : Frames Rat} (joins : (frames.move next.value
        (gap (frames.contour .right (placed.map (framed frames 0)))
          (frames.contour .left [framed frames 0 next]))).join? below top.value previous.value
      next.value (frames.contour .right (placed.map (framed frames 0)))
      (frames.contour .left [framed frames 0 next]) = some joined) :
    Aligned below joined id (placed ++ [next]) rest ∧
      Agree (· ∉ valuesAll (placed ++ [next])) frames joined := by
  have split : Grove below (placed ++ [next] ++ rest) := by
    rwa [List.append_assoc, List.singleton_append]
  have settled := aligned.settled next List.mem_cons_self
  obtain ⟨threaded, -⟩ := aligned.move grove outside (gap
    (frames.contour .right (placed.map (framed frames 0)))
    (frames.contour .left [framed frames 0 next]))
  obtain ⟨other, joinsOther, sized, agree, packed⟩ := aligned.packed.step settled split.left
    aligned.sized head last (gap_eq_clearance aligned.packed.apart settled.apart)
  have same : joined = other := by
    have heightNext := heightAll_framedAll frames 0 [next]
    rw [List.map_singleton] at heightNext
    rw [join?, length_contour, length_contour, heightAll_framedAll, heightNext] at joins
    exact Option.some.inj (joins.symm.trans joinsOther)
  subst same
  have topMember : top ∈ placed ++ [next] := List.mem_append_left _ (List.mem_of_head? head)
  have previousMember : previous ∈ placed ++ [next] :=
    List.mem_append_left _ (List.mem_of_getLast? last)
  have nextMember : next ∈ placed ++ [next] := List.mem_append_right _ List.mem_cons_self
  have beyond : id ∉ valuesAll (placed ++ [next]) := by
    intro inside
    refine outside ?_
    rw [← List.singleton_append (l := rest), ← List.append_assoc, valuesAll_append]
    exact List.mem_append_left _ inside
  refine ⟨⟨sized, (agree.shiftOf beyond).symm.trans aligned.unmoved,
    (agree.thread id beyond).symm.trans aligned.untied, packed, fun tree member => ?_, ?_,
    fun tree member => ?_⟩, agree⟩
  · refine (aligned.settled tree (List.mem_cons_of_mem _ member)).congr
      (split.right.listed tree member) (agree.mono fun id inTree inPlaced => ?_)
    exact split.disjoint id inPlaced (values_subset_valuesAll member inTree)
  · rcases join?_cases joins with joins | joins | rfl
    · exact threaded.setThread split.left topMember nextMember joins
    · exact threaded.setThread split.left nextMember previousMember joins
    · exact threaded
  · refine (aligned.own tree (List.mem_cons_of_mem _ member)).congr
      (agree.mono fun id inTree inPlaced => ?_)
    rw [valuesAll_singleton] at inTree
    exact split.disjoint id inPlaced (values_subset_valuesAll member inTree)

theorem Aligned.orderly (aligned : Aligned below frames id placed rest)
    (grove : Grove below (placed ++ rest))
    (outside : Agree (· ∉ valuesAll [.node id (placed ++ rest)]) start frames)
    (last : placed.getLast? = some previous) {waiting : List Nat} {merged : List Rat} :
    Orderly below start [.node id (placed ++ rest)]
      ⟨frames, id :: waiting, .spread top.value previous.value merged (rest.map value)⟩ := by
  refine ⟨outside, aligned.threaded_node, ?_⟩
  intro node others first before merged next more sameWaiting sameTask
  obtain ⟨rfl, rfl⟩ := List.cons.inj sameWaiting
  obtain ⟨rfl, rfl, rfl, sameRest⟩ := Task.spread.inj sameTask
  obtain ⟨following, later, rfl, rfl, rfl⟩ := List.map_eq_cons_iff.mp sameRest
  obtain ⟨earlier, rfl⟩ := List.getLast?_eq_some_iff.mp last
  have split : Grove below (earlier ++ [previous] ++ [following] ++ later) := by
    rwa [List.append_assoc _ [following], List.singleton_append]
  refine ⟨_, List.mem_cons_self, 0, earlier, previous, following, later, ?_, rfl, rfl, rfl, ?_⟩
  · rw [List.append_assoc, List.singleton_append]
    exact .top _
  · exact outlined_of_packed aligned.packed (aligned.settled following List.mem_cons_self)
      split.left aligned.sized

/-- A moment is orderly when a tree has just been moved and no contour is about to be taken. -/
theorem Aligned.orderly_moved (aligned : Aligned below frames id placed (next :: rest))
    (grove : Grove below (placed ++ next :: rest)) (outside : id ∉ valuesAll (placed ++ next :: rest))
    (agree : Agree (· ∉ valuesAll [.node id (placed ++ next :: rest)]) start frames)
    (distance : Rat) (waiting : List Nat) (task : Task Rat)
    (other : ∀ first previous merged following more,
      task ≠ .spread first previous merged (following :: more)) :
    Orderly below start [.node id (placed ++ next :: rest)]
      ⟨frames.move next.value distance, id :: waiting, task⟩ := by
  refine ⟨agree.trans ((agree_move frames next.value distance).mono fun place beyond same => ?_),
    (aligned.move grove outside distance).2,
    fun _ _ first previous merged following more _ sameTask =>
      absurd sameTask (other first previous merged following more)⟩
  refine beyond (List.mem_append_left _ (List.mem_cons_of_mem _ ?_))
  rw [same]
  exact values_subset_valuesAll (List.mem_append_right _ List.mem_cons_self) next.value_mem_values

/-- The step that moves a tree, when the contours it asks for are known. -/
theorem step_move {node first previous next : Nat} {merged contour left : List Rat}
    {waiting rest : List Nat} (right : frames.contour? below .right previous = some contour)
    (leftContour : frames.contour? below .left next = some left)
    (shift : frames.shift[next]? = some (frames.shiftOf next))
    (covers : maxContour merged contour = contour) :
    Step below ⟨frames, node :: waiting, .spread first previous merged (next :: rest)⟩
      ⟨frames.move next (gap contour left), node :: waiting,
        .join first previous next contour left rest⟩ := by
  have moves : Step below ⟨frames, node :: waiting, .spread first previous merged (next :: rest)⟩
      ⟨frames.move next (gap (maxContour merged contour) left), node :: waiting,
        .join first previous next (maxContour merged contour) left rest⟩ :=
    .move right leftContour shift
  rwa [covers] at moves

/-- The loop over the trees below a node goes through such moments only, and the threads that it
sets are true. -/
theorem Aligned.runs (aligned : Aligned below frames id placed rest)
    (grove : Grove below (placed ++ rest)) (outside : id ∉ valuesAll (placed ++ rest))
    (agree : Agree (· ∉ valuesAll [.node id (placed ++ rest)]) start frames)
    (head : placed.head? = some top) (last : placed.getLast? = some previous) {merged : List Rat}
    (covers : Covers (frames.contour .right (placed.map (framed frames 0))) merged)
    {spread : Frames Rat} (waiting : List Nat)
    (spreads : frames.spread? below top.value previous.value merged (rest.map value) =
      some spread) :
    Runs below (Orderly below start [.node id (placed ++ rest)])
        ⟨frames, id :: waiting, .spread top.value previous.value merged (rest.map value)⟩
        ⟨spread, id :: waiting, .centre⟩ ∧
      Agree (· ∉ valuesAll [.node id (placed ++ rest)]) start spread ∧
      Threaded spread [.node id (placed ++ rest)] := by
  induction rest generalizing frames placed previous merged with
  | nil =>
    obtain rfl : frames = spread := Option.some.inj spreads
    exact ⟨.single (aligned.orderly grove agree last) .finish, agree, aligned.threaded_node⟩
  | cons next rest inductionHypothesis =>
    have order : placed ++ next :: rest = placed ++ [next] ++ rest := by
      rw [List.append_assoc, List.singleton_append]
    have split : Grove below (placed ++ [next] ++ rest) := order ▸ grove
    have settled := aligned.settled next List.mem_cons_self
    have right := aligned.packed.contour?_right split.left.left aligned.sized last
    have left := settled.contour?_left split.left.right aligned.sized
    have shift := aligned.sized.getElem?_shift
      (grove.right.listed next List.mem_cons_self).value_lt
    rw [List.map_cons, spread?_round, right, left, shift] at spreads
    simp only [Option.bind_some, maxContour_eq covers] at spreads
    obtain ⟨joined, joins, spreads⟩ := Option.bind_eq_some_iff.mp spreads
    obtain ⟨alignedJoined, agreeJoined⟩ := aligned.step grove outside head last joins
    have within : ∀ other ∉ valuesAll [.node id (placed ++ next :: rest)],
        other ∉ valuesAll (placed ++ [next]) := by
      intro other beyond inside
      refine beyond (List.mem_append_left _ (List.mem_cons_of_mem _ ?_))
      rw [order, valuesAll_append]
      exact List.mem_append_left _ inside
    have moved := aligned.orderly_moved grove outside agree
      (gap (frames.contour .right (placed.map (framed frames 0)))
        (frames.contour .left [framed frames 0 next])) waiting
      (.join top.value previous.value next.value
        (frames.contour .right (placed.map (framed frames 0)))
        (frames.contour .left [framed frames 0 next]) (rest.map value))
      fun _ _ _ _ _ same => by cases same
    have agreeNext := agree.trans (agreeJoined.mono within)
    rw [order] at outside agreeNext
    obtain ⟨onward, ends⟩ := inductionHypothesis alignedJoined split outside agreeNext
      (by rw [List.head?_append, head, Option.some_or]) List.getLast?_concat
      (aligned.packed.covers alignedJoined.packed) spreads
    rw [← order] at onward ends
    refine ⟨(Runs.single (aligned.orderly grove agree last) ?_).trans
      ((Runs.single moved (.join joins)).trans onward), ends⟩
    exact step_move right left shift (maxContour_eq covers)

/-! ### Whole trees -/

theorem Outlines.mono {more : List (RoseTree Nat)} {moment : Moment Rat}
    (outlines : Outlines below trees moment) (subset : trees ⊆ more) :
    Outlines below more moment := by
  intro id waiting first previous merged next rest sameWaiting sameTask
  obtain ⟨tree, member, found⟩ := outlines id waiting first previous merged next rest sameWaiting
    sameTask
  exact ⟨tree, subset member, found⟩

theorem Outlines.above {children : List (RoseTree Nat)} {moment : Moment Rat}
    (outlines : Outlines below children moment) (id : Nat) :
    Outlines below [.node id children] moment := by
  intro top waiting first previous merged next rest sameWaiting sameTask
  obtain ⟨tree, member, depth, earlier, before, after, later, subtree, found⟩ :=
    outlines top waiting first previous merged next rest sameWaiting sameTask
  exact ⟨_, List.mem_cons_self, depth + 1, earlier, before, after, later, .inside member subtree,
    found⟩

/-- At the other moments no contour is taken. -/
theorem outlines_of_task {moment : Moment Rat} (task : moment.task = .begin ∨ moment.task = .centre) :
    Outlines below trees moment := by
  intro id waiting first previous merged next rest _ sameTask
  rcases task with task | task
  · cases task.symm.trans sameTask
  · cases task.symm.trans sameTask

/-- The placing of trees goes through orderly moments, and leaves true threads in each of them. -/
structure Course (below : Array (List Nat)) (frames placed : Frames Rat)
    (trees : List (RoseTree Nat)) : Prop where
  runs : ∀ waiting, Runs below (Orderly below frames trees)
    ⟨frames, postorderAll trees ++ waiting, .begin⟩ ⟨placed, waiting, .begin⟩
  threaded : ∀ tree ∈ trees, Threaded placed [tree]

variable {first between after : Frames Rat} {children : List (RoseTree Nat)} {moment : Moment Rat}

/-- While the first of some trees is being placed, nothing has been done to the others. -/
theorem Orderly.of_first (orderly : Orderly below frames [tree] moment)
    (grove : Grove below ([tree] ++ rest)) (fresh : Fresh frames (valuesAll rest)) :
    Orderly below frames (tree :: rest) moment := by
  have others := fresh.threaded.congr (orderly.outside.mono fun id inRest inTree =>
    grove.disjoint id inTree inRest)
  refine ⟨orderly.outside.mono fun id outside inTree => outside ?_,
    orderly.threaded.append others, orderly.outlines.mono ?_⟩
  · rw [valuesAll_singleton] at inTree
    exact List.mem_append_left _ inTree
  · exact List.cons_subset.mpr ⟨List.mem_cons_self, List.nil_subset _⟩

/-- While the others are being placed, the first of some trees stays as it is. -/
theorem Orderly.of_rest (orderly : Orderly below first rest moment)
    (grove : Grove below ([tree] ++ rest)) (agree : Agree (· ∉ valuesAll [tree]) frames first)
    (threaded : Threaded first [tree]) : Orderly below frames (tree :: rest) moment := by
  have here := threaded.congr (orderly.outside.mono fun id inTree => grove.disjoint id inTree)
  have keptBefore : Agree (· ∉ valuesAll (tree :: rest)) frames first := by
    refine agree.mono fun id outside inTree => outside ?_
    rw [valuesAll_singleton] at inTree
    exact List.mem_append_left _ inTree
  have kept : Agree (· ∉ valuesAll (tree :: rest)) first moment.frames :=
    orderly.outside.mono fun id outside inRest => outside (List.mem_append_right _ inRest)
  exact ⟨keptBefore.trans kept, here.append orderly.threaded,
    orderly.outlines.mono (List.subset_cons_self tree rest)⟩

/-- While the trees below a node are being placed, nothing is done to the node. -/
theorem Orderly.above (orderly : Orderly below frames children moment)
    (outside : id ∉ valuesAll children) (unmoved : frames.shiftOf id = 0)
    (untied : frames.thread[id]? = some none) :
    Orderly below frames [.node id children] moment := by
  refine ⟨orderly.outside.mono fun other beyond inside => beyond ?_, orderly.threaded.above
    ((orderly.outside.shiftOf outside).symm.trans unmoved)
    ((orderly.outside.thread id outside).symm.trans untied), orderly.outlines.above id⟩
  exact List.mem_append_left _ (List.mem_cons_of_mem _ inside)

theorem course_nil (frames : Frames Rat) : Course below frames frames [] :=
  ⟨fun _ => .refl, fun _ member => absurd member List.not_mem_nil⟩

theorem Course.cons (placing : Placing below frames first [tree])
    (placingRest : Placing below first after rest) (all : Placing below frames after (tree :: rest))
    (course : Course below frames first [tree]) (courseRest : Course below first after rest) :
    Course below frames after (tree :: rest) := by
  have grove : Grove below ([tree] ++ rest) := all.grove
  have threaded := course.threaded tree List.mem_cons_self
  have fresh : Fresh frames (valuesAll rest) :=
    fun id member => all.fresh id (List.mem_append_right _ member)
  refine ⟨fun waiting => ?_, List.forall_mem_cons.mpr ⟨?_, courseRest.threaded⟩⟩
  · have runs := course.runs (postorderAll rest ++ waiting)
    rw [postorderAll_singleton, ← List.append_assoc] at runs
    exact (runs.mono fun moment orderly => orderly.of_first grove fresh).trans
      ((courseRest.runs waiting).mono fun moment orderly =>
        orderly.of_rest grove placing.outside threaded)
  · exact threaded.congr (placingRest.outside.mono fun id inTree => grove.disjoint id inTree)

/-- The trees below a node are put side by side, if there are any. -/
theorem runs_spread (placing : Placing below start between children)
    (threaded : ∀ tree ∈ children, Threaded between [tree])
    (listed : (RoseTree.node id children).ListedIn below) (outside : id ∉ valuesAll children)
    (unmoved : between.shiftOf id = 0) (untied : between.thread[id]? = some none)
    (agree : Agree (· ∉ valuesAll [.node id children]) frames between) {nodes : List Nat}
    (found : below[id]? = some nodes) {spread : Frames Rat}
    (spreads : nodes = [] ∧ spread = between ∨ ∃ first rest, nodes = first :: rest ∧
      between.spread? below first first [] rest = some spread) (waiting : List Nat) :
    Runs below (Orderly below frames [.node id children]) ⟨between, id :: waiting, .begin⟩
        ⟨spread, id :: waiting, .centre⟩ ∧
      Agree (· ∉ valuesAll [.node id children]) frames spread ∧
      Threaded spread [.node id children] := by
  have here : below[id]? = some (children.map value) := by
    cases listed with
    | node here _ => exact here
  obtain rfl := Option.some.inj (here.symm.trans found)
  have threadedNode := (threaded_of_each threaded).above unmoved untied
  have orderly : Orderly below frames [.node id children] ⟨between, id :: waiting, .begin⟩ :=
    ⟨agree, threadedNode, outlines_of_task (.inl rfl)⟩
  rcases spreads with ⟨empty, rfl⟩ | ⟨first, others, split, spreads⟩
  · exact ⟨.single orderly (.leaf (empty ▸ found)), agree, threadedNode⟩
  · obtain ⟨top, rest, rfl, rfl, rfl⟩ := List.map_eq_cons_iff.mp split
    have aligned : Aligned below between id [top] rest :=
      ⟨placing.sizedPlaced, unmoved, untied,
        Packed.singleton (placing.settled top List.mem_cons_self),
        fun tree member => placing.settled tree (List.mem_cons_of_mem _ member),
        threaded top List.mem_cons_self,
        fun tree member => threaded tree (List.mem_cons_of_mem _ member)⟩
    obtain ⟨onward, ends⟩ := aligned.runs placing.grove outside agree rfl rfl
      (fun depth entry absent => by cases absent) waiting spreads
    exact ⟨(Runs.single orderly (.enter found)).trans onward, ends⟩

theorem Course.node (placing : Placing below frames between children)
    (places : place? below between id = some after)
    (all : Placing below frames after [.node id children])
    (course : Course below frames between children) :
    Course below frames after [.node id children] := by
  have outside := not_mem_children (all.grove.tree List.mem_cons_self)
  obtain ⟨unmoved, untied⟩ := all.fresh id List.mem_cons_self
  have agree : Agree (· ∉ valuesAll [.node id children]) frames between :=
    placing.outside.mono fun other beyond inside =>
      beyond (List.mem_append_left _ (List.mem_cons_of_mem _ inside))
  obtain ⟨nodes, spread, positions, found, spreads, collected, rfl⟩ := place?_eq_some places
  have spreadRuns := runs_spread placing course.threaded (all.grove.listed _ List.mem_cons_self)
    outside ((placing.outside.shiftOf outside).symm.trans unmoved)
    ((placing.outside.thread id outside).symm.trans untied) agree found spreads
  refine ⟨fun waiting => ?_, List.forall_mem_singleton.mpr ((spreadRuns []).2.2.stand id _)⟩
  obtain ⟨onward, agreeSpread, threadedSpread⟩ := spreadRuns waiting
  rw [postorderAll_singleton, postorder, List.append_assoc, List.singleton_append]
  exact ((course.runs (id :: waiting)).mono fun moment orderly =>
      orderly.above outside unmoved untied).trans
    (onward.trans (Runs.single ⟨agreeSpread, threadedSpread, outlines_of_task (.inr rfl)⟩
      (.stand found collected)))

/-- The placing of every tree goes through orderly moments. -/
theorem course_of_placing (placing : Placing below frames after [tree]) :
    Course below frames after [tree] :=
  placing.induct course_nil Course.cons Course.node

/-! ### All moments -/

/-- What holds at a moment over any numbers: threads stand on nodes without children and lead one
row down, the next step sets one only where none was, and all walks end. -/
structure Safe {α : Type} [Coordinate α] (below : Array (List Nat)) (tree : RoseTree Nat)
    (moment : Moment α) : Prop where
  thread : ∀ holder target step, moment.frames.thread[holder]? = some (some (target, step)) →
    holder ∈ tree.values ∧ below[holder]? = some [] ∧
      ∀ row, holder ∈ tree.row row → target ∈ tree.row (row + 1)
  kept : ∀ next, step? below moment = some next → ∀ holder : Nat,
    next.frames.thread[holder]? ≠ moment.frames.thread[holder]? →
      moment.frames.thread[holder]? = some none ∧ below[holder]? = some []
  contour : ∀ side, ∀ node ∈ tree.values, ∃ entries,
    moment.frames.contour? below side node = some entries
  search : ∀ side, ∀ short ∈ tree.values, ∀ tall ∈ tree.values, ∃ joined,
    moment.frames.setThread? below side short tall = some joined

theorem Sound.safe {α : Type} [Coordinate α] {moment : Moment α} (sound : Sound below tree moment)
    (listed : tree.ListedIn below) (distinct : tree.values.Nodup) : Safe below tree moment :=
  ⟨sound.laddered.thread, fun _ step => (step?_eq_some_iff.mp step).grown,
    fun side _ member => sound.laddered.exists_contour listed distinct side member,
    fun side _ inShort _ inTall =>
      sound.laddered.exists_setThread listed distinct side inShort inTall⟩

/-- Over any numbers a tree can be placed, and all moments on the way are safe. -/
theorem exists_safe {α : Type} [Coordinate α] (listed : tree.ListedIn below)
    (distinct : tree.values.Nodup) :
    ∃ (first : Moment α) (frames : Frames α), start? below tree.value = some first ∧
      Frames.ofTree? below tree.value = some frames ∧
      ∀ moment, Reaches below first moment →
        Safe below tree moment ∧ Reaches below moment (finish frames) := by
  obtain ⟨placed, computed, _⟩ := ofTree?_settled listed distinct
  have alike := @ofTree?_alike Rat α _ _ below tree.value
  rw [computed] at alike
  generalize found : (Frames.ofTree? below tree.value : Option (Frames α)) = result at alike
  cases alike with
  | @some _ frames same =>
    obtain ⟨first, starts, toEnd⟩ := ofTree?_reaches found
    exact ⟨first, frames, starts, rfl, fun moment reaches =>
      ⟨(reaches.sound listed distinct starts).safe listed distinct, toEnd.onward reaches⟩⟩

/-- Over exact numbers all moments are orderly. -/
theorem exists_orderly (listed : tree.ListedIn below) (distinct : tree.values.Nodup) :
    ∃ first : Moment Rat, start? below tree.value = some first ∧
      ∀ moment, Reaches below first moment →
        Orderly below (initial below.size) [tree] moment := by
  obtain ⟨placed, placing⟩ := exists_placing_tree listed distinct
  have course := course_of_placing placing
  have runs := course.runs []
  rw [List.append_nil, postorderAll_singleton] at runs
  refine ⟨⟨initial below.size, tree.postorder, .begin⟩, ?_, fun moment reaches =>
    Runs.throughout runs ?_ reaches⟩
  · rw [start?, postOrder?_eq listed distinct]
    rfl
  · exact ⟨placing.outside, course.threaded tree List.mem_cons_self, outlines_of_task (.inl rfl)⟩

end Moment

end Frames

/-- Threads keep walks sound and finite. A tree can be placed over any numbers, and at every moment
on the way threads stand on nodes without children only, are never replaced, lead one row down and
let no walk go on for ever. Over exact numbers, following a thread leads to the true place of its
target; and whenever a subtree is about to be moved, the contours that are taken hold the outermost
positions of the subtrees, row by row. -/
theorem threads_sound (below : Array (List Nat)) (tree : RoseTree Nat)
    (listed : tree.ListedIn below) (distinct : tree.values.Nodup) :
    (∀ (α : Type) [Coordinate α], ∃ (first : Frames.Moment α) (frames : Frames α),
      Frames.Moment.start? below tree.value = some first ∧
      Frames.ofTree? below tree.value = some frames ∧
      ∀ moment, Frames.Moment.Reaches below first moment →
        Frames.Moment.Safe below tree moment ∧
        Frames.Moment.Reaches below moment (Frames.Moment.finish frames)) ∧
    ∃ first : Frames.Moment Rat, Frames.Moment.start? below tree.value = some first ∧
      ∀ moment, Frames.Moment.Reaches below first moment →
        moment.frames.Threaded [tree] ∧ Frames.Moment.Outlines below [tree] moment := by
  refine ⟨fun α _ => Frames.Moment.exists_safe listed distinct, ?_⟩
  obtain ⟨first, starts, orderly⟩ := Frames.Moment.exists_orderly listed distinct
  exact ⟨first, starts, fun moment reaches =>
    ⟨(orderly moment reaches).threaded, (orderly moment reaches).outlines⟩⟩

theorem threads_sound_threaded :
    threaded.ListedIn threadedBelow ∧ threaded.values.Nodup ∧
      ∃ first : Frames.Moment Rat, Frames.Moment.start? threadedBelow 0 = some first ∧
        ∀ moment, Frames.Moment.Reaches threadedBelow first moment →
          moment.frames.Threaded [threaded] ∧ Frames.Moment.Outlines threadedBelow [threaded] moment :=
  ⟨by decide, by decide, (threads_sound threadedBelow threaded (by decide) (by decide)).2⟩

-- The right subtree ends one row above the left one, and its top has been moved by one.
example : ((Frames.ofTree? #[[1, 3], [2], [], []] 0 : Option (Frames Rat)).map
    fun frames => frames.thread) = some #[none, none, none, some (2, -1)] := by
  decide +kernel

end ExprDiagram
