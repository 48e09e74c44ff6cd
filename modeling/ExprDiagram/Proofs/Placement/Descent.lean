/-
This file shows that every link leads one row down. A thread is only set on a node that has no
children and no thread, where a walk would end, and it leads to a node of the next row, since the two
walks that look for its ends start in the same row and go on at the same pace. So at every moment of
the placing a walk leaves each row it enters, and comes to an end before it has used up its steps.
None of this depends on the numbers that are kept for the nodes.
-/

import ExprDiagram.Proofs.Placement.Moments
import ExprDiagram.Proofs.Placement.Walk
import ExprDiagram.Proofs.Trees.Postorder
import Mathlib.Data.List.Nodup

namespace ExprDiagram

open RoseTree

variable {α : Type}

/-! ### Rows of different values -/

/-- When all values of some trees are different, each belongs to one tree. -/
theorem RoseTree.eq_of_mem_values {trees : List (RoseTree α)} (distinct : (valuesAll trees).Nodup)
    {first second : RoseTree α} (inFirsts : first ∈ trees) (inSeconds : second ∈ trees) {value : α}
    (inFirst : value ∈ first.values) (inSecond : value ∈ second.values) : first = second := by
  have symmetric : Std.Symm (Function.onFun List.Disjoint (values (α := α))) :=
    ⟨fun _ _ apart => List.disjoint_symm apart⟩
  rw [valuesAll_eq_flatMap] at distinct
  by_contra different
  exact (List.nodup_flatMap.mp distinct).2.forall inFirsts inSeconds different inFirst inSecond

/-- In a tree of different values each stands in one row. -/
theorem RoseTree.row_inj {tree : RoseTree α} (distinct : tree.values.Nodup) {value : α}
    {row other : Nat} (inRow : value ∈ tree.row row) (inOther : value ∈ tree.row other) :
    row = other := by
  induction tree using RoseTree.induct generalizing row other with
  | node top children inductionHypothesis =>
    obtain ⟨outside, distinctBelow⟩ := List.nodup_cons.mp distinct
    have deeper : ∀ row, value ∈ (RoseTree.node top children).row (row + 1) →
        value ∈ valuesAll children := fun row member => rowAll_subset_valuesAll row children member
    cases row with
    | zero =>
      obtain rfl := List.mem_singleton.mp inRow
      cases other with
      | zero => rfl
      | succ other => exact absurd (deeper other inOther) outside
    | succ row =>
      cases other with
      | zero =>
        obtain rfl := List.mem_singleton.mp inOther
        exact absurd (deeper row inRow) outside
      | succ other =>
        obtain ⟨child, inChildren, inChild⟩ := List.mem_flatMap.mp inRow
        obtain ⟨second, inSeconds, inSecond⟩ := List.mem_flatMap.mp inOther
        obtain rfl := eq_of_mem_values distinctBelow inChildren inSeconds
          (row_subset_values row child inChild) (row_subset_values other second inSecond)
        have distinctChild := distinctBelow.sublist
          (valuesAll_sublist (List.singleton_sublist.mpr inChildren))
        rw [valuesAll_singleton] at distinctChild
        exact congrArg Nat.succ
          (inductionHypothesis child inChildren distinctChild inChild inSecond)

theorem RoseTree.lt_height_of_mem {tree : RoseTree α} {row : Nat} {value : α}
    (inRow : value ∈ tree.row row) : row < tree.height :=
  row_ne_nil_iff.mp (List.ne_nil_of_mem inRow)

namespace Frames

variable {below : Array (List Nat)} {tree : RoseTree Nat} {frames joined : Frames α} {side : Side}

/-! ### Links -/

/-- All numbers of the lists have frames, and each thread leads from a node of the tree without
children to a node of the next row. -/
structure Laddered (below : Array (List Nat)) (tree : RoseTree Nat) (frames : Frames α) : Prop where
  offset : frames.offset.size = below.size
  shift : frames.shift.size = below.size
  size : frames.thread.size = below.size
  thread : ∀ holder target step, frames.thread[holder]? = some (some (target, step)) →
    holder ∈ tree.values ∧ below[holder]? = some [] ∧
      ∀ row, holder ∈ tree.row row → target ∈ tree.row (row + 1)

/-- The frames with a thread between two nodes. -/
def withThread (frames : Frames α) (holder target : Nat) (step : α) : Frames α :=
  { frames with thread := frames.thread.setIfInBounds holder (some (target, step)) }

theorem Side.mem_of_outermost {side : Side} {nodes : List Nat} {child : Nat}
    (outermost : side.outermost nodes = some child) : child ∈ nodes :=
  Side.edge_mem (side.outermost_eq_edge nodes ▸ outermost)

/-- A walk goes on along a thread, or to a child where there is none. -/
theorem next?_eq_some {node target : Nat} {step : α}
    (next : frames.next? below side node = some (some (target, step))) :
    frames.thread[node]? = some (some (target, step)) ∨
      frames.thread[node]? = some none ∧ frames.shift[target]? = some step ∧
        ∃ nodes, below[node]? = some nodes ∧ target ∈ nodes := by
  simp only [next?, Option.bind_eq_bind, Option.bind_eq_some_iff] at next
  obtain ⟨link, here, next⟩ := next
  cases link with
  | some link =>
    obtain rfl : link = (target, step) := Option.some.inj (Option.some.inj next)
    exact .inl here
  | none =>
    obtain ⟨nodes, found, next⟩ := Option.bind_eq_some_iff.mp next
    cases outermost : side.outermost nodes with
    | none =>
      rw [outermost] at next
      cases next
    | some child =>
      rw [outermost] at next
      obtain ⟨shift, shifted, next⟩ := Option.bind_eq_some_iff.mp next
      obtain ⟨rfl, rfl⟩ : child = target ∧ shift = step :=
        Prod.mk.injEq .. ▸ Option.some.inj (Option.some.inj next)
      exact .inr ⟨here, shifted, nodes, found, Side.mem_of_outermost outermost⟩

/-- A walk ends at nodes without children that have no thread. -/
theorem next?_eq_none {node : Nat} (next : frames.next? below side node = some none) :
    frames.thread[node]? = some none ∧ below[node]? = some [] := by
  simp only [next?, Option.bind_eq_bind, Option.bind_eq_some_iff] at next
  obtain ⟨link, here, next⟩ := next
  cases link with
  | some link => cases next
  | none =>
    obtain ⟨nodes, found, next⟩ := Option.bind_eq_some_iff.mp next
    cases outermost : side.outermost nodes with
    | some child =>
      rw [outermost] at next
      obtain ⟨shift, _, next⟩ := Option.bind_eq_some_iff.mp next
      cases next
    | none =>
      have empty : nodes = [] := by
        cases side with
        | left => exact List.head?_eq_none_iff.mp outermost
        | right => exact List.getLast?_eq_none_iff.mp outermost
      exact ⟨here, empty ▸ found⟩

theorem Laddered.mem_next (laddered : Laddered below tree frames) (listed : tree.ListedIn below)
    {row node target : Nat} {step : α} (inRow : node ∈ tree.row row)
    (next : frames.next? below side node = some (some (target, step))) :
    target ∈ tree.row (row + 1) := by
  rcases next?_eq_some next with thread | ⟨_, _, nodes, found, member⟩
  · exact (laddered.thread node target step thread).2.2 row inRow
  · exact listed.row_below inRow found member

theorem Laddered.exists_next (laddered : Laddered below tree frames) (listed : tree.ListedIn below)
    (side : Side) {node : Nat} (member : node ∈ tree.values) :
    ∃ next, frames.next? below side node = some next := by
  have bound : node < frames.thread.size := laddered.size ▸ listed.values_lt node member
  rw [next?, Array.getElem?_eq_getElem bound]
  cases frames.thread[node] with
  | some link => exact ⟨some link, rfl⟩
  | none =>
    obtain ⟨nodes, found, inside⟩ := listed.below_subset node member
    simp only [Option.bind_eq_bind, Option.bind_some, found]
    cases outermost : side.outermost nodes with
    | none => exact ⟨none, rfl⟩
    | some child =>
      have inTree := tree.valuesAll_children_subset (inside (Side.mem_of_outermost outermost))
      have inShift : child < frames.shift.size := laddered.shift ▸ listed.values_lt child inTree
      exact ⟨some (child, frames.shift[child]), by
        simp only [Array.getElem?_eq_getElem inShift]
        rfl⟩

theorem Laddered.withThread (laddered : Laddered below tree frames) (distinct : tree.values.Nodup)
    {row holder target : Nat} {step : α} (inRow : holder ∈ tree.row row)
    (inNext : target ∈ tree.row (row + 1)) (childless : below[holder]? = some []) :
    Laddered below tree (frames.withThread holder target step) := by
  refine ⟨laddered.offset, laddered.shift, Array.size_setIfInBounds.trans laddered.size, ?_⟩
  intro node other distance thread
  by_cases same : holder = node
  · subst same
    rw [Frames.withThread, Array.getElem?_setIfInBounds_self] at thread
    obtain ⟨_, thread⟩ := Option.ite_none_right_eq_some.mp thread
    obtain ⟨rfl, _⟩ : target = other ∧ step = distance :=
      Prod.mk.injEq .. ▸ Option.some.inj (Option.some.inj thread)
    refine ⟨row_subset_values row tree inRow, childless, fun row' inOther => ?_⟩
    rwa [row_inj distinct inOther inRow]
  · rw [Frames.withThread, Array.getElem?_setIfInBounds_ne same] at thread
    exact laddered.thread node other distance thread

theorem Laddered.withShift (laddered : Laddered below tree frames) (node : Nat) (distance : α) :
    Laddered below tree (frames.withShift node distance) :=
  ⟨laddered.offset, Array.size_setIfInBounds.trans laddered.shift, laddered.size, laddered.thread⟩

theorem Laddered.withOffset (laddered : Laddered below tree frames) (node : Nat) (position : α) :
    Laddered below tree (frames.withOffset node position) :=
  ⟨Array.size_setIfInBounds.trans laddered.offset, laddered.shift, laddered.size, laddered.thread⟩

/-- The frames of the second have the threads of the first, and others only on nodes that had none
and have no children. -/
def Grown (below : Array (List Nat)) (first second : Frames α) : Prop :=
  ∀ node : Nat, second.thread[node]? ≠ first.thread[node]? →
    first.thread[node]? = some none ∧ below[node]? = some []

theorem Grown.of_eq {first second : Frames α} (same : second.thread = first.thread) :
    Grown below first second :=
  fun node different => absurd (congrArg (·[node]?) same) different

variable [Coordinate α]

/-! ### Walks -/

theorem height_le_size (listed : tree.ListedIn below) (distinct : tree.values.Nodup) :
    tree.height ≤ below.size := by
  have length := (Grove.singleton listed distinct).length_le
  rw [valuesAll_singleton] at length
  exact (height_le_length tree).trans length

/-- A walk has ended when it has made as many steps as there are rows below. -/
theorem Laddered.exists_follow (laddered : Laddered below tree frames)
    (listed : tree.ListedIn below) (side : Side) (limit : Nat) {row node : Nat}
    (inRow : node ∈ tree.row row) (enough : tree.height ≤ row + limit) (distance : α) :
    ∃ entries, frames.follow? below side limit node distance = some entries := by
  induction limit generalizing row node distance with
  | zero => exact absurd (lt_height_of_mem inRow) (Nat.not_lt.mpr enough)
  | succ limit inductionHypothesis =>
    obtain ⟨next, found⟩ := laddered.exists_next listed side (row_subset_values row tree inRow)
    rw [follow?, found]
    cases next with
    | none => exact ⟨[], rfl⟩
    | some link =>
      obtain ⟨target, step⟩ := link
      have inNext := laddered.mem_next listed inRow found
      obtain ⟨entries, onward⟩ := inductionHypothesis inNext (by omega) (distance + step)
      have inOffset : target < frames.offset.size := laddered.offset ▸
        listed.values_lt target (row_subset_values _ tree inNext)
      refine ⟨(frames.offset[target] + (distance + step)) :: entries, ?_⟩
      simp only [Option.bind_eq_bind, Option.bind_some, Array.getElem?_eq_getElem inOffset, onward]
      rfl

/-- Every contour ends. -/
theorem Laddered.exists_contour (laddered : Laddered below tree frames)
    (listed : tree.ListedIn below) (distinct : tree.values.Nodup) (side : Side) {node : Nat}
    (member : node ∈ tree.values) : ∃ entries, frames.contour? below side node = some entries := by
  have inLists := listed.values_lt node member
  have inShift : node < frames.shift.size := laddered.shift ▸ inLists
  have inOffset : node < frames.offset.size := laddered.offset ▸ inLists
  obtain ⟨row, inRow⟩ := exists_row member
  obtain ⟨entries, walk⟩ := laddered.exists_follow listed side below.size inRow
    ((height_le_size listed distinct).trans (Nat.le_add_left _ _)) frames.shift[node]
  refine ⟨(frames.offset[node] + frames.shift[node]) :: entries, ?_⟩
  simp only [contour?, Array.getElem?_eq_getElem inShift, Array.getElem?_eq_getElem inOffset,
    Option.bind_eq_bind, Option.bind_some, walk]
  rfl

/-- Two walks at the same pace have ended when the first has made as many steps as there are rows
below it. -/
theorem Laddered.exists_link (laddered : Laddered below tree frames) (listed : tree.ListedIn below)
    (side : Side) (limit : Nat) {row : Nat} {short tall : Nat × α} (inRow : short.1 ∈ tree.row row)
    (member : tall.1 ∈ tree.values) (enough : tree.height ≤ row + limit) :
    ∃ joined, frames.link? below side limit short tall = some joined := by
  induction limit generalizing row short tall with
  | zero => exact absurd (lt_height_of_mem inRow) (Nat.not_lt.mpr enough)
  | succ limit inductionHypothesis =>
    obtain ⟨nextShort, foundShort⟩ :=
      laddered.exists_next listed side (row_subset_values row tree inRow)
    obtain ⟨nextTall, foundTall⟩ := laddered.exists_next listed side member
    rw [link?, foundShort, foundTall]
    cases nextTall with
    | none =>
      cases nextShort with
      | none => exact ⟨frames, rfl⟩
      | some _ => exact ⟨frames, rfl⟩
    | some linkTall =>
      obtain ⟨targetTall, stepTall⟩ := linkTall
      cases nextShort with
      | none => exact ⟨_, rfl⟩
      | some linkShort =>
        obtain ⟨targetShort, stepShort⟩ := linkShort
        obtain ⟨tallRow, inTallRow⟩ := exists_row member
        refine inductionHypothesis (laddered.mem_next listed inRow foundShort)
          (row_subset_values _ tree (laddered.mem_next listed inTallRow foundTall)) ?_
        omega

/-- Every search for the place of a thread ends. -/
theorem Laddered.exists_setThread (laddered : Laddered below tree frames)
    (listed : tree.ListedIn below) (distinct : tree.values.Nodup) (side : Side) {short tall : Nat}
    (inShort : short ∈ tree.values) (inTall : tall ∈ tree.values) :
    ∃ joined, frames.setThread? below side short tall = some joined := by
  have shortShift : short < frames.shift.size := laddered.shift ▸ listed.values_lt short inShort
  have tallShift : tall < frames.shift.size := laddered.shift ▸ listed.values_lt tall inTall
  obtain ⟨row, inRow⟩ := exists_row inShort
  rw [setThread?, Array.getElem?_eq_getElem shortShift, Array.getElem?_eq_getElem tallShift]
  exact laddered.exists_link listed side below.size inRow inTall
    ((height_le_size listed distinct).trans (Nat.le_add_left _ _))

/-! ### Threads -/

/-- What two walks at the same pace keep holds of their ends: no thread is set, or one from the last
node of the first walk to the next node of the second. -/
theorem link?_cases {related : Nat × α → Nat × α → Prop} {limit : Nat} {short tall : Nat × α}
    (advance : ∀ short tall, related short tall → ∀ shortNext shortStep tallNext tallStep,
      frames.next? below side short.1 = some (some (shortNext, shortStep)) →
      frames.next? below side tall.1 = some (some (tallNext, tallStep)) →
      related (shortNext, short.2 + shortStep) (tallNext, tall.2 + tallStep))
    (start : related short tall) (linked : frames.link? below side limit short tall = some joined) :
    joined = frames ∨ ∃ last other target step, related last other ∧
      frames.next? below side last.1 = some none ∧
      frames.next? below side other.1 = some (some (target, step)) ∧
      joined = frames.withThread last.1 target (other.2 + step - last.2) := by
  induction limit generalizing short tall with
  | zero => cases linked
  | succ limit inductionHypothesis =>
    simp only [link?, Option.bind_eq_bind, Option.bind_eq_some_iff] at linked
    obtain ⟨nextShort, foundShort, nextTall, foundTall, linked⟩ := linked
    cases nextTall with
    | none =>
      cases nextShort with
      | none => exact .inl (Option.some.inj linked).symm
      | some _ => exact .inl (Option.some.inj linked).symm
    | some linkTall =>
      obtain ⟨targetTall, stepTall⟩ := linkTall
      cases nextShort with
      | none =>
        exact .inr ⟨short, tall, targetTall, stepTall, start, foundShort, foundTall,
          (Option.some.inj linked).symm⟩
      | some linkShort =>
        obtain ⟨targetShort, stepShort⟩ := linkShort
        exact inductionHypothesis (advance short tall start _ _ _ _ foundShort foundTall) linked

/-- A thread that is set between two nodes of one row leads one row down. -/
theorem Laddered.setThread (laddered : Laddered below tree frames) (listed : tree.ListedIn below)
    (distinct : tree.values.Nodup) {row short tall : Nat} (inShort : short ∈ tree.row row)
    (inTall : tall ∈ tree.row row)
    (joins : frames.setThread? below side short tall = some joined) :
    Laddered below tree joined := by
  simp only [setThread?, Option.bind_eq_bind, Option.bind_eq_some_iff] at joins
  obtain ⟨shortShift, _, tallShift, _, linked⟩ := joins
  have advance : ∀ short tall : Nat × α, (∃ row, short.1 ∈ tree.row row ∧ tall.1 ∈ tree.row row) →
      ∀ shortNext shortStep tallNext tallStep,
        frames.next? below side short.1 = some (some (shortNext, shortStep)) →
        frames.next? below side tall.1 = some (some (tallNext, tallStep)) →
        ∃ row, shortNext ∈ tree.row row ∧ tallNext ∈ tree.row row := by
    rintro short tall ⟨row, inShort, inTall⟩ _ _ _ _ foundShort foundTall
    exact ⟨row + 1, laddered.mem_next listed inShort foundShort,
      laddered.mem_next listed inTall foundTall⟩
  rcases link?_cases advance ⟨row, inShort, inTall⟩ linked with
    rfl | ⟨last, other, target, step, ⟨row, inLast, inOther⟩, ends, next, rfl⟩
  · exact laddered
  · exact laddered.withThread distinct inLast (laddered.mem_next listed inOther next)
      (next?_eq_none ends).2

/-- A thread is only set on a node that has none and no children. -/
theorem setThread?_cases {short tall : Nat}
    (joins : frames.setThread? below side short tall = some joined) :
    joined = frames ∨ ∃ holder target step, frames.thread[holder]? = some none ∧
      below[holder]? = some [] ∧ joined = frames.withThread holder target step := by
  simp only [setThread?, Option.bind_eq_bind, Option.bind_eq_some_iff] at joins
  obtain ⟨shortShift, _, tallShift, _, linked⟩ := joins
  have advance : ∀ short tall : Nat × α, True → ∀ shortNext shortStep tallNext tallStep,
      frames.next? below side short.1 = some (some (shortNext, shortStep)) →
      frames.next? below side tall.1 = some (some (tallNext, tallStep)) → True :=
    fun _ _ _ _ _ _ _ _ _ => trivial
  rcases link?_cases advance trivial linked with rfl | ⟨last, _, target, step, _, ends, _, rfl⟩
  · exact .inl rfl
  · obtain ⟨free, childless⟩ := next?_eq_none ends
    exact .inr ⟨last.1, target, _, free, childless, rfl⟩

theorem grown_setThread {short tall : Nat}
    (joins : frames.setThread? below side short tall = some joined) :
    Grown below frames joined := by
  rcases setThread?_cases joins with rfl | ⟨holder, target, step, free, childless, rfl⟩
  · exact Grown.of_eq rfl
  · intro node different
    by_cases same : holder = node
    · exact same ▸ ⟨free, childless⟩
    · exact absurd (Array.getElem?_setIfInBounds_ne same) different

theorem join?_cases {first previous node : Nat} {merged left : List α}
    (joins : frames.join? below first previous node merged left = some joined) :
    frames.setThread? below .left first node = some joined ∨
      frames.setThread? below .right node previous = some joined ∨ joined = frames := by
  unfold join? at joins
  split at joins
  · exact .inl joins
  · split at joins
    · exact .inr (.inl joins)
    · exact .inr (.inr (Option.some.inj joins).symm)

theorem laddered_initial (below : Array (List Nat)) (tree : RoseTree Nat) :
    Laddered below tree (initial below.size : Frames α) := by
  refine ⟨Array.size_replicate, Array.size_replicate, Array.size_replicate, ?_⟩
  intro holder target step thread
  rw [initial, Array.getElem?_replicate] at thread
  obtain ⟨_, thread⟩ := Option.ite_none_right_eq_some.mp thread
  cases thread

namespace Moment

/-! ### Steps -/

/-- The nodes that are named by what is still to be done for their parent. -/
def Task.nodes : Task α → List Nat
  | .begin | .centre => []
  | .spread first previous _ rest => first :: previous :: rest
  | .join first previous moved _ _ rest => first :: previous :: moved :: rest

/-- All links lead one row down, the nodes that wait are those of the tree, and the siblings that
are being put side by side stand in one row of it. -/
structure Sound (below : Array (List Nat)) (tree : RoseTree Nat) (moment : Moment α) : Prop where
  laddered : Laddered below tree moment.frames
  waiting : ∀ node ∈ moment.waiting, node ∈ tree.values
  level : ∃ row, ∀ node ∈ Task.nodes moment.task, node ∈ tree.row row

variable {moment next : Moment α}

theorem Sound.join {frames joined : Frames α} {waiting rest : List Nat} {first previous moved : Nat}
    {merged left : List α}
    (sound : Sound below tree ⟨frames, waiting, .join first previous moved merged left rest⟩)
    (listed : tree.ListedIn below) (distinct : tree.values.Nodup)
    (joins : frames.join? below first previous moved merged left = some joined) :
    Laddered below tree joined := by
  obtain ⟨row, level⟩ := sound.level
  obtain ⟨inFirst, level⟩ := List.forall_mem_cons.mp level
  obtain ⟨inPrevious, level⟩ := List.forall_mem_cons.mp level
  have inMoved := level moved List.mem_cons_self
  rcases join?_cases joins with joins | joins | rfl
  · exact sound.laddered.setThread listed distinct inFirst inMoved joins
  · exact sound.laddered.setThread listed distinct inMoved inPrevious joins
  · exact sound.laddered

/-- Every step keeps the links in their rows. -/
theorem Sound.step (sound : Sound below tree moment) (listed : tree.ListedIn below)
    (distinct : tree.values.Nodup) (step : Step below moment next) : Sound below tree next := by
  cases step with
  | leaf childless => exact ⟨sound.laddered, sound.waiting, sound.level⟩
  | @enter frames node first waiting rest children =>
    obtain ⟨row, inRow⟩ := exists_row (sound.waiting node List.mem_cons_self)
    have inNext : ∀ child ∈ first :: rest, child ∈ tree.row (row + 1) :=
      fun child member => listed.row_below inRow children member
    refine ⟨sound.laddered, sound.waiting, row + 1, List.forall_mem_cons.mpr ⟨?_, inNext⟩⟩
    exact inNext first List.mem_cons_self
  | finish => exact ⟨sound.laddered, sound.waiting, 0, fun node member => by cases member⟩
  | @move frames node first previous next merged right left shift waiting rest =>
    exact ⟨sound.laddered.withShift next _, sound.waiting, sound.level⟩
  | join joins =>
    obtain ⟨row, level⟩ := sound.level
    obtain ⟨inFirst, level⟩ := List.forall_mem_cons.mp level
    refine ⟨sound.join listed distinct joins, sound.waiting, row, List.forall_mem_cons.mpr
      ⟨inFirst, (List.forall_mem_cons.mp level).2⟩⟩
  | stand found collected =>
    exact ⟨sound.laddered.withOffset _ _,
      fun node member => sound.waiting node (List.mem_cons_of_mem _ member), 0,
      fun node member => by cases member⟩

/-- All of this holds before anything is placed, and so at every moment. -/
theorem Reaches.sound {first : Moment α} (reaches : Reaches below first moment)
    (listed : tree.ListedIn below) (distinct : tree.values.Nodup)
    (starts : start? below tree.value = some first) : Sound below tree moment := by
  rw [start?, postOrder?_eq listed distinct] at starts
  obtain rfl := Option.some.inj starts
  have sound : Sound below tree ⟨(initial below.size : Frames α), tree.postorder, .begin⟩ :=
    ⟨laddered_initial below tree, fun node member => tree.postorder_perm.mem_iff.mp member, 0,
      fun node member => by cases member⟩
  exact reaches.invariant sound fun _ _ sound step => sound.step listed distinct step

/-- A thread is only set on a node that has none and no children. -/
theorem Step.grown (step : Step below moment next) : Grown below moment.frames next.frames := by
  cases step with
  | join joins =>
    rcases join?_cases joins with joins | joins | rfl
    · exact grown_setThread joins
    · exact grown_setThread joins
    · exact Grown.of_eq rfl
  | _ => exact Grown.of_eq rfl

end Moment

end Frames

end ExprDiagram
