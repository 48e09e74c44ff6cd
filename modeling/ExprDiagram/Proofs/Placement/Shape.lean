/-
This file compares two placements of a tree over different numbers, exact ones and floating point
numbers for instance. How far a subtree is moved depends on the numbers, but which nodes a contour
passes and where a thread is set depends on the lengths of contours only. So two placements go
through the same nodes: one of them finds positions if and only if the other does, and what is known
of the course of a placement over exact numbers holds over any others.
-/

import ExprDiagram.Placement.Contour

namespace ExprDiagram

variable {α β : Type}

/-! ### Optional values -/

/-- Computations stay related when they go on from related values in related ways. -/
theorem rel_bind {γ δ : Type} {related : α → β → Prop} {relatedNext : γ → δ → Prop}
    {first : Option α} {second : Option β} {next : α → Option γ} {other : β → Option δ}
    (values : Option.Rel related first second)
    (each : ∀ value partner, related value partner →
      Option.Rel relatedNext (next value) (other partner)) :
    Option.Rel relatedNext (first >>= next) (second >>= other) := by
  cases values with
  | none => exact .none
  | some same => exact each _ _ same

theorem rel_self (value : Option α) : Option.Rel (· = ·) value value := by
  cases value with
  | none => exact .none
  | some inner => exact .some rfl

theorem rel_getElem? {first : Array α} {second : Array β} (size : first.size = second.size)
    (index : Nat) : Option.Rel (fun _ _ => True) first[index]? second[index]? := by
  by_cases bound : index < first.size
  · rw [Array.getElem?_eq_getElem bound, Array.getElem?_eq_getElem (size ▸ bound)]
    exact .some trivial
  · rw [Array.getElem?_eq_none (Nat.le_of_not_lt bound),
      Array.getElem?_eq_none (size ▸ Nat.le_of_not_lt bound)]
    exact .none

theorem rel_mapM {γ : Type} {first : γ → Option α} {second : γ → Option β}
    (each : ∀ item, Option.Rel (fun _ _ => True) (first item) (second item)) (items : List γ) :
    Option.Rel (fun _ _ => True) (items.mapM first) (items.mapM second) := by
  induction items with
  | nil => exact .some trivial
  | cons item rest inductionHypothesis =>
    rw [List.mapM_cons, List.mapM_cons]
    exact rel_bind (each item) fun _ _ _ => rel_bind inductionHypothesis fun _ _ _ => .some trivial

/-! ### Frames -/

namespace Frames

variable {first : Frames α} {second : Frames β}

/-- Two links lead to the same node. -/
def SameNode (link : Nat × α) (other : Nat × β) : Prop := link.1 = other.1

/-- The frames are those of the same nodes, and the threads lead to the same nodes. -/
structure Alike (first : Frames α) (second : Frames β) : Prop where
  offset : first.offset.size = second.offset.size
  shift : first.shift.size = second.shift.size
  size : first.thread.size = second.thread.size
  thread : ∀ node : Nat, Option.Rel (Option.Rel SameNode) first.thread[node]? second.thread[node]?

theorem Alike.next? (alike : Alike first second) (below : Array (List Nat)) (side : Side)
    (node : Nat) :
    Option.Rel (Option.Rel SameNode) (first.next? below side node)
      (second.next? below side node) := by
  rw [Frames.next?, Frames.next?]
  refine rel_bind (alike.thread node) fun link other same => ?_
  cases same with
  | some same => exact .some (.some same)
  | none =>
    refine rel_bind (rel_self below[node]?) fun nodes _ same => ?_
    subst same
    cases side.outermost nodes with
    | none => exact .some .none
    | some child =>
      exact rel_bind (rel_getElem? alike.shift child) fun _ _ _ => .some (.some rfl)

theorem Alike.stand (alike : Alike first second) (node : Nat) (position : α) (other : β) :
    Alike { first with offset := first.offset.setIfInBounds node position }
      { second with offset := second.offset.setIfInBounds node other } := by
  refine ⟨?_, alike.shift, alike.size, alike.thread⟩
  rw [Array.size_setIfInBounds, Array.size_setIfInBounds]
  exact alike.offset

theorem Alike.move (alike : Alike first second) (node : Nat) (distance : α) (other : β) :
    Alike { first with shift := first.shift.setIfInBounds node distance }
      { second with shift := second.shift.setIfInBounds node other } := by
  refine ⟨alike.offset, ?_, alike.size, alike.thread⟩
  rw [Array.size_setIfInBounds, Array.size_setIfInBounds]
  exact alike.shift

theorem Alike.tie (alike : Alike first second) (node next : Nat) (distance : α) (other : β) :
    Alike { first with thread := first.thread.setIfInBounds node (some (next, distance)) }
      { second with thread := second.thread.setIfInBounds node (some (next, other)) } := by
  refine ⟨alike.offset, alike.shift, ?_, fun place => ?_⟩
  · rw [Array.size_setIfInBounds, Array.size_setIfInBounds]
    exact alike.size
  · show Option.Rel _ (Array.setIfInBounds _ _ _)[place]? (Array.setIfInBounds _ _ _)[place]?
    rw [Array.getElem?_setIfInBounds, Array.getElem?_setIfInBounds, alike.size]
    split
    · split
      · exact .some (.some rfl)
      · exact .none
    · exact alike.thread place

end Frames

variable [Coordinate α] [Coordinate β]

/-! ### Contours -/

theorem length_raise (entries others : List α) :
    (raise entries others).length = entries.length := by
  induction entries generalizing others with
  | nil => rfl
  | cons entry rest inductionHypothesis =>
    cases others with
    | nil => rfl
    | cons other others => exact congrArg Nat.succ (inductionHypothesis others)

/-- The contour of two subtrees is as long as the longer one of theirs. -/
theorem length_maxContour (first second : List α) :
    (maxContour first second).length = max first.length second.length := by
  unfold maxContour
  split
  · rename_i shorter
    rw [length_raise, Nat.max_eq_right shorter]
  · rename_i longer
    rw [length_raise, Nat.max_eq_left (Nat.le_of_not_le longer)]

namespace Frames

variable {first : Frames α} {second : Frames β}

/-- Two contours have the same number of entries. -/
def SameLength (contour : List α) (other : List β) : Prop := contour.length = other.length

theorem Alike.follow? (alike : Alike first second) (below : Array (List Nat)) (side : Side)
    (limit node : Nat) (distance : α) (other : β) :
    Option.Rel SameLength (first.follow? below side limit node distance)
      (second.follow? below side limit node other) := by
  induction limit generalizing node distance other with
  | zero => exact .none
  | succ limit inductionHypothesis =>
    rw [Frames.follow?, Frames.follow?]
    refine rel_bind (alike.next? below side node) fun link partner same => ?_
    cases same with
    | none => exact .some rfl
    | @some link partner same =>
      obtain ⟨next, step⟩ := link
      obtain ⟨_, otherStep⟩ := partner
      obtain rfl := same
      refine rel_bind (rel_getElem? alike.offset next) fun _ _ _ => ?_
      exact rel_bind (inductionHypothesis next _ _) fun _ _ same => .some (congrArg Nat.succ same)

theorem Alike.contour? (alike : Alike first second) (below : Array (List Nat)) (side : Side)
    (node : Nat) :
    Option.Rel SameLength (first.contour? below side node) (second.contour? below side node) := by
  rw [Frames.contour?, Frames.contour?]
  refine rel_bind (rel_getElem? alike.shift node) fun _ _ _ => ?_
  refine rel_bind (rel_getElem? alike.offset node) fun _ _ _ => ?_
  exact rel_bind (alike.follow? below side _ node _ _) fun _ _ same =>
    .some (congrArg Nat.succ same)

/-! ### Threads -/

theorem Alike.link? (alike : Alike first second) (below : Array (List Nat)) (side : Side)
    (limit : Nat) {short tall : Nat × α} {otherShort otherTall : Nat × β}
    (sameShort : SameNode short otherShort) (sameTall : SameNode tall otherTall) :
    Option.Rel Alike (first.link? below side limit short tall)
      (second.link? below side limit otherShort otherTall) := by
  induction limit generalizing short tall otherShort otherTall with
  | zero => exact .none
  | succ limit inductionHypothesis =>
    obtain ⟨node, distance⟩ := short
    obtain ⟨_, otherDistance⟩ := otherShort
    obtain rfl := sameShort
    obtain ⟨tallNode, tallDistance⟩ := tall
    obtain ⟨_, otherTallDistance⟩ := otherTall
    obtain rfl := sameTall
    rw [Frames.link?, Frames.link?]
    refine rel_bind (alike.next? below side node) fun nextShort otherNextShort sameShort => ?_
    refine rel_bind (alike.next? below side tallNode) fun nextTall otherNextTall sameTall => ?_
    cases sameShort with
    | none =>
      cases sameTall with
      | none => exact .some alike
      | @some nextTall otherNextTall same =>
        obtain ⟨next, step⟩ := nextTall
        obtain ⟨_, otherStep⟩ := otherNextTall
        obtain rfl := same
        exact .some (alike.tie node next _ _)
    | some same =>
      cases sameTall with
      | none => exact .some alike
      | some sameTall => exact inductionHypothesis same sameTall

theorem Alike.setThread? (alike : Alike first second) (below : Array (List Nat)) (side : Side)
    (short tall : Nat) :
    Option.Rel Alike (first.setThread? below side short tall)
      (second.setThread? below side short tall) := by
  rw [Frames.setThread?, Frames.setThread?]
  refine rel_bind (rel_getElem? alike.shift short) fun _ _ _ => ?_
  exact rel_bind (rel_getElem? alike.shift tall) fun _ _ _ => alike.link? below side _ rfl rfl

/-! ### Placing -/

/-- Which threads are set is decided by the lengths of contours alone. -/
theorem Alike.spread? (alike : Alike first second) (below : Array (List Nat)) (top previous : Nat)
    {merged : List α} {otherMerged : List β} (same : SameLength merged otherMerged)
    (nodes : List Nat) :
    Option.Rel Alike (first.spread? below top previous merged nodes)
      (second.spread? below top previous otherMerged nodes) := by
  induction nodes generalizing first second previous merged otherMerged with
  | nil => exact .some alike
  | cons node rest inductionHypothesis =>
    rw [Frames.spread?, Frames.spread?]
    refine rel_bind (alike.contour? below .right previous) fun right otherRight sameRight => ?_
    refine rel_bind (alike.contour? below .left node) fun left otherLeft sameLeft => ?_
    refine rel_bind (rel_getElem? alike.shift node) fun shift otherShift _ => ?_
    have sameMerged : SameLength (maxContour merged right) (maxContour otherMerged otherRight) := by
      rw [SameLength, length_maxContour, length_maxContour, same, sameRight]
    have moved := alike.move node (shift + gap (maxContour merged right) left)
      (otherShift + gap (maxContour otherMerged otherRight) otherLeft)
    simp only
    rw [sameMerged, sameLeft]
    split
    · exact rel_bind (moved.setThread? below .left top node) fun _ _ tied =>
        inductionHypothesis tied node sameMerged
    · split
      · exact rel_bind (moved.setThread? below .right node previous) fun _ _ tied =>
          inductionHypothesis tied node sameMerged
      · exact inductionHypothesis moved node sameMerged

theorem Alike.positions (alike : Alike first second) (nodes : List Nat) :
    Option.Rel (fun _ _ => True)
      (nodes.mapM fun child => do return (← first.offset[child]?) + (← first.shift[child]?))
      (nodes.mapM fun child => do return (← second.offset[child]?) + (← second.shift[child]?)) := by
  refine rel_mapM (fun child => ?_) nodes
  exact rel_bind (rel_getElem? alike.offset child) fun _ _ _ =>
    rel_bind (rel_getElem? alike.shift child) fun _ _ _ => .some trivial

theorem Alike.place? (alike : Alike first second) (below : Array (List Nat)) (node : Nat) :
    Option.Rel Alike (first.place? below node) (second.place? below node) := by
  rw [Frames.place?, Frames.place?]
  refine rel_bind (rel_self below[node]?) fun nodes _ same => ?_
  subst same
  cases nodes with
  | nil =>
    refine rel_bind (Option.Rel.some alike) fun spread otherSpread alike => ?_
    exact rel_bind (alike.positions []) fun _ _ _ => .some (alike.stand node _ _)
  | cons top rest =>
    have empty : SameLength ([] : List α) ([] : List β) := rfl
    refine rel_bind (alike.spread? below top top empty rest) fun spread otherSpread alike => ?_
    exact rel_bind (alike.positions (top :: rest)) fun _ _ _ => .some (alike.stand node _ _)

theorem alike_initial (size : Nat) : Alike (initial size : Frames α) (initial size : Frames β) := by
  refine ⟨?_, ?_, ?_, fun node => ?_⟩
  · exact Array.size_replicate.trans Array.size_replicate.symm
  · exact Array.size_replicate.trans Array.size_replicate.symm
  · exact Array.size_replicate.trans Array.size_replicate.symm
  · rw [initial, initial, Array.getElem?_replicate, Array.getElem?_replicate]
    split
    · exact .some .none
    · exact .none

/-- Two placements of a tree have threads between the same nodes. -/
theorem ofTree?_alike (below : Array (List Nat)) (root : Nat) :
    Option.Rel Alike (ofTree? below root : Option (Frames α))
      (ofTree? below root : Option (Frames β)) := by
  have fold : ∀ (nodes : List Nat) (first : Frames α) (second : Frames β), Alike first second →
      Option.Rel Alike (nodes.foldlM (Frames.place? below) first)
        (nodes.foldlM (Frames.place? below) second) := by
    intro nodes
    induction nodes with
    | nil => exact fun _ _ alike => .some alike
    | cons node rest inductionHypothesis =>
      intro first second alike
      rw [List.foldlM_cons, List.foldlM_cons]
      exact rel_bind (alike.place? below node) inductionHypothesis
  rw [ofTree?, ofTree?]
  refine rel_bind (rel_self (postOrder? below root)) fun nodes _ same => ?_
  subst same
  exact fold nodes _ _ (alike_initial below.size)

/-! ### Positions -/

theorem Alike.descend? (alike : Alike first second) (below : Array (List Nat)) (limit : Nat)
    {stack : List (Nat × α)} {others : List (Nat × β)}
    (sameStack : stack.map Prod.fst = others.map Prod.fst) {positions : Array α}
    {otherPositions : Array β} (same : positions.size = otherPositions.size) :
    Option.Rel (fun result other => result.size = other.size)
      (descend? below first.offset first.shift limit stack positions)
      (descend? below second.offset second.shift limit others otherPositions) := by
  induction limit generalizing stack others positions otherPositions with
  | zero =>
    cases stack with
    | nil =>
      obtain rfl := List.map_eq_nil_iff.mp sameStack.symm
      exact .some same
    | cons item rest =>
      obtain ⟨other, more, rfl, _, _⟩ := List.map_eq_cons_iff.mp sameStack.symm
      exact .none
  | succ limit inductionHypothesis =>
    cases stack with
    | nil =>
      obtain rfl := List.map_eq_nil_iff.mp sameStack.symm
      exact .some same
    | cons item rest =>
      obtain ⟨⟨other, otherOuter⟩, more, rfl, sameNode, sameRest⟩ :=
        List.map_eq_cons_iff.mp sameStack.symm
      obtain ⟨node, outer⟩ := item
      obtain rfl : other = node := sameNode
      have offsets := rel_getElem? alike.offset other
      have shifts := rel_getElem? alike.shift other
      rw [ExprDiagram.descend?, ExprDiagram.descend?]
      generalize first.offset[other]? = offset at offsets ⊢
      generalize second.offset[other]? = otherOffset at offsets ⊢
      generalize first.shift[other]? = shift at shifts ⊢
      generalize second.shift[other]? = otherShift at shifts ⊢
      cases below[other]? with
      | none => exact .none
      | some nodes =>
        cases offsets with
        | none => exact .none
        | some _ =>
          cases shifts with
          | none => exact .none
          | some _ =>
            refine inductionHypothesis ?_ ?_
            · simp only [List.map_append, List.map_reverse, List.map_map, sameRest]
              rfl
            · rw [Array.size_setIfInBounds, Array.size_setIfInBounds]
              exact same

/-- Two placements of a tree give positions to the same nodes. -/
theorem Alike.positions? (alike : Alike first second) (below : Array (List Nat)) (root : Nat) :
    Option.Rel (fun result other => result.size = other.size) (first.positions? below root)
      (second.positions? below root) := by
  rw [Frames.positions?, Frames.positions?]
  refine rel_bind (rel_getElem? alike.offset root) fun _ _ _ => ?_
  refine rel_bind (rel_getElem? alike.shift root) fun _ _ _ => ?_
  refine alike.descend? below (visitBound below) rfl ?_
  rw [Array.size_replicate, Array.size_replicate]
  exact alike.offset

end Frames

end ExprDiagram
