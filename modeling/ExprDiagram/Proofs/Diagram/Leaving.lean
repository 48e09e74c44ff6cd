/-
This file is about the order in which a depth-first walk leaves the nodes of a graph, in which every
step leads to a node of lower rank. The walk comes back from every node on the stack: everything that
can be reached from the node has then been left, and the node stands in the order before all of it.
-/

import ExprDiagram.Diagram.Depth
import Mathlib.Data.List.Basic
import Mathlib.Logic.Relation

namespace ExprDiagram

open Relation

theorem size_foldl_modify {Item Entry : Type} (place : Item → Nat) (change : Item → Entry → Entry)
    (items : List Item) (entries : Array Entry) :
    (items.foldl (fun entries item => entries.modify (place item) (change item)) entries).size =
      entries.size := by
  induction items generalizing entries with
  | nil => rfl
  | cons item rest inductionHypothesis =>
    rw [List.foldl_cons, inductionHypothesis, Array.size_modify]

/-! ### Graphs without circles -/

/-- One node stands in the list of the other. -/
def Step (children : Array (List Nat)) (node child : Nat) : Prop :=
  ∃ nodes, children[node]? = some nodes ∧ child ∈ nodes

/-- Every step leads to a node that has a list, and whose rank is lower. -/
structure Descending (children : Array (List Nat)) (rank : Nat → Nat) : Prop where
  bound : ∀ node child, Step children node child → child < children.size
  lower : ∀ node child, Step children node child → rank child < rank node

/-- Each node stands once, before all nodes that a step from it leads to. -/
inductive Forward (children : Array (List Nat)) : List Nat → Prop
  | nil : Forward children []
  | cons {node : Nat} {rest : List Nat} (later : ∀ child, Step children node child → child ∈ rest)
    (fresh : node ∉ rest) (forward : Forward children rest) : Forward children (node :: rest)

variable {children : Array (List Nat)} {rank : Nat → Nat} {marks : Array Mark}
variable {node : Nat} {nodes rest order : List Nat}

theorem Forward.nodup (forward : Forward children order) : order.Nodup := by
  induction forward with
  | nil => exact List.nodup_nil
  | cons _ fresh _ inductionHypothesis => exact List.nodup_cons.mpr ⟨fresh, inductionHypothesis⟩

theorem Forward.mem_of_step (forward : Forward children order) (member : node ∈ order)
    {child : Nat} (step : Step children node child) : child ∈ order := by
  induction forward with
  | nil => cases member
  | cons later _ _ inductionHypothesis =>
    rcases List.mem_cons.mp member with rfl | inRest
    · exact List.mem_cons_of_mem _ (later child step)
    · exact List.mem_cons_of_mem _ (inductionHypothesis inRest)

/-- What stands in an order is closed under steps. -/
theorem Forward.mem_of_reaches (forward : Forward children order) {other : Nat}
    (reaches : ReflTransGen (Step children) node other) (member : node ∈ order) :
    other ∈ order := by
  induction reaches with
  | refl => exact member
  | tail _ step inductionHypothesis => exact forward.mem_of_step inductionHypothesis step

/-! ### Steps of the walk -/

theorem leave?_unseen (below : children[node]? = some nodes)
    (unseen : marks[node]? = some .unseen) :
    leave? children (node :: rest) marks order =
      leave? children
        (nodes.filter (fun child =>
          (marks.setIfInBounds node .entered)[child]?.getD .unseen == .unseen) ++ node :: rest)
        (marks.setIfInBounds node .entered) order := by
  obtain ⟨bound, here⟩ := Array.getElem?_eq_some_iff.mp unseen
  rw [leave?, dif_pos bound, Array.setIfInBounds, dif_pos bound]
  split
  · simp only [below]
  · rename_i other
    cases here.symm.trans other
  · rename_i other
    cases here.symm.trans other

theorem leave?_entered (entered : marks[node]? = some .entered) :
    leave? children (node :: rest) marks order =
      leave? children rest (marks.setIfInBounds node .left) (node :: order) := by
  obtain ⟨bound, here⟩ := Array.getElem?_eq_some_iff.mp entered
  rw [leave?, dif_pos bound, Array.setIfInBounds, dif_pos bound]
  split
  · rename_i other
    cases here.symm.trans other
  · rfl
  · rename_i other
    cases here.symm.trans other

theorem leave?_left (left : marks[node]? = some .left) :
    leave? children (node :: rest) marks order = leave? children rest marks order := by
  obtain ⟨bound, here⟩ := Array.getElem?_eq_some_iff.mp left
  rw [leave?, dif_pos bound]
  split
  · rename_i other
    cases here.symm.trans other
  · rename_i other
    cases here.symm.trans other
  · rfl

/-! ### Coming back -/

/-- The nodes that have been left are those of the order. -/
structure Walked (children : Array (List Nat)) (marks : Array Mark) (order : List Nat) : Prop where
  size : marks.size = children.size
  left_iff : ∀ node : Nat, marks[node]? = some .left ↔ node ∈ order
  forward : Forward children order

/-- A walk that has come back from some nodes: it is among the same nodes as before, and has left
the given ones and others that can be reached from them. -/
structure Returned (children : Array (List Nat)) (nodes : List Nat) (marks after : Array Mark)
    (order orderAfter : List Nat) : Prop where
  walked : Walked children after orderAfter
  grows : order ⊆ orderAfter
  entered_iff : ∀ node : Nat, after[node]? = some .entered ↔ marks[node]? = some .entered
  left : nodes ⊆ orderAfter
  reached : ∀ other ∈ orderAfter, other ∈ order ∨
    ∃ node ∈ nodes, ReflTransGen (Step children) node other

/-- The walk comes back from nodes, whatever else is on the stack. -/
def Returns (children : Array (List Nat)) (nodes : List Nat) (marks : Array Mark)
    (order : List Nat) : Prop :=
  ∀ rest, ∃ after orderAfter,
    leave? children (nodes ++ rest) marks order = leave? children rest after orderAfter ∧
      Returned children nodes marks after order orderAfter

/-- The nodes that the walk is among have higher ranks. -/
def Above (rank : Nat → Nat) (marks : Array Mark) (node : Nat) : Prop :=
  ∀ other : Nat, marks[other]? = some .entered → rank node < rank other

/-- The walk comes back from a list of nodes if it does so from each. -/
theorem returns_nodes (single : ∀ node ∈ nodes, ∀ marks order, Walked children marks order →
      Above rank marks node → Returns children [node] marks order)
    (walked : Walked children marks order) (above : ∀ node ∈ nodes, Above rank marks node) :
    Returns children nodes marks order := by
  intro rest
  induction nodes generalizing marks order with
  | nil =>
    exact ⟨marks, order, rfl, walked, List.Subset.refl _, fun _ => Iff.rfl, List.nil_subset _,
      fun _ member => .inl member⟩
  | cons node more inductionHypothesis =>
    obtain ⟨between, orderBetween, runs, first⟩ := single node List.mem_cons_self marks order walked
      (above node List.mem_cons_self) (more ++ rest)
    obtain ⟨after, orderAfter, runsMore, others⟩ := inductionHypothesis
      (fun other member => single other (List.mem_cons_of_mem _ member)) first.walked
      (fun other member entered mark =>
        above other (List.mem_cons_of_mem _ member) entered ((first.entered_iff entered).mp mark))
    refine ⟨after, orderAfter, ?_, others.walked, List.Subset.trans first.grows others.grows,
      fun other => (others.entered_iff other).trans (first.entered_iff other), ?_, ?_⟩
    · exact runs.trans runsMore
    · exact List.cons_subset.mpr ⟨others.grows (first.left List.mem_cons_self), others.left⟩
    · intro other member
      rcases others.reached other member with before | ⟨start, inMore, reaches⟩
      · rcases first.reached other before with earlier | ⟨start, inNode, reaches⟩
        · exact .inl earlier
        · rw [List.mem_singleton] at inNode
          exact .inr ⟨start, inNode ▸ List.mem_cons_self, reaches⟩
      · exact .inr ⟨start, List.mem_cons_of_mem _ inMore, reaches⟩

theorem getElem?_mark (mark : Mark) (bound : node < marks.size) (other : Nat) :
    (marks.setIfInBounds node mark)[other]? = if node = other then some mark else marks[other]? := by
  rw [Array.getElem?_setIfInBounds, if_pos bound]

theorem Walked.enter (walked : Walked children marks order) (unseen : marks[node]? = some .unseen) :
    Walked children (marks.setIfInBounds node .entered) order := by
  have bound := (Array.getElem?_eq_some_iff.mp unseen).1
  refine ⟨Array.size_setIfInBounds.trans walked.size, fun other => ?_, walked.forward⟩
  rw [getElem?_mark _ bound, ← walked.left_iff]
  by_cases same : node = other
  · subst same
    rw [if_pos rfl, unseen]
    exact ⟨fun entered => (by cases entered), fun left => (by cases left)⟩
  · rw [if_neg same]

theorem Walked.leave (walked : Walked children marks order)
    (entered : marks[node]? = some .entered)
    (later : ∀ child, Step children node child → child ∈ order) :
    Walked children (marks.setIfInBounds node .left) (node :: order) := by
  have bound := (Array.getElem?_eq_some_iff.mp entered).1
  have fresh : node ∉ order := by
    intro member
    cases entered.symm.trans ((walked.left_iff node).mpr member)
  refine ⟨Array.size_setIfInBounds.trans walked.size, fun other => ?_,
    .cons later fresh walked.forward⟩
  rw [getElem?_mark _ bound, List.mem_cons, ← walked.left_iff]
  by_cases same : node = other
  · rw [if_pos same]
    exact ⟨fun _ => .inl same.symm, fun _ => rfl⟩
  · rw [if_neg same]
    exact ⟨.inr, fun member => member.resolve_left fun equal => same equal.symm⟩

/-- What stands below a node that has been entered stands below everything the walk is among. -/
theorem Above.enter (above : Above rank marks node) (bound : node < marks.size) {child : Nat}
    (lower : rank child < rank node) : Above rank (marks.setIfInBounds node .entered) child := by
  intro other entered
  rw [getElem?_mark _ bound] at entered
  by_cases same : node = other
  · exact same ▸ lower
  · rw [if_neg same] at entered
    exact Nat.lt_trans lower (above other entered)

/-- When the walk has come back from the children that it had not met, it has left all children:
those that it is among are above. -/
theorem Returned.mem_of_step {after : Array Mark} {orderAfter : List Nat}
    (returned : Returned children
      (nodes.filter fun child => marks[child]?.getD .unseen == .unseen) marks after order orderAfter)
    (walked : Walked children marks order) (below : children[node]? = some nodes) {child : Nat}
    (step : Step children node child) (bound : child < children.size)
    (above : Above rank marks child) : child ∈ orderAfter := by
  have inMarks : child < marks.size := walked.size.symm ▸ bound
  have state := Array.getElem?_eq_getElem inMarks
  cases found : marks[child] with
  | entered =>
    rw [found] at state
    exact absurd (above child state) (Nat.lt_irrefl _)
  | left =>
    rw [found] at state
    exact returned.grows ((walked.left_iff child).mp state)
  | unseen =>
    obtain ⟨others, foundOthers, member⟩ := step
    obtain rfl : nodes = others := Option.some.inj (below.symm.trans foundOthers)
    refine returned.left (List.mem_filter.mpr ⟨member, ?_⟩)
    rw [state, found]
    rfl

/-- The walk comes back from a node that it has not met, if it does so from the children. -/
theorem returns_unseen (descending : Descending children rank)
    (below : children[node]? = some nodes) (unseen : marks[node]? = some .unseen)
    (walked : Walked children marks order) (above : Above rank marks node)
    (single : ∀ child, Step children node child → ∀ marks order, Walked children marks order →
      Above rank marks child → Returns children [child] marks order) :
    Returns children [node] marks order := by
  intro rest
  have inMarks := (Array.getElem?_eq_some_iff.mp unseen).1
  have mark := fun other => @getElem?_mark marks node .entered inMarks other
  have pushed := @leave?_unseen children marks node nodes rest order below unseen
  have entered := walked.enter unseen
  have aboveMarked := fun child (step : Step children node child) =>
    above.enter inMarks (descending.lower node child step)
  generalize marks.setIfInBounds node .entered = marked at *
  have stepOf : ∀ child ∈ nodes.filter (fun child => marked[child]?.getD .unseen == .unseen),
      Step children node child :=
    fun child member => ⟨nodes, below, (List.mem_filter.mp member).1⟩
  obtain ⟨between, orderBetween, runs, returned⟩ := returns_nodes
    (fun child member => single child (stepOf child member)) entered
    (fun child member => aboveMarked child (stepOf child member)) (node :: rest)
  have still : between[node]? = some .entered := by
    rw [returned.entered_iff, mark, if_pos rfl]
  have later : ∀ child, Step children node child → child ∈ orderBetween := fun child step =>
    returned.mem_of_step entered below step (descending.bound node child step)
      (aboveMarked child step)
  refine ⟨between.setIfInBounds node .left, node :: orderBetween,
    pushed.trans (runs.trans (leave?_entered still)), returned.walked.leave still later, ?_, ?_,
    ?_, ?_⟩
  · exact List.Subset.trans returned.grows (List.subset_cons_self _ _)
  · intro other
    rw [getElem?_mark _ (Array.getElem?_eq_some_iff.mp still).1]
    by_cases same : node = other
    · subst same
      rw [if_pos rfl, unseen]
      exact ⟨fun left => (by cases left), fun unseen => (by cases unseen)⟩
    · rw [if_neg same, returned.entered_iff, mark, if_neg same]
  · exact List.cons_subset.mpr ⟨List.mem_cons_self, List.nil_subset _⟩
  · intro other member
    rcases List.mem_cons.mp member with rfl | inBetween
    · exact .inr ⟨other, List.mem_cons_self, .refl⟩
    · rcases returned.reached other inBetween with before | ⟨child, inNodes, reaches⟩
      · exact .inl before
      · exact .inr ⟨node, List.mem_cons_self, .head (stepOf child inNodes) reaches⟩

/-- The walk comes back from every node, by induction on its rank. -/
theorem returns_node (descending : Descending children rank) (bound : node < children.size)
    (walked : Walked children marks order) (above : Above rank marks node) :
    Returns children [node] marks order := by
  induction level : rank node using Nat.strongRecOn generalizing node marks order with
  | ind level inductionHypothesis =>
    subst level
    have inMarks : node < marks.size := walked.size.symm ▸ bound
    have state := Array.getElem?_eq_getElem inMarks
    cases found : marks[node] with
    | entered =>
      rw [found] at state
      exact absurd (above node state) (Nat.lt_irrefl _)
    | left =>
      rw [found] at state
      refine fun rest => ⟨marks, order, leave?_left state, walked, List.Subset.refl _,
        fun _ => Iff.rfl, ?_, fun _ member => .inl member⟩
      exact List.cons_subset.mpr ⟨(walked.left_iff node).mp state, List.nil_subset _⟩
    | unseen =>
      rw [found] at state
      refine returns_unseen descending (Array.getElem?_eq_getElem bound) state walked above ?_
      intro child step marks order walked above
      exact inductionHypothesis _ (descending.lower node child step)
        (descending.bound node child step) walked above rfl

theorem Descending.lt_of_reaches {node other : Nat} (descending : Descending children rank)
    (bound : node < children.size) (reaches : ReflTransGen (Step children) node other) :
    other < children.size := by
  cases reaches with
  | refl => exact bound
  | tail _ step => exact descending.bound _ _ step

/-- The order of a walk from some nodes: they and everything that can be reached from them, each
before what can be reached from it. -/
theorem topological?_forward (descending : Descending children rank)
    (bound : ∀ node ∈ nodes, node < children.size) :
    ∃ order, topological? children nodes = some order ∧ Forward children order ∧ nodes ⊆ order ∧
      ∀ other ∈ order, ∃ node ∈ nodes, ReflTransGen (Step children) node other := by
  have walked : Walked children (Array.replicate children.size .unseen) [] := by
    refine ⟨Array.size_replicate, fun node => ⟨fun left => ?_, fun member => (by cases member)⟩,
      .nil⟩
    rw [Array.getElem?_replicate] at left
    split at left <;> cases left
  have above : ∀ node ∈ nodes, Above rank (Array.replicate children.size .unseen) node := by
    intro node _ other entered
    rw [Array.getElem?_replicate] at entered
    split at entered <;> cases entered
  obtain ⟨after, order, runs, returned⟩ := returns_nodes
    (fun node member _ _ walked above => returns_node descending (bound node member) walked above)
    walked above []
  refine ⟨order, ?_, returned.walked.forward, returned.left, fun other member => ?_⟩
  · rw [topological?, ← List.append_nil nodes, runs, leave?]
  · exact (returned.reached other member).resolve_left List.not_mem_nil

/-! ### Places -/

theorem Forward.exists_later (forward : Forward children order) {place : Nat}
    (here : order[place]? = some node) {child : Nat} (step : Step children node child) :
    ∃ later, order[later]? = some child ∧ place < later := by
  induction forward generalizing place with
  | nil => cases here
  | cons later _ _ inductionHypothesis =>
    cases place with
    | zero =>
      obtain rfl := Option.some.inj here
      obtain ⟨index, bound, found⟩ := List.mem_iff_getElem.mp (later child step)
      exact ⟨index + 1, found ▸ List.getElem?_eq_getElem bound, Nat.succ_pos _⟩
    | succ place =>
      obtain ⟨index, found, less⟩ := inductionHypothesis here
      exact ⟨index + 1, found, Nat.succ_lt_succ less⟩

theorem foldl_places_of_notMem {other : Nat} (outside : other ∉ order) (start : Nat)
    (places : Array Nat) :
    ((order.zipIdx start).foldl (fun places (node, place) => places.setIfInBounds node place)
      places)[other]? = places[other]? := by
  induction order generalizing start places with
  | nil => rfl
  | cons node rest inductionHypothesis =>
    rw [List.mem_cons, not_or] at outside
    rw [List.zipIdx_cons, List.foldl_cons, inductionHypothesis outside.2,
      Array.getElem?_setIfInBounds_ne (Ne.symm outside.1)]

theorem foldl_places (distinct : order.Nodup) (start : Nat) (places : Array Nat) {place : Nat}
    (here : order[place]? = some node) (bound : node < places.size) :
    ((order.zipIdx start).foldl (fun places (node, place) => places.setIfInBounds node place)
      places)[node]? = some (start + place) := by
  induction order generalizing start place places with
  | nil => cases here
  | cons first rest inductionHypothesis =>
    rw [List.nodup_cons] at distinct
    rw [List.zipIdx_cons, List.foldl_cons]
    cases place with
    | zero =>
      obtain rfl : first = node := Option.some.inj here
      rw [foldl_places_of_notMem distinct.1, Array.getElem?_setIfInBounds_self_of_lt bound]
      rfl
    | succ place =>
      rw [inductionHypothesis distinct.2 (start + 1) _ here
        (Array.size_setIfInBounds.symm ▸ bound), Nat.add_right_comm, Nat.add_assoc]

/-- The places of an order grow along every step. -/
theorem Forward.places_lt (forward : Forward children order) {size : Nat}
    (bound : ∀ node ∈ order, node < size) (member : node ∈ order) {child : Nat}
    (step : Step children node child) :
    (places size order)[node]?.getD 0 < (places size order)[child]?.getD 0 := by
  obtain ⟨place, here⟩ := List.mem_iff_getElem?.mp member
  obtain ⟨later, there, less⟩ := forward.exists_later here step
  have inSize : ∀ other ∈ order, other < (Array.replicate size 0).size :=
    fun other inOrder => Array.size_replicate.symm ▸ bound other inOrder
  have inOrder := forward.mem_of_step member step
  rw [places, foldl_places forward.nodup 0 _ here (inSize node member),
    foldl_places forward.nodup 0 _ there (inSize child inOrder), Nat.zero_add, Nat.zero_add]
  exact less

end ExprDiagram
