/-
This file shows that the walk which hangs children below nodes makes a tree. When the walk comes
back to a frame, the children that it hung from the frame's node are the tops of trees that the
lists hold, whose rows stand at consecutive depths below the node, and every child that stands one
row below its node has been adopted by somebody. Below each node hang some of its children, in the
order in which they first stand in its list, and a child hangs below the first node that could have
adopted it.
-/

import ExprDiagram.Diagram.Spanning
import ExprDiagram.Proofs.Diagram.Precedence

namespace ExprDiagram

open Relation RoseTree

variable {children : Array (List Nat)} {depth : Array Nat} {outer : List Frame}
variable {node child : Nat} {pending more grandchildren : List Nat}
variable {adopted between after : Array Bool} {below belowBetween belowAfter : Array (List Nat)}

/-! ### Steps of the walk -/

theorem adopt?_nil :
    adopt? (· + 1) children depth ((node, []) :: outer) adopted below =
      adopt? (· + 1) children depth outer adopted below := by
  rw [adopt?]

theorem adopt?_elsewhere (childBound : child < depth.size) (nodeBound : node < depth.size)
    (elsewhere : level depth child ≠ level depth node + 1) :
    adopt? (· + 1) children depth ((node, child :: more) :: outer) adopted below =
      adopt? (· + 1) children depth ((node, more) :: outer) adopted below := by
  rw [adopt?, getElem?_depth childBound, getElem?_depth nodeBound]
  exact if_neg elsewhere

theorem adopt?_taken (childBound : child < depth.size) (nodeBound : node < depth.size)
    (directly : level depth child = level depth node + 1) (taken : adopted[child]? = some true) :
    adopt? (· + 1) children depth ((node, child :: more) :: outer) adopted below =
      adopt? (· + 1) children depth ((node, more) :: outer) adopted below := by
  obtain ⟨bound, here⟩ := Array.getElem?_eq_some_iff.mp taken
  rw [adopt?, getElem?_depth childBound, getElem?_depth nodeBound]
  simp only
  rw [if_pos directly, dif_pos bound]
  split
  · rfl
  · rename_i other
    cases here.symm.trans other

theorem adopt?_free (childBound : child < depth.size) (nodeBound : node < depth.size)
    (directly : level depth child = level depth node + 1) (free : adopted[child]? = some false)
    (found : children[child]? = some grandchildren) :
    adopt? (· + 1) children depth ((node, child :: more) :: outer) adopted below =
      adopt? (· + 1) children depth ((child, grandchildren) :: (node, more) :: outer)
        (adopted.setIfInBounds child true) (below.modify node (· ++ [child])) := by
  obtain ⟨bound, here⟩ := Array.getElem?_eq_some_iff.mp free
  rw [adopt?, getElem?_depth childBound, getElem?_depth nodeBound, Array.setIfInBounds,
    dif_pos bound]
  simp only
  rw [if_pos directly, dif_pos bound]
  split
  · rename_i other
    cases here.symm.trans other
  · simp only [found]

/-! ### Coming back -/

/-- What the walk keeps: which nodes have been adopted, and the nodes that hang below each. -/
structure Hanging where
  adopted : Array Bool
  below : Array (List Nat)

variable {first second third : Hanging} {trees others : List (RoseTree Nat)}

/-- The lists have a place for each node, and nothing hangs below deeper nodes that have not been
adopted. -/
structure Hanging.Free (children : Array (List Nat)) (depth : Array Nat) (node : Nat)
    (state : Hanging) : Prop where
  adopted_size : state.adopted.size = children.size
  below_size : state.below.size = children.size
  empty : ∀ id : Nat, state.adopted[id]? = some false → level depth node < level depth id →
    state.below[id]? = some []

/-- The walk has come back from the children of a node that were left: it has hung trees below the
node, and changed nothing else. -/
structure Hung (children : Array (List Nat)) (depth : Array Nat) (node : Nat) (pending : List Nat)
    (before after : Hanging) (trees : List (RoseTree Nat)) : Prop where
  here : after.below[node]? = before.below[node]?.map (· ++ trees.map value)
  outside : ∀ id : Nat, id ∉ valuesAll trees → id ≠ node → after.below[id]? = before.below[id]?
  grove : Grove after.below trees
  free : ∀ id ∈ valuesAll trees, before.adopted[id]? = some false
  adopted_iff : ∀ id : Nat, after.adopted[id]? = some true ↔
    before.adopted[id]? = some true ∨ id ∈ valuesAll trees
  adopted_size : after.adopted.size = before.adopted.size
  below_size : after.below.size = before.below.size
  fewer : after.adopted.count false ≤ before.adopted.count false
  rows : ∀ row, ∀ id ∈ rowAll row trees, level depth id = level depth node + 1 + row
  taken : ∀ child ∈ pending, level depth child = level depth node + 1 →
    after.adopted[child]? = some true
  closed : ∀ id ∈ valuesAll trees, ∀ child, Step children id child →
    level depth child = level depth id + 1 → after.adopted[child]? = some true
  reached : ∀ id ∈ valuesAll trees, ∃ start ∈ pending, ReflTransGen (Step children) start id
  chosen : Chosen (trees.map value) pending
  chosen_below : ∀ id ∈ valuesAll trees, ∀ nodes, children[id]? = some nodes →
    ∃ lower, after.below[id]? = some lower ∧ Chosen lower nodes
  first_come : FirstCome children depth after.below
    (fun child => before.adopted[child]? = some true) (valuesAll trees)

theorem map_value_subset (trees : List (RoseTree Nat)) : trees.map value ⊆ valuesAll trees := by
  rw [← rowAll_zero]
  exact rowAll_subset_valuesAll 0 trees

theorem Hung.level_top (hung : Hung children depth node pending first second trees) {id : Nat}
    (member : id ∈ trees.map value) : level depth id = level depth node + 1 := by
  rw [← rowAll_zero] at member
  exact hung.rows 0 id member

theorem Hung.deeper (hung : Hung children depth node pending first second trees) {id : Nat}
    (member : id ∈ valuesAll trees) : level depth node < level depth id := by
  obtain ⟨row, inRow⟩ := exists_rowAll member
  have deeper := hung.rows row id inRow
  omega

theorem Hung.nil (children : Array (List Nat)) (depth : Array Nat) (node : Nat) (state : Hanging) :
    Hung children depth node [] state state [] where
  here := by simp only [List.map_nil, List.append_nil, Option.map_id']
  outside _ _ _ := rfl
  grove := ⟨fun _ member => (by cases member), List.nodup_nil⟩
  free _ member := (by cases member)
  adopted_iff _ := ⟨.inl, fun either => either.resolve_right List.not_mem_nil⟩
  adopted_size := rfl
  below_size := rfl
  fewer := Nat.le_refl _
  rows _ _ member := (by cases member)
  taken _ member := (by cases member)
  closed _ member := (by cases member)
  reached _ member := (by cases member)
  chosen := .nil []
  chosen_below _ member := (by cases member)
  first_come := trivial

/-- A child that stands elsewhere, or has been adopted, changes nothing. -/
theorem Hung.skip (hung : Hung children depth node more first second trees)
    (outside : child ∉ trees.map value)
    (taken : level depth child = level depth node + 1 → second.adopted[child]? = some true) :
    Hung children depth node (child :: more) first second trees := by
  refine { hung with taken := fun other member => ?_, reached := fun id member => ?_,
                     chosen := hung.chosen.skip outside }
  · rcases List.mem_cons.mp member with rfl | inMore
    · exact taken
    · exact hung.taken other inMore
  · obtain ⟨start, inMore, reaches⟩ := hung.reached id member
    exact ⟨start, List.mem_cons_of_mem _ inMore, reaches⟩

/-! ### The tree below a node -/

theorem Hung.below_top (hung : Hung children depth node pending first second trees)
    (empty : first.below[node]? = some []) : second.below[node]? = some (trees.map value) := by
  rw [hung.here, empty]
  rfl

theorem Hung.top_outside (hung : Hung children depth node pending first second trees) :
    node ∉ valuesAll trees :=
  fun member => absurd (hung.deeper member) (Nat.lt_irrefl _)

theorem Hung.top_listed (hung : Hung children depth node pending first second trees)
    (empty : first.below[node]? = some []) : (RoseTree.node node trees).ListedIn second.below :=
  .node (hung.below_top empty) hung.grove.listed

theorem Hung.top_distinct (hung : Hung children depth node pending first second trees) :
    (RoseTree.node node trees).values.Nodup :=
  List.nodup_cons.mpr ⟨hung.top_outside, hung.grove.distinct⟩

theorem Hung.top_rows (hung : Hung children depth node pending first second trees) (row : Nat) :
    ∀ id ∈ (RoseTree.node node trees).row row, level depth id = level depth node + row := by
  intro id member
  cases row with
  | zero =>
    rw [row_zero, List.mem_singleton] at member
    rw [member]
    rfl
  | succ row =>
    rw [row_succ] at member
    have deeper := hung.rows row id member
    omega

theorem Hung.top_chosen (hung : Hung children depth node pending first second trees)
    (found : children[node]? = some pending) (empty : first.below[node]? = some []) :
    ∀ id ∈ (RoseTree.node node trees).values, ∀ nodes, children[id]? = some nodes →
      ∃ lower, second.below[id]? = some lower ∧ Chosen lower nodes := by
  intro id member nodes here
  rcases List.mem_cons.mp member with rfl | inTrees
  · obtain rfl : pending = nodes := Option.some.inj (found.symm.trans here)
    exact ⟨trees.map value, hung.below_top empty, hung.chosen⟩
  · exact hung.chosen_below id inTrees nodes here

theorem Hung.top_closed (hung : Hung children depth node pending first second trees)
    (found : children[node]? = some pending) :
    ∀ id ∈ (RoseTree.node node trees).values, ∀ other, Step children id other →
      level depth other = level depth id + 1 → second.adopted[other]? = some true := by
  intro id member other step direct
  rcases List.mem_cons.mp member with rfl | inTrees
  · obtain ⟨nodes, here, inNodes⟩ := step
    obtain rfl : pending = nodes := Option.some.inj (found.symm.trans here)
    exact hung.taken other inNodes direct
  · exact hung.closed id inTrees other step direct

/-- A child one row below the node either was adopted before or hangs below the node: what the trees
have adopted one row below the node are their tops. -/
theorem Hung.top_first_come (hung : Hung children depth node pending first second trees)
    (found : children[node]? = some pending) (empty : first.below[node]? = some []) :
    FirstCome children depth second.below (fun child => first.adopted[child]? = some true)
      (RoseTree.node node trees).values := by
  refine ⟨fun child ⟨step, directly⟩ => ?_, hung.first_come.imp (fun _ _ => rfl) fun _ _ _ _ => .inl⟩
  have taken := hung.top_closed found node List.mem_cons_self child step directly
  refine ((hung.adopted_iff child).mp taken).imp_right fun inTrees => ?_
  obtain ⟨row, inRow⟩ := exists_rowAll inTrees
  have placed := hung.rows row child inRow
  obtain rfl : row = 0 := by omega
  rw [list, hung.below_top empty, Option.getD_some, ← rowAll_zero]
  exact inRow

/-! ### Hanging a child -/

/-- The state in which a child has been hung below a node. -/
def Hanging.hang (state : Hanging) (node child : Nat) : Hanging :=
  ⟨state.adopted.setIfInBounds child true, state.below.modify node (· ++ [child])⟩

theorem adopted_hang (state : Hanging) (node : Nat) {child : Nat}
    (bound : child < state.adopted.size) (id : Nat) :
    (state.hang node child).adopted[id]? =
      if child = id then some true else state.adopted[id]? := by
  rw [Hanging.hang, Array.getElem?_setIfInBounds, if_pos bound]

theorem below_hang (state : Hanging) (node child id : Nat) :
    (state.hang node child).below[id]? =
      if node = id then state.below[id]?.map (· ++ [child]) else state.below[id]? := by
  rw [Hanging.hang, Array.getElem?_modify]

theorem count_hang_lt (unadopted : first.adopted[child]? = some false) :
    (first.hang node child).adopted.count false < first.adopted.count false := by
  obtain ⟨bound, here⟩ := Array.getElem?_eq_some_iff.mp unadopted
  rw [Hanging.hang, Array.setIfInBounds, dif_pos bound]
  exact count_adopt_lt bound here

theorem free_of_hang {id : Nat} (bound : child < first.adopted.size)
    (free : (first.hang node child).adopted[id]? = some false) :
    child ≠ id ∧ first.adopted[id]? = some false := by
  rw [adopted_hang first node bound] at free
  by_cases same : child = id
  · rw [if_pos same] at free
    cases free
  · rw [if_neg same] at free
    exact ⟨same, free⟩

theorem Hung.free_before {id : Nat} (hung : Hung children depth node pending first second trees)
    (free : second.adopted[id]? = some false) :
    first.adopted[id]? = some false ∧ id ∉ valuesAll trees := by
  have untaken : ¬ second.adopted[id]? = some true := fun taken => by
    cases free.symm.trans taken
  rw [hung.adopted_iff, not_or] at untaken
  have bound := (Array.getElem?_eq_some_iff.mp free).1
  rw [hung.adopted_size] at bound
  have here := Array.getElem?_eq_getElem bound
  cases state : first.adopted[id] with
  | true => exact absurd (here.trans (congrArg some state)) untaken.1
  | false => exact ⟨here.trans (congrArg some state), untaken.2⟩

theorem Hanging.Free.hang (free : first.Free children depth node)
    (directly : level depth child = level depth node + 1) (bound : child < children.size) :
    (first.hang node child).Free children depth child := by
  refine ⟨Array.size_setIfInBounds.trans free.adopted_size,
    Array.size_modify.trans free.below_size, fun id unadopted deeper => ?_⟩
  obtain ⟨_, before⟩ := free_of_hang (free.adopted_size.symm ▸ bound) unadopted
  have above : node ≠ id := by
    rintro rfl
    omega
  rw [below_hang, if_neg above]
  exact free.empty id before (by omega)

theorem ne_of_directly (directly : level depth child = level depth node + 1) : child ≠ node := by
  rintro rfl
  omega

theorem Hung.below_node
    (hung : Hung children depth child grandchildren (first.hang node child) second trees)
    (directly : level depth child = level depth node + 1) :
    second.below[node]? = first.below[node]?.map (· ++ [child]) := by
  have outside : node ∉ valuesAll trees := fun member => by
    have deeper := hung.deeper member
    omega
  rw [hung.outside node outside (ne_of_directly directly).symm, below_hang, if_pos rfl]

theorem Hung.below_other
    (hung : Hung children depth child grandchildren (first.hang node child) second trees) {id : Nat}
    (outside : id ∉ valuesAll trees) (different : id ≠ child) (other : id ≠ node) :
    second.below[id]? = first.below[id]? := by
  rw [hung.outside id outside different, below_hang, if_neg (Ne.symm other)]

/-- A tree that was hung below a node leaves everything free that the walk goes on with. -/
theorem Hung.free_after
    (hung : Hung children depth child grandchildren (first.hang node child) second trees)
    (free : first.Free children depth node) (bound : child < children.size)
    (directly : level depth child = level depth node + 1) :
    second.Free children depth node := by
  have freeHung := free.hang directly bound
  refine ⟨hung.adopted_size.trans freeHung.adopted_size,
    hung.below_size.trans freeHung.below_size, fun id unadopted deeper => ?_⟩
  obtain ⟨between, outside⟩ := hung.free_before unadopted
  obtain ⟨different, before⟩ := free_of_hang (free.adopted_size.symm ▸ bound) between
  have above : id ≠ node := by
    rintro rfl
    exact absurd deeper (Nat.lt_irrefl _)
  rw [hung.below_other outside (Ne.symm different) above]
  exact free.empty id before deeper

/-! ### A child and the children after it -/

theorem mem_valuesAll_node {value id : Nat} :
    id ∈ valuesAll (.node value trees :: others) ↔
      id = value ∨ id ∈ valuesAll trees ∨ id ∈ valuesAll others := by
  show id ∈ value :: (valuesAll trees ++ valuesAll others) ↔ _
  rw [List.mem_cons, List.mem_append]

theorem Hung.child_taken (bound : child < first.adopted.size)
    (inner : Hung children depth child grandchildren (first.hang node child) second trees) :
    second.adopted[child]? = some true :=
  (inner.adopted_iff child).mpr (.inl ((adopted_hang first node bound child).trans (if_pos rfl)))

theorem Hung.not_mem_of_taken (rest : Hung children depth node more second third others) {id : Nat}
    (taken : second.adopted[id]? = some true) : id ∉ valuesAll others := fun member => by
  cases taken.symm.trans (rest.free id member)

/-- The trees that are hung later leave the lists of the earlier ones alone. -/
theorem Hung.kept
    (inner : Hung children depth child grandchildren (first.hang node child) second trees)
    (rest : Hung children depth node more second third others)
    (bound : child < first.adopted.size) (directly : level depth child = level depth node + 1) :
    ∀ id ∈ (RoseTree.node child trees).values, third.below[id]? = second.below[id]? := by
  intro id member
  rcases List.mem_cons.mp member with rfl | inTrees
  · exact rest.outside id (rest.not_mem_of_taken (inner.child_taken bound)) (ne_of_directly directly)
  · refine rest.outside id (rest.not_mem_of_taken ((inner.adopted_iff id).mpr (.inr inTrees))) ?_
    rintro rfl
    have deeper := inner.deeper inTrees
    omega

theorem empty_hang (empty : first.below[child]? = some [])
    (directly : level depth child = level depth node + 1) :
    (first.hang node child).below[child]? = some [] := by
  rw [below_hang, if_neg (ne_of_directly directly).symm, empty]

theorem Hung.tree_listed
    (inner : Hung children depth child grandchildren (first.hang node child) second trees)
    (rest : Hung children depth node more second third others)
    (bound : child < first.adopted.size) (empty : first.below[child]? = some [])
    (directly : level depth child = level depth node + 1) :
    (RoseTree.node child trees).ListedIn third.below :=
  (inner.top_listed (empty_hang empty directly)).congr fun id member =>
    (inner.kept rest bound directly id member).symm

/-- The trees that were hung later are other trees. -/
theorem Hung.grove_hang
    (inner : Hung children depth child grandchildren (first.hang node child) second trees)
    (rest : Hung children depth node more second third others)
    (bound : child < first.adopted.size) (empty : first.below[child]? = some [])
    (directly : level depth child = level depth node + 1) :
    Grove third.below (.node child trees :: others) := by
  refine ⟨List.forall_mem_cons.mpr
    ⟨inner.tree_listed rest bound empty directly, rest.grove.listed⟩, ?_⟩
  refine List.nodup_append.mpr ⟨inner.top_distinct, rest.grove.distinct, ?_⟩
  rintro id inTree _ inOthers rfl
  refine rest.not_mem_of_taken ?_ inOthers
  rcases List.mem_cons.mp inTree with rfl | inTrees
  · exact inner.child_taken bound
  · exact (inner.adopted_iff id).mpr (.inr inTrees)

theorem Hung.adopted_iff_hang
    (inner : Hung children depth child grandchildren (first.hang node child) second trees)
    (rest : Hung children depth node more second third others)
    (bound : child < first.adopted.size) (id : Nat) :
    third.adopted[id]? = some true ↔
      first.adopted[id]? = some true ∨ id ∈ valuesAll (.node child trees :: others) := by
  rw [rest.adopted_iff, inner.adopted_iff, adopted_hang first node bound, mem_valuesAll_node]
  by_cases same : child = id
  · rw [if_pos same]
    exact ⟨fun _ => .inr (.inl same.symm), fun _ => .inl (.inl rfl)⟩
  · rw [if_neg same]
    have other : ¬ id = child := fun equal => same equal.symm
    tauto

/-- The tree of the child has its top where the other trees have theirs. -/
theorem Hung.rows_hang
    (inner : Hung children depth child grandchildren (first.hang node child) second trees)
    (rest : Hung children depth node more second third others)
    (directly : level depth child = level depth node + 1) (row : Nat) :
    ∀ id ∈ rowAll row (.node child trees :: others), level depth id = level depth node + 1 + row := by
  intro id member
  rw [rowAll_cons, List.mem_append] at member
  rcases member with inTree | inOthers
  · rw [inner.top_rows row id inTree, directly]
  · exact rest.rows row id inOthers

/-- Every child that stands one row below a node of the trees has been adopted. -/
theorem Hung.closed_hang
    (inner : Hung children depth child grandchildren (first.hang node child) second trees)
    (rest : Hung children depth node more second third others)
    (found : children[child]? = some grandchildren) :
    ∀ id ∈ valuesAll (.node child trees :: others), ∀ other, Step children id other →
      level depth other = level depth id + 1 → third.adopted[other]? = some true := by
  intro id member other step direct
  rcases List.mem_append.mp member with inTree | inOthers
  · exact (rest.adopted_iff other).mpr (.inl (inner.top_closed found id inTree other step direct))
  · exact rest.closed id inOthers other step direct

theorem Hung.reached_hang
    (inner : Hung children depth child grandchildren (first.hang node child) second trees)
    (rest : Hung children depth node more second third others)
    (found : children[child]? = some grandchildren) :
    ∀ id ∈ valuesAll (.node child trees :: others),
      ∃ start ∈ child :: more, ReflTransGen (Step children) start id := by
  intro id member
  rcases mem_valuesAll_node.mp member with rfl | inTrees | inOthers
  · exact ⟨id, List.mem_cons_self, .refl⟩
  · obtain ⟨start, inNodes, reaches⟩ := inner.reached id inTrees
    exact ⟨child, List.mem_cons_self, .head ⟨grandchildren, found, inNodes⟩ reaches⟩
  · obtain ⟨start, inMore, reaches⟩ := rest.reached id inOthers
    exact ⟨start, List.mem_cons_of_mem _ inMore, reaches⟩

/-- Below the child hang those of its own children that were chosen, and later nothing else. -/
theorem Hung.chosen_below_hang
    (inner : Hung children depth child grandchildren (first.hang node child) second trees)
    (rest : Hung children depth node more second third others)
    (bound : child < first.adopted.size) (found : children[child]? = some grandchildren)
    (empty : first.below[child]? = some []) (directly : level depth child = level depth node + 1) :
    ∀ id ∈ valuesAll (.node child trees :: others), ∀ nodes, children[id]? = some nodes →
      ∃ lower, third.below[id]? = some lower ∧ Chosen lower nodes := by
  intro id member nodes here
  rcases List.mem_append.mp member with inTree | inOthers
  · rw [inner.kept rest bound directly id inTree]
    exact inner.top_chosen found (empty_hang empty directly) id inTree nodes here
  · exact rest.chosen_below id inOthers nodes here

/-- The trees that are hung later come after the tree of the child: what this has adopted hangs below
one of its nodes, and the child itself stands too high to matter. -/
theorem Hung.first_come_hang
    (inner : Hung children depth child grandchildren (first.hang node child) second trees)
    (rest : Hung children depth node more second third others)
    (bound : child < first.adopted.size) (found : children[child]? = some grandchildren)
    (empty : first.below[child]? = some []) (directly : level depth child = level depth node + 1) :
    FirstCome children depth third.below (fun child => first.adopted[child]? = some true)
      (valuesAll (.node child trees :: others)) := by
  have before : ∀ {upper other}, level depth node < level depth upper →
      Tight children depth upper other →
      (first.hang node child).adopted[other]? = some true → first.adopted[other]? = some true := by
    intro upper other deeper tight taken
    have different : child ≠ other := by
      rintro rfl
      have lower := tight.2
      omega
    rwa [adopted_hang first node bound, if_neg different] at taken
  refine FirstCome.append
    ((inner.top_first_come found (empty_hang empty directly)).imp (inner.kept rest bound directly)
      fun upper member other => before ?_)
    (rest.first_come.imp (fun _ _ => rfl) fun upper member other tight taken => ?_)
  · rcases List.mem_cons.mp member with rfl | inTrees
    · omega
    · have deeper := inner.deeper inTrees
      omega
  · refine ((inner.adopted_iff other).mp taken).imp (before (rest.deeper member) tight)
      fun inTrees => ?_
    have perm := (inner.tree_listed rest bound empty directly).lists_perm
    exact List.mem_flatMap.mp (perm.mem_iff.mpr inTrees)

/-- A child with the trees below it, and the trees that are hung after it. -/
theorem Hung.hang
    (inner : Hung children depth child grandchildren (first.hang node child) second trees)
    (rest : Hung children depth node more second third others)
    (free : first.Free children depth node) (found : children[child]? = some grandchildren)
    (directly : level depth child = level depth node + 1)
    (unadopted : first.adopted[child]? = some false) :
    Hung children depth node (child :: more) first third (.node child trees :: others) := by
  have bound : child < first.adopted.size := (Array.getElem?_eq_some_iff.mp unadopted).1
  have empty := free.empty child unadopted (directly ▸ Nat.lt_succ_self _)
  refine ⟨?_, ?_, inner.grove_hang rest bound empty directly, ?_,
    inner.adopted_iff_hang rest bound, ?_, ?_, ?_, inner.rows_hang rest directly, ?_,
    inner.closed_hang rest found, inner.reached_hang rest found, rest.chosen.cons ?_,
    inner.chosen_below_hang rest bound found empty directly,
    inner.first_come_hang rest bound found empty directly⟩
  · rw [rest.here, inner.below_node directly, Option.map_map]
    congr 1
    funext before
    exact List.append_assoc before [child] (others.map value)
  · intro id outside other
    rw [mem_valuesAll_node, not_or, not_or] at outside
    rw [rest.outside id outside.2.2 other, inner.below_other outside.2.1 outside.1 other]
  · intro id member
    rcases mem_valuesAll_node.mp member with rfl | inTrees | inOthers
    · exact unadopted
    · exact (free_of_hang bound (inner.free id inTrees)).2
    · exact (free_of_hang bound (inner.free_before (rest.free id inOthers)).1).2
  · rw [rest.adopted_size, inner.adopted_size]
    exact Array.size_setIfInBounds
  · rw [rest.below_size, inner.below_size]
    exact Array.size_modify
  · exact Nat.le_trans rest.fewer
      (Nat.le_trans inner.fewer (Nat.le_of_lt (count_hang_lt unadopted)))
  · intro other member direct
    rcases List.mem_cons.mp member with rfl | inMore
    · exact (rest.adopted_iff other).mpr (.inl (inner.child_taken bound))
    · exact rest.taken other inMore direct
  · exact fun member =>
      rest.not_mem_of_taken (inner.child_taken bound) (map_value_subset others member)

/-! ### The tree -/

/-- The walk comes back from every frame. The outer induction is on the number of nodes that can
still be adopted, which goes down with every frame that is opened; the inner one is on the children
of the frame that are left. -/
theorem adopt?_hung (sizes : depth.size = children.size)
    (inLists : ∀ node child, Step children node child → child < children.size) (limit : Nat)
    (outer : List Frame) (enough : first.adopted.count false ≤ limit) (nodeBound : node < children.size)
    (bound : ∀ child ∈ pending, child < children.size) (free : first.Free children depth node) :
    ∃ (second : Hanging) (trees : List (RoseTree Nat)),
      adopt? (· + 1) children depth ((node, pending) :: outer) first.adopted first.below =
        adopt? (· + 1) children depth outer second.adopted second.below ∧
      Hung children depth node pending first second trees := by
  induction limit using Nat.strongRecOn generalizing node pending outer first with
  | ind limit inductionHypothesis =>
    induction pending generalizing first with
    | nil => exact ⟨first, [], adopt?_nil, .nil children depth node first⟩
    | cons child more inductionHypothesisMore =>
      have childBound := bound child List.mem_cons_self
      have childDepth : child < depth.size := sizes.symm ▸ childBound
      have nodeDepth : node < depth.size := sizes.symm ▸ nodeBound
      have boundMore : ∀ other ∈ more, other < children.size :=
        fun other member => bound other (List.mem_cons_of_mem _ member)
      by_cases directly : level depth child = level depth node + 1
      · have inAdopted : child < first.adopted.size := free.adopted_size.symm ▸ childBound
        have here := Array.getElem?_eq_getElem inAdopted
        cases state : first.adopted[child] with
        | true =>
          rw [state] at here
          obtain ⟨second, trees, runs, hung⟩ := inductionHypothesisMore enough boundMore free
          refine ⟨second, trees, (adopt?_taken childDepth nodeDepth directly here).trans runs,
            hung.skip (fun member => ?_) fun _ => (hung.adopted_iff child).mpr (.inl here)⟩
          cases here.symm.trans (hung.free child (map_value_subset trees member))
        | false =>
          rw [state] at here
          have found := Array.getElem?_eq_getElem childBound
          have fewer : (first.hang node child).adopted.count false < first.adopted.count false :=
            count_hang_lt here
          obtain ⟨second, trees, runs, inner⟩ := inductionHypothesis _
            (Nat.lt_of_lt_of_le fewer enough) ((node, more) :: outer)
            (Nat.le_refl _) childBound
            (fun other member => inLists child other ⟨_, found, member⟩)
            (free.hang directly childBound)
          obtain ⟨third, others, runsMore, rest⟩ := inductionHypothesisMore
            (inner.fewer.trans (fewer.le.trans enough)) boundMore
            (inner.free_after free childBound directly)
          exact ⟨third, .node child trees :: others,
            (adopt?_free childDepth nodeDepth directly here found).trans (runs.trans runsMore),
            inner.hang rest free found directly here⟩
      · obtain ⟨second, trees, runs, hung⟩ := inductionHypothesisMore enough boundMore free
        exact ⟨second, trees, (adopt?_elsewhere childDepth nodeDepth directly).trans runs,
          hung.skip (fun member => directly (hung.level_top member))
            fun direct => absurd direct directly⟩

/-- A tree of the nodes that can be reached from a root: every node hangs directly below one from
which a step leads to it. -/
structure Spanning (children : Array (List Nat)) (root : Nat) (depth : Array Nat)
    (below : Array (List Nat)) (tree : RoseTree Nat) : Prop where
  top : tree.value = root
  listed : tree.ListedIn below
  distinct : tree.values.Nodup
  size : below.size = children.size
  rows : ∀ row, ∀ id ∈ tree.row row, level depth id = row
  mem_iff : ∀ id, id ∈ tree.values ↔ ReflTransGen (Step children) root id
  chosen : ∀ id ∈ tree.values, ∀ nodes, children[id]? = some nodes →
    ∃ lower, below[id]? = some lower ∧ Chosen lower nodes

/-- Nothing has been adopted. -/
def Hanging.initial (size : Nat) : Hanging := ⟨Array.replicate size false, Array.replicate size []⟩

theorem Hanging.initial_free (children : Array (List Nat)) (depth : Array Nat) (node : Nat) :
    (Hanging.initial children.size).Free children depth node := by
  refine ⟨Array.size_replicate, Array.size_replicate, fun id unadopted _ => ?_⟩
  have inSize := (Array.getElem?_eq_some_iff.mp unadopted).1
  rw [Hanging.initial, Array.size_replicate] at inSize
  rw [Hanging.initial, Array.getElem?_replicate, if_pos inSize]

theorem Hung.adopted_iff_mem {size : Nat}
    (hung : Hung children depth node pending (.initial size) second trees) (id : Nat) :
    second.adopted[id]? = some true ↔ id ∈ valuesAll trees := by
  rw [hung.adopted_iff]
  refine ⟨fun either => either.resolve_left fun taken => ?_, .inr⟩
  rw [Hanging.initial, Array.getElem?_replicate] at taken
  split at taken <;> cases taken

/-- Every node that can be reached hangs in the trees below the root, by induction on its depth: it
stands directly below a node of the row above it, whose children have all been adopted. -/
theorem Hung.mem_of_reaches {size root : Nat} {nodes : List Nat} (deep : Deep children root depth)
    (found : children[root]? = some nodes)
    (hung : Hung children depth root nodes (.initial size) second trees) {id : Nat}
    (reaches : ReflTransGen (Step children) root id) : id ∈ (RoseTree.node root trees).values := by
  induction row : level depth id using Nat.strongRecOn generalizing id with
  | ind row inductionHypothesis =>
    by_cases atRoot : id = root
    · exact atRoot ▸ List.mem_cons_self
    · obtain ⟨parent, reachesParent, step, directly⟩ := deep.tight id reaches atRoot
      have parentInTree := inductionHypothesis (level depth parent)
        (row ▸ directly ▸ Nat.lt_succ_self _) reachesParent rfl
      exact List.mem_cons_of_mem _ ((hung.adopted_iff_mem id).mp
        (hung.top_closed found parent parentInTree id step directly))

/-- The walk from a root comes back with trees below it. -/
theorem selectBelowBy?_hung {root : Nat} (sizes : depth.size = children.size)
    (inLists : ∀ node child, Step children node child → child < children.size)
    (bound : root < children.size) : ∃ nodes after trees, children[root]? = some nodes ∧
      selectBelowBy? (· + 1) root children depth = some after.below ∧
      Hung children depth root nodes (.initial children.size) after trees := by
  have found := Array.getElem?_eq_getElem bound
  generalize children[root] = nodes at found
  obtain ⟨after, trees, runs, hung⟩ := adopt?_hung sizes inLists _ [] (Nat.le_refl _) bound
    (fun child member => inLists root child ⟨nodes, found, member⟩)
    (Hanging.initial_free children depth root)
  refine ⟨nodes, after, trees, found, ?_, hung⟩
  rw [selectBelowBy?, found]
  exact runs.trans (by rw [adopt?])

theorem Hanging.initial_below {size : Nat} (bound : node < size) :
    (Hanging.initial size).below[node]? = some [] := by
  rw [Hanging.initial, Array.getElem?_replicate, if_pos bound]

/-- In a graph without circles, a tree is selected that has all nodes that can be reached. -/
theorem selectBelowBy?_spanning {rank : Nat → Nat} {root : Nat} (descending : Descending children rank)
    (deep : Deep children root depth) (bound : root < children.size) :
    ∃ below tree, selectBelowBy? (· + 1) root children depth = some below ∧
      Spanning children root depth below tree := by
  obtain ⟨nodes, after, trees, found, computed, hung⟩ :=
    selectBelowBy?_hung deep.size descending.bound bound
  have empty := Hanging.initial_below bound
  refine ⟨after.below, .node root trees, computed, rfl, hung.top_listed empty, hung.top_distinct,
    hung.below_size.trans Array.size_replicate, fun row id member => ?_,
    fun id => ⟨fun member => ?_, hung.mem_of_reaches deep found⟩, hung.top_chosen found empty⟩
  · rw [hung.top_rows row id member, deep.level_root, Nat.zero_add]
  · rcases List.mem_cons.mp member with rfl | inTrees
    · exact .refl
    · obtain ⟨start, inNodes, reaches⟩ := hung.reached id inTrees
      exact .head ⟨nodes, found, inNodes⟩ reaches

end ExprDiagram
