/-
This file finds what the depths of the nodes are. Raising the children of the nodes one after the
other, along an order in which all steps lead forward, no node is raised after its own children
were. So in the end every step leads at least one row down, and every node but the root stands
directly below one from which a step leads to it.
-/

import ExprDiagram.Proofs.Diagram.Leaving

namespace ExprDiagram

open Relation

variable {children : Array (List Nat)} {rank : Nat → Nat} {depth : Array Nat}
variable {node child root : Nat} {nodes order done : List Nat}

/-- The row of a node; nodes outside the list stand in the first row. -/
def level (depth : Array Nat) (node : Nat) : Nat := depth[node]?.getD 0

theorem getElem?_depth (bound : node < depth.size) : depth[node]? = some (level depth node) := by
  rw [level, Array.getElem?_eq_getElem bound, Option.getD_some]

/-! ### Raising -/

theorem getElem?_raised (nodes : List Nat) (depth : Array Nat) (below other : Nat) :
    (nodes.foldl (fun depth child => depth.modify child (max below)) depth)[other]? =
      if other ∈ nodes then depth[other]?.map (max below) else depth[other]? := by
  induction nodes generalizing depth with
  | nil => rfl
  | cons first rest inductionHypothesis =>
    rw [List.foldl_cons, inductionHypothesis, Array.getElem?_modify]
    by_cases same : first = other
    · subst same
      rw [if_pos rfl, if_pos List.mem_cons_self, Option.map_map]
      by_cases again : first ∈ rest
      · rw [if_pos again]
        congr 1
        funext before
        exact (Nat.max_assoc below below before).symm.trans (by rw [Nat.max_self])
      · rw [if_neg again]
    · rw [if_neg same]
      by_cases later : other ∈ rest
      · rw [if_pos later, if_pos (List.mem_cons_of_mem _ later)]
      · rw [if_neg later, if_neg fun member =>
          (List.mem_cons.mp member).elim (fun equal => same equal.symm) later]

theorem size_lowerChildren (children : Array (List Nat)) (depth : Array Nat) (node : Nat) :
    (lowerChildren children depth node).size = depth.size :=
  size_foldl_modify (fun child => child) _ _ _

theorem level_lowerChildren_of_step (step : Step children node child) (bound : child < depth.size) :
    level (lowerChildren children depth node) child =
      max (level depth node + 1) (level depth child) := by
  obtain ⟨nodes, below, member⟩ := step
  rw [level, lowerChildren, below, Option.getD_some, getElem?_raised, if_pos member, level, level,
    Array.getElem?_eq_getElem bound]
  rfl

theorem level_lowerChildren_of_not_step {other : Nat} (none : ¬ Step children node other) :
    level (lowerChildren children depth node) other = level depth other := by
  rw [level, lowerChildren, getElem?_raised, level]
  cases below : children[node]? with
  | none => rw [Option.getD_none, if_neg List.not_mem_nil]
  | some nodes =>
    rw [Option.getD_some, if_neg fun member => none ⟨nodes, below, member⟩]

theorem le_level_lowerChildren (bound : child < depth.size) :
    level depth child ≤ level (lowerChildren children depth node) child := by
  by_cases step : Step children node child
  · rw [level_lowerChildren_of_step step bound]
    exact Nat.le_max_right _ _
  · exact Nat.le_of_eq (level_lowerChildren_of_not_step step).symm

/-! ### Along an order -/

/-- The children of some nodes have been raised: they stand below those nodes, and every node is in
the first row or directly below one of those. -/
structure Raised (children : Array (List Nat)) (done : List Nat) (depth : Array Nat) : Prop where
  size : depth.size = children.size
  lower : ∀ node ∈ done, ∀ child, Step children node child → level depth node + 1 ≤ level depth child
  tight : ∀ child, level depth child = 0 ∨
    ∃ node ∈ done, Step children node child ∧ level depth child = level depth node + 1

/-- Raising the children of a node keeps what has been reached, if neither the node nor one of those
before it is among them. -/
theorem Raised.step (raised : Raised children done depth) (descending : Descending children rank)
    (outside : ∀ other ∈ node :: done, ¬ Step children node other) :
    Raised children (node :: done) (lowerChildren children depth node) := by
  have unchanged : ∀ other ∈ node :: done,
      level (lowerChildren children depth node) other = level depth other :=
    fun other member => level_lowerChildren_of_not_step (outside other member)
  have inDepth : ∀ parent child, Step children parent child → child < depth.size :=
    fun parent child step => raised.size.symm ▸ descending.bound parent child step
  refine ⟨(size_lowerChildren children depth node).trans raised.size, ?_, fun child => ?_⟩
  · intro other member child step
    rw [unchanged other member]
    rcases List.mem_cons.mp member with rfl | inDone
    · rw [level_lowerChildren_of_step step (inDepth _ child step)]
      exact Nat.le_max_left _ _
    · exact Nat.le_trans (raised.lower other inDone child step)
        (le_level_lowerChildren (inDepth _ child step))
  · have before : level depth child = 0 ∨ ∃ parent ∈ node :: done, Step children parent child ∧
        level depth child = level (lowerChildren children depth node) parent + 1 := by
      rcases raised.tight child with first | ⟨parent, inDone, step, directly⟩
      · exact .inl first
      · have member := List.mem_cons_of_mem node inDone
        exact .inr ⟨parent, member, step, by rw [unchanged parent member, directly]⟩
    by_cases step : Step children node child
    · have here : Step children node child ∧ level depth node + 1 =
          level (lowerChildren children depth node) node + 1 :=
        ⟨step, by rw [unchanged node List.mem_cons_self]⟩
      rw [level_lowerChildren_of_step step (inDepth node child step)]
      rcases Nat.le_total (level depth child) (level depth node + 1) with less | more
      · rw [Nat.max_eq_left less]
        exact .inr ⟨node, List.mem_cons_self, here⟩
      · rw [Nat.max_eq_right more]
        refine before.resolve_left (fun first => ?_) |> .inr
        omega
    · rw [level_lowerChildren_of_not_step step]
      exact before

theorem Raised.foldl (raised : Raised children done depth) (descending : Descending children rank)
    (forward : Forward children order) (disjoint : ∀ node ∈ done, node ∉ order) :
    Raised children (order.reverse ++ done) (order.foldl (lowerChildren children) depth) := by
  induction forward generalizing done depth with
  | nil => exact raised
  | @cons node rest later fresh _ inductionHypothesis =>
    rw [List.reverse_cons, List.append_assoc, List.singleton_append, List.foldl_cons]
    have outside : ∀ other ∈ node :: done, ¬ Step children node other := by
      intro other member step
      rcases List.mem_cons.mp member with rfl | inDone
      · exact fresh (later other step)
      · exact disjoint other inDone (List.mem_cons_of_mem _ (later other step))
    refine inductionHypothesis (raised.step descending outside) fun other member inRest => ?_
    rcases List.mem_cons.mp member with rfl | inDone
    · exact fresh inRest
    · exact disjoint other inDone (List.mem_cons_of_mem _ inRest)

/-! ### Depths -/

/-- The depths of the nodes that can be reached from a root. -/
structure Deep (children : Array (List Nat)) (root : Nat) (depth : Array Nat) : Prop where
  size : depth.size = children.size
  level_root : level depth root = 0
  lower : ∀ node, ReflTransGen (Step children) root node → ∀ child, Step children node child →
    level depth node + 1 ≤ level depth child
  tight : ∀ child, ReflTransGen (Step children) root child → child ≠ root →
    ∃ node, ReflTransGen (Step children) root node ∧ Step children node child ∧
      level depth child = level depth node + 1

theorem Descending.rank_le (descending : Descending children rank)
    (reaches : ReflTransGen (Step children) root node) : rank node ≤ rank root := by
  induction reaches with
  | refl => exact Nat.le_refl _
  | tail _ step inductionHypothesis =>
    exact Nat.le_trans (Nat.le_of_lt (descending.lower _ _ step)) inductionHypothesis

theorem raised_start (children : Array (List Nat)) :
    Raised children [] (Array.replicate children.size 0) := by
  refine ⟨Array.size_replicate, fun _ member => (by cases member), fun child => .inl ?_⟩
  rw [level, Array.getElem?_replicate]
  split <;> rfl

/-- Along an order of the nodes that can be reached from a root, their depths are found, and all
other nodes stay in the first row. -/
theorem Forward.deep (forward : Forward children order) (descending : Descending children rank)
    (all : ∀ node, node ∈ order ↔ ReflTransGen (Step children) root node) :
    Deep children root (order.foldl (lowerChildren children) (Array.replicate children.size 0)) ∧
      ∀ node, ¬ ReflTransGen (Step children) root node →
        level (order.foldl (lowerChildren children) (Array.replicate children.size 0)) node = 0 := by
  have raised := (raised_start children).foldl descending forward fun _ member => (by cases member)
  rw [List.append_nil] at raised
  generalize order.foldl (lowerChildren children) (Array.replicate children.size 0) = depth
    at raised ⊢
  have lower : ∀ node, ReflTransGen (Step children) root node → ∀ child, Step children node child →
      level depth node + 1 ≤ level depth child :=
    fun node reaches => raised.lower node (List.mem_reverse.mpr ((all node).mpr reaches))
  have tight : ∀ child, level depth child = 0 ∨ ∃ node, ReflTransGen (Step children) root node ∧
      Step children node child ∧ level depth child = level depth node + 1 := by
    intro child
    refine (raised.tight child).imp id fun ⟨node, member, step, directly⟩ => ?_
    exact ⟨node, (all node).mp (List.mem_reverse.mp member), step, directly⟩
  refine ⟨⟨raised.size, ?_, lower, fun child reaches different => ?_⟩, fun child unreached => ?_⟩
  · refine (tight root).resolve_right fun ⟨node, reaches, step, _⟩ => ?_
    have higher := descending.lower node root step
    have less := descending.rank_le reaches
    omega
  · rcases ReflTransGen.cases_tail reaches with rfl | ⟨before, reachesBefore, step⟩
    · exact absurd rfl different
    · have positive := lower before reachesBefore child step
      exact (tight child).resolve_left (by omega)
  · exact (tight child).resolve_right fun ⟨node, reaches, step, _⟩ => unreached (reaches.tail step)

/-- A walk from the root meets all nodes that can be reached from it, and no others. -/
theorem topological?_root (descending : Descending children rank) (bound : root < children.size) :
    ∃ order, topological? children [root] = some order ∧ Forward children order ∧
      ∀ node, node ∈ order ↔ ReflTransGen (Step children) root node := by
  obtain ⟨order, computed, forward, all, reached⟩ := topological?_forward descending
    (List.forall_mem_singleton.mpr bound)
  refine ⟨order, computed, forward, fun node => ⟨fun member => ?_, fun reaches => ?_⟩⟩
  · obtain ⟨start, inStarts, reaches⟩ := reached node member
    rwa [List.mem_singleton.mp inStarts] at reaches
  · exact forward.mem_of_reaches reaches (all List.mem_cons_self)

/-- In a graph without circles the depths are found. -/
theorem depths?_deep (descending : Descending children rank) (bound : root < children.size) :
    ∃ depth, depths? root children = some depth ∧ Deep children root depth := by
  obtain ⟨order, computed, forward, all⟩ := topological?_root descending bound
  exact ⟨_, by rw [depths?, computed]; rfl, (forward.deep descending all).1⟩

end ExprDiagram
