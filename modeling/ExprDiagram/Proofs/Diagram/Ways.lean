/-
This file shows that the depth of a node is the number of edges on the longest way to it. Every edge
leads at least one row down, so no way has more edges than the row of its end; and every node below
the first row stands directly below another, so that some way has as many. The order in which a walk
meets the nodes below a node does not matter for this, since only one list of numbers fits.
-/

import ExprDiagram.Proofs.Diagram.Adjacency
import ExprDiagram.Proofs.Diagram.Longest
import Mathlib

namespace ExprDiagram

open Relation

namespace Graph

variable {graph : Graph} {rank : Nat → Nat} {root node start middle last : Nat}
variable {edge : Edge} {edges more : List Edge} {depth other : Array Nat}

/-! ### Ways -/

/-- A way along edges: each of them begins where the one before it ends. -/
inductive Way (graph : Graph) : Nat → List Edge → Nat → Prop
  | stay (node : Nat) : Way graph node [] node
  | along {edge : Edge} {edges : List Edge} {last : Nat} (member : edge ∈ graph.edges)
      (way : Way graph edge.target edges last) : Way graph edge.source (edge :: edges) last

/-- The edges join nodes of the graph. -/
def Closed (graph : Graph) : Prop :=
  ∀ edge ∈ graph.edges, edge.source < graph.size ∧ edge.target < graph.size

/-- No way comes back to where it began. -/
def Acyclic (graph : Graph) : Prop :=
  ∀ node edges, graph.Way node edges node → edges = []

/-- Some way leads from one node to the other. -/
def Leads (graph : Graph) (start last : Nat) : Prop :=
  ∃ edges, graph.Way start edges last

instance (graph : Graph) (rank : Nat → Nat) : Decidable (graph.LeadsDown rank) :=
  inferInstanceAs <| Decidable <| ∀ edge ∈ graph.edges,
    edge.source < graph.size ∧ edge.target < graph.size ∧ rank edge.target < rank edge.source

theorem Way.trans (first : graph.Way start edges middle) (second : graph.Way middle more last) :
    graph.Way start (edges ++ more) last := by
  induction first with
  | stay => exact second
  | along member _ inductionHypothesis => exact .along member (inductionHypothesis second)

/-- A way in a graph is one in every graph that has its edges. -/
theorem Way.mono {larger : Graph} (subset : ∀ edge ∈ graph.edges, edge ∈ larger.edges)
    (way : graph.Way start edges last) : larger.Way start edges last := by
  induction way with
  | stay => exact .stay _
  | along member _ inductionHypothesis => exact .along (subset _ member) inductionHypothesis

theorem way_of_edge (member : edge ∈ graph.edges) : graph.Way edge.source [edge] edge.target :=
  .along member (.stay _)

theorem Way.falls {Rank : Type} [Preorder Rank] {rank : Nat → Rank}
    (lower : ∀ edge ∈ graph.edges, rank edge.target < rank edge.source)
    (way : graph.Way start edges last) :
    edges = [] ∧ start = last ∨ rank last < rank start := by
  induction way with
  | stay => exact .inl ⟨rfl, rfl⟩
  | along member _ inductionHypothesis =>
    refine .inr ?_
    rcases inductionHypothesis with ⟨-, rfl⟩ | further
    · exact lower _ member
    · exact further.trans (lower _ member)

/-- Whether ways come back depends on the edges alone. -/
theorem acyclic_congr {other : Graph} (same : graph.edges = other.edges) :
    graph.Acyclic ↔ other.Acyclic := by
  constructor
  · exact fun acyclic node edges way => acyclic node edges (way.mono fun _ => by simp [same])
  · exact fun acyclic node edges way => acyclic node edges (way.mono fun _ => by simp [same])

/-- When some rank falls along every edge, no way comes back. -/
theorem acyclic_of_falls {Rank : Type} [Preorder Rank] (rank : Nat → Rank)
    (lower : ∀ edge ∈ graph.edges, rank edge.target < rank edge.source) : graph.Acyclic :=
  fun _ _ way => ((way.falls lower).resolve_right (lt_irrefl _)).1

theorem LeadsDown.closed (down : graph.LeadsDown rank) : graph.Closed :=
  fun edge member => ⟨(down edge member).1, (down edge member).2.1⟩

theorem LeadsDown.acyclic (down : graph.LeadsDown rank) : graph.Acyclic :=
  acyclic_of_falls rank fun edge member => (down edge member).2.2

/-- Ways lead to what can be reached by steps. -/
theorem Closed.leads_iff (closed : graph.Closed) :
    graph.Leads start last ↔ ReflTransGen (Step graph.childLists) start last := by
  constructor
  · rintro ⟨edges, way⟩
    induction way with
    | stay => exact .refl
    | @along edge _ _ member _ inductionHypothesis =>
      exact .head (step_childLists_iff.mpr ⟨(closed edge member).1, edge, member, rfl, rfl⟩)
        inductionHypothesis
  · intro reaches
    induction reaches with
    | refl => exact ⟨[], .stay start⟩
    | tail _ step inductionHypothesis =>
      obtain ⟨edges, way⟩ := inductionHypothesis
      obtain ⟨_, edge, member, rfl, rfl⟩ := step_childLists_iff.mp step
      exact ⟨edges ++ [edge], way.trans (way_of_edge member)⟩

/-! ### A rank for a graph without circles -/

/-- The nodes to which some way with an edge leads. -/
def beyond (graph : Graph) (node : Nat) : Set Nat :=
  {last | last < graph.size ∧ ∃ edge edges, graph.Way node (edge :: edges) last}

theorem finite_beyond (graph : Graph) (node : Nat) : (graph.beyond node).Finite :=
  (Set.finite_lt_nat graph.size).subset fun _ further => further.1

/-- Fewer nodes lie beyond the target of an edge than beyond its source, since the target does not
lie beyond itself. -/
theorem Acyclic.ncard_beyond_lt (acyclic : graph.Acyclic) (closed : graph.Closed)
    (member : edge ∈ graph.edges) :
    (graph.beyond edge.target).ncard < (graph.beyond edge.source).ncard := by
  refine Set.ncard_lt_ncard ((Set.ssubset_iff_of_subset ?_).mpr ⟨edge.target, ?_, ?_⟩)
    (graph.finite_beyond edge.source)
  · rintro last ⟨bound, next, edges, way⟩
    exact ⟨bound, edge, next :: edges, .along member way⟩
  · exact ⟨(closed edge member).2, edge, [], way_of_edge member⟩
  · rintro ⟨_, next, edges, way⟩
    cases acyclic edge.target (next :: edges) way

theorem Acyclic.exists_leadsDown (acyclic : graph.Acyclic) (closed : graph.Closed) :
    ∃ rank, graph.LeadsDown rank :=
  ⟨fun node => (graph.beyond node).ncard, fun edge member =>
    ⟨(closed edge member).1, (closed edge member).2, acyclic.ncard_beyond_lt closed member⟩⟩

/-! ### The check for circles -/

theorem acyclic_of_isAcyclic (checked : graph.isAcyclic = true) : graph.Acyclic := by
  rw [isAcyclic] at checked
  split at checked
  · cases checked
  · rename_i order _
    -- The places grow along the edges, so they fall in the reverse order of the numbers.
    refine acyclic_of_falls (fun node =>
      OrderDual.toDual ((places graph.size order)[node]?.getD 0)) fun edge member => ?_
    exact of_decide_eq_true (Array.all_eq_true_iff_forall_mem.mp checked edge member)

theorem isAcyclic_of_leadsDown (down : graph.LeadsDown rank) : graph.isAcyclic = true := by
  have inLists : ∀ node ∈ List.range graph.size, node < graph.childLists.size :=
    fun node member => graph.size_childLists.symm ▸ List.mem_range.mp member
  obtain ⟨order, computed, forward, all, reached⟩ :=
    topological?_forward down.descending inLists
  have bound : ∀ node ∈ order, node < graph.size := by
    intro node member
    obtain ⟨start, member, reaches⟩ := reached node member
    exact graph.size_childLists ▸ down.descending.lt_of_reaches (inLists start member) reaches
  rw [isAcyclic, computed]
  refine Array.all_eq_true_iff_forall_mem.mpr fun edge member => decide_eq_true ?_
  have source := (down edge member).1
  exact forward.places_lt bound (all (List.mem_range.mpr source))
    (step_childLists_iff.mpr ⟨source, edge, member, rfl, rfl⟩)

/-- The check for circles finds whether there are any. Nothing else is known of it elsewhere. -/
theorem Closed.isAcyclic_iff (closed : graph.Closed) : graph.isAcyclic = true ↔ graph.Acyclic := by
  refine ⟨acyclic_of_isAcyclic, fun acyclic => ?_⟩
  obtain ⟨rank, down⟩ := acyclic.exists_leadsDown closed
  exact isAcyclic_of_leadsDown down

/-- A graph whose edges lead down passes the check. -/
theorem LeadsDown.isAcyclic (down : graph.LeadsDown rank) : graph.isAcyclic = true :=
  down.closed.isAcyclic_iff.mpr down.acyclic

/-! ### Longest ways -/

/-- A way from the root has at most as many edges as its end has rows above it. -/
theorem way_length_le (closed : graph.Closed) (deep : Deep graph.childLists root depth)
    (reaches : ReflTransGen (Step graph.childLists) root start) (way : graph.Way start edges last) :
    level depth start + edges.length ≤ level depth last := by
  induction way with
  | stay => exact Nat.le_refl _
  | @along edge _ _ member _ inductionHypothesis =>
    have step := step_childLists_iff.mpr ⟨(closed edge member).1, edge, member, rfl, rfl⟩
    have further := inductionHypothesis (reaches.tail step)
    have lower := deep.lower _ reaches _ step
    rw [List.length_cons]
    omega

/-- Some way from the root has as many edges as its end has rows above it. -/
theorem exists_way (deep : Deep graph.childLists root depth)
    (reaches : ReflTransGen (Step graph.childLists) root node) :
    ∃ edges, graph.Way root edges node ∧ edges.length = level depth node := by
  induction row : level depth node generalizing node with
  | zero =>
    have same : node = root := by
      by_contra different
      obtain ⟨upper, _, _, directly⟩ := deep.tight node reaches different
      omega
    exact same ▸ ⟨[], .stay node, rfl⟩
  | succ row inductionHypothesis =>
    have different : node ≠ root := by
      rintro rfl
      cases row.symm.trans deep.level_root
    obtain ⟨upper, reachesUpper, step, directly⟩ := deep.tight node reaches different
    obtain ⟨edges, way, length⟩ := inductionHypothesis reachesUpper (by omega)
    obtain ⟨_, edge, member, rfl, rfl⟩ := step_childLists_iff.mp step
    exact ⟨edges ++ [edge], way.trans (way_of_edge member), by simp [length]⟩

/-- The depths of the nodes below a root: for each node that the root leads to, the number of edges
on the longest way to it, and zero for all others. -/
structure Measured (graph : Graph) (root : Nat) (depth : Array Nat) : Prop where
  size : depth.size = graph.size
  longest : ∀ node, graph.Leads root node → ∃ count, depth[node]? = some count ∧
    IsGreatest {length | ∃ edges, graph.Way root edges node ∧ edges.length = length} count
  outside : ∀ node, node < graph.size → ¬ graph.Leads root node → depth[node]? = some 0

theorem Closed.lt_of_leads (closed : graph.Closed) (bound : start < graph.size)
    (leads : graph.Leads start last) : last < graph.size := by
  obtain ⟨edges, way⟩ := leads
  induction way with
  | stay => exact bound
  | along member _ inductionHypothesis => exact inductionHypothesis (closed _ member).2

theorem measured_of_deep (closed : graph.Closed) (bound : root < graph.size)
    (deep : Deep graph.childLists root depth)
    (outside : ∀ node, ¬ ReflTransGen (Step graph.childLists) root node → level depth node = 0) :
    graph.Measured root depth := by
  have size : depth.size = graph.size := deep.size.trans graph.size_childLists
  refine ⟨size, fun node leads => ⟨level depth node, ?_, ?_, ?_⟩, fun node inGraph apart => ?_⟩
  · exact getElem?_depth (size.symm ▸ closed.lt_of_leads bound leads)
  · exact exists_way deep (closed.leads_iff.mp leads)
  · rintro length ⟨edges, way, rfl⟩
    have lower := way_length_le closed deep .refl way
    rwa [deep.level_root, Nat.zero_add] at lower
  · rw [getElem?_depth (size.symm ▸ inGraph),
      outside node fun reaches => apart (closed.leads_iff.mpr reaches)]

/-- Only one list of depths fits. -/
theorem Measured.unique (measured : graph.Measured root depth)
    (measuredOther : graph.Measured root other) : depth = other := by
  refine Array.ext_getElem? fun node => ?_
  by_cases leads : graph.Leads root node
  · obtain ⟨count, found, greatest⟩ := measured.longest node leads
    obtain ⟨countOther, foundOther, greatestOther⟩ := measuredOther.longest node leads
    rw [found, foundOther, greatest.unique greatestOther]
  · by_cases inGraph : node < graph.size
    · rw [measured.outside node inGraph leads, measuredOther.outside node inGraph leads]
    · rw [Array.getElem?_eq_none (measured.size ▸ Nat.le_of_not_lt inGraph),
        Array.getElem?_eq_none (measuredOther.size ▸ Nat.le_of_not_lt inGraph)]

/-! ### Walks in any order -/

/-- The depths along a walk that takes the nodes below each node from lists of its own. -/
def depthsAlong? (visit : Array (List Nat)) (root : Nat) (children : Array (List Nat)) :
    Option (Array Nat) := do
  let order ← topological? visit [root]
  return order.foldl (lowerChildren children) (Array.replicate children.size 0)

/-- The same nodes are listed below each node, be it in another order or several times. -/
structure SameSteps (first second : Array (List Nat)) : Prop where
  size : first.size = second.size
  step_iff : ∀ node child, Step first node child ↔ Step second node child

variable {visit children : Array (List Nat)} {order : List Nat}

theorem SameSteps.descending (same : SameSteps visit children)
    (descending : Descending children rank) : Descending visit rank where
  bound node child step := same.size ▸ descending.bound node child ((same.step_iff _ _).mp step)
  lower node child step := descending.lower node child ((same.step_iff _ _).mp step)

theorem SameSteps.forward (same : SameSteps visit children) (forward : Forward visit order) :
    Forward children order := by
  induction forward with
  | nil => exact .nil
  | cons later fresh _ inductionHypothesis =>
    exact .cons (fun child step => later child ((same.step_iff _ _).mpr step)) fresh
      inductionHypothesis

theorem SameSteps.step_eq (same : SameSteps visit children) : Step visit = Step children := by
  funext node child
  exact propext (same.step_iff node child)

theorem exists_depthsAlong? (same : SameSteps visit graph.childLists)
    (closed : graph.Closed) (acyclic : graph.Acyclic) (bound : root < graph.size) :
    ∃ depth, depthsAlong? visit root graph.childLists = some depth ∧ graph.Measured root depth := by
  obtain ⟨rank, down⟩ := acyclic.exists_leadsDown closed
  have inLists : root < visit.size := same.size.trans graph.size_childLists ▸ bound
  obtain ⟨order, computed, forward, all⟩ :=
    topological?_root (same.descending down.descending) inLists
  rw [same.step_eq] at all
  obtain ⟨deep, outside⟩ := (same.forward forward).deep down.descending all
  exact ⟨_, by rw [depthsAlong?, computed]; rfl, measured_of_deep closed bound deep outside⟩

/-- In a graph without circles the depth of each node is the number of edges on the longest way to
it from the root, and zero if there is none. A walk that takes the nodes below a node in any other
order finds the same depths. -/
theorem depths?_measured (closed : graph.Closed) (acyclic : graph.Acyclic)
    (bound : root < graph.size) :
    ∃ depth, depths? root graph.childLists = some depth ∧ graph.Measured root depth ∧
      ∀ visit, SameSteps visit graph.childLists →
        depthsAlong? visit root graph.childLists = some depth := by
  obtain ⟨depth, computed, measured⟩ :=
    exists_depthsAlong? ⟨rfl, fun _ _ => Iff.rfl⟩ closed acyclic bound
  refine ⟨depth, computed, measured, fun visit same => ?_⟩
  obtain ⟨other, again, measuredOther⟩ := exists_depthsAlong? same closed acyclic bound
  rw [again, measuredOther.unique measured]

/-- A graph with two edges between the same nodes, a node below two others, and a part that the root
does not lead to but that leads into what is below the root. -/
def joined : Graph where
  nodes := Array.replicate 6 ⟨"n", .call⟩
  edges := #[⟨0, 2, 0⟩, ⟨0, 1, 0⟩, ⟨0, 1, 1⟩, ⟨1, 2, 0⟩, ⟨2, 3, 0⟩, ⟨4, 3, 0⟩, ⟨4, 5, 1⟩]

theorem depths?_measured_joined : joined.Closed ∧ joined.Acyclic ∧ 0 < joined.size ∧
    depths? 0 joined.childLists = some #[0, 1, 2, 3, 0, 0] ∧
    joined.Measured 0 #[0, 1, 2, 3, 0, 0] ∧
    ∀ visit, SameSteps visit joined.childLists →
      depthsAlong? visit 0 joined.childLists = some #[0, 1, 2, 3, 0, 0] := by
  have down : joined.LeadsDown fun node => #[3, 2, 1, 0, 1, 0][node]?.getD 0 := by decide
  have inGraph : 0 < joined.size := by decide
  have found : depths? 0 joined.childLists = some #[0, 1, 2, 3, 0, 0] := by cbv
  obtain ⟨depth, computed, measured, anyOrder⟩ :=
    depths?_measured down.closed down.acyclic inGraph
  obtain rfl : depth = #[0, 1, 2, 3, 0, 0] := Option.some.inj (computed.symm.trans found)
  exact ⟨down.closed, down.acyclic, inGraph, found, measured, anyOrder⟩

end Graph

end ExprDiagram
