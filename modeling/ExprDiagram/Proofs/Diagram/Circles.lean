/-
This file settles what becomes of any program whose numbers are in range, also of one that was put
together by hand, in which calls may be shared and expressions may contain themselves. Either some
expression contains itself, and the error names one that does; or there is a diagram, which unfolds
to the same tree as the program. In the diagram only defined names are shared: exactly one edge leads
to every other node below the root.

That exactly one edge leads to a new node is counted while the diagram is drawn. A node that has been
drawn has no parent until the expression that uses it is left, so the edges that lead to it and its
occurrences among the nodes without a parent are one together.
-/

import ExprDiagram.Proofs.Diagram.Stacking
import ExprDiagram.Proofs.Diagram.Unfolding
import ExprDiagram.Proofs.Diagram.Ways

namespace ExprDiagram

open Relation

/-! ### Edges that lead to a node -/

theorem Graph.inDegree_eq_zero {graph : Graph} {node : Nat}
    (none : ∀ edge ∈ graph.edges, edge.target ≠ node) : graph.inDegree node = 0 := by
  refine Array.countP_eq_zero.mpr fun edge member same => ?_
  exact none edge member (beq_iff_eq.mp same)

theorem Graph.countP_fan (node position : Nat) (children : List Nat) (child : Nat) :
    (Graph.fan node position children).countP (·.target == child) = children.count child := by
  rw [← Graph.map_target_fan node position children, List.count, List.countP_map,
    Graph.map_target_fan]
  rfl

namespace Sketch

variable {arena : Arena} {inside ids : List ExprId} {id : ExprId} {expr : Expr}
variable {sketch between after : Sketch} {node : Nat} {children nodes : List Nat}

/-- What drawing some expressions adds to the edges. Only variables are remembered. To a new node
that is not remembered lead as many edges as it lacks parents, namely none while it is among the nodes
that were drawn last, and one otherwise; to an old one lead no more edges than before. -/
structure Counts (arena : Arena) (sketch after : Sketch) (nodes : List Nat) : Prop where
  extended : Extended sketch after nodes
  keeps : sketch.drawn ⊆ after.drawn
  named : ∀ item ∈ after.drawn, item ∈ sketch.drawn ∨
    ∃ name body, arena.get? item.1 = some (.var name body)
  incoming : ∀ node < after.graph.size, node ∉ after.drawn.map Prod.snd →
    after.graph.inDegree node + nodes.count node =
      if node < sketch.graph.size then sketch.graph.inDegree node else 1

theorem Counts.nil (sound : sketch.Sound) : Counts arena sketch sketch [] where
  extended := ⟨sound, Nat.le_refl _, nofun⟩
  keeps := List.Subset.refl _
  named _ member := .inl member
  incoming node bound _ := by rw [if_pos bound, List.count_nil, Nat.add_zero]

theorem Counts.known (sound : sketch.Sound) (member : (id, node) ∈ sketch.drawn) :
    Counts arena sketch sketch [node] where
  extended := ⟨sound, Nat.le_refl _, List.forall_mem_singleton.mpr (sound.drawn _ member)⟩
  keeps := List.Subset.refl _
  named _ member := .inl member
  incoming other bound fresh := by
    have different : node ≠ other := by
      rintro rfl
      exact fresh (List.mem_map_of_mem member)
    rw [if_pos bound, List.count_singleton, if_neg (by simpa using different), Nat.add_zero]

/-- The edges that lead to a node after another one has been added above its children. -/
theorem inDegree_place (sound : sketch.Sound)
    (placed : sketch.place id expr children = (node, after)) (other : Nat) :
    after.graph.inDegree other = sketch.graph.inDegree other + children.count other := by
  obtain ⟨_, edges, _, _⟩ := place_graph sound placed
  rw [Graph.inDegree, ← Array.countP_toList, edges, List.countP_append, Graph.countP_fan,
    Array.countP_toList, Graph.inDegree]

theorem Counts.place (counts : Counts arena sketch between children)
    (found : arena.get? id = some expr)
    (placed : between.place id expr children = (node, after)) :
    Counts arena sketch after [node] := by
  have sound := counts.extended.sound
  have above := place_extended sound counts.extended.bound placed
  obtain ⟨nodes, _, _, _⟩ := place_graph sound placed
  have size : after.graph.size = between.graph.size + 1 := by
    rw [Graph.size, nodes, Array.size_push, Graph.size]
  obtain ⟨rfl, _, drawn⟩ := place_eq placed
  have keeps : between.drawn ⊆ after.drawn := by
    rcases drawn with ⟨same, _⟩ | ⟨cons, _⟩
    · exact same ▸ List.Subset.refl _
    · exact cons ▸ List.subset_cons_self _ _
  refine ⟨⟨above.sound, counts.extended.grows.trans above.grows, above.bound⟩,
    List.Subset.trans counts.keeps keeps, fun item member => ?_, fun other bound fresh => ?_⟩
  · rcases drawn with ⟨same, _⟩ | ⟨cons, name, body, rfl⟩
    · exact counts.named item (same ▸ member)
    · rw [cons] at member
      rcases List.mem_cons.mp member with rfl | before
      · exact .inr ⟨name, body, found⟩
      · exact counts.named item before
  · have freshBefore : other ∉ between.drawn.map Prod.snd := fun member =>
      fresh (List.map_subset _ keeps member)
    rw [inDegree_place sound placed]
    rcases Nat.lt_or_eq_of_le (Nat.lt_succ_iff.mp (size ▸ bound)) with earlier | rfl
    · have different : between.graph.size ≠ other := Nat.ne_of_gt earlier
      rw [List.count_singleton, if_neg (by simpa using different), Nat.add_zero]
      exact counts.incoming other earlier freshBefore
    · have noEdge : between.graph.inDegree between.graph.size = 0 :=
        Graph.inDegree_eq_zero fun edge member => Nat.ne_of_lt (sound.down edge member).2.1
      have noChild : children.count between.graph.size = 0 :=
        List.count_eq_zero.mpr fun member => Nat.lt_irrefl _ (counts.extended.bound _ member)
      have new : ¬ between.graph.size < sketch.graph.size := Nat.not_lt.mpr counts.extended.grows
      rw [noEdge, noChild, List.count_singleton_self, if_neg new]

theorem Counts.cons (first : Counts arena sketch between [node])
    (rest : Counts arena between after nodes) : Counts arena sketch after (node :: nodes) := by
  have here := first.extended.bound node List.mem_cons_self
  refine ⟨⟨rest.extended.sound, first.extended.grows.trans rest.extended.grows,
    List.forall_mem_cons.mpr ⟨Nat.lt_of_lt_of_le here rest.extended.grows, rest.extended.bound⟩⟩,
    List.Subset.trans first.keeps rest.keeps, fun item member => ?_, fun other bound fresh => ?_⟩
  · rcases rest.named item member with before | isVariable
    · exact first.named item before
    · exact .inr isVariable
  · have later := rest.incoming other bound fresh
    rw [← List.singleton_append, List.count_append, Nat.add_left_comm, later]
    by_cases earlier : other < between.graph.size
    · have freshBefore : other ∉ between.drawn.map Prod.snd := fun member =>
        fresh (List.map_subset _ rest.keeps member)
      rw [if_pos earlier, Nat.add_comm, first.incoming other earlier freshBefore]
    · have new : ¬ other < sketch.graph.size := fun old =>
        earlier (Nat.lt_of_lt_of_le old first.extended.grows)
      have different : node ≠ other := fun same => earlier (same ▸ here)
      rw [if_neg earlier, if_neg new, List.count_singleton, if_neg (by simpa using different)]

mutual
theorem draw_counts (arena : Arena) (inside : List ExprId) (id : ExprId) (sketch : Sketch)
    {node : Nat} {after : Sketch} (drawn : draw arena inside id sketch = .ok (node, after))
    (sound : sketch.Sound) : Counts arena sketch after [node] := by
  obtain ⟨expr, found, ⟨known, same⟩ | ⟨children, between, _, outside, all, placed⟩⟩ :=
    draw_eq_ok drawn
  · rw [same]
    exact .known sound (mem_drawn_of_drawn? known)
  · exact (drawAll_counts arena (id :: inside) expr.children sketch all sound).place found placed
termination_by (unvisited arena inside, 0)
decreasing_by exact Prod.Lex.left _ _ (unvisited_cons_lt found outside)

theorem drawAll_counts (arena : Arena) (inside ids : List ExprId) (sketch : Sketch)
    {nodes : List Nat} {after : Sketch}
    (drawn : drawAll arena inside ids sketch = .ok (nodes, after)) (sound : sketch.Sound) :
    Counts arena sketch after nodes := by
  match ids, drawn with
  | [], drawn =>
    obtain ⟨rfl, rfl⟩ := drawAll_nil_eq_ok drawn
    exact .nil sound
  | id :: rest, drawn =>
    obtain ⟨node, between, others, first, all, rfl⟩ := drawAll_cons_eq_ok drawn
    have here := draw_counts arena inside id sketch first sound
    exact here.cons (drawAll_counts arena inside rest between all here.extended.sound)
termination_by (unvisited arena inside, ids.length + 1)
decreasing_by
  · exact Prod.Lex.right _ (Nat.succ_pos _)
  · exact Prod.Lex.right _ (Nat.lt_succ_self _)
end

end Sketch

/-! ### Diagrams of programs -/

namespace Diagram

variable {program : Program} {diagram : Diagram}

/-- The node of the root is added last, and no edge leads to it. -/
theorem ofProgram_root (drawn : Diagram.ofProgram program = .ok diagram) :
    diagram.root + 1 = diagram.graph.size ∧ diagram.graph.inDegree diagram.root = 0 := by
  obtain ⟨down, _⟩ := ofProgram_downward drawn
  obtain ⟨⟨root, sketch⟩, walk, same⟩ := Except.bind_eq_ok drawn
  cases same
  obtain ⟨expr, _, ⟨known, _⟩ | ⟨children, between, _, _, all, placed⟩⟩ := Sketch.draw_eq_ok walk
  · exact absurd (Sketch.mem_drawn_of_drawn? known) List.not_mem_nil
  · have sound := (Sketch.drawAll_extended _ _ _ _ all Sketch.sound_empty).sound
    obtain ⟨nodes, _, _, _⟩ := Sketch.place_graph sound placed
    obtain ⟨rfl, _, _⟩ := Sketch.place_eq placed
    have size : between.graph.size + 1 = sketch.graph.size := by
      rw [Graph.size, Graph.size, nodes, Array.size_push]
    refine ⟨size, Graph.inDegree_eq_zero fun edge member => ?_⟩
    obtain ⟨source, _, lower⟩ := down edge member
    have source : edge.source < between.graph.size + 1 := size ▸ source
    exact Nat.ne_of_lt (Nat.lt_of_lt_of_le lower (Nat.lt_succ_iff.mp source))

/-- To every node that shows no defined name, and is not the root, leads exactly one edge. -/
theorem ofProgram_inDegree (drawn : Diagram.ofProgram program = .ok diagram) {node : Nat}
    {shown : Node} (found : diagram.graph.nodes[node]? = some shown) (noName : shown.kind ≠ .var)
    (other : node ≠ diagram.root) : diagram.graph.inDegree node = 1 := by
  obtain ⟨⟨root, sketch⟩, walk, same⟩ := Except.bind_eq_ok drawn
  cases same
  obtain ⟨origins, adds⟩ := Sketch.draw_adds _ _ _ _ _ walk (Sketch.depicts_empty _)
  have counts := Sketch.draw_counts _ _ _ _ walk Sketch.sound_empty
  have bound : node < sketch.graph.size := (Array.getElem?_eq_some_iff.mp found).1
  have fresh : node ∉ sketch.drawn.map Prod.snd := by
    intro member
    obtain ⟨item, inDrawn, rfl⟩ := List.mem_map.mp member
    obtain ⟨expr, _, stored, label, _⟩ :=
      adds.depicts.node _ _ (adds.depicts.remembered item inDrawn)
    rcases counts.named item inDrawn with before | ⟨name, body, isVariable⟩
    · exact List.not_mem_nil before
    · obtain rfl := Option.some.inj (stored.symm.trans isVariable)
      obtain rfl := Option.some.inj (found.symm.trans label)
      exact noName rfl
  have incoming := counts.incoming node bound fresh
  have new : ¬ node < Sketch.empty.graph.size := Nat.not_lt_zero node
  rwa [List.count_singleton, if_neg (by simpa using Ne.symm other), Nat.add_zero, if_neg new]
    at incoming

/-- A diagram shows a program without circles. Both unfold to one tree; a defined name that can be
reached has one node, and all other nodes below the root hang below exactly one node; every node can
be reached from the root, which was added last and hangs below no node; and edges lead to nodes that
were added before. -/
structure Portrays (program : Program) (diagram : Diagram) : Prop where
  unfolding : ∃ tree, (∀ other, Unfolds program.arena.table program.root other ↔ other = tree) ∧
    ∀ other, Unfolds diagram.graph.table diagram.root other ↔ other = tree
  origins : ∃ shown, diagram.Depicts program shown ∧ ∀ id name body,
    ReflTransGen program.arena.Holds program.root id →
    program.arena.get? id = some (.var name body) → ∃! node : Nat, shown[node]? = some id
  incoming : ∀ (node : Nat) (shown : Node), diagram.graph.nodes[node]? = some shown →
    shown.kind ≠ .var → node ≠ diagram.root → diagram.graph.inDegree node = 1
  reached : ∀ node < diagram.graph.size,
    ReflTransGen (Step diagram.graph.childLists) diagram.root node
  root : diagram.root + 1 = diagram.graph.size ∧ diagram.graph.inDegree diagram.root = 0
  down : ∀ edge ∈ diagram.graph.edges,
    edge.source < diagram.graph.size ∧ edge.target < edge.source
  acyclic : diagram.graph.isAcyclic = true

theorem ofProgram_portrays (drawn : Diagram.ofProgram program = .ok diagram) :
    diagram.Portrays program := by
  obtain ⟨down, bound⟩ := ofProgram_downward drawn
  obtain ⟨shown, depicts⟩ := ofProgram_depicts drawn
  obtain ⟨tree, ofProgram, ofGraph⟩ := depicts.exists_unfolding down depicts.root
  refine ⟨⟨tree, fun other => ⟨fun unfolds => unfolds.unique ofProgram, ?_⟩,
    fun other => ⟨fun unfolds => unfolds.unique ofGraph, ?_⟩⟩, ⟨shown, depicts, ?_⟩,
    fun node label found noName => ofProgram_inDegree drawn found noName,
    fun node => depicts.reaches, ofProgram_root drawn,
    fun edge member => ⟨(down edge member).1, (down edge member).2.2⟩, Graph.LeadsDown.isAcyclic down⟩
  · rintro rfl
    exact ofProgram
  · rintro rfl
    exact ofGraph
  · intro id name body reached isVariable
    obtain ⟨node, found⟩ := depicts.mem_of_reached reached
    exact ⟨node, found, fun other foundOther =>
      depicts.shared other node id name body foundOther found isVariable⟩

/-- What becomes of a program whose numbers are in range. The stacks come to an end. There is an
error exactly if an expression that can be reached contains itself, and the error names such an
expression; otherwise there is a diagram that shows the program. -/
theorem ofProgram_outcome (inRange : program.InRange) :
    Stacks.Ends program (Diagram.ofProgram program) ∧
    ((∃ label, Diagram.ofProgram program = .error (.cyclicExpression label)) ↔
      ∃ id, ReflTransGen program.arena.Holds program.root id ∧
        TransGen program.arena.Holds id id) ∧
    (∀ label, Diagram.ofProgram program = .error (.cyclicExpression label) →
      program.Circular label) ∧
    ((∀ label, Diagram.ofProgram program ≠ .error (.cyclicExpression label)) →
      ∃ diagram, Diagram.ofProgram program = .ok diagram ∧ diagram.Portrays program) := by
  have circular : ∀ label, Diagram.ofProgram program = .error (.cyclicExpression label) →
      program.Circular label := by
    intro label failed
    obtain ⟨_, same, circular⟩ := ofProgram_circular inRange failed
    cases same
    exact circular
  refine ⟨ofProgram_ends program, ⟨?_, ?_⟩, circular, fun none => ?_⟩
  · rintro ⟨label, failed⟩
    obtain ⟨id, _, reached, contains, _⟩ := circular label failed
    exact ⟨id, reached, contains⟩
  · rintro ⟨id, reached, contains⟩
    cases outcome : Diagram.ofProgram program with
    | error cause =>
      obtain ⟨label, rfl, _⟩ := ofProgram_circular inRange outcome
      exact ⟨label, rfl⟩
    | ok diagram =>
      obtain ⟨down, _⟩ := ofProgram_downward outcome
      obtain ⟨shown, depicts⟩ := ofProgram_depicts outcome
      exact absurd contains (depicts.acyclic down id reached)
  · cases outcome : Diagram.ofProgram program with
    | error cause =>
      obtain ⟨label, rfl, _⟩ := ofProgram_circular inRange outcome
      exact absurd outcome (none label)
    | ok diagram => exact ⟨diagram, rfl, ofProgram_portrays outcome⟩

/-- A call that is used twice, and leads back to itself by way of a defined name. -/
def circularCalls : Program :=
  ⟨⟨#[.var "v" 2, .primitive "x" .symbol, .call "g" [1, 0], .call "f" [2, 2]]⟩, ⟨[("v", 0)]⟩, 3⟩

/-- A call that is used three times, once by way of a defined name that is used twice itself. -/
def sharedCalls : Program :=
  ⟨⟨#[.primitive "x" .symbol, .call "h" [0], .var "v" 1, .call "f" [1, 2, 1, 2]]⟩, ⟨[("v", 2)]⟩, 3⟩

theorem ofProgram_outcome_calls :
    circularCalls.InRange ∧
      (∃ label, Diagram.ofProgram circularCalls = .error (.cyclicExpression label)) ∧
      sharedCalls.InRange ∧
      ∃ diagram, Diagram.ofProgram sharedCalls = .ok diagram ∧ diagram.Portrays sharedCalls := by
  have closed : circularCalls.arena.Closed := by decide
  have ordered : sharedCalls.arena.Ordered := by decide
  have inRange := closed.inRange (by decide : circularCalls.root < circularCalls.arena.size)
  have inRangeShared := ordered.inRange (by decide : sharedCalls.root < sharedCalls.arena.size)
  have down : circularCalls.arena.Holds 3 2 := ⟨_, rfl, by decide⟩
  have around : TransGen circularCalls.arena.Holds 2 2 :=
    .tail (.single (⟨_, rfl, by decide⟩ : circularCalls.arena.Holds 2 0)) ⟨_, rfl, by decide⟩
  refine ⟨inRange, (ofProgram_outcome inRange).2.1.mpr ⟨2, .single down, around⟩, inRangeShared,
    (ofProgram_outcome inRangeShared).2.2.2 fun label failed => ?_⟩
  exact ((ofProgram_outcome inRangeShared).2.2.1 label failed).not_acyclic ordered.acyclic

end Diagram

end ExprDiagram
