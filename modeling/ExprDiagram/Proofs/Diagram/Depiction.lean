/-
This file shows that a diagram depicts its program. Each node was made from an expression, whose
label and kind it shows, and its edges lead, in the order of the positions, to nodes that were made
from the expressions directly below. The walk makes a new node whenever it draws a call or a
primitive, so two nodes may come from one expression as far as the walk is concerned; a variable is
drawn once only. In a program in which no other expression is used twice there is one node for each
expression that can be reached from the root.
-/

import ExprDiagram.Proofs.Diagram.Sketching
import ExprDiagram.Proofs.Meaning.Usage

namespace ExprDiagram

open Relation

variable {arena : Arena} {inside ids shown more : List ExprId} {id : ExprId} {expr : Expr}
variable {sketch between after : Sketch} {node : Nat} {children nodes : List Nat}

/-- The nodes were made from the expressions, one by one, where a list gives for each node the
expression that it was made from. -/
abbrev ShowAll (shown : List ExprId) : List Nat → List ExprId → Prop :=
  List.Forall₂ fun node id => shown[node]? = some id

theorem ShowAll.append (shows : ShowAll shown nodes ids) (more : List ExprId) :
    ShowAll (shown ++ more) nodes ids :=
  shows.imp fun node id found => by
    rw [List.getElem?_append_left (List.getElem?_eq_some_iff.mp found).1, found]

theorem ShowAll.lt_length (shows : ShowAll shown nodes ids) :
    ∀ node ∈ nodes, node < shown.length := by
  induction shows with
  | nil => exact fun _ member => (by cases member)
  | cons found _ inductionHypothesis =>
    exact List.forall_mem_cons.mpr ⟨(List.getElem?_eq_some_iff.mp found).1, inductionHypothesis⟩

theorem ShowAll.exists_right (shows : ShowAll shown nodes ids) {index : Nat}
    (found : nodes[index]? = some node) :
    ∃ id, ids[index]? = some id ∧ shown[node]? = some id := by
  induction shows generalizing index with
  | nil => cases found
  | @cons first id rest others here _ inductionHypothesis =>
    cases index with
    | zero =>
      obtain rfl := Option.some.inj found
      exact ⟨id, rfl, here⟩
    | succ index => exact inductionHypothesis found

theorem ShowAll.exists_left (shows : ShowAll shown nodes ids) {index : Nat}
    (found : ids[index]? = some id) :
    ∃ node, nodes[index]? = some node ∧ shown[node]? = some id := by
  induction shows generalizing index with
  | nil => cases found
  | @cons node first rest others here _ inductionHypothesis =>
    cases index with
    | zero =>
      obtain rfl := Option.some.inj found
      exact ⟨node, rfl, here⟩
    | succ index => exact inductionHypothesis found

theorem getElem?_concat_iff {other : ExprId} :
    (shown ++ [id])[node]? = some other ↔
      shown[node]? = some other ∨ node = shown.length ∧ id = other := by
  grind

theorem idxOf_of_getElem? (distinct : shown.Nodup) (found : shown[node]? = some id) :
    shown.idxOf id = node := by
  obtain ⟨bound, rfl⟩ := List.getElem?_eq_some_iff.mp found
  exact distinct.idxOf_getElem node bound

theorem ShowAll.eq_map (shows : ShowAll shown nodes ids) (distinct : shown.Nodup) :
    nodes = ids.map (shown.idxOf ·) := by
  induction shows with
  | nil => rfl
  | cons found _ inductionHypothesis =>
    rw [List.map_cons, idxOf_of_getElem? distinct found, ← inductionHypothesis]

namespace Sketch

/-! ### What a sketch depicts -/

/-- The nodes of a sketch depict expressions. A node that was made from a variable is remembered as
the node of this variable, and each variable has one node. -/
structure Depicts (arena : Arena) (shown : List ExprId) (sketch : Sketch) : Prop where
  sound : sketch.Sound
  size : sketch.graph.size = shown.length
  node : ∀ node id, shown[node]? = some id → ∃ expr nodes, arena.get? id = some expr ∧
    sketch.graph.nodes[node]? = some ⟨expr.label, expr.nodeKind⟩ ∧
    (sketch.graph.edges.toList.filter fun edge => edge.source = node) = Graph.fan node 0 nodes ∧
    ShowAll shown nodes expr.children
  remembered : ∀ item ∈ sketch.drawn, shown[item.2]? = some item.1
  drawn : ∀ node id name body, shown[node]? = some id → arena.get? id = some (.var name body) →
    (id, node) ∈ sketch.drawn
  distinct : (sketch.drawn.map Prod.fst).Nodup

theorem depicts_empty (arena : Arena) : Sketch.empty.Depicts arena [] :=
  ⟨sound_empty, rfl, nofun, nofun, nofun, .nil⟩

theorem nodes_connect (graph : Graph) (node position : Nat) (children : List Nat) :
    (connect graph node position children).nodes = graph.nodes := by
  induction children generalizing graph position with
  | nil => rfl
  | cons child rest inductionHypothesis =>
    rw [connect, inductionHypothesis]

theorem edges_connect (graph : Graph) (node position : Nat) (children : List Nat) :
    (connect graph node position children).edges.toList =
      graph.edges.toList ++ Graph.fan node position children := by
  induction children generalizing graph position with
  | nil => exact (List.append_nil _).symm
  | cons child rest inductionHypothesis =>
    rw [connect, inductionHypothesis, Array.toList_push, List.append_assoc]
    rfl

theorem not_mem_drawn_of_drawn? {name : String} {body : ExprId}
    (unknown : sketch.drawn? id (.var name body) = none) : id ∉ sketch.drawn.map Prod.fst := by
  intro member
  obtain ⟨item, inDrawn, rfl⟩ := List.mem_map.mp member
  have different := List.lookup_eq_none_iff.mp unknown item inDrawn
  exact absurd different (by simp)

/-- What a node is placed with stays what it was: its node and its edges come after all others. -/
theorem place_graph (sound : sketch.Sound)
    (placed : sketch.place id expr children = (node, after)) :
    after.graph.nodes = sketch.graph.nodes.push ⟨expr.label, expr.nodeKind⟩ ∧
      after.graph.edges.toList =
        sketch.graph.edges.toList ++ Graph.fan sketch.graph.size 0 children ∧
      (∀ other < sketch.graph.size,
        (after.graph.edges.toList.filter fun edge => edge.source = other) =
          sketch.graph.edges.toList.filter fun edge => edge.source = other) ∧
      (after.graph.edges.toList.filter fun edge => edge.source = sketch.graph.size) =
        Graph.fan sketch.graph.size 0 children := by
  obtain ⟨rfl, graph, _⟩ := place_eq placed
  have edges : after.graph.edges.toList =
      sketch.graph.edges.toList ++ Graph.fan sketch.graph.size 0 children := by
    rw [graph, edges_connect]
    rfl
  refine ⟨?_, edges, fun other bound => ?_, ?_⟩
  · rw [graph, nodes_connect]
    rfl
  · have none : (Graph.fan sketch.graph.size 0 children).filter (fun edge => edge.source = other) =
        [] := by
      refine List.filter_eq_nil_iff.mpr fun edge member same => ?_
      have source := Graph.source_of_mem_fan edge member
      have equal := of_decide_eq_true same
      omega
    rw [edges, List.filter_append, none, List.append_nil]
  · have none : sketch.graph.edges.toList.filter (fun edge => edge.source = sketch.graph.size) =
        [] := by
      refine List.filter_eq_nil_iff.mpr fun edge member same => ?_
      have source := (sound.down edge (Array.mem_toList_iff.mp member)).1
      have equal := of_decide_eq_true same
      omega
    have all : (Graph.fan sketch.graph.size 0 children).filter
        (fun edge => edge.source = sketch.graph.size) = Graph.fan sketch.graph.size 0 children :=
      List.filter_eq_self.mpr fun edge member =>
        decide_eq_true (Graph.source_of_mem_fan edge member)
    rw [edges, List.filter_append, none, all, List.nil_append]

/-- A node above nodes that depict the expressions directly below depicts the expression. A variable
must not have been drawn before. -/
theorem Depicts.place (depicts : sketch.Depicts arena shown) (found : arena.get? id = some expr)
    (fresh : ∀ name body, expr = .var name body → id ∉ sketch.drawn.map Prod.fst)
    (below : ShowAll shown children expr.children)
    (placed : sketch.place id expr children = (node, after)) :
    after.Depicts arena (shown ++ [id]) ∧ node = shown.length := by
  have bound : ∀ child ∈ children, child < sketch.graph.size := by
    rw [depicts.size]
    exact below.lt_length
  have extended := place_extended depicts.sound bound placed
  obtain ⟨nodes, edges, earlier, last⟩ := place_graph depicts.sound placed
  obtain ⟨rfl, _, drawn⟩ := place_eq placed
  have concat : ∀ {node other : Nat}, (shown ++ [id])[node]? = some other ↔
      shown[node]? = some other ∨ node = sketch.graph.size ∧ id = other := fun {node other} => by
    rw [getElem?_concat_iff, depicts.size]
  refine ⟨⟨extended.sound, ?_, fun node other same => ?_, fun item member => ?_,
    fun node other name body same isVariable => ?_, ?_⟩, depicts.size⟩
  · rw [Graph.size, nodes, Array.size_push, List.length_append, ← depicts.size]
    rfl
  · rcases concat.mp same with old | ⟨rfl, rfl⟩
    · obtain ⟨expr, lower, found, label, fan, below⟩ := depicts.node node other old
      have inGraph : node < sketch.graph.size :=
        depicts.size ▸ (List.getElem?_eq_some_iff.mp old).1
      refine ⟨expr, lower, found, ?_, (earlier node inGraph).trans fan, below.append [id]⟩
      rw [nodes, Array.getElem?_push]
      exact (if_neg (Nat.ne_of_lt inGraph)).trans label
    · refine ⟨expr, children, found, ?_, last, below.append [id]⟩
      rw [nodes, Array.getElem?_push]
      exact if_pos rfl
  · rcases drawn with ⟨same, _⟩ | ⟨cons, _⟩
    · exact concat.mpr (.inl (depicts.remembered item (same ▸ member)))
    · rw [cons] at member
      rcases List.mem_cons.mp member with rfl | inDrawn
      · exact concat.mpr (.inr ⟨rfl, rfl⟩)
      · exact concat.mpr (.inl (depicts.remembered item inDrawn))
  · rcases concat.mp same with old | ⟨rfl, rfl⟩
    · have member := depicts.drawn node other name body old isVariable
      rcases drawn with ⟨same, _⟩ | ⟨cons, _⟩
      · exact same ▸ member
      · exact cons ▸ List.mem_cons_of_mem _ member
    · rcases drawn with ⟨_, other⟩ | ⟨cons, _⟩
      · exact absurd (Option.some.inj (found.symm.trans isVariable)) (other name body)
      · exact cons ▸ List.mem_cons_self
  · rcases drawn with ⟨same, _⟩ | ⟨cons, name, body, isVariable⟩
    · exact same ▸ depicts.distinct
    · rw [cons]
      exact List.nodup_cons.mpr ⟨fresh name body isVariable, depicts.distinct⟩

/-! ### The walk -/

/-- What drawing some expressions adds. Each new node is that of one of the expressions, or an edge
leads to it; and none of the expressions that the walk is inside of is drawn. -/
structure Adds (arena : Arena) (inside ids : List ExprId) (shown more : List ExprId)
    (sketch after : Sketch) (nodes : List Nat) : Prop where
  depicts : after.Depicts arena (shown ++ more)
  made : ShowAll (shown ++ more) nodes ids
  outside : ∀ item ∈ after.drawn, item ∈ sketch.drawn ∨ item.1 ∉ inside
  edges : ∀ edge ∈ sketch.graph.edges, edge ∈ after.graph.edges
  joined : ∀ node < after.graph.size, sketch.graph.size ≤ node →
    node ∈ nodes ∨ ∃ edge ∈ after.graph.edges, edge.target = node

theorem Adds.nil (depicts : sketch.Depicts arena shown) :
    Adds arena inside [] shown [] sketch sketch [] where
  depicts := (List.append_nil shown).symm ▸ depicts
  made := .nil
  outside _ member := .inl member
  edges _ member := member
  joined _ less greater := absurd less (Nat.not_lt_of_le greater)

/-- A variable that has been drawn adds nothing. -/
theorem Adds.known (depicts : sketch.Depicts arena shown) (member : (id, node) ∈ sketch.drawn) :
    Adds arena inside [id] shown [] sketch sketch [node] := by
  have none : Adds arena inside [] shown [] sketch sketch [] := .nil depicts
  refine { none with made := .cons ?_ .nil, joined := ?_ }
  · rw [List.append_nil]
    exact depicts.remembered _ member
  · exact fun _ less greater => absurd less (Nat.not_lt_of_le greater)

/-- An expression is drawn above the expressions directly below it. -/
theorem Adds.place
    (adds : Adds arena (id :: inside) expr.children shown more sketch between children)
    (found : arena.get? id = some expr) (unknown : sketch.drawn? id expr = none)
    (outside : id ∉ inside) (placed : between.place id expr children = (node, after)) :
    Adds arena inside [id] shown (more ++ [id]) sketch after [node] := by
  have fresh : ∀ name body, expr = .var name body → id ∉ between.drawn.map Prod.fst := by
    rintro name body rfl member
    obtain ⟨item, inDrawn, rfl⟩ := List.mem_map.mp member
    rcases adds.outside item inDrawn with before | notInside
    · exact not_mem_drawn_of_drawn? unknown (List.mem_map_of_mem before)
    · exact notInside List.mem_cons_self
  obtain ⟨depicts, last⟩ := adds.depicts.place found fresh adds.made placed
  obtain ⟨_, edges, _, _⟩ := place_graph adds.depicts.sound placed
  obtain ⟨number, _, drawn⟩ := place_eq placed
  have stays : ∀ edge ∈ between.graph.edges, edge ∈ after.graph.edges := fun edge member =>
    Array.mem_toList_iff.mp (edges ▸ List.mem_append_left _ (Array.mem_toList_iff.mpr member))
  have size := depicts.size
  rw [List.append_assoc] at depicts
  refine ⟨depicts, .cons ?_ .nil, fun item member => ?_, fun edge member =>
    stays edge (adds.edges edge member), fun other less greater => ?_⟩
  · rw [last, ← List.append_assoc, List.getElem?_concat_length]
  · have old : item ∈ between.drawn → item ∈ sketch.drawn ∨ item.1 ∉ inside := fun inDrawn =>
      (adds.outside item inDrawn).imp_right fun notInside inInside =>
        notInside (List.mem_cons_of_mem _ inInside)
    rcases drawn with ⟨same, _⟩ | ⟨cons, _⟩
    · exact old (same ▸ member)
    · rw [cons] at member
      rcases List.mem_cons.mp member with rfl | inDrawn
      · exact .inr outside
      · exact old inDrawn
  · rw [size, List.length_append, ← adds.depicts.size, ← number] at less
    rcases Nat.lt_or_eq_of_le (Nat.lt_succ_iff.mp less) with earlier | same
    · refine .inr ?_
      rcases adds.joined other (number ▸ earlier) greater with inChildren | ⟨edge, member, target⟩
      · rw [← Graph.map_target_fan between.graph.size 0 children] at inChildren
        obtain ⟨edge, inFan, target⟩ := List.mem_map.mp inChildren
        exact ⟨edge, Array.mem_toList_iff.mp (edges ▸ List.mem_append_right _ inFan), target⟩
      · exact ⟨edge, stays edge member, target⟩
    · exact .inl (same ▸ List.mem_cons_self)

theorem Adds.cons {further : List ExprId}
    (first : Adds arena inside [id] shown more sketch between [node])
    (rest : Adds arena inside ids (shown ++ more) further between after nodes) :
    Adds arena inside (id :: ids) shown (more ++ further) sketch after (node :: nodes) := by
  obtain ⟨_, made, outside, edges, joined⟩ := first
  obtain ⟨depicts, madeAfter, outsideAfter, edgesAfter, joinedAfter⟩ := rest
  cases made with
  | cons here =>
    rw [List.append_assoc] at depicts madeAfter
    refine ⟨depicts, .cons ?_ madeAfter, fun item member => ?_, fun edge member =>
      edgesAfter edge (edges edge member), fun other less greater => ?_⟩
    · have bound := (List.getElem?_eq_some_iff.mp here).1
      rw [← List.append_assoc, List.getElem?_append_left bound, here]
    · rcases outsideAfter item member with inBetween | notInside
      · exact outside item inBetween
      · exact .inr notInside
    · rcases Nat.lt_or_ge other between.graph.size with earlier | later
      · rcases joined other earlier greater with same | ⟨edge, member, target⟩
        · exact .inl (List.mem_singleton.mp same ▸ List.mem_cons_self)
        · exact .inr ⟨edge, edgesAfter edge member, target⟩
      · exact (joinedAfter other less later).imp_left (List.mem_cons_of_mem _)

mutual
theorem draw_adds (arena : Arena) (inside shown : List ExprId) (id : ExprId) (sketch : Sketch)
    {node : Nat} {after : Sketch} (drawn : draw arena inside id sketch = .ok (node, after))
    (depicts : sketch.Depicts arena shown) :
    ∃ more, Adds arena inside [id] shown more sketch after [node] := by
  obtain ⟨expr, found, ⟨known, same⟩ | ⟨children, between, unknown, outside, all, placed⟩⟩ :=
    draw_eq_ok drawn
  · rw [same]
    exact ⟨[], Adds.known depicts (mem_drawn_of_drawn? known)⟩
  · obtain ⟨more, adds⟩ := drawAll_adds arena (id :: inside) shown expr.children sketch all depicts
    exact ⟨more ++ [id], adds.place found unknown outside placed⟩
termination_by (unvisited arena inside, 0)
decreasing_by exact Prod.Lex.left _ _ (unvisited_cons_lt found outside)

/-- Drawing expressions from left to right adds their nodes. -/
theorem drawAll_adds (arena : Arena) (inside shown ids : List ExprId) (sketch : Sketch)
    {nodes : List Nat} {after : Sketch}
    (drawn : drawAll arena inside ids sketch = .ok (nodes, after))
    (depicts : sketch.Depicts arena shown) :
    ∃ more, Adds arena inside ids shown more sketch after nodes := by
  match ids, drawn with
  | [], drawn =>
    obtain ⟨rfl, rfl⟩ := drawAll_nil_eq_ok drawn
    exact ⟨[], Adds.nil depicts⟩
  | id :: rest, drawn =>
    obtain ⟨node, between, others, first, all, rfl⟩ := drawAll_cons_eq_ok drawn
    obtain ⟨more, here⟩ := draw_adds arena inside shown id sketch first depicts
    obtain ⟨further, later⟩ :=
      drawAll_adds arena inside (shown ++ more) rest between all here.depicts
    exact ⟨more ++ further, here.cons later⟩
termination_by (unvisited arena inside, ids.length + 1)
decreasing_by
  · exact Prod.Lex.right _ (Nat.succ_pos _)
  · exact Prod.Lex.right _ (Nat.lt_succ_self _)
end

end Sketch

/-! ### Diagrams -/

/-- The nodes of a diagram depict the expressions of a program. Every node but the root hangs below
a node that was added later, and no two nodes depict one variable. -/
structure Diagram.Depicts (program : Program) (shown : List ExprId) (diagram : Diagram) : Prop where
  size : diagram.graph.size = shown.length
  root : shown[diagram.root]? = some program.root
  node : ∀ (node : Nat) (id : ExprId), shown[node]? = some id → ∃ expr nodes,
    program.arena.get? id = some expr ∧
    diagram.graph.nodes[node]? = some ⟨expr.label, expr.nodeKind⟩ ∧
    diagram.graph.childLists[node]? = some nodes ∧ ShowAll shown nodes expr.children
  joined : ∀ node < diagram.graph.size, node ≠ diagram.root →
    ∃ upper, node < upper ∧ upper < diagram.graph.size ∧ Step diagram.graph.childLists upper node
  shared : ∀ (first second : Nat) (id : ExprId) name body, shown[first]? = some id →
    shown[second]? = some id → program.arena.get? id = some (.var name body) → first = second

theorem Diagram.ofProgram_depicts {program : Program} {diagram : Diagram}
    (drawn : Diagram.ofProgram program = .ok diagram) :
    ∃ shown, diagram.Depicts program shown := by
  obtain ⟨⟨root, sketch⟩, walk, same⟩ := Except.bind_eq_ok drawn
  cases same
  obtain ⟨shown, adds⟩ := Sketch.draw_adds program.arena [] [] program.root Sketch.empty walk
    (Sketch.depicts_empty program.arena)
  obtain ⟨depicts, made, _, _, joined⟩ := adds
  rw [List.nil_append] at depicts made
  refine ⟨shown, depicts.size, ?_, fun node id found => ?_, fun node bound other => ?_,
    fun first second id name body foundFirst foundSecond isVariable => ?_⟩
  · cases made with
    | cons here => exact here
  · obtain ⟨expr, nodes, stored, label, fan, below⟩ := depicts.node node id found
    have bound : node < sketch.graph.size :=
      depicts.size ▸ (List.getElem?_eq_some_iff.mp found).1
    exact ⟨expr, nodes, stored, label, Graph.getElem?_childLists_of_fan bound fan, below⟩
  · obtain ⟨edge, member, rfl⟩ := (joined node bound (Nat.zero_le _)).resolve_left fun isRoot =>
      other (List.mem_singleton.mp isRoot)
    obtain ⟨source, _, lower⟩ := depicts.sound.down edge member
    exact ⟨edge.source, lower, source,
      Graph.step_childLists_iff.mpr ⟨source, edge, member, rfl, rfl⟩⟩
  · have inFirst := depicts.drawn first id name body foundFirst isVariable
    have inSecond := depicts.drawn second id name body foundSecond isVariable
    exact congrArg Prod.snd (List.inj_on_of_nodup_map depicts.distinct inFirst inSecond rfl)

namespace Diagram.Depicts

variable {program : Program} {diagram : Diagram} {child : Nat}

/-! ### Reaching nodes and expressions -/

theorem bound (depicts : diagram.Depicts program shown) (found : shown[node]? = some id) :
    node < diagram.graph.size :=
  depicts.size ▸ (List.getElem?_eq_some_iff.mp found).1

/-- A step between nodes is one between their expressions. -/
theorem holds_of_step (depicts : diagram.Depicts program shown) (found : shown[node]? = some id)
    (step : Step diagram.graph.childLists node child) :
    ∃ other, shown[child]? = some other ∧ program.arena.Holds id other := by
  obtain ⟨expr, nodes, stored, _, listed, below⟩ := depicts.node node id found
  obtain ⟨others, listedOthers, member⟩ := step
  obtain rfl := Option.some.inj (listed.symm.trans listedOthers)
  obtain ⟨index, here⟩ := List.getElem?_of_mem member
  obtain ⟨other, inChildren, shownChild⟩ := below.exists_right here
  exact ⟨other, shownChild, expr, stored, List.mem_of_getElem? inChildren⟩

/-- A step between expressions is one between nodes. -/
theorem step_of_holds (depicts : diagram.Depicts program shown) (found : shown[node]? = some id)
    {other : ExprId} (holds : program.arena.Holds id other) :
    ∃ child, shown[child]? = some other ∧ Step diagram.graph.childLists node child := by
  obtain ⟨expr, nodes, stored, _, listed, below⟩ := depicts.node node id found
  obtain ⟨same, storedSame, member⟩ := holds
  obtain rfl := Option.some.inj (stored.symm.trans storedSame)
  obtain ⟨index, here⟩ := List.getElem?_of_mem member
  obtain ⟨child, inNodes, shownChild⟩ := below.exists_left here
  exact ⟨child, shownChild, nodes, listed, List.mem_of_getElem? inNodes⟩

/-- Every node can be reached from the root: going up leads to nodes that were added later. -/
theorem reaches (depicts : diagram.Depicts program shown) (bound : node < diagram.graph.size) :
    ReflTransGen (Step diagram.graph.childLists) diagram.root node := by
  induction later : diagram.graph.size - node using Nat.strongRecOn generalizing node with
  | ind later inductionHypothesis =>
    by_cases atRoot : node = diagram.root
    · rw [atRoot]
    · obtain ⟨upper, above, upperBound, step⟩ := depicts.joined node bound atRoot
      exact (inductionHypothesis _ (by omega) upperBound rfl).tail step

theorem shown_of_reaches (depicts : diagram.Depicts program shown)
    (reaches : ReflTransGen (Step diagram.graph.childLists) diagram.root node) :
    ∃ id, shown[node]? = some id ∧ ReflTransGen program.arena.Holds program.root id := by
  induction reaches with
  | refl => exact ⟨program.root, depicts.root, .refl⟩
  | tail _ step inductionHypothesis =>
    obtain ⟨id, found, reached⟩ := inductionHypothesis
    obtain ⟨other, foundOther, holds⟩ := depicts.holds_of_step found step
    exact ⟨other, foundOther, reached.tail holds⟩

theorem mem_of_reached (depicts : diagram.Depicts program shown)
    (reached : ReflTransGen program.arena.Holds program.root id) :
    ∃ node : Nat, shown[node]? = some id := by
  induction reached with
  | refl => exact ⟨_, depicts.root⟩
  | tail _ holds inductionHypothesis =>
    obtain ⟨node, found⟩ := inductionHypothesis
    obtain ⟨child, foundChild, _⟩ := depicts.step_of_holds found holds
    exact ⟨child, foundChild⟩

/-- The expressions that are depicted are those that can be reached from the root. -/
theorem mem_iff (depicts : diagram.Depicts program shown) :
    id ∈ shown ↔ ReflTransGen program.arena.Holds program.root id := by
  constructor
  · intro member
    obtain ⟨node, found⟩ := List.getElem?_of_mem member
    obtain ⟨same, foundSame, reached⟩ :=
      depicts.shown_of_reaches (depicts.reaches (depicts.bound found))
    exact Option.some.inj (foundSame.symm.trans found) ▸ reached
  · intro reached
    obtain ⟨node, found⟩ := depicts.mem_of_reached reached
    exact List.mem_of_getElem? found

/-! ### One node for each expression -/

/-- A node other than the root hangs below one whose expression uses its own. -/
theorem exists_user (depicts : diagram.Depicts program shown) (found : shown[node]? = some id)
    (other : node ≠ diagram.root) :
    ∃ upper user, node < upper ∧ shown[upper]? = some user ∧
      Step diagram.graph.childLists upper node ∧ program.arena.Holds user id := by
  obtain ⟨upper, above, bound, step⟩ := depicts.joined node (depicts.bound found) other
  obtain ⟨user, foundUser, _⟩ := depicts.shown_of_reaches (depicts.reaches bound)
  obtain ⟨same, foundSame, holds⟩ := depicts.holds_of_step foundUser step
  obtain rfl := Option.some.inj (found.symm.trans foundSame)
  exact ⟨upper, user, above, foundUser, step, holds⟩

/-- Below one node, an expression that is used once has one node. -/
theorem unique_below (depicts : diagram.Depicts program shown)
    (once : program.arena.uses.count id ≤ 1) {first second : Nat}
    (foundFirst : shown[first]? = some id) (foundSecond : shown[second]? = some id)
    (stepFirst : Step diagram.graph.childLists node first)
    (stepSecond : Step diagram.graph.childLists node second) : first = second := by
  obtain ⟨nodes, listed, inNodes⟩ := stepFirst
  obtain ⟨others, listedOthers, inOthers⟩ := stepSecond
  obtain rfl := Option.some.inj (listed.symm.trans listedOthers)
  have bound : node < shown.length := by
    rw [← depicts.size, ← diagram.graph.size_childLists]
    exact (Array.getElem?_eq_some_iff.mp listed).1
  obtain ⟨expr, same, stored, _, listedSame, below⟩ :=
    depicts.node node _ (List.getElem?_eq_getElem bound)
  obtain rfl := Option.some.inj (listed.symm.trans listedSame)
  obtain ⟨firstIndex, firstHere⟩ := List.getElem?_of_mem inNodes
  obtain ⟨secondIndex, secondHere⟩ := List.getElem?_of_mem inOthers
  obtain ⟨firstId, firstUse, firstShown⟩ := below.exists_right firstHere
  obtain ⟨secondId, secondUse, secondShown⟩ := below.exists_right secondHere
  obtain rfl := Option.some.inj (foundFirst.symm.trans firstShown)
  obtain rfl := Option.some.inj (foundSecond.symm.trans secondShown)
  obtain rfl := index_eq_of_count_le_one
    (Nat.le_trans ((Arena.children_sublist_uses stored).count_le _) once) firstUse secondUse
  exact Option.some.inj (firstHere.symm.trans secondHere)

/-- Two nodes of one expression are one node: they hang below nodes of one expression, at the only
place where it is used. The induction goes up, to nodes that were added later. -/
theorem unique (depicts : diagram.Depicts program shown)
    (tidy : program.arena.Tidy program.bindings [program.root]) {first second : Nat}
    (foundFirst : shown[first]? = some id) (foundSecond : shown[second]? = some id) :
    first = second := by
  induction later : diagram.graph.size - first using Nat.strongRecOn
    generalizing first second id with
  | ind later inductionHypothesis =>
    by_cases named : ∃ name, program.bindings.lookup? name = some id
    · obtain ⟨name, named⟩ := named
      obtain ⟨body, isVariable⟩ := (tidy.named name id).mp named
      exact depicts.shared first second id name body foundFirst foundSecond isVariable
    · have once := tidy.once id fun name same => named ⟨name, same⟩
      rw [List.singleton_append, List.count_cons] at once
      have onlyRoot : shown[diagram.root]? = some id → ∀ node : Nat, shown[node]? = some id →
          node = diagram.root := by
        intro foundRoot node found
        by_contra other
        obtain ⟨_, user, _, _, _, holds⟩ := depicts.exists_user found other
        have used := List.count_pos_iff.mpr (Arena.mem_uses_iff.mpr ⟨user, holds⟩)
        obtain rfl := Option.some.inj (depicts.root.symm.trans foundRoot)
        rw [if_pos (beq_self_eq_true _)] at once
        omega
      by_cases firstRoot : first = diagram.root
      · rw [firstRoot, onlyRoot (firstRoot ▸ foundFirst) second foundSecond]
      by_cases secondRoot : second = diagram.root
      · rw [secondRoot, onlyRoot (secondRoot ▸ foundSecond) first foundFirst]
      obtain ⟨upper, user, above, foundUser, step, holds⟩ :=
        depicts.exists_user foundFirst firstRoot
      obtain ⟨other, otherUser, _, foundOther, stepOther, holdsOther⟩ :=
        depicts.exists_user foundSecond secondRoot
      have usedOnce : program.arena.uses.count id ≤ 1 := Nat.le_of_add_right_le once
      obtain rfl := Arena.eq_of_holds usedOnce holds holdsOther
      have upperBound := depicts.bound foundUser
      obtain rfl := inductionHypothesis _ (by omega) foundUser foundOther rfl
      exact depicts.unique_below usedOnce foundFirst foundSecond step stepOther

/-- In a tidy program no expression is depicted twice. -/
theorem nodup (depicts : diagram.Depicts program shown)
    (tidy : program.arena.Tidy program.bindings [program.root]) : shown.Nodup := by
  refine List.nodup_iff_getElem?_ne_getElem?.mpr fun first second less bound same => ?_
  have found := List.getElem?_eq_getElem bound
  exact Nat.ne_of_lt less (depicts.unique tidy (same.trans found) found)

end Diagram.Depicts

end ExprDiagram
