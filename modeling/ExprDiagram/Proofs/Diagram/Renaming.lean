/-
This file follows two programs of which one holds the expressions of the other under new numbers and
with new labels. The walks that draw them go side by side: where one meets an expression, the other
meets its counterpart, which is remembered, or among those that the walk is inside of, if and only
if the expression is. This needs no more than that different expressions have different new numbers,
and only for the expressions that the walk can meet; what else the arenas hold, and in which order,
is of no account, and neither is whether an expression contains itself. So both walks end alike:
with diagrams that differ in their labels only, or for the same cause.
-/

import ExprDiagram.Proofs.Diagram.Sketching
import Mathlib.Data.Set.Function

namespace ExprDiagram

variable {numbers : ExprId → ExprId} {labels : String → String} {within : Set ExprId}
variable {arena other : Arena}

/-! ### New numbers and labels -/

/-- The expression with new numbers for the expressions below it. -/
def Expr.renumber (numbers : ExprId → ExprId) : Expr → Expr
  | call label arguments => call label (arguments.map numbers)
  | primitive label kind => primitive label kind
  | var label bound => var label (numbers bound)

/-- The expression with a new label. -/
def Expr.relabel (labels : String → String) : Expr → Expr
  | call label arguments => call (labels label) arguments
  | primitive label kind => primitive (labels label) kind
  | var label bound => var (labels label) bound

/-- The node with a new label. -/
def Node.relabel (labels : String → String) (node : Node) : Node :=
  ⟨labels node.label, node.kind⟩

/-- The graph with new labels. -/
def Graph.relabel (labels : String → String) (graph : Graph) : Graph :=
  ⟨graph.nodes.map (Node.relabel labels), graph.edges⟩

/-- The diagram with new labels. -/
def Diagram.relabel (labels : String → String) (diagram : Diagram) : Diagram :=
  ⟨diagram.graph.relabel labels, diagram.root⟩

/-- The cause with a new label, if it names one. -/
def DrawError.relabel (labels : String → String) : DrawError → DrawError
  | cyclicExpression label => cyclicExpression (labels label)
  | cyclicGraph => cyclicGraph
  | outOfRange => outOfRange

/-- The sketch with new labels, which remembers variables under new numbers. -/
def Sketch.rename (numbers : ExprId → ExprId) (labels : String → String) (sketch : Sketch) :
    Sketch :=
  ⟨sketch.graph.relabel labels, sketch.drawn.map (Prod.map numbers id)⟩

/-- What drawing gives, with the sketch renamed. The nodes keep their numbers. -/
def Sketch.renameAfter {β : Type} (numbers : ExprId → ExprId) (labels : String → String)
    (drawn : β × Sketch) : β × Sketch :=
  (drawn.1, drawn.2.rename numbers labels)

theorem Expr.label_relabel (labels : String → String) (expr : Expr) :
    (expr.relabel labels).label = labels expr.label := by
  cases expr <;> rfl

theorem Expr.children_relabel (labels : String → String) (expr : Expr) :
    (expr.relabel labels).children = expr.children := by
  cases expr <;> rfl

theorem Expr.nodeKind_relabel (labels : String → String) (expr : Expr) :
    (expr.relabel labels).nodeKind = expr.nodeKind := by
  rcases expr with _ | ⟨_, _ | _⟩ | _ <;> rfl

theorem Expr.label_renumber (numbers : ExprId → ExprId) (expr : Expr) :
    (expr.renumber numbers).label = expr.label := by
  cases expr <;> rfl

theorem Expr.children_renumber (numbers : ExprId → ExprId) (expr : Expr) :
    (expr.renumber numbers).children = expr.children.map numbers := by
  cases expr <;> rfl

theorem Expr.nodeKind_renumber (numbers : ExprId → ExprId) (expr : Expr) :
    (expr.renumber numbers).nodeKind = expr.nodeKind := by
  rcases expr with _ | ⟨_, _ | _⟩ | _ <;> rfl

theorem Expr.renumber_id (expr : Expr) : expr.renumber id = expr := by
  cases expr with
  | call label arguments => exact congrArg (call label) (List.map_id arguments)
  | primitive => rfl
  | var => rfl

theorem Expr.relabel_id (expr : Expr) : expr.relabel id = expr := by
  cases expr <;> rfl

theorem Diagram.relabel_id (diagram : Diagram) : diagram.relabel id = diagram := by
  have nodes : diagram.graph.nodes.map (Node.relabel id) = diagram.graph.nodes :=
    Array.map_id diagram.graph.nodes
  rw [relabel, Graph.relabel, nodes]

theorem DrawError.relabel_id (cause : DrawError) : cause.relabel id = cause := by
  cases cause <;> rfl

theorem Graph.size_relabel (labels : String → String) (graph : Graph) :
    (graph.relabel labels).size = graph.size :=
  Array.size_map

theorem Graph.addNode_relabel (labels : String → String) (graph : Graph) (node : Node) :
    (graph.relabel labels).addNode (node.relabel labels) =
      ((graph.addNode node).1, (graph.addNode node).2.relabel labels) := by
  rw [addNode, addNode, size_relabel, relabel, relabel, Array.map_push]

theorem Sketch.rename_empty (numbers : ExprId → ExprId) (labels : String → String) :
    empty.rename numbers labels = empty :=
  congrArg (Sketch.mk · []) (congrArg (Graph.mk · #[]) Array.map_empty)

/-- The other arena holds the given expressions, and with them all that are below them, under new
numbers, different ones for different expressions, and with new labels. -/
structure Arena.Renamed (arena other : Arena) (within : Set ExprId) (numbers : ExprId → ExprId)
    (labels : String → String) : Prop where
  injective : Set.InjOn numbers within
  closed : ∀ id ∈ within, ∀ child, arena.Holds id child → child ∈ within
  stored : ∀ id ∈ within, other.get? (numbers id) =
    (arena.get? id).map fun expr => (expr.renumber numbers).relabel labels

/-! ### Lists under new keys -/

theorem mem_map_key {α β : Type} {keys : α → β} {within : Set α} {items : List α} {item : α}
    (injective : Set.InjOn keys within) (inWithin : ∀ other ∈ items, other ∈ within)
    (here : item ∈ within) : keys item ∈ items.map keys ↔ item ∈ items := by
  refine ⟨fun member => ?_, List.mem_map_of_mem⟩
  obtain ⟨other, inItems, same⟩ := List.mem_map.mp member
  exact injective (inWithin other inItems) here same ▸ inItems

/-- Looking a key up gives the same under new keys, if different keys have different new ones. -/
theorem lookup_map_key {α β γ : Type} [DecidableEq α] [DecidableEq β] {keys : α → β}
    {within : Set α} {items : List (α × γ)} {key : α} (injective : Set.InjOn keys within)
    (inWithin : ∀ item ∈ items, item.1 ∈ within) (here : key ∈ within) :
    (items.map (Prod.map keys id)).lookup (keys key) = items.lookup key := by
  induction items with
  | nil => rfl
  | cons item rest inductionHypothesis =>
    obtain ⟨inFirst, inRest⟩ := List.forall_mem_cons.mp inWithin
    have same : (keys key == keys item.1) = (key == item.1) := by
      rw [Bool.eq_iff_iff, beq_iff_eq, beq_iff_eq]
      exact ⟨injective here inFirst, congrArg keys⟩
    rw [List.map_cons, Prod.map_apply', List.lookup_cons, List.lookup_cons, same,
      inductionHypothesis inRest]
    rfl

/-! ### Outcomes -/

/-- Two runs end alike if their first parts do, and what follows ends alike for every value that the
first part can have. -/
theorem Except.bind_map_mapError {ε δ α β γ η : Type} {causes : ε → δ} {values : α → β}
    {results : γ → η} {first : Except ε α} {next : α → Except ε γ} {otherNext : β → Except δ η}
    (follows : ∀ value, first = .ok value →
      otherNext (values value) = ((next value).map results).mapError causes) :
    ((first.map values).mapError causes >>= otherNext) =
      ((first >>= next).map results).mapError causes := by
  cases first with
  | error cause => rfl
  | ok value => exact follows value rfl

namespace Sketch

variable {inside ids : List ExprId} {id : ExprId} {expr : Expr}
variable {sketch after : Sketch} {node : Nat} {nodes : List Nat}

/-! ### Steps of the walk -/

theorem connect_relabel (graph : Graph) (node position : Nat) (children : List Nat) :
    connect (graph.relabel labels) node position children =
      (connect graph node position children).relabel labels := by
  induction children generalizing graph position with
  | nil => rfl
  | cons child rest inductionHypothesis =>
    rw [connect, connect, ← inductionHypothesis]
    rfl

/-- Placing the counterpart of an expression adds the same node, with a new label, and the same
edges. -/
theorem place_rename (sketch : Sketch) (id : ExprId) (expr : Expr) (children : List Nat) :
    (sketch.rename numbers labels).place (numbers id) ((expr.renumber numbers).relabel labels)
        children =
      renameAfter numbers labels (sketch.place id expr children) := by
  have node : Node.mk ((expr.renumber numbers).relabel labels).label
        ((expr.renumber numbers).relabel labels).nodeKind =
      (Node.mk expr.label expr.nodeKind).relabel labels := by
    rw [Expr.label_relabel, Expr.label_renumber, Expr.nodeKind_relabel, Expr.nodeKind_renumber]
    rfl
  simp only [place, rename, node, Graph.addNode_relabel, connect_relabel]
  cases expr <;> rfl

/-! ### What is remembered -/

/-- The variables that are remembered are among the given expressions. -/
def Remembers (within : Set ExprId) (sketch : Sketch) : Prop :=
  ∀ item ∈ sketch.drawn, item.1 ∈ within

theorem Remembers.place (remembers : sketch.Remembers within) (inWithin : id ∈ within)
    {children : List Nat} (placed : sketch.place id expr children = (node, after)) :
    after.Remembers within := by
  obtain ⟨_, _, ⟨kept, _⟩ | ⟨more, _⟩⟩ := place_eq placed
  · exact fun item member => remembers item (kept ▸ member)
  · rw [Remembers, more]
    exact List.forall_mem_cons.mpr ⟨inWithin, remembers⟩

/-- Whether a variable is remembered does not depend on the numbers, as long as different variables
have different numbers. -/
theorem drawn?_rename (injective : Set.InjOn numbers within) (remembers : sketch.Remembers within)
    (inWithin : id ∈ within) (expr : Expr) :
    (sketch.rename numbers labels).drawn? (numbers id) ((expr.renumber numbers).relabel labels) =
      sketch.drawn? id expr := by
  cases expr with
  | call => rfl
  | primitive => rfl
  | var =>
    show (sketch.drawn.map _).lookup (numbers id) = sketch.drawn.lookup id
    exact lookup_map_key injective remembers inWithin

mutual
theorem draw_remembers (renamed : arena.Renamed other within numbers labels)
    (inside : List ExprId) (id : ExprId) (sketch : Sketch) {node : Nat} {after : Sketch}
    (drawn : draw arena inside id sketch = .ok (node, after)) (inWithin : id ∈ within)
    (remembers : sketch.Remembers within) : after.Remembers within := by
  obtain ⟨expr, found, ⟨_, rfl⟩ | ⟨children, between, _, outside, all, placed⟩⟩ :=
    draw_eq_ok drawn
  · exact remembers
  · have below := drawAll_remembers renamed (id :: inside) expr.children sketch all
      (fun child member => renamed.closed id inWithin child ⟨expr, found, member⟩) remembers
    exact below.place inWithin placed
termination_by (unvisited arena inside, 0)
decreasing_by exact Prod.Lex.left _ _ (unvisited_cons_lt found outside)

/-- Drawing expressions remembers no other variables than those that can be met. -/
theorem drawAll_remembers (renamed : arena.Renamed other within numbers labels)
    (inside ids : List ExprId) (sketch : Sketch) {nodes : List Nat} {after : Sketch}
    (drawn : drawAll arena inside ids sketch = .ok (nodes, after))
    (inWithin : ∀ id ∈ ids, id ∈ within)
    (remembers : sketch.Remembers within) : after.Remembers within := by
  match ids, inWithin, drawn with
  | [], _, drawn =>
    obtain ⟨rfl, rfl⟩ := drawAll_nil_eq_ok drawn
    exact remembers
  | id :: rest, inWithin, drawn =>
    obtain ⟨here, inRest⟩ := List.forall_mem_cons.mp inWithin
    obtain ⟨node, between, others, first, all, rfl⟩ := drawAll_cons_eq_ok drawn
    exact drawAll_remembers renamed inside rest between all inRest
      (draw_remembers renamed inside id sketch first here remembers)
termination_by (unvisited arena inside, ids.length + 1)
decreasing_by
  · exact Prod.Lex.right _ (Nat.succ_pos _)
  · exact Prod.Lex.right _ (Nat.lt_succ_self _)
end

/-! ### Walks side by side -/

mutual
/-- Drawing the counterpart of an expression ends like drawing the expression. -/
theorem draw_rename (renamed : arena.Renamed other within numbers labels)
    (inside : List ExprId) (id : ExprId) (sketch : Sketch) (inWithin : id ∈ within)
    (insideWithin : ∀ outer ∈ inside, outer ∈ within) (remembers : sketch.Remembers within) :
    draw other (inside.map numbers) (numbers id) (sketch.rename numbers labels) =
      ((draw arena inside id sketch).map (renameAfter numbers labels)).mapError
        (DrawError.relabel labels) := by
  rw [draw_eq, draw_eq, renamed.stored id inWithin]
  cases found : arena.get? id with
  | none => rfl
  | some expr =>
    simp only [Option.map_some, drawn?_rename renamed.injective remembers inWithin]
    cases known : sketch.drawn? id expr with
    | some node => rfl
    | none =>
      have circle : numbers id ∈ inside.map numbers ↔ id ∈ inside :=
        mem_map_key renamed.injective insideWithin inWithin
      by_cases outside : id ∈ inside
      · rw [if_pos outside, if_pos (circle.mpr outside), Expr.label_relabel, Expr.label_renumber]
        rfl
      · rw [if_neg outside, if_neg (fun member => outside (circle.mp member)),
          Expr.children_relabel, Expr.children_renumber, ← List.map_cons,
          drawAll_rename renamed (id :: inside) expr.children sketch
            (fun child member => renamed.closed id inWithin child ⟨expr, found, member⟩)
            (List.forall_mem_cons.mpr ⟨inWithin, insideWithin⟩) remembers]
        refine Except.bind_map_mapError fun below _ => ?_
        rw [renameAfter, place_rename]
        rfl
termination_by (unvisited arena inside, 0)
decreasing_by exact Prod.Lex.left _ _ (unvisited_cons_lt found outside)

/-- The same for several expressions, drawn from left to right. -/
theorem drawAll_rename (renamed : arena.Renamed other within numbers labels)
    (inside ids : List ExprId) (sketch : Sketch) (inWithin : ∀ id ∈ ids, id ∈ within)
    (insideWithin : ∀ outer ∈ inside, outer ∈ within) (remembers : sketch.Remembers within) :
    drawAll other (inside.map numbers) (ids.map numbers) (sketch.rename numbers labels) =
      ((drawAll arena inside ids sketch).map (renameAfter numbers labels)).mapError
        (DrawError.relabel labels) := by
  match ids, inWithin with
  | [], _ =>
    rw [List.map_nil, drawAll, drawAll]
    rfl
  | id :: rest, inWithin =>
    obtain ⟨here, inRest⟩ := List.forall_mem_cons.mp inWithin
    rw [List.map_cons, drawAll_cons, drawAll_cons,
      draw_rename renamed inside id sketch here insideWithin remembers]
    refine Except.bind_map_mapError fun first drawn => ?_
    have remembersFirst := draw_remembers renamed inside id sketch drawn here remembers
    rw [renameAfter, drawAll_rename renamed inside rest first.2 inRest insideWithin remembersFirst]
    exact Except.bind_map_mapError fun others _ => rfl
termination_by (unvisited arena inside, ids.length + 1)
decreasing_by
  · exact Prod.Lex.right _ (Nat.succ_pos _)
  · exact Prod.Lex.right _ (Nat.lt_succ_self _)
end

end Sketch

/-- Where an arena holds, under new numbers and with new labels, what can be met from the root of a
program, drawing it from the counterpart of the root ends like drawing the program. -/
theorem Diagram.ofProgram_renamed {program otherProgram : Program}
    (renamed : program.arena.Renamed otherProgram.arena within numbers labels)
    (inWithin : program.root ∈ within) (root : numbers program.root = otherProgram.root) :
    Diagram.ofProgram otherProgram =
      ((Diagram.ofProgram program).map (relabel labels)).mapError (DrawError.relabel labels) := by
  have walk := Sketch.draw_rename renamed [] program.root Sketch.empty inWithin nofun nofun
  rw [Sketch.rename_empty, root, List.map_nil] at walk
  rw [ofProgram, walk]
  exact Except.bind_map_mapError fun drawn _ => rfl

end ExprDiagram
