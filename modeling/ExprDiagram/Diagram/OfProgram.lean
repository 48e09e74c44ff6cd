/-
This file draws a program as a diagram. Each occurrence of a call or a word becomes a node of its
own. A defined name becomes one node, above its body, and every use of the name leads to that node;
this is how a node comes to have several parents. A node is added after the nodes below it, the
arguments from left to right, and the edges to its children follow it at once.

An expression that contains itself has no diagram. The walk keeps the expressions it is inside of,
and each step down adds one that was not among them, so that the walk ends.
-/

import ExprDiagram.Diagram.Basic
import ExprDiagram.Diagram.Error
import ExprDiagram.Program.Scope

namespace ExprDiagram

/-- The kind of node for an expression. -/
def Expr.nodeKind : Expr → NodeKind
  | call _ _ => .call
  | primitive _ .symbol => .symbol
  | primitive _ .number => .number
  | var _ _ => .var

/-- A diagram in the making. -/
structure Sketch where
  graph : Graph
  /-- The variables that have been drawn, each with its node, the latest first. -/
  drawn : List (ExprId × Nat)

namespace Sketch

/-- The sketch without nodes. -/
def empty : Sketch := ⟨.empty, []⟩

/-- Adds edges from a node to its children, whose positions begin at the given one. -/
def connect (graph : Graph) (node : Nat) : Nat → List Nat → Graph
  | _, [] => graph
  | position, child :: rest =>
    connect { graph with edges := graph.edges.push ⟨node, child, position⟩ } node
      (position + 1) rest

/-- Adds the node of an expression above the nodes of its children, and remembers it if the
expression is a variable. -/
def place (sketch : Sketch) (id : ExprId) (expr : Expr) (children : List Nat) : Nat × Sketch :=
  let (node, graph) := sketch.graph.addNode ⟨expr.label, expr.nodeKind⟩
  let graph := connect graph node 0 children
  match expr with
  | .var _ _ => (node, ⟨graph, (id, node) :: sketch.drawn⟩)
  | _ => (node, ⟨graph, sketch.drawn⟩)

/-- The node of a variable that has been drawn. Only variables are shared. -/
def drawn? (sketch : Sketch) (id : ExprId) : Expr → Option Nat
  | .var _ _ => sketch.drawn.lookup id
  | _ => none

/-- The number of expressions of an arena outside a list: the steps down that are left. -/
def unvisited (arena : Arena) (inside : List ExprId) : Nat :=
  (List.range arena.size).countP fun id => !inside.contains id

theorem unvisited_cons_lt {arena : Arena} {inside : List ExprId} {id : ExprId} {expr : Expr}
    (found : arena.get? id = some expr) (outside : id ∉ inside) :
    unvisited arena (id :: inside) < unvisited arena inside := by
  have bound : id < arena.size := by
    unfold Arena.get? at found
    exact (Array.getElem?_eq_some_iff.mp found).1
  have member : id ∈ List.range arena.size := List.mem_range.mpr bound
  unfold unvisited
  have weaker : ∀ (ids : List ExprId),
      ids.countP (fun other => !(id :: inside).contains other) ≤
        ids.countP (fun other => !inside.contains other) := by
    intro ids
    apply List.countP_mono_left
    intro other _ fresh
    simp_all
  have stronger : ∀ (ids : List ExprId), id ∈ ids →
      ids.countP (fun other => !(id :: inside).contains other) <
        ids.countP (fun other => !inside.contains other) := by
    intro ids
    induction ids with
    | nil => intro impossible; cases impossible
    | cons head rest inductionHypothesis =>
      intro member
      rw [List.countP_cons, List.countP_cons]
      by_cases same : head = id
      · subst same
        have rest_le := weaker rest
        simp [outside] at rest_le ⊢
        omega
      · have inRest : id ∈ rest := by
          rcases List.mem_cons.mp member with equal | inRest
          · exact absurd equal.symm same
          · exact inRest
        have rest_lt := inductionHypothesis inRest
        simp [same] at rest_lt ⊢
        omega
  exact stronger _ member

mutual
/-- Draws an expression inside the given ones, and gives its node. -/
def draw (arena : Arena) (inside : List ExprId) (id : ExprId) (sketch : Sketch) :
    Except DrawError (Nat × Sketch) :=
  match _found : arena.get? id with
  | none => .error .outOfRange
  | some expr =>
    match sketch.drawn? id expr with
    | some node => .ok (node, sketch)
    | none =>
      if _circle : id ∈ inside then .error (.cyclicExpression expr.label)
      else do
        let (children, sketch) ← drawAll arena (id :: inside) expr.children sketch
        return sketch.place id expr children
termination_by (unvisited arena inside, 0)
decreasing_by exact Prod.Lex.left _ _ (unvisited_cons_lt _found _circle)

/-- Draws expressions from left to right, and gives their nodes. -/
def drawAll (arena : Arena) (inside : List ExprId) (ids : List ExprId) (sketch : Sketch) :
    Except DrawError (List Nat × Sketch) :=
  match ids with
  | [] => .ok ([], sketch)
  | id :: rest => do
    let (node, sketch) ← draw arena inside id sketch
    let (nodes, sketch) ← drawAll arena inside rest sketch
    return (node :: nodes, sketch)
termination_by (unvisited arena inside, ids.length + 1)
decreasing_by
  · exact Prod.Lex.right _ (Nat.succ_pos _)
  · exact Prod.Lex.right _ (Nat.lt_succ_self _)
end

end Sketch

/-- The diagram of a program. -/
def Diagram.ofProgram (program : Program) : Except DrawError Diagram := do
  let (root, sketch) ← Sketch.empty.draw program.arena [] program.root
  return ⟨sketch.graph, root⟩

/-- The number of defined names that a diagram shows. -/
def Diagram.sharedCount (diagram : Diagram) : Nat :=
  diagram.graph.nodes.countP (·.kind == .var)

end ExprDiagram
