/-
This file holds diagrams: labelled nodes joined by directed edges, one of them the root. Nodes are
numbered from zero in the order in which they were added, and each edge knows the argument position
of its target below its source. A diagram whose edges name only nodes that exist is made by adding
nodes and then edges; an edge to a node that does not exist is refused.
-/

namespace ExprDiagram

/-- What a node was made from. -/
inductive NodeKind where
  | call
  | symbol
  | number
  /-- A defined name. -/
  | var
  deriving DecidableEq

/-- The word for each kind. -/
def NodeKind.text : NodeKind → String
  | call => "call"
  | symbol => "symbol"
  | number => "number"
  | var => "variable"

/-- What a node shows. -/
structure Node where
  label : String
  kind : NodeKind
  deriving DecidableEq

/-- An edge between two nodes, given by their numbers. -/
structure Edge where
  source : Nat
  target : Nat
  /-- The argument position of the target below the source. -/
  position : Nat
  deriving DecidableEq

/-- Nodes and edges in the order in which they were added. -/
structure Graph where
  nodes : Array Node
  edges : Array Edge
  deriving DecidableEq

namespace Graph

/-- The graph without nodes. -/
def empty : Graph := ⟨#[], #[]⟩

/-- The number of nodes. -/
def size (graph : Graph) : Nat := graph.nodes.size

/-- Adds a node and gives its number. -/
def addNode (graph : Graph) (node : Node) : Nat × Graph :=
  (graph.size, { graph with nodes := graph.nodes.push node })

/-- Adds an edge, if both its ends exist. -/
def addEdge? (graph : Graph) (edge : Edge) : Option Graph :=
  if edge.source < graph.size ∧ edge.target < graph.size then
    some { graph with edges := graph.edges.push edge }
  else none

/-- The number of edges that end at a node. -/
def inDegree (graph : Graph) (node : Nat) : Nat :=
  graph.edges.countP (·.target == node)

/-- The edges that leave each node, the latest first. -/
def outgoing (graph : Graph) : Array (List Edge) :=
  graph.edges.foldl (fun lists edge => lists.modify edge.source (edge :: ·))
    (Array.replicate graph.size [])

/-- The children of each node in the order of their positions. Children of equal position come in
the reverse of the order in which their edges were added. -/
def childLists (graph : Graph) : Array (List Nat) :=
  graph.outgoing.map fun edges =>
    (edges.mergeSort (fun first second => first.position ≤ second.position)).map Edge.target

end Graph

/-- A graph with one of its nodes as the root. -/
structure Diagram where
  graph : Graph
  root : Nat
  deriving DecidableEq

/-- The diagram of the given nodes, edges and root, if every edge joins two of the nodes. -/
def Diagram.ofLists? (nodes : List Node) (edges : List Edge) (root : Nat) : Option Diagram := do
  let graph ← edges.foldlM Graph.addEdge? ⟨nodes.toArray, #[]⟩
  return ⟨graph, root⟩

end ExprDiagram
