/-
This file compares diagrams with programs by their unfoldings. A program and a graph both say what a
number stands for and which numbers stand below it; following the numbers down gives a tree, in which
nothing is shared any more. A diagram unfolds to the same tree as its program, however the expressions
of the program share their parts, and a program that has a diagram has no expression that contains
itself: every step down the program is one down the nodes, and these run out.
-/

import ExprDiagram.Proofs.Diagram.Depiction
import ExprDiagram.Proofs.Trees.Basic
import Mathlib.Data.List.Forall2

namespace ExprDiagram

open Relation

/-! ### Unfoldings -/

/-- What each number stands for, and the numbers below it in order. -/
abbrev Table := Nat → Option (Node × List Nat)

/-- The expressions of an arena, as the nodes that show them. -/
def Arena.table (arena : Arena) : Table := fun id =>
  (arena.get? id).map fun expr => (⟨expr.label, expr.nodeKind⟩, expr.children)

/-- The nodes of a graph and their children. -/
def Graph.table (graph : Graph) : Table := fun node =>
  graph.nodes[node]?.bind fun shown => graph.childLists[node]?.map fun children => (shown, children)

/-- The tree is the unfolding of a number: what the number stands for, above the unfoldings of the
numbers below it. -/
inductive Unfolds (table : Table) : Nat → RoseTree Node → Prop
  | node {id : Nat} {shown : Node} {below : List Nat} {trees : List (RoseTree Node)}
    (found : table id = some (shown, below)) (all : List.Forall₂ (Unfolds table) below trees) :
    Unfolds table id (.node shown trees)

theorem eq_of_forall₂ {α β : Type} {relation : α → β → Prop} {items : List α}
    {first second : List β} (allFirst : List.Forall₂ relation items first)
    (allSecond : List.Forall₂ relation items second)
    (unique : ∀ value ∈ first, ∀ item other,
      relation item value → relation item other → value = other) : first = second := by
  induction allFirst generalizing second with
  | nil =>
    cases allSecond
    rfl
  | cons here _ inductionHypothesis =>
    obtain ⟨uniqueHere, uniqueLater⟩ := List.forall_mem_cons.mp unique
    cases allSecond with
    | cons hereSecond allSecond =>
      rw [uniqueHere _ _ here hereSecond, inductionHypothesis allSecond uniqueLater]

theorem exists_forall₂ {α β γ : Type} {first : α → γ → Prop} {second : β → γ → Prop}
    {items : List α} {others : List β}
    (each : List.Forall₂ (fun item other => ∃ value, first item value ∧ second other value)
      items others) :
    ∃ values, List.Forall₂ first items values ∧ List.Forall₂ second others values := by
  induction each with
  | nil => exact ⟨[], .nil, .nil⟩
  | cons here _ inductionHypothesis =>
    obtain ⟨value, firstHere, secondHere⟩ := here
    obtain ⟨values, firstLater, secondLater⟩ := inductionHypothesis
    exact ⟨value :: values, .cons firstHere firstLater, .cons secondHere secondLater⟩

/-- A number has one unfolding at most. -/
theorem Unfolds.unique {table : Table} {id : Nat} {first second : RoseTree Node}
    (unfoldsFirst : Unfolds table id first) (unfoldsSecond : Unfolds table id second) :
    first = second := by
  induction first using RoseTree.induct generalizing id second with
  | node shown trees inductionHypothesis =>
    cases unfoldsFirst with
    | node found all =>
      cases unfoldsSecond with
      | node foundSecond allSecond =>
        obtain ⟨rfl, rfl⟩ := Prod.mk.inj (Option.some.inj (found.symm.trans foundSecond))
        rw [eq_of_forall₂ all allSecond fun tree member _ _ => inductionHypothesis tree member]

/-! ### Going down -/

namespace Diagram.Depicts

variable {program : Program} {diagram : Diagram} {shown : List ExprId} {node : Nat}
variable {id other : ExprId}

/-- The children of a node were added before it. -/
theorem child_lt (down : Sketch.Downward diagram.graph) {children : List Nat}
    (listed : diagram.graph.childLists[node]? = some children) : ∀ child ∈ children, child < node := by
  intro child member
  obtain ⟨_, edge, inEdges, rfl, rfl⟩ := Graph.step_childLists_iff.mp ⟨children, listed, member⟩
  exact (down edge inEdges).2.2

/-- A node and the expression that it was made from have the same unfolding. The induction is on the
number of the node. -/
theorem exists_unfolding (depicts : diagram.Depicts program shown)
    (down : Sketch.Downward diagram.graph) (found : shown[node]? = some id) :
    ∃ tree, Unfolds program.arena.table id tree ∧ Unfolds diagram.graph.table node tree := by
  induction node using Nat.strongRecOn generalizing id with
  | ind node inductionHypothesis =>
    obtain ⟨expr, children, stored, label, listed, below⟩ := depicts.node node id found
    have lower := child_lt down listed
    have each : List.Forall₂ (fun child part => ∃ tree, Unfolds diagram.graph.table child tree ∧
        Unfolds program.arena.table part tree) children expr.children := by
      refine List.Forall₂.imp (fun child part ⟨isLower, shows⟩ => ?_)
        ((List.forall₂_and_left _ _).mpr ⟨lower, below⟩)
      obtain ⟨tree, ofProgram, ofGraph⟩ := inductionHypothesis child isLower shows
      exact ⟨tree, ofGraph, ofProgram⟩
    obtain ⟨trees, ofGraph, ofProgram⟩ := exists_forall₂ each
    refine ⟨.node ⟨expr.label, expr.nodeKind⟩ trees, .node ?_ ofProgram, .node ?_ ofGraph⟩
    · simp only [Arena.table, stored, Option.map_some]
    · simp only [Graph.table, label, listed, Option.bind_some, Option.map_some]

/-- What an expression contains is shown by a node that was added before the node of the
expression. -/
theorem exists_lower (depicts : diagram.Depicts program shown)
    (down : Sketch.Downward diagram.graph) (found : shown[node]? = some id)
    (contains : TransGen program.arena.Holds id other) :
    ∃ lower < node, shown[lower]? = some other := by
  have step : ∀ {upper : Nat} {holder part : ExprId}, shown[upper]? = some holder →
      program.arena.Holds holder part → ∃ lower < upper, shown[lower]? = some part := by
    intro upper holder part shows holds
    obtain ⟨child, foundChild, children, listed, member⟩ := depicts.step_of_holds shows holds
    exact ⟨child, child_lt down listed child member, foundChild⟩
  induction contains with
  | single holds => exact step found holds
  | tail _ holds inductionHypothesis =>
    obtain ⟨between, isLower, foundBetween⟩ := inductionHypothesis
    obtain ⟨lower, below, foundLower⟩ := step foundBetween holds
    exact ⟨lower, below.trans isLower, foundLower⟩

/-- A program that has a diagram has no expression that contains itself. -/
theorem acyclic (depicts : diagram.Depicts program shown)
    (down : Sketch.Downward diagram.graph) : program.Acyclic := by
  intro id reached contains
  have none : ∀ node : Nat, shown[node]? ≠ some id := by
    intro node
    induction node using Nat.strongRecOn with
    | ind node inductionHypothesis =>
      intro found
      obtain ⟨lower, isLower, foundLower⟩ := depicts.exists_lower down found contains
      exact inductionHypothesis lower isLower foundLower
  obtain ⟨node, found⟩ := depicts.mem_of_reached reached
  exact none node found

end Diagram.Depicts

end ExprDiagram
