/-
This file shows that laying out commutes with replacing words, different ones by different ones and
the keyword by itself. Tokens with other words are parsed to the program with other words, or
refused for the cause with another name. No later stage looks at a label: the graph of the new
program has the same edges, so it has the same rows, the same tree and the same positions, and the
layouts differ in their labels only.
-/

import ExprDiagram.Proofs.Layout.Numbering
import ExprDiagram.Proofs.Meaning.Relabelling
import ExprDiagram.Proofs.Meaning.Usage

namespace ExprDiagram

variable {α : Type} {labels : String → String}

/-! ### Layouts with other labels -/

/-- The node with another label, in its place. -/
def PlacedNode.relabel (labels : String → String) (placed : PlacedNode α) : PlacedNode α :=
  { placed with label := labels placed.label }

/-- The layout with other labels. -/
def Layout.relabel (labels : String → String) (layout : Layout α) : Layout α :=
  ⟨layout.root, layout.nodes.map (PlacedNode.relabel labels)⟩

/-- The arrangement of the diagram with other labels. -/
def Arrangement.relabel (labels : String → String) (arrangement : Arrangement α) : Arrangement α :=
  { arrangement with diagram := arrangement.diagram.relabel labels }

/-! ### Arrangements -/

theorem Graph.childLists_relabel (labels : String → String) (graph : Graph) :
    (graph.relabel labels).childLists = graph.childLists := by
  rw [childLists, outgoing, size_relabel]
  rfl

theorem Graph.Closed.isAcyclic_relabel {graph : Graph} (closed : graph.Closed)
    (labels : String → String) : (graph.relabel labels).isAcyclic = graph.isAcyclic := by
  have closedToo : (graph.relabel labels).Closed := by
    rw [Closed, size_relabel]
    exact closed
  have same : (graph.relabel labels).Acyclic ↔ graph.Acyclic := acyclic_congr rfl
  exact Bool.eq_iff_iff.mpr (closedToo.isAcyclic_iff.trans (same.trans closed.isAcyclic_iff.symm))

theorem inRange_map {β : Type} (found : Option α) (change : α → β) :
    inRange (found.map change) =
      ((inRange found).map change).mapError (DrawError.relabel labels) := by
  cases found <;> rfl

theorem mapM_map_eq {β γ : Type} (run : α → Option β) (change : β → γ) (items : List α) :
    items.mapM (fun item => (run item).map change) = (items.mapM run).map (List.map change) := by
  induction items with
  | nil => rfl
  | cons item rest inductionHypothesis =>
    rw [List.mapM_cons, List.mapM_cons, inductionHypothesis]
    cases run item with
    | none => rfl
    | some result => cases rest.mapM run <;> rfl

namespace Arrangement

theorem ofDiagram_relabel [Coordinate α] (labels : String → String) {diagram : Diagram}
    (closed : diagram.graph.Closed) :
    (ofDiagram (diagram.relabel labels) : Except DrawError (Arrangement α)) =
      ((ofDiagram diagram).map (relabel labels)).mapError (DrawError.relabel labels) := by
  rw [ofDiagram, ofDiagram]
  simp only [Diagram.relabel, closed.isAcyclic_relabel, Graph.childLists_relabel]
  split
  · rw [← inRange_map]
    refine congrArg inRange ?_
    simp only [Option.bind_eq_bind, Option.pure_def, Option.map_bind, Function.comp_def,
      Option.map_some]
    rfl
  · rfl

theorem placedNode?_relabel (labels : String → String) (arrangement : Arrangement α)
    (order : List Nat) (id node : Nat) :
    (arrangement.relabel labels).placedNode? order id node =
      (arrangement.placedNode? order id node).map (PlacedNode.relabel labels) := by
  have shown : (arrangement.diagram.graph.relabel labels).nodes[node]? =
      arrangement.diagram.graph.nodes[node]?.map (Node.relabel labels) := Array.getElem?_map
  simp only [placedNode?, relabel, Diagram.relabel, shown, Option.bind_eq_bind, Option.pure_def,
    Option.map_bind, Option.bind_map, Function.comp_def, Option.map_some]
  rfl

theorem layout?_relabel (labels : String → String) (arrangement : Arrangement α) :
    (arrangement.relabel labels).layout? = arrangement.layout?.map (Layout.relabel labels) := by
  have same : (arrangement.relabel labels).order? = arrangement.order? := rfl
  rw [layout?, layout?, same]
  cases arrangement.order? with
  | none => rfl
  | some order =>
    have placed : order.zipIdx.mapM
          (fun item => (arrangement.relabel labels).placedNode? order item.2 item.1) =
        (order.zipIdx.mapM fun item => arrangement.placedNode? order item.2 item.1).map
          (List.map (PlacedNode.relabel labels)) := by
      simp only [placedNode?_relabel, mapM_map_eq]
    show (order.zipIdx.mapM fun item =>
        (arrangement.relabel labels).placedNode? order item.2 item.1) >>= _ = _
    rw [placed]
    simp only [Option.bind_eq_bind, Option.pure_def, Option.bind_map, Option.map_bind,
      Function.comp_def, Option.map_some, Layout.relabel, List.map_toArray, Option.bind_some]

end Arrangement

theorem Program.renamed_relabel (labels : String → String) (program : Program) :
    program.arena.Renamed (program.relabel labels).arena Set.univ id labels := by
  refine ⟨Function.injective_id.injOn, fun _ _ child _ => Set.mem_univ child, fun number _ => ?_⟩
  simp only [Expr.renumber_id]
  exact program.arena.get?_relabel labels number

/-- The layout of a program with other labels is its layout with other labels. -/
theorem Layout.ofProgram_relabel [Coordinate α] (labels : String → String) (program : Program) :
    (Layout.ofProgram (program.relabel labels) : Except DrawError (Layout α)) =
      ((Layout.ofProgram program).map (relabel labels)).mapError (DrawError.relabel labels) := by
  rw [ofProgram, Diagram.ofProgram_renamed (program.renamed_relabel labels)
    (Set.mem_univ program.root) rfl]
  refine Except.bind_map_mapError fun diagram drawn => ?_
  obtain ⟨down, _⟩ := Diagram.ofProgram_downward drawn
  rw [Arrangement.ofDiagram_relabel labels down.closed]
  refine Except.bind_map_mapError fun arrangement _ => ?_
  rw [Arrangement.layout?_relabel, inRange_map]

/-- Replacing words commutes with all that is done with tokens. Let different words be replaced by
different ones, and the keyword by itself. Then the tokens with other words are refused for the same
cause, at the same place, with the name in it replaced, or they are parsed to the same program with
other words; and then both programs have a layout, and the layouts differ in their labels only. -/
theorem parse_relabelled (α : Type) [Coordinate α] {labels : String → String}
    (injective : Function.Injective labels) (keyword : labels defineKeyword = defineKeyword)
    (tokens : List Token) :
    Program.parse (tokens.map (Token.relabel labels)) =
        ((Program.parse tokens).map (Program.relabel labels)).mapError
          (ParseError.relabel labels) ∧
      ∀ program, Program.parse tokens = .ok program →
        ∃ layout : Layout α, Layout.ofProgram program = .ok layout ∧
          Layout.ofProgram (program.relabel labels) = .ok (layout.relabel labels) := by
  refine ⟨Program.parse_relabel injective keyword tokens, fun program parsed => ?_⟩
  obtain ⟨diagram, drawn⟩ := Diagram.ofProgram_of_tidy (tidy_of_parse parsed)
  obtain ⟨_, _, layout, _, _, computed, _⟩ := Layout.ofProgram_displays α drawn
  refine ⟨layout, computed, ?_⟩
  rw [Layout.ofProgram_relabel, computed]
  rfl

/-- A defined name that is also the label of a call. -/
def namesakeTokens : List Token :=
  [.openParen, .identifier "define", .identifier "x", .number "1", .closeParen, .openParen,
    .identifier "x", .identifier "x", .identifier "f", .closeParen]

/-- The program of these tokens. -/
def namesakeProgram : Program :=
  ⟨⟨#[.primitive "1" .number, .var "x" 0, .primitive "f" .symbol, .call "x" [1, 2]]⟩,
    ⟨[("x", 1)]⟩, 3⟩

theorem parse_relabelled_namesake :
    Function.Injective (Equiv.swap "x" "f") ∧
      Equiv.swap "x" "f" defineKeyword = defineKeyword ∧
      Program.parse namesakeTokens = .ok namesakeProgram ∧
      Program.parse (namesakeTokens.map (Token.relabel (Equiv.swap "x" "f"))) =
        .ok (namesakeProgram.relabel (Equiv.swap "x" "f")) ∧
      ∃ layout : Layout Float, Layout.ofProgram namesakeProgram = .ok layout ∧
        Layout.ofProgram (namesakeProgram.relabel (Equiv.swap "x" "f")) =
          .ok (layout.relabel (Equiv.swap "x" "f")) := by
  have injective : Function.Injective (Equiv.swap "x" "f") := (Equiv.swap "x" "f").injective
  have keyword : Equiv.swap "x" "f" defineKeyword = defineKeyword :=
    Equiv.swap_apply_of_ne_of_ne (by decide) (by decide)
  have parsed : Program.parse namesakeTokens = .ok namesakeProgram := by decide +kernel
  obtain ⟨relabelled, laidOut⟩ := parse_relabelled Float injective keyword namesakeTokens
  rw [parsed] at relabelled
  exact ⟨injective, keyword, parsed, relabelled, laidOut namesakeProgram parsed⟩

end ExprDiagram
