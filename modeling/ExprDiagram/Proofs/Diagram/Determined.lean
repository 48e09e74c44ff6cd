/-
This file shows that the diagram of a script is determined by its meaning. Two scripts may store
their expressions under different numbers, and among different expressions that nothing uses. Where
they mean the same, the two walks go side by side: they meet expressions of the same label and kind,
which are drawn already on one side if they are on the other, so that at each step the same node is
added with the same edges. What the two sketches remember of variables is compared by the names that
are bound to them, since the numbers have nothing to do with each other.
-/

import ExprDiagram.Proofs.Meaning.Usage

namespace ExprDiagram

variable {bindings otherBindings : Bindings} {arena : Arena} {inside : List ExprId}
variable {id otherId : ExprId} {expr otherExpr : Expr}
variable {sketch other after otherAfter : Sketch} {node otherNode : Nat} {children : List Nat}

/-- Different names are bound to different variables. -/
def Bindings.Distinct (bindings : Bindings) : Prop :=
  ∀ first second id, bindings.lookup? first = some id → bindings.lookup? second = some id →
    first = second

theorem Bindings.Distinct.beq_eq_false {first second : String} (distinct : bindings.Distinct)
    (boundFirst : bindings.lookup? first = some id)
    (boundSecond : bindings.lookup? second = some otherId) (different : first ≠ second) :
    (id == otherId) = false := by
  rw [beq_eq_false_iff_ne]
  rintro rfl
  exact different (distinct first second id boundFirst boundSecond)

theorem Arena.Tidy.distinct {loose : List ExprId} (tidy : arena.Tidy bindings loose) :
    bindings.Distinct := by
  intro first second id boundFirst boundSecond
  obtain ⟨_, found⟩ := (tidy.named first id).mp boundFirst
  obtain ⟨_, foundSame⟩ := (tidy.named second id).mp boundSecond
  exact (Expr.var.inj (Option.some.inj (found.symm.trans foundSame))).1

namespace Sketch

/-! ### Sketches of one graph -/

/-- The sketches hold the same graph, and of each name that both sides bind, they remember the same
node. -/
structure Alike (bindings otherBindings : Bindings) (sketch other : Sketch) : Prop where
  graph : sketch.graph = other.graph
  drawn : ∀ name id otherId, bindings.lookup? name = some id →
    otherBindings.lookup? name = some otherId →
    sketch.drawn.lookup id = other.drawn.lookup otherId

theorem alike_empty : Alike bindings otherBindings empty empty :=
  ⟨rfl, fun _ _ _ _ _ => rfl⟩

theorem place_drawn (placed : sketch.place id expr children = (node, after))
    (noVariable : ∀ name body, expr ≠ .var name body) : after.drawn = sketch.drawn := by
  obtain ⟨_, _, ⟨kept, _⟩ | ⟨_, name, body, rfl⟩⟩ := place_eq placed
  · exact kept
  · exact absurd rfl (noVariable name body)

theorem place_var_drawn {name : String} {body : ExprId}
    (placed : sketch.place id (.var name body) children = (node, after)) :
    after.drawn = (id, node) :: sketch.drawn := by
  obtain ⟨_, _, ⟨_, noVariable⟩ | ⟨remembered, _⟩⟩ := place_eq placed
  · exact absurd rfl (noVariable name body)
  · exact remembered

theorem Alike.place_graph (alike : Alike bindings otherBindings sketch other)
    (placed : sketch.place id expr children = (node, after))
    (placedOther : other.place otherId otherExpr children = (otherNode, otherAfter))
    (label : expr.label = otherExpr.label) (kind : expr.nodeKind = otherExpr.nodeKind) :
    node = otherNode ∧ after.graph = otherAfter.graph := by
  obtain ⟨rfl, graph, _⟩ := place_eq placed
  obtain ⟨rfl, graphOther, _⟩ := place_eq placedOther
  rw [graph, graphOther, alike.graph, label, kind]
  exact ⟨rfl, rfl⟩

/-- Expressions that are no variables add the same node on both sides, and nothing to remember. -/
theorem Alike.place (alike : Alike bindings otherBindings sketch other)
    (placed : sketch.place id expr children = (node, after))
    (placedOther : other.place otherId otherExpr children = (otherNode, otherAfter))
    (label : expr.label = otherExpr.label) (kind : expr.nodeKind = otherExpr.nodeKind)
    (noVariable : ∀ name body, expr ≠ .var name body)
    (noVariableOther : ∀ name body, otherExpr ≠ .var name body) :
    node = otherNode ∧ Alike bindings otherBindings after otherAfter := by
  obtain ⟨same, graph⟩ := alike.place_graph placed placedOther label kind
  refine ⟨same, graph, ?_⟩
  rw [place_drawn placed noVariable, place_drawn placedOther noVariableOther]
  exact alike.drawn

/-- Variables of one name add the same node on both sides, which is remembered under the name. -/
theorem Alike.place_var {name : String} {body otherBody : ExprId}
    (alike : Alike bindings otherBindings sketch other) (distinct : bindings.Distinct)
    (distinctOther : otherBindings.Distinct) (bound : bindings.lookup? name = some id)
    (boundOther : otherBindings.lookup? name = some otherId)
    (placed : sketch.place id (.var name body) children = (node, after))
    (placedOther : other.place otherId (.var name otherBody) children = (otherNode, otherAfter)) :
    node = otherNode ∧ Alike bindings otherBindings after otherAfter := by
  obtain ⟨rfl, graph⟩ := alike.place_graph placed placedOther rfl rfl
  refine ⟨rfl, graph, fun asked askedId askedOther found foundOther => ?_⟩
  rw [place_var_drawn placed, place_var_drawn placedOther]
  by_cases same : asked = name
  · subst same
    obtain rfl := Option.some.inj (bound.symm.trans found)
    obtain rfl := Option.some.inj (boundOther.symm.trans foundOther)
    rw [List.lookup_cons_self, List.lookup_cons_self]
  · rw [List.lookup_cons, distinct.beq_eq_false found bound same, List.lookup_cons,
      distinctOther.beq_eq_false foundOther boundOther same]
    exact alike.drawn asked askedId askedOther found foundOther

/-! ### Walks side by side -/

theorem drawAll_singleton_eq_ok {nodes : List Nat}
    (drawn : drawAll arena inside [id] sketch = .ok (nodes, after)) :
    ∃ node, draw arena inside id sketch = .ok (node, after) ∧ nodes = [node] := by
  obtain ⟨node, between, rest, first, others, rfl⟩ := drawAll_cons_eq_ok drawn
  obtain ⟨rfl, rfl⟩ := drawAll_nil_eq_ok others
  exact ⟨node, first, rfl⟩

/-- An expression that is found and not drawn yet is drawn above its children. -/
theorem draw_new (found : arena.get? id = some expr) (unknown : sketch.drawn? id expr = none)
    (drawn : draw arena inside id sketch = .ok (node, after)) :
    ∃ children between,
      drawAll arena (id :: inside) expr.children sketch = .ok (children, between) ∧
        between.place id expr children = (node, after) := by
  obtain ⟨same, foundSame, ⟨known, _⟩ | ⟨children, between, _, _, all, placed⟩⟩ :=
    draw_eq_ok drawn
  · obtain rfl := Option.some.inj (found.symm.trans foundSame)
    rw [unknown] at known
    cases known
  · obtain rfl := Option.some.inj (found.symm.trans foundSame)
    exact ⟨children, between, all, placed⟩

/-- A variable that has been drawn is not drawn again. -/
theorem draw_known (found : arena.get? id = some expr)
    (known : sketch.drawn? id expr = some node)
    (drawn : draw arena inside id sketch = .ok (otherNode, after)) :
    otherNode = node ∧ after = sketch := by
  obtain ⟨same, foundSame, ⟨knownSame, kept⟩ | ⟨_, _, unknown, _, _, _⟩⟩ := draw_eq_ok drawn
  · obtain rfl := Option.some.inj (found.symm.trans foundSame)
    exact ⟨Option.some.inj (knownSame.symm.trans known), kept⟩
  · obtain rfl := Option.some.inj (found.symm.trans foundSame)
    rw [known] at unknown
    cases unknown

mutual
/-- Where two numbers represent one meaning, drawing them leads from sketches of one graph to
sketches of one graph. -/
theorem draw_alike {bindings otherBindings : Bindings} {arena otherArena : Arena}
    {id otherId : ExprId} {meaning : Meaning} {inside otherInside : List ExprId}
    {sketch other after otherAfter : Sketch} {node otherNode : Nat}
    (distinct : bindings.Distinct) (distinctOther : otherBindings.Distinct)
    (represented : Represents bindings arena id meaning)
    (representedOther : Represents otherBindings otherArena otherId meaning)
    (alike : Alike bindings otherBindings sketch other)
    (drawn : draw arena inside id sketch = .ok (node, after))
    (drawnOther : draw otherArena otherInside otherId other = .ok (otherNode, otherAfter)) :
    node = otherNode ∧ Alike bindings otherBindings after otherAfter := by
  cases meaning with
  | call label meanings =>
    cases represented with | call found arguments =>
    cases representedOther with | call foundOther argumentsOther =>
    obtain ⟨_, _, all, placed⟩ := draw_new found rfl drawn
    obtain ⟨_, _, allOther, placedOther⟩ := draw_new foundOther rfl drawnOther
    obtain ⟨rfl, below⟩ :=
      drawAll_alike distinct distinctOther arguments argumentsOther alike all allOther
    exact below.place placed placedOther rfl rfl (fun _ _ => Expr.noConfusion)
      fun _ _ => Expr.noConfusion
  | primitive label kind =>
    cases represented with | primitive found =>
    cases representedOther with | primitive foundOther =>
    obtain ⟨_, _, all, placed⟩ := draw_new found rfl drawn
    obtain ⟨_, _, allOther, placedOther⟩ := draw_new foundOther rfl drawnOther
    obtain ⟨rfl, rfl⟩ := drawAll_nil_eq_ok all
    obtain ⟨rfl, rfl⟩ := drawAll_nil_eq_ok allOther
    exact alike.place placed placedOther rfl rfl (fun _ _ => Expr.noConfusion)
      fun _ _ => Expr.noConfusion
  | reference name meaning =>
    cases represented with | reference shared found body =>
    cases representedOther with | reference sharedOther foundOther bodyOther =>
    -- the variable is drawn on both sides or on neither
    have remembered := alike.drawn name id otherId shared sharedOther
    cases known : sketch.drawn.lookup id with
    | some earlier =>
      obtain ⟨rfl, rfl⟩ := draw_known found known drawn
      obtain ⟨rfl, rfl⟩ := draw_known foundOther (remembered.symm.trans known) drawnOther
      exact ⟨rfl, alike⟩
    | none =>
      obtain ⟨_, _, all, placed⟩ := draw_new found known drawn
      obtain ⟨_, _, allOther, placedOther⟩ :=
        draw_new foundOther (remembered.symm.trans known) drawnOther
      obtain ⟨_, first, rfl⟩ := drawAll_singleton_eq_ok all
      obtain ⟨_, firstOther, rfl⟩ := drawAll_singleton_eq_ok allOther
      obtain ⟨rfl, below⟩ :=
        draw_alike distinct distinctOther body bodyOther alike first firstOther
      exact below.place_var distinct distinctOther shared sharedOther placed placedOther
termination_by structural meaning

/-- The same for several numbers, drawn from left to right. -/
theorem drawAll_alike {bindings otherBindings : Bindings} {arena otherArena : Arena}
    {ids otherIds : List ExprId} {meanings : List Meaning} {inside otherInside : List ExprId}
    {sketch other after otherAfter : Sketch} {nodes otherNodes : List Nat}
    (distinct : bindings.Distinct) (distinctOther : otherBindings.Distinct)
    (represented : RepresentsAll bindings arena ids meanings)
    (representedOther : RepresentsAll otherBindings otherArena otherIds meanings)
    (alike : Alike bindings otherBindings sketch other)
    (drawn : drawAll arena inside ids sketch = .ok (nodes, after))
    (drawnOther : drawAll otherArena otherInside otherIds other = .ok (otherNodes, otherAfter)) :
    nodes = otherNodes ∧ Alike bindings otherBindings after otherAfter := by
  cases meanings with
  | nil =>
    cases represented
    cases representedOther
    obtain ⟨rfl, rfl⟩ := drawAll_nil_eq_ok drawn
    obtain ⟨rfl, rfl⟩ := drawAll_nil_eq_ok drawnOther
    exact ⟨rfl, alike⟩
  | cons meaning meanings =>
    cases represented with | cons head tail =>
    cases representedOther with | cons headOther tailOther =>
    obtain ⟨_, _, _, first, others, rfl⟩ := drawAll_cons_eq_ok drawn
    obtain ⟨_, _, _, firstOther, othersOther, rfl⟩ := drawAll_cons_eq_ok drawnOther
    obtain ⟨rfl, between⟩ :=
      draw_alike distinct distinctOther head headOther alike first firstOther
    obtain ⟨rfl, last⟩ :=
      drawAll_alike distinct distinctOther tail tailOther between others othersOther
    exact ⟨rfl, last⟩
termination_by structural meanings
end

end Sketch

/-! ### Scripts -/

/-- The program of a script is tidy, and its root represents the meaning of the script. -/
theorem Script.program_represents (script : Script) :
    script.program.arena.Tidy script.program.bindings [script.program.root] ∧
      Represents script.program.bindings script.program.arena script.program.root
        script.meaning := by
  have elaborates := Scope.elaborates_ofDefinitions script.definitions
  exact ⟨script.main.store_tidy _ [] (Scope.ofDefinitions_tidy script.definitions),
    (script.main.store_represents _ elaborates.agree).2⟩

/-- Scripts of one meaning have one diagram. -/
theorem Script.exists_diagram_of_meaning {script other : Script}
    (same : script.meaning = other.meaning) :
    ∃ diagram, Diagram.ofProgram script.program = .ok diagram ∧
      Diagram.ofProgram other.program = .ok diagram := by
  obtain ⟨tidy, represented⟩ := script.program_represents
  obtain ⟨tidyOther, representedOther⟩ := other.program_represents
  obtain ⟨diagram, drawn⟩ := Diagram.ofProgram_of_tidy tidy
  obtain ⟨otherDiagram, drawnOther⟩ := Diagram.ofProgram_of_tidy tidyOther
  obtain ⟨⟨root, sketch⟩, walk, result⟩ := Except.bind_eq_ok drawn
  obtain ⟨⟨otherRoot, otherSketch⟩, walkOther, resultOther⟩ := Except.bind_eq_ok drawnOther
  obtain ⟨rfl, alike⟩ := Sketch.draw_alike tidy.distinct tidyOther.distinct represented
    (same ▸ representedOther) Sketch.alike_empty walk walkOther
  obtain rfl : ⟨sketch.graph, root⟩ = diagram := Except.ok.inj result
  obtain rfl : ⟨otherSketch.graph, root⟩ = otherDiagram := Except.ok.inj resultOther
  exact ⟨_, drawn, alike.graph ▸ drawnOther⟩

end ExprDiagram
