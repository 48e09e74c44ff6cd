/-
This file is about the diagrams of programs. A node is added after the nodes below it, so that every
edge leads to a node that was added before, and the diagram has no circle. A program whose numbers
are in range, and none of whose expressions contains itself, always has a diagram: an expression is
never met again among those that the walk is inside of.
-/

import ExprDiagram.Diagram.OfProgram
import ExprDiagram.Proofs.Diagram.Adjacency

namespace ExprDiagram

open Relation

variable {arena : Arena} {inside ids : List ExprId} {id : ExprId} {expr : Expr}
variable {sketch between after : Sketch} {node : Nat} {children nodes : List Nat}

/-! ### Programs -/

/-- One expression stands directly below the other. -/
def Arena.Holds (arena : Arena) (id child : ExprId) : Prop :=
  ∃ expr, arena.get? id = some expr ∧ child ∈ expr.children

/-- The numbers that can be reached from the root are numbers of expressions. -/
def Program.InRange (program : Program) : Prop :=
  ∀ id, ReflTransGen program.arena.Holds program.root id → id < program.arena.size

/-- No expression that can be reached from the root contains itself. -/
def Program.Acyclic (program : Program) : Prop :=
  ∀ id, ReflTransGen program.arena.Holds program.root id → ¬ TransGen program.arena.Holds id id

/-- Some expression of the given label can be reached from the root and contains itself. -/
def Program.Circular (program : Program) (label : String) : Prop :=
  ∃ id expr, ReflTransGen program.arena.Holds program.root id ∧
    TransGen program.arena.Holds id id ∧ program.arena.get? id = some expr ∧ expr.label = label

theorem Program.Circular.not_acyclic {program : Program} {label : String}
    (circular : program.Circular label) : ¬ program.Acyclic := by
  obtain ⟨id, _, reached, contains, _⟩ := circular
  exact fun acyclic => acyclic id reached contains

/-- Every expression was stored after the expressions directly below it. -/
def Arena.Ordered (arena : Arena) : Prop :=
  ∀ id, ∀ bound : id < arena.exprs.size, ∀ child ∈ arena.exprs[id].children, child < id

instance : Decidable arena.Ordered := inferInstanceAs <| Decidable <|
  ∀ id, ∀ bound : id < arena.exprs.size, ∀ child ∈ arena.exprs[id].children, child < id

theorem Arena.Ordered.lt_of_holds (ordered : arena.Ordered) {child : ExprId}
    (holds : arena.Holds id child) : child < id := by
  obtain ⟨expr, found, member⟩ := holds
  obtain ⟨bound, rfl⟩ := Array.getElem?_eq_some_iff.mp found
  exact ordered id bound child member

theorem Arena.Ordered.lt_of_transGen (ordered : arena.Ordered) {other : ExprId}
    (contains : TransGen arena.Holds id other) : other < id := by
  induction contains with
  | single holds => exact ordered.lt_of_holds holds
  | tail _ holds lower => exact Nat.lt_trans (ordered.lt_of_holds holds) lower

/-- The expressions refer to stored expressions only. -/
def Arena.Closed (arena : Arena) : Prop :=
  ∀ id, ∀ bound : id < arena.exprs.size, ∀ child ∈ arena.exprs[id].children, child < arena.size

instance : Decidable arena.Closed := inferInstanceAs <| Decidable <|
  ∀ id, ∀ bound : id < arena.exprs.size, ∀ child ∈ arena.exprs[id].children, child < arena.size

theorem Arena.Ordered.closed (ordered : arena.Ordered) : arena.Closed :=
  fun id bound child member => Nat.lt_trans (ordered id bound child member) bound

/-- Where expressions refer to stored expressions only, all are in range as soon as the root is. -/
theorem Arena.Closed.inRange {program : Program} (closed : program.arena.Closed)
    (root : program.root < program.arena.size) : program.InRange := by
  intro id reached
  induction reached with
  | refl => exact root
  | tail _ holds _ =>
    obtain ⟨expr, found, member⟩ := holds
    obtain ⟨bound, rfl⟩ := Array.getElem?_eq_some_iff.mp found
    exact closed _ bound _ member

/-- Expressions that were stored in order are in range as soon as the root is. -/
theorem Arena.Ordered.inRange {program : Program} (ordered : program.arena.Ordered)
    (root : program.root < program.arena.size) : program.InRange :=
  ordered.closed.inRange root

/-- An expression does not contain itself when expressions were stored in order. -/
theorem Arena.Ordered.acyclic {program : Program} (ordered : program.arena.Ordered) :
    program.Acyclic :=
  fun id _ contains => Nat.lt_irrefl id (ordered.lt_of_transGen contains)

theorem Except.bind_eq_ok {ε α β : Type} {first : Except ε α} {next : α → Except ε β} {result : β}
    (runs : (first >>= next) = .ok result) : ∃ value, first = .ok value ∧ next value = .ok result := by
  cases first with
  | error error => cases runs
  | ok value => exact ⟨value, rfl, runs⟩

theorem Except.bind_eq_error {ε α β : Type} {first : Except ε α} {next : α → Except ε β} {cause : ε}
    (fails : (first >>= next) = .error cause) :
    first = .error cause ∨ ∃ value, first = .ok value ∧ next value = .error cause := by
  cases first with
  | error error => exact .inl (congrArg Except.error (Except.error.inj fails))
  | ok value => exact .inr ⟨value, rfl, fails⟩

namespace Sketch

/-! ### Steps of the walk -/

/-- Drawing an expression looks it up, asks whether it is remembered and whether the walk is inside
of it, and places it above its children otherwise. -/
theorem draw_eq (arena : Arena) (inside : List ExprId) (id : ExprId) (sketch : Sketch) :
    draw arena inside id sketch =
      match arena.get? id with
      | none => .error .outOfRange
      | some expr =>
        match sketch.drawn? id expr with
        | some node => .ok (node, sketch)
        | none =>
          if id ∈ inside then .error (.cyclicExpression expr.label)
          else drawAll arena (id :: inside) expr.children sketch >>= fun below =>
            .ok (below.2.place id expr below.1) := by
  rw [draw]
  split
  · rename_i missing
    rw [missing]
  · rename_i expr found
    rw [found]
    rfl

theorem drawAll_cons (arena : Arena) (inside : List ExprId) (id : ExprId) (rest : List ExprId)
    (sketch : Sketch) :
    drawAll arena inside (id :: rest) sketch =
      draw arena inside id sketch >>= fun first =>
        drawAll arena inside rest first.2 >>= fun others =>
          .ok (first.1 :: others.1, others.2) := by
  rw [drawAll]
  rfl

/-- What it means that an expression was drawn. -/
theorem draw_eq_ok (drawn : draw arena inside id sketch = .ok (node, after)) :
    ∃ expr, arena.get? id = some expr ∧
      ((sketch.drawn? id expr = some node ∧ after = sketch) ∨
        ∃ children between, sketch.drawn? id expr = none ∧ id ∉ inside ∧
          drawAll arena (id :: inside) expr.children sketch = .ok (children, between) ∧
          between.place id expr children = (node, after)) := by
  rw [draw_eq] at drawn
  split at drawn
  · cases drawn
  · rename_i expr found
    refine ⟨expr, found, ?_⟩
    split at drawn
    · rename_i other known
      cases drawn
      exact .inl ⟨known, rfl⟩
    · rename_i unknown
      split at drawn
      · cases drawn
      · rename_i outside
        obtain ⟨⟨children, between⟩, all, placed⟩ := Except.bind_eq_ok drawn
        exact .inr ⟨children, between, unknown, outside, all, Except.ok.inj placed⟩

theorem drawAll_nil_eq_ok (drawn : drawAll arena inside [] sketch = .ok (nodes, after)) :
    nodes = [] ∧ after = sketch := by
  rw [drawAll] at drawn
  cases drawn
  exact ⟨rfl, rfl⟩

theorem drawAll_cons_eq_ok (drawn : drawAll arena inside (id :: ids) sketch = .ok (nodes, after)) :
    ∃ node between rest, draw arena inside id sketch = .ok (node, between) ∧
      drawAll arena inside ids between = .ok (rest, after) ∧ nodes = node :: rest := by
  rw [drawAll_cons] at drawn
  obtain ⟨⟨node, between⟩, first, others⟩ := Except.bind_eq_ok drawn
  obtain ⟨⟨rest, last⟩, all, same⟩ := Except.bind_eq_ok others
  cases same
  exact ⟨node, between, rest, first, all, rfl⟩

/-- What it means that an expression was not drawn: there is none of this number, or the walk is
inside of it already, or one of the expressions below it was not drawn. -/
theorem draw_eq_error {cause : DrawError} (failed : draw arena inside id sketch = .error cause) :
    (arena.get? id = none ∧ cause = .outOfRange) ∨
      ∃ expr, arena.get? id = some expr ∧ sketch.drawn? id expr = none ∧
        ((id ∈ inside ∧ cause = .cyclicExpression expr.label) ∨
          (id ∉ inside ∧ drawAll arena (id :: inside) expr.children sketch = .error cause)) := by
  rw [draw_eq] at failed
  split at failed
  · rename_i missing
    cases failed
    exact .inl ⟨missing, rfl⟩
  · rename_i expr found
    refine .inr ⟨expr, found, ?_⟩
    split at failed
    · cases failed
    · rename_i unknown
      refine ⟨unknown, ?_⟩
      split at failed
      · rename_i inInside
        cases failed
        exact .inl ⟨inInside, rfl⟩
      · rename_i outside
        rcases Except.bind_eq_error failed with all | ⟨_, _, placed⟩
        · exact .inr ⟨outside, all⟩
        · cases placed

theorem drawAll_cons_eq_error {cause : DrawError}
    (failed : drawAll arena inside (id :: ids) sketch = .error cause) :
    draw arena inside id sketch = .error cause ∨
      ∃ node between, draw arena inside id sketch = .ok (node, between) ∧
        drawAll arena inside ids between = .error cause := by
  rw [drawAll_cons] at failed
  rcases Except.bind_eq_error failed with first | ⟨⟨node, between⟩, first, others⟩
  · exact .inl first
  · rcases Except.bind_eq_error others with all | ⟨_, _, listed⟩
    · exact .inr ⟨node, between, first, all⟩
    · cases listed

/-! ### Edges lead down -/

/-- The edges of a graph lead to nodes that were added before. -/
def Downward (graph : Graph) : Prop := graph.LeadsDown fun node => node

/-- The edges lead to nodes that were added before, and the nodes of variables exist. -/
structure Sound (sketch : Sketch) : Prop where
  down : Downward sketch.graph
  drawn : ∀ item ∈ sketch.drawn, item.2 < sketch.graph.size

theorem sound_empty : Sketch.empty.Sound :=
  ⟨fun edge member => absurd member (Array.not_mem_empty edge), nofun⟩

/-- A sketch that holds another one, and has the given nodes. -/
structure Extended (sketch after : Sketch) (nodes : List Nat) : Prop where
  sound : after.Sound
  grows : sketch.graph.size ≤ after.graph.size
  bound : ∀ node ∈ nodes, node < after.graph.size

theorem size_connect (graph : Graph) (node position : Nat) (children : List Nat) :
    (connect graph node position children).size = graph.size := by
  induction children generalizing graph position with
  | nil => rfl
  | cons child rest inductionHypothesis =>
    rw [connect, inductionHypothesis]
    rfl

theorem downward_connect {graph : Graph} {position : Nat} (down : Downward graph)
    (bound : node < graph.size) (lower : ∀ child ∈ children, child < node) :
    Downward (connect graph node position children) := by
  induction children generalizing graph position with
  | nil => exact down
  | cons child rest inductionHypothesis =>
    have childLower := lower child List.mem_cons_self
    refine inductionHypothesis (fun edge member => ?_) bound
      fun other inRest => lower other (List.mem_cons_of_mem _ inRest)
    rcases Array.mem_push.mp member with before | rfl
    · exact down edge before
    · exact ⟨bound, Nat.lt_trans childLower bound, childLower⟩

/-- What adding a node adds. Only variables are remembered. -/
theorem place_eq (placed : sketch.place id expr children = (node, after)) :
    node = sketch.graph.size ∧
      after.graph = connect (sketch.graph.addNode ⟨expr.label, expr.nodeKind⟩).2 node 0 children ∧
      ((after.drawn = sketch.drawn ∧ ∀ name body, expr ≠ .var name body) ∨
        (after.drawn = (id, node) :: sketch.drawn ∧ ∃ name body, expr = .var name body)) := by
  cases expr with
  | call =>
    cases placed
    exact ⟨rfl, rfl, .inl ⟨rfl, fun _ _ => Expr.noConfusion⟩⟩
  | primitive =>
    cases placed
    exact ⟨rfl, rfl, .inl ⟨rfl, fun _ _ => Expr.noConfusion⟩⟩
  | var name body =>
    cases placed
    exact ⟨rfl, rfl, .inr ⟨rfl, name, body, rfl⟩⟩

theorem size_addNode (graph : Graph) (node : Node) : (graph.addNode node).2.size = graph.size + 1 :=
  Array.size_push _

/-- A node above nodes that exist. -/
theorem place_extended (sound : sketch.Sound)
    (bound : ∀ child ∈ children, child < sketch.graph.size)
    (placed : sketch.place id expr children = (node, after)) : Extended sketch after [node] := by
  obtain ⟨rfl, graph, drawn⟩ := place_eq placed
  have size : after.graph.size = sketch.graph.size + 1 := by
    rw [graph, size_connect, size_addNode]
  have inSize : sketch.graph.size < after.graph.size := size ▸ Nat.lt_succ_self _
  refine ⟨⟨?_, fun item member => ?_⟩, Nat.le_of_lt inSize, List.forall_mem_singleton.mpr inSize⟩
  · rw [graph]
    refine downward_connect (fun edge member => ?_) ?_ bound
    · obtain ⟨source, target, lower⟩ := sound.down edge member
      rw [size_addNode]
      exact ⟨Nat.lt_succ_of_lt source, Nat.lt_succ_of_lt target, lower⟩
    · rw [size_addNode]
      exact Nat.lt_succ_self _
  · rcases drawn with ⟨same, _⟩ | ⟨more, _⟩
    · exact Nat.lt_trans (sound.drawn item (same ▸ member)) inSize
    · rw [more] at member
      rcases List.mem_cons.mp member with rfl | before
      · exact inSize
      · exact Nat.lt_trans (sound.drawn item before) inSize

theorem mem_drawn_of_drawn? (known : sketch.drawn? id expr = some node) :
    (id, node) ∈ sketch.drawn := by
  cases expr with
  | call => cases known
  | primitive => cases known
  | var =>
    obtain ⟨before, rest, split, _⟩ := List.lookup_eq_some_iff.mp known
    rw [split]
    exact List.mem_append_right _ List.mem_cons_self

mutual
theorem draw_extended (arena : Arena) (inside : List ExprId) (id : ExprId) (sketch : Sketch)
    {node : Nat} {after : Sketch} (drawn : draw arena inside id sketch = .ok (node, after))
    (sound : sketch.Sound) : Extended sketch after [node] := by
  obtain ⟨expr, found, ⟨known, same⟩ | ⟨children, between, _, outside, all, placed⟩⟩ :=
    draw_eq_ok drawn
  · rw [same]
    exact ⟨sound, Nat.le_refl _,
      List.forall_mem_singleton.mpr (sound.drawn _ (mem_drawn_of_drawn? known))⟩
  · have below := drawAll_extended arena (id :: inside) expr.children sketch all sound
    have above := place_extended below.sound below.bound placed
    exact ⟨above.sound, Nat.le_trans below.grows above.grows, above.bound⟩
termination_by (unvisited arena inside, 0)
decreasing_by exact Prod.Lex.left _ _ (unvisited_cons_lt found outside)

/-- Drawing expressions from left to right keeps the edges leading down. -/
theorem drawAll_extended (arena : Arena) (inside : List ExprId) (ids : List ExprId)
    (sketch : Sketch) {nodes : List Nat} {after : Sketch}
    (drawn : drawAll arena inside ids sketch = .ok (nodes, after)) (sound : sketch.Sound) :
    Extended sketch after nodes := by
  match ids, drawn with
  | [], drawn =>
    obtain ⟨rfl, rfl⟩ := drawAll_nil_eq_ok drawn
    exact ⟨sound, Nat.le_refl _, fun _ member => (by cases member)⟩
  | id :: rest, drawn =>
    obtain ⟨node, between, others, first, all, rfl⟩ := drawAll_cons_eq_ok drawn
    have here := draw_extended arena inside id sketch first sound
    have later := drawAll_extended arena inside rest between all here.sound
    refine ⟨later.sound, Nat.le_trans here.grows later.grows,
      List.forall_mem_cons.mpr ⟨?_, later.bound⟩⟩
    exact Nat.lt_of_lt_of_le (here.bound node List.mem_cons_self) later.grows
termination_by (unvisited arena inside, ids.length + 1)
decreasing_by
  · exact Prod.Lex.right _ (Nat.succ_pos _)
  · exact Prod.Lex.right _ (Nat.lt_succ_self _)
end

/-! ### When drawing fails -/

/-- An expression can be reached from the root, and is contained in all expressions that the walk is
inside of. -/
structure Within (program : Program) (inside : List ExprId) (id : ExprId) : Prop where
  reached : ReflTransGen program.arena.Holds program.root id
  contained : ∀ other ∈ inside, TransGen program.arena.Holds other id

theorem Within.child {program : Program} (within : Within program inside id) {child : ExprId}
    (holds : program.arena.Holds id child) : Within program (id :: inside) child := by
  refine ⟨within.reached.tail holds, fun other member => ?_⟩
  rcases List.mem_cons.mp member with rfl | inInside
  · exact .single holds
  · exact (within.contained other inInside).tail holds

mutual
theorem draw_circular (program : Program) (inRange : program.InRange) (inside : List ExprId)
    (id : ExprId) (sketch : Sketch) (within : Within program inside id) {cause : DrawError}
    (failed : draw program.arena inside id sketch = .error cause) :
    ∃ label, cause = .cyclicExpression label ∧ program.Circular label := by
  rcases draw_eq_error failed with ⟨missing, _⟩ | ⟨expr, found, _, known | ⟨outside, all⟩⟩
  · exact absurd (inRange id within.reached) (Nat.not_lt.mpr (Array.getElem?_eq_none_iff.mp missing))
  · obtain ⟨inInside, rfl⟩ := known
    exact ⟨_, rfl, id, expr, within.reached, within.contained id inInside, found, rfl⟩
  · exact drawAll_circular program inRange (id :: inside) expr.children sketch
      (fun child member => within.child ⟨expr, found, member⟩) all
termination_by (unvisited program.arena inside, 0)
decreasing_by exact Prod.Lex.left _ _ (unvisited_cons_lt found outside)

/-- Where all numbers are in range, nothing but an expression that contains itself keeps expressions
from being drawn, and the error names such an expression. -/
theorem drawAll_circular (program : Program) (inRange : program.InRange) (inside ids : List ExprId)
    (sketch : Sketch) (within : ∀ id ∈ ids, Within program inside id) {cause : DrawError}
    (failed : drawAll program.arena inside ids sketch = .error cause) :
    ∃ label, cause = .cyclicExpression label ∧ program.Circular label := by
  match ids, within, failed with
  | [], _, failed =>
    rw [drawAll] at failed
    cases failed
  | id :: rest, within, failed =>
    rcases drawAll_cons_eq_error failed with first | ⟨node, between, _, others⟩
    · exact draw_circular program inRange inside id sketch (within id List.mem_cons_self) first
    · exact drawAll_circular program inRange inside rest between
        (fun other member => within other (List.mem_cons_of_mem _ member)) others
termination_by (unvisited program.arena inside, ids.length + 1)
decreasing_by
  · exact Prod.Lex.right _ (Nat.succ_pos _)
  · exact Prod.Lex.right _ (Nat.lt_succ_self _)
end

end Sketch

/-- The diagram of a program has edges that lead down only. -/
theorem Diagram.ofProgram_downward {program : Program} {diagram : Diagram}
    (drawn : Diagram.ofProgram program = .ok diagram) :
    Sketch.Downward diagram.graph ∧ diagram.root < diagram.graph.size := by
  obtain ⟨⟨root, sketch⟩, walk, same⟩ := Except.bind_eq_ok drawn
  cases same
  have extended :=
    Sketch.draw_extended program.arena [] program.root Sketch.empty walk Sketch.sound_empty
  exact ⟨extended.sound.down, extended.bound root List.mem_cons_self⟩

/-- A program whose numbers are in range has a diagram, unless an expression contains itself; then
the error names such an expression. -/
theorem Diagram.ofProgram_circular {program : Program} (inRange : program.InRange)
    {cause : DrawError} (failed : Diagram.ofProgram program = .error cause) :
    ∃ label, cause = .cyclicExpression label ∧ program.Circular label := by
  rcases Except.bind_eq_error failed with walk | ⟨_, _, drawn⟩
  · exact Sketch.draw_circular program inRange [] program.root Sketch.empty
      ⟨.refl, fun _ member => (by cases member)⟩ walk
  · cases drawn

/-- A program whose numbers are in range, and none of whose expressions contains itself, has a
diagram. -/
theorem Diagram.ofProgram_ok {program : Program} (inRange : program.InRange)
    (acyclic : program.Acyclic) : ∃ diagram, Diagram.ofProgram program = .ok diagram := by
  cases drawn : Diagram.ofProgram program with
  | ok diagram => exact ⟨diagram, rfl⟩
  | error cause =>
    obtain ⟨_, _, circular⟩ := ofProgram_circular inRange drawn
    exact absurd acyclic circular.not_acyclic

end ExprDiagram
