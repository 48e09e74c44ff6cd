/-
This file runs the drawing of a program on stacks. One stack holds what is left to do: entering an
expression, which puts the expressions below it on the stack, and leaving it, when these have been
drawn. The other holds the nodes that have been drawn and have no parent yet; leaving an expression
takes as many nodes from it as the expression has children. A step fails when a number is not in the
arena, when an expression is entered inside itself, and when there are too few nodes to take.

The walk over expressions is what the stacks do: whatever it draws, they draw, and put its node on
top of the nodes that were there; and where it fails, they come to a step that fails for the same
reason. So the stacks always come to an end, and have the outcome of the walk.
-/

import ExprDiagram.Proofs.Diagram.Sketching

namespace ExprDiagram

open Relation

/-- What is left to do with an expression. -/
inductive Task where
  | enter (id : ExprId)
  | leave (id : ExprId)

/-- A state of the stacks. -/
structure Stacks where
  sketch : Sketch
  /-- The expressions that have been entered and not left, the innermost first. -/
  inside : List ExprId
  /-- The nodes that have no parent yet, the latest first. -/
  built : List Nat
  tasks : List Task

namespace Stacks

/-- The stacks before the first step. -/
def start (root : ExprId) : Stacks := ⟨.empty, [], [], [.enter root]⟩

/-- Enters an expression: a variable that has been drawn has its node, the node of a primitive is
added at once, and of all others the expressions below come first. -/
def enter (state : Stacks) (id : ExprId) (expr : Expr) (rest : List Task) :
    Except DrawError Stacks :=
  match state.sketch.drawn? id expr with
  | some node => .ok { state with built := node :: state.built, tasks := rest }
  | none =>
    match expr with
    | .primitive _ _ =>
      let (node, sketch) := state.sketch.place id expr []
      .ok { state with sketch, built := node :: state.built, tasks := rest }
    | .call _ _ | .var _ _ =>
      if id ∈ state.inside then .error (.cyclicExpression expr.label)
      else .ok { state with
        inside := id :: state.inside
        tasks := expr.children.map .enter ++ .leave id :: rest }

/-- Leaves an expression: its node is added above the nodes that were built last. -/
def leave (state : Stacks) (id : ExprId) (expr : Expr) (rest : List Task) :
    Except DrawError Stacks :=
  let count := expr.children.length
  if count ≤ state.built.length then
    let (node, sketch) := state.sketch.place id expr (state.built.take count).reverse
    .ok ⟨sketch, state.inside.erase id, node :: state.built.drop count, rest⟩
  else .error .outOfRange

/-- One step. When nothing is left to do, nothing changes. -/
def step (arena : Arena) (state : Stacks) : Except DrawError Stacks :=
  match state.tasks with
  | [] => .ok state
  | .enter id :: rest => do state.enter id (← inRange (arena.get? id)) rest
  | .leave id :: rest => do state.leave id (← inRange (arena.get? id)) rest

/-- The states that come one after the other. -/
def Runs (arena : Arena) : Stacks → Stacks → Prop :=
  ReflTransGen fun state next => state.step arena = .ok next

variable {arena : Arena} {inside ids : List ExprId} {id : ExprId} {expr : Expr}
variable {sketch between after : Sketch} {node : Nat} {children nodes built : List Nat}
variable {rest : List Task} {state next last : Stacks}

/-! ### Single steps -/

theorem step_enter (found : arena.get? id = some expr) :
    step arena ⟨sketch, inside, built, .enter id :: rest⟩ =
      enter ⟨sketch, inside, built, .enter id :: rest⟩ id expr rest := by
  show (do enter _ id (← inRange (arena.get? id)) rest) = _
  rw [found]
  rfl

theorem step_leave (found : arena.get? id = some expr) :
    step arena ⟨sketch, inside, built, .leave id :: rest⟩ =
      leave ⟨sketch, inside, built, .leave id :: rest⟩ id expr rest := by
  show (do leave _ id (← inRange (arena.get? id)) rest) = _
  rw [found]
  rfl

theorem step_known (found : arena.get? id = some expr)
    (known : sketch.drawn? id expr = some node) :
    step arena ⟨sketch, inside, built, .enter id :: rest⟩ =
      .ok ⟨sketch, inside, node :: built, rest⟩ := by
  rw [step_enter found, enter.eq_def]
  simp only [known]

theorem step_primitive {label : String} {kind : WordKind}
    (found : arena.get? id = some (.primitive label kind))
    (placed : sketch.place id (.primitive label kind) [] = (node, after)) :
    step arena ⟨sketch, inside, built, .enter id :: rest⟩ =
      .ok ⟨after, inside, node :: built, rest⟩ := by
  have unknown : sketch.drawn? id (.primitive label kind) = none := rfl
  rw [step_enter found, enter]
  simp only [unknown, placed]

theorem step_unknown (found : arena.get? id = some expr) (unknown : sketch.drawn? id expr = none)
    (noPrimitive : ∀ label kind, expr ≠ .primitive label kind) (outside : id ∉ inside) :
    step arena ⟨sketch, inside, built, .enter id :: rest⟩ =
      .ok ⟨sketch, id :: inside, built, expr.children.map .enter ++ .leave id :: rest⟩ := by
  rw [step_enter found, enter.eq_def]
  cases expr with
  | primitive label kind => exact absurd rfl (noPrimitive label kind)
  | call => simp only [unknown, if_neg outside]
  | var => simp only [unknown, if_neg outside]

theorem step_built (found : arena.get? id = some expr)
    (count : children.length = expr.children.length)
    (placed : sketch.place id expr children = (node, after)) :
    step arena ⟨sketch, id :: inside, children.reverse ++ built, .leave id :: rest⟩ =
      .ok ⟨after, inside, node :: built, rest⟩ := by
  have taken : expr.children.length = children.reverse.length := by
    rw [List.length_reverse, count]
  have enough : children.reverse.length ≤ (children.reverse ++ built).length := by
    rw [List.length_append]
    exact Nat.le_add_right _ _
  rw [step_leave found, leave]
  simp only [taken, if_pos enough, List.take_left, List.drop_left, List.reverse_reverse, placed,
    List.erase_cons_head]

/-! ### Runs -/

mutual
theorem draw_runs (arena : Arena) (inside : List ExprId) (id : ExprId) (sketch : Sketch)
    {node : Nat} {after : Sketch} (drawn : sketch.draw arena inside id = .ok (node, after))
    (built : List Nat) (rest : List Task) :
    Runs arena ⟨sketch, inside, built, .enter id :: rest⟩ ⟨after, inside, node :: built, rest⟩ := by
  obtain ⟨expr, found, ⟨known, rfl⟩ | ⟨children, between, unknown, outside, all, placed⟩⟩ :=
    Sketch.draw_eq_ok drawn
  · exact .single (step_known found known)
  · by_cases primitive : ∃ label kind, expr = .primitive label kind
    · obtain ⟨label, kind, rfl⟩ := primitive
      obtain ⟨rfl, rfl⟩ := Sketch.drawAll_nil_eq_ok all
      exact .single (step_primitive found placed)
    · obtain ⟨count, runs⟩ := drawAll_runs arena (id :: inside) expr.children sketch all built
        (.leave id :: rest)
      have entered : step arena ⟨sketch, inside, built, .enter id :: rest⟩ =
          .ok ⟨sketch, id :: inside, built, expr.children.map .enter ++ .leave id :: rest⟩ :=
        step_unknown found unknown (fun label kind same => primitive ⟨label, kind, same⟩) outside
      exact .head entered (runs.tail (step_built found count placed))
termination_by (Sketch.unvisited arena inside, 0)
decreasing_by exact Prod.Lex.left _ _ (Sketch.unvisited_cons_lt found outside)

/-- The nodes of expressions that are drawn one after the other come to lie on top of those that
were built before, the last one uppermost. -/
theorem drawAll_runs (arena : Arena) (inside ids : List ExprId) (sketch : Sketch)
    {nodes : List Nat} {after : Sketch}
    (drawn : sketch.drawAll arena inside ids = .ok (nodes, after)) (built : List Nat)
    (rest : List Task) :
    nodes.length = ids.length ∧
      Runs arena ⟨sketch, inside, built, ids.map .enter ++ rest⟩
        ⟨after, inside, nodes.reverse ++ built, rest⟩ := by
  match ids, drawn with
  | [], drawn =>
    obtain ⟨rfl, rfl⟩ := Sketch.drawAll_nil_eq_ok drawn
    exact ⟨rfl, .refl⟩
  | id :: others, drawn =>
    obtain ⟨node, between, later, first, all, rfl⟩ := Sketch.drawAll_cons_eq_ok drawn
    have here := draw_runs arena inside id sketch first built (others.map .enter ++ rest)
    obtain ⟨count, runs⟩ := drawAll_runs arena inside others between all (node :: built) rest
    refine ⟨congrArg Nat.succ count, ?_⟩
    rw [List.reverse_cons, List.append_assoc, List.singleton_append]
    exact here.trans runs
termination_by (Sketch.unvisited arena inside, ids.length + 1)
decreasing_by
  · exact Prod.Lex.right _ (Nat.succ_pos _)
  · exact Prod.Lex.right _ (Nat.lt_succ_self _)
end

/-! ### Runs that fail -/

/-- Stacks that come to a step which fails. -/
def Fails (arena : Arena) (state : Stacks) (cause : DrawError) : Prop :=
  ∃ last, Runs arena state last ∧ last.step arena = .error cause

theorem Fails.of_runs {cause : DrawError} (runs : Runs arena state next)
    (fails : Fails arena next cause) : Fails arena state cause := by
  obtain ⟨last, others, failed⟩ := fails
  exact ⟨last, runs.trans others, failed⟩

theorem step_circle (found : arena.get? id = some expr) (unknown : sketch.drawn? id expr = none)
    (noPrimitive : ∀ label kind, expr ≠ .primitive label kind) (inInside : id ∈ inside) :
    step arena ⟨sketch, inside, built, .enter id :: rest⟩ =
      .error (.cyclicExpression expr.label) := by
  rw [step_enter found, enter.eq_def]
  cases expr with
  | primitive label kind => exact absurd rfl (noPrimitive label kind)
  | call => simp only [unknown, if_pos inInside]
  | var => simp only [unknown, if_pos inInside]

/-- The walk is inside of calls and variables only: a primitive is left as soon as it is entered. -/
def NoPrimitives (arena : Arena) (inside : List ExprId) : Prop :=
  ∀ id ∈ inside, ∀ label kind, arena.get? id ≠ some (.primitive label kind)

theorem noPrimitives_nil (arena : Arena) : NoPrimitives arena [] := fun _ member =>
  absurd member List.not_mem_nil

theorem NoPrimitives.cons (compound : NoPrimitives arena inside) (found : arena.get? id = some expr)
    (noPrimitive : ∀ label kind, expr ≠ .primitive label kind) :
    NoPrimitives arena (id :: inside) := by
  refine List.forall_mem_cons.mpr ⟨fun label kind primitive => ?_, compound⟩
  exact noPrimitive label kind (Option.some.inj (found.symm.trans primitive))

mutual
theorem draw_fails (arena : Arena) (inside : List ExprId) (id : ExprId) (sketch : Sketch)
    {cause : DrawError} (failed : sketch.draw arena inside id = .error cause)
    (compound : NoPrimitives arena inside) (built : List Nat) (rest : List Task) :
    Fails arena ⟨sketch, inside, built, .enter id :: rest⟩ cause := by
  rcases Sketch.draw_eq_error failed with ⟨missing, rfl⟩ | ⟨expr, found, unknown, reason⟩
  · refine ⟨_, .refl, ?_⟩
    show (do enter _ id (← inRange (arena.get? id)) rest) = _
    rw [missing]
    rfl
  · have noPrimitive : ∀ label kind, expr ≠ .primitive label kind := by
      rintro label kind rfl
      rcases reason with ⟨inInside, _⟩ | ⟨_, all⟩
      · exact compound id inInside label kind found
      · rw [Expr.children, Sketch.drawAll] at all
        cases all
    rcases reason with ⟨inInside, rfl⟩ | ⟨outside, all⟩
    · exact ⟨_, .refl, step_circle found unknown noPrimitive inInside⟩
    · exact Fails.of_runs (.single (step_unknown found unknown noPrimitive outside))
        (drawAll_fails arena (id :: inside) expr.children sketch all
          (compound.cons found noPrimitive) built (.leave id :: rest))
termination_by (Sketch.unvisited arena inside, 0)
decreasing_by exact Prod.Lex.left _ _ (Sketch.unvisited_cons_lt found outside)

/-- Where the walk fails, the stacks come to a step that fails in the same way. -/
theorem drawAll_fails (arena : Arena) (inside ids : List ExprId) (sketch : Sketch)
    {cause : DrawError} (failed : sketch.drawAll arena inside ids = .error cause)
    (compound : NoPrimitives arena inside) (built : List Nat) (rest : List Task) :
    Fails arena ⟨sketch, inside, built, ids.map .enter ++ rest⟩ cause := by
  match ids, failed with
  | [], failed =>
    rw [Sketch.drawAll] at failed
    cases failed
  | id :: others, failed =>
    rcases Sketch.drawAll_cons_eq_error failed with first | ⟨node, between, first, later⟩
    · exact draw_fails arena inside id sketch first compound built (others.map .enter ++ rest)
    · have here := draw_runs arena inside id sketch first built (others.map .enter ++ rest)
      exact .of_runs here
        (drawAll_fails arena inside others between later compound (node :: built) rest)
termination_by (Sketch.unvisited arena inside, ids.length + 1)
decreasing_by
  · exact Prod.Lex.right _ (Nat.succ_pos _)
  · exact Prod.Lex.right _ (Nat.lt_succ_self _)
end

/-! ### No step fails -/

theorem eq_of_runs_finished (finished : last.tasks = []) (runs : Runs arena last next) :
    next = last := by
  induction runs with
  | refl => rfl
  | tail _ step inductionHypothesis =>
    subst inductionHypothesis
    rw [Stacks.step, finished] at step
    exact (Except.ok.inj step).symm

/-- Stacks that come to an end have never failed before: each state has one next state only, so that
every state that they come to lies on the way to the end. -/
theorem step_ok_of_runs {first : Stacks} (ends : Runs arena first last) (finished : last.tasks = [])
    (runs : Runs arena first state) : ∃ next, state.step arena = .ok next := by
  have stays : last.step arena = .ok last := by
    rw [step, finished]
  have unique : Relator.RightUnique fun state next : Stacks => state.step arena = .ok next :=
    fun _ _ _ left right => Except.ok.inj (left.symm.trans right)
  rcases ReflTransGen.total_of_right_unique unique runs ends with before | after
  · rcases ReflTransGen.cases_head before with rfl | ⟨next, step, _⟩
    · exact ⟨state, stays⟩
    · exact ⟨next, step⟩
  · rw [eq_of_runs_finished finished after]
    exact ⟨last, stays⟩

end Stacks

/-- The stacks come to an end with the given outcome: nothing is left to do and the root of the
diagram is the only node without a parent, or a step fails. -/
def Stacks.Ends (program : Program) : Except DrawError Diagram → Prop
  | .ok diagram => ∃ sketch, sketch.graph = diagram.graph ∧
    Stacks.Runs program.arena (.start program.root) ⟨sketch, [], [diagram.root], []⟩
  | .error cause => Stacks.Fails program.arena (.start program.root) cause

/-- The stacks come to an end for every program, with the outcome of the walk. -/
theorem Diagram.ofProgram_ends (program : Program) :
    Stacks.Ends program (Diagram.ofProgram program) := by
  rw [ofProgram]
  cases walk : Sketch.empty.draw program.arena [] program.root with
  | ok result =>
    obtain ⟨root, sketch⟩ := result
    exact ⟨sketch, rfl, Stacks.draw_runs program.arena [] program.root Sketch.empty walk [] []⟩
  | error cause =>
    exact Stacks.draw_fails program.arena [] program.root Sketch.empty walk
      (Stacks.noPrimitives_nil program.arena) [] []

/-- A program that is drawn is drawn by the stacks, which end with its root as their only node, and
no step of theirs fails. -/
theorem Diagram.ofProgram_stacks {program : Program} {diagram : Diagram}
    (drawn : Diagram.ofProgram program = .ok diagram) :
    (∃ sketch, sketch.graph = diagram.graph ∧
      Stacks.Runs program.arena (.start program.root) ⟨sketch, [], [diagram.root], []⟩) ∧
    ∀ state, Stacks.Runs program.arena (.start program.root) state →
      ∃ next, state.step program.arena = .ok next := by
  have ends := ofProgram_ends program
  rw [drawn] at ends
  obtain ⟨sketch, same, runs⟩ := ends
  exact ⟨⟨sketch, same, runs⟩, fun _ => Stacks.step_ok_of_runs runs rfl⟩

end ExprDiagram
