/-
This file shows that a layout depends on what can be reached from the root and on nothing else of a
program. Two programs may be put together by hand, with calls that are used twice, and with
expressions that contain themselves. If the second holds a copy of what can be reached in the first,
then both have the same layout, or both have none and the same expression is at fault, however the
expressions are numbered and whatever else the programs hold.
-/

import ExprDiagram.Proofs.Diagram.Renaming
import ExprDiagram.Proofs.Layout.Sharing

namespace ExprDiagram

open Relation

variable {program other : Program} {numbers : ExprId → ExprId}

/-- The other program holds a copy of what can be reached in the program. Different expressions have
different copies, of the same label and kind, and below the copy of an expression stand the copies
of the expressions below it, in their order. -/
structure Program.Copies (program other : Program) (numbers : ExprId → ExprId) : Prop where
  injective : Set.InjOn numbers program.reachable
  root : numbers program.root = other.root
  stored : ∀ id ∈ program.reachable, ∀ expr, program.arena.get? id = some expr →
    other.arena.get? (numbers id) = some (expr.renumber numbers)

theorem Program.InRange.exists_expr (inRange : program.InRange) {id : ExprId}
    (reached : id ∈ program.reachable) : ∃ expr, program.arena.get? id = some expr :=
  ⟨_, Array.getElem?_eq_getElem (inRange id reached)⟩

theorem Program.Copies.renamed (copies : program.Copies other numbers)
    (inRange : program.InRange) :
    program.arena.Renamed other.arena program.reachable numbers id := by
  refine ⟨copies.injective, fun _ reached _ holds => reached.tail holds, fun id reached => ?_⟩
  obtain ⟨expr, found⟩ := inRange.exists_expr reached
  rw [found, copies.stored id reached expr found, Option.map_some, Expr.relabel_id]

/-- Where expressions refer to stored expressions only, a copy of all of them is a copy of those
that can be reached. -/
theorem Program.copies_of_closed (closed : program.arena.Closed)
    (rootBound : program.root < program.arena.size)
    (injective : ∀ first < program.arena.size, ∀ second < program.arena.size,
      numbers first = numbers second → first = second)
    (root : numbers program.root = other.root)
    (stored : ∀ id < program.arena.size,
      other.arena.get? (numbers id) = (program.arena.get? id).map (Expr.renumber numbers)) :
    program.Copies other numbers := by
  have inRange := closed.inRange rootBound
  refine ⟨fun first reached second reachedSecond => ?_, root, fun id reached expr found => ?_⟩
  · exact injective first (inRange first reached) second (inRange second reachedSecond)
  · rw [stored id (inRange id reached), found, Option.map_some]

/-- The diagram of a program is that of its copy. -/
theorem Program.Copies.ofProgram_eq (copies : program.Copies other numbers)
    (inRange : program.InRange) : Diagram.ofProgram other = Diagram.ofProgram program := by
  rw [Diagram.ofProgram_renamed (copies.renamed inRange) .refl copies.root]
  cases Diagram.ofProgram program with
  | ok diagram => exact congrArg Except.ok diagram.relabel_id
  | error cause => exact congrArg Except.error cause.relabel_id

/-- A program whose numbers are in range has the layout of its copy, or an expression of some label
contains itself and is the cause for which neither has a layout. -/
theorem layout_of_copy (α : Type) [Coordinate α] {program other : Program}
    {numbers : ExprId → ExprId} (inRange : program.InRange)
    (copies : program.Copies other numbers) :
    (∃ layout : Layout α,
      Layout.ofProgram program = .ok layout ∧ Layout.ofProgram other = .ok layout) ∨
    ∃ label, program.Circular label ∧
      (Layout.ofProgram program : Except DrawError (Layout α)) =
        .error (.cyclicExpression label) ∧
      (Layout.ofProgram other : Except DrawError (Layout α)) =
        .error (.cyclicExpression label) := by
  have same : (Layout.ofProgram other : Except DrawError (Layout α)) =
      Layout.ofProgram program := by
    rw [Layout.ofProgram, copies.ofProgram_eq inRange]
    rfl
  rw [same]
  cases drawn : Diagram.ofProgram program with
  | ok diagram =>
    obtain ⟨_, _, layout, _, _, computed, _, _⟩ := Layout.ofProgram_displays α drawn
    exact .inl ⟨layout, computed, computed⟩
  | error cause =>
    obtain ⟨label, rfl, circular⟩ := Diagram.ofProgram_circular inRange drawn
    have failed : (Layout.ofProgram program : Except DrawError (Layout α)) =
        .error (.cyclicExpression label) := by
      rw [Layout.ofProgram, drawn]
      rfl
    exact .inr ⟨label, circular, failed, failed⟩

/-- A program in which a call and a variable are used twice. -/
def sharing : Program :=
  ⟨⟨#[.call "f" [1, 1, 2], .call "g" [2], .var "x" 3, .primitive "1" .number]⟩, .empty, 0⟩

/-- The same program in another order, next to an expression that contains itself. -/
def sharingMoved : Program :=
  ⟨⟨#[.primitive "1" .number, .call "h" [1], .var "x" 0, .call "g" [2], .call "f" [3, 3, 2]]⟩,
    .empty, 4⟩

/-- A program that contains itself through a variable. -/
def selfContained : Program :=
  ⟨⟨#[.call "f" [2, 1], .var "x" 0, .primitive "y" .symbol]⟩, .empty, 0⟩

/-- The same program in another order. -/
def selfContainedMoved : Program :=
  ⟨⟨#[.var "x" 2, .primitive "y" .symbol, .call "f" [1, 0]]⟩, .empty, 2⟩

theorem layout_of_copy_moved :
    (sharing.InRange ∧ sharing.Copies sharingMoved ([4, 3, 2, 0].getD · 0) ∧
      ((∃ layout : Layout Float,
        Layout.ofProgram sharing = .ok layout ∧ Layout.ofProgram sharingMoved = .ok layout) ∨
      ∃ label, sharing.Circular label ∧
        (Layout.ofProgram sharing : Except DrawError (Layout Float)) =
          .error (.cyclicExpression label) ∧
        (Layout.ofProgram sharingMoved : Except DrawError (Layout Float)) =
          .error (.cyclicExpression label))) ∧
    (selfContained.InRange ∧ selfContained.Copies selfContainedMoved ([2, 0, 1].getD · 0) ∧
      ((∃ layout : Layout Float, Layout.ofProgram selfContained = .ok layout ∧
        Layout.ofProgram selfContainedMoved = .ok layout) ∨
      ∃ label, selfContained.Circular label ∧
        (Layout.ofProgram selfContained : Except DrawError (Layout Float)) =
          .error (.cyclicExpression label) ∧
        (Layout.ofProgram selfContainedMoved : Except DrawError (Layout Float)) =
          .error (.cyclicExpression label))) := by
  have sharingClosed : sharing.arena.Closed := by decide
  have sharingCopies : sharing.Copies sharingMoved ([4, 3, 2, 0].getD · 0) :=
    Program.copies_of_closed sharingClosed (by decide) (by decide) rfl (by decide)
  have selfClosed : selfContained.arena.Closed := by decide
  have selfCopies : selfContained.Copies selfContainedMoved ([2, 0, 1].getD · 0) :=
    Program.copies_of_closed selfClosed (by decide) (by decide) rfl (by decide)
  have sharingInRange := sharingClosed.inRange (by decide)
  have selfInRange := selfClosed.inRange (by decide)
  exact ⟨⟨sharingInRange, sharingCopies, layout_of_copy Float sharingInRange sharingCopies⟩,
    selfInRange, selfCopies, layout_of_copy Float selfInRange selfCopies⟩

end ExprDiagram
