/-
This file takes the placing of a tree apart. A moment holds the frames as they are between two
changes, and what is still to be done: the nodes that wait for their turn, and how far the first of
them has come. From each moment there is at most one step, which makes one change, and the steps
from the first moment lead to the frames of the tree. So whatever holds at every moment on the way
holds throughout the placing, and not only at its end.
-/

import ExprDiagram.Placement.Contour
import Mathlib.Logic.Relation

namespace ExprDiagram

variable {α : Type}

namespace Frames

/-! ### Moments -/

/-- How far the first of the waiting nodes has come. When a subtree below it is about to be moved or
has been moved, the first and the previous subtree are known, what was merged of the right contours,
and the subtrees after it. -/
inductive Task (α : Type) where
  | begin
  /-- The first subtree of the rest is to be moved next to the previous one. -/
  | spread (first previous : Nat) (merged : List α) (rest : List Nat)
  /-- The subtree has been moved, and a thread may be missing. -/
  | join (first previous node : Nat) (merged left : List α) (rest : List Nat)
  /-- All subtrees are in place. -/
  | centre

/-- The frames between two changes, the nodes that wait, and how far the first of them has come. -/
structure Moment (α : Type) where
  frames : Frames α
  waiting : List Nat
  task : Task α

variable [Coordinate α]

/-- The frames with that of a node at another distance. -/
def withShift (frames : Frames α) (node : Nat) (distance : α) : Frames α :=
  { frames with shift := frames.shift.setIfInBounds node distance }

/-- The frames with a node at another place in its own one. -/
def withOffset (frames : Frames α) (node : Nat) (position : α) : Frames α :=
  { frames with offset := frames.offset.setIfInBounds node position }

/-- Sets the thread that is missing after a subtree has been moved next to the previous one, given
the right contour of those before it and its own left contour. -/
def join? (below : Array (List Nat)) (frames : Frames α) (first previous node : Nat)
    (merged left : List α) : Option (Frames α) :=
  if merged.length < left.length then frames.setThread? below .left first node
  else if left.length < merged.length then frames.setThread? below .right node previous
  else some frames

namespace Moment

/-- The moment before anything is placed. -/
def start? (below : Array (List Nat)) (root : Nat) : Option (Moment α) := do
  return ⟨initial below.size, ← postOrder? below root, .begin⟩

/-- The moment when no node waits any more. -/
def finish (frames : Frames α) : Moment α := ⟨frames, [], .begin⟩

/-- The next moment. There is none when no node waits, and none when a contour does not end or a
number lies outside the lists. -/
def step? (below : Array (List Nat)) : Moment α → Option (Moment α)
  | ⟨_, [], _⟩ => none
  | ⟨frames, node :: waiting, .begin⟩ => do
    match ← below[node]? with
    | [] => return ⟨frames, node :: waiting, .centre⟩
    | first :: rest => return ⟨frames, node :: waiting, .spread first first [] rest⟩
  | ⟨frames, node :: waiting, .spread _ _ _ []⟩ => some ⟨frames, node :: waiting, .centre⟩
  | ⟨frames, node :: waiting, .spread first previous merged (next :: rest)⟩ => do
    let merged := maxContour merged (← frames.contour? below .right previous)
    let left ← frames.contour? below .left next
    let moved := (← frames.shift[next]?) + gap merged left
    return ⟨frames.withShift next moved, node :: waiting,
      .join first previous next merged left rest⟩
  | ⟨frames, node :: waiting, .join first previous next merged left rest⟩ => do
    return ⟨← frames.join? below first previous next merged left, node :: waiting,
      .spread first next merged rest⟩
  | ⟨frames, node :: waiting, .centre⟩ => do
    let positions ← (← below[node]?).mapM fun child =>
      return (← frames.offset[child]?) + (← frames.shift[child]?)
    return ⟨frames.withOffset node (Coordinate.mean positions), waiting, .begin⟩

/-- What a step does. -/
inductive Step (below : Array (List Nat)) : Moment α → Moment α → Prop
  | leaf {frames : Frames α} {node : Nat} {waiting : List Nat}
    (childless : below[node]? = some []) :
    Step below ⟨frames, node :: waiting, .begin⟩ ⟨frames, node :: waiting, .centre⟩
  | enter {frames : Frames α} {node first : Nat} {waiting rest : List Nat}
    (children : below[node]? = some (first :: rest)) :
    Step below ⟨frames, node :: waiting, .begin⟩
      ⟨frames, node :: waiting, .spread first first [] rest⟩
  | finish {frames : Frames α} {node first previous : Nat} {merged : List α} {waiting : List Nat} :
    Step below ⟨frames, node :: waiting, .spread first previous merged []⟩
      ⟨frames, node :: waiting, .centre⟩
  | move {frames : Frames α} {node first previous next : Nat} {merged right left : List α}
    {shift : α} {waiting rest : List Nat}
    (rightContour : frames.contour? below .right previous = some right)
    (leftContour : frames.contour? below .left next = some left)
    (shifted : frames.shift[next]? = some shift) :
    Step below ⟨frames, node :: waiting, .spread first previous merged (next :: rest)⟩
      ⟨frames.withShift next (shift + gap (maxContour merged right) left), node :: waiting,
        .join first previous next (maxContour merged right) left rest⟩
  | join {frames joined : Frames α} {node first previous next : Nat} {merged left : List α}
    {waiting rest : List Nat}
    (joins : frames.join? below first previous next merged left = some joined) :
    Step below ⟨frames, node :: waiting, .join first previous next merged left rest⟩
      ⟨joined, node :: waiting, .spread first next merged rest⟩
  | stand {frames : Frames α} {node : Nat} {waiting children : List Nat} {positions : List α}
    (found : below[node]? = some children)
    (collected : children.mapM (fun child => do
      return (← frames.offset[child]?) + (← frames.shift[child]?)) = some positions) :
    Step below ⟨frames, node :: waiting, .centre⟩
      ⟨frames.withOffset node (Coordinate.mean positions), waiting, .begin⟩

theorem step?_eq_some_iff {below : Array (List Nat)} {moment next : Moment α} :
    step? below moment = some next ↔ Step below moment next := by
  constructor
  · intro step
    obtain ⟨frames, waiting, task⟩ := moment
    cases waiting with
    | nil => cases step
    | cons node waiting =>
      cases task with
      | begin =>
        obtain ⟨children, found, step⟩ := Option.bind_eq_some_iff.mp step
        cases children with
        | nil =>
          obtain rfl := Option.some.inj step
          exact .leaf found
        | cons first rest =>
          obtain rfl := Option.some.inj step
          exact .enter found
      | spread first previous merged rest =>
        cases rest with
        | nil =>
          obtain rfl := Option.some.inj step
          exact .finish
        | cons next rest =>
          obtain ⟨right, rightContour, step⟩ := Option.bind_eq_some_iff.mp step
          obtain ⟨left, leftContour, step⟩ := Option.bind_eq_some_iff.mp step
          obtain ⟨shift, shifted, step⟩ := Option.bind_eq_some_iff.mp step
          obtain rfl := Option.some.inj step
          exact .move rightContour leftContour shifted
      | join first previous next merged left rest =>
        obtain ⟨joined, joins, step⟩ := Option.bind_eq_some_iff.mp step
        obtain rfl := Option.some.inj step
        exact .join joins
      | centre =>
        obtain ⟨children, found, step⟩ := Option.bind_eq_some_iff.mp step
        obtain ⟨positions, collected, step⟩ := Option.bind_eq_some_iff.mp step
        obtain rfl := Option.some.inj step
        exact .stand found collected
  · intro step
    cases step with
    | leaf childless => rw [step?, childless]; rfl
    | enter children => rw [step?, children]; rfl
    | finish => rfl
    | move rightContour leftContour shifted => rw [step?, rightContour, leftContour, shifted]; rfl
    | join joins => rw [step?, joins]; rfl
    | stand found collected =>
      rw [step?, found]
      simp only [Option.bind_eq_bind, Option.bind_some] at collected ⊢
      rw [collected]
      rfl

/-- The steps from one moment lead to the other. -/
def Reaches (below : Array (List Nat)) : Moment α → Moment α → Prop :=
  Relation.ReflTransGen fun moment next => step? below moment = some next

/-- The steps from one moment lead to the other, and all moments before that have a property. -/
def Runs (below : Array (List Nat)) (property : Moment α → Prop) : Moment α → Moment α → Prop :=
  Relation.ReflTransGen fun moment next => property moment ∧ step? below moment = some next

variable {below : Array (List Nat)} {property other : Moment α → Prop}
variable {first moment next last : Moment α}

/-! ### Runs -/

theorem Runs.mono (runs : Runs below property first last)
    (weaker : ∀ moment, property moment → other moment) : Runs below other first last :=
  Relation.ReflTransGen.mono (fun moment _ step => ⟨weaker moment step.1, step.2⟩) _ _ runs

theorem Runs.single (holds : property moment) (step : Step below moment next) :
    Runs below property moment next :=
  Relation.ReflTransGen.single ⟨holds, step?_eq_some_iff.mpr step⟩

theorem Runs.trans (before : Runs below property first moment)
    (after : Runs below property moment last) : Runs below property first last :=
  Relation.ReflTransGen.trans before after

theorem Reaches.single (step : Step below moment next) : Reaches below moment next :=
  Relation.ReflTransGen.single (step?_eq_some_iff.mpr step)

theorem Reaches.trans (before : Reaches below first moment) (after : Reaches below moment last) :
    Reaches below first last :=
  Relation.ReflTransGen.trans before after

theorem eq_of_reaches_finish {frames : Frames α} (reaches : Reaches below (finish frames) moment) :
    moment = finish frames := by
  rcases Relation.ReflTransGen.cases_head reaches with same | ⟨next, step, _⟩
  · exact same.symm
  · cases step

/-- As there is one way to go on, every moment is on the way to the end. -/
theorem Reaches.onward {frames : Frames α} (toEnd : Reaches below first (finish frames))
    (reaches : Reaches below first moment) : Reaches below moment (finish frames) := by
  have unique : Relator.RightUnique fun moment next : Moment α => step? below moment = some next :=
    fun _ _ _ here other => Option.some.inj (here.symm.trans other)
  rcases Relation.ReflTransGen.total_of_right_unique unique reaches toEnd with onward | back
  · exact onward
  · obtain rfl := eq_of_reaches_finish back
    exact .refl

/-- What holds on the way to the end holds at every moment. -/
theorem Runs.throughout {frames : Frames α} (runs : Runs below property first (finish frames))
    (atEnd : property (finish frames)) (reaches : Reaches below first moment) : property moment := by
  induction runs using Relation.ReflTransGen.head_induction_on with
  | refl =>
    obtain rfl := eq_of_reaches_finish reaches
    exact atEnd
  | @head first second step _ inductionHypothesis =>
    rcases Relation.ReflTransGen.cases_head reaches with rfl | ⟨next, other, onward⟩
    · exact step.1
    · obtain rfl : second = next := Option.some.inj (step.2.symm.trans other)
      exact inductionHypothesis onward

/-- What every step keeps holds at every moment after the first. -/
theorem Reaches.invariant (reaches : Reaches below first moment) (holds : property first)
    (keeps : ∀ moment next, property moment → Step below moment next → property next) :
    property moment := by
  induction reaches with
  | refl => exact holds
  | tail _ step inductionHypothesis =>
    exact keeps _ _ inductionHypothesis (step?_eq_some_iff.mp step)

/-! ### The placing of a tree -/

variable {frames after : Frames α} {node top previous : Nat} {merged : List α}
variable {rest waiting : List Nat}

/-- One round of the loop moves a subtree and sets the thread that is missing. -/
theorem spread?_round (below : Array (List Nat)) (frames : Frames α) (top previous next : Nat)
    (merged : List α) (rest : List Nat) :
    frames.spread? below top previous merged (next :: rest) =
      (frames.contour? below .right previous).bind fun right =>
      (frames.contour? below .left next).bind fun left =>
      frames.shift[next]?.bind fun shift =>
      ((frames.withShift next (shift + gap (maxContour merged right) left)).join? below top previous
        next (maxContour merged right) left).bind fun joined =>
      joined.spread? below top next (maxContour merged right) rest := by
  rw [spread?]
  refine Option.bind_congr fun right _ => Option.bind_congr fun left _ =>
    Option.bind_congr fun shift _ => ?_
  unfold join?
  split
  · rfl
  · split
    · rfl
    · rfl

/-- The loop over the subtrees below a node goes through the moments of a run. -/
theorem spread?_reaches (spreads : frames.spread? below top previous merged rest = some after) :
    Reaches below ⟨frames, node :: waiting, .spread top previous merged rest⟩
      ⟨after, node :: waiting, .centre⟩ := by
  induction rest generalizing frames previous merged with
  | nil =>
    obtain rfl : frames = after := Option.some.inj spreads
    exact Reaches.single .finish
  | cons next rest inductionHypothesis =>
    simp only [spread?_round, Option.bind_eq_some_iff] at spreads
    obtain ⟨right, rightContour, left, leftContour, shift, shifted, joined, joins, spreads⟩ :=
      spreads
    exact (Reaches.single (.move rightContour leftContour shifted)).trans
      ((Reaches.single (.join joins)).trans (inductionHypothesis spreads))

/-- A node is placed over the mean of its children, which have been put side by side. -/
theorem place?_eq_some (places : place? below frames node = some after) :
    ∃ children spread positions, below[node]? = some children ∧
      (children = [] ∧ spread = frames ∨ ∃ first rest, children = first :: rest ∧
        frames.spread? below first first [] rest = some spread) ∧
      children.mapM (fun child => do
        return (← spread.offset[child]?) + (← spread.shift[child]?)) = some positions ∧
      after = spread.withOffset node (Coordinate.mean positions) := by
  simp only [place?, Option.bind_eq_bind, Option.bind_eq_some_iff] at places
  obtain ⟨children, found, places⟩ := places
  cases children with
  | nil => exact ⟨[], frames, [], found, .inl ⟨rfl, rfl⟩, rfl, (Option.some.inj places).symm⟩
  | cons first rest =>
    obtain ⟨spread, spreads, places⟩ := Option.bind_eq_some_iff.mp places
    obtain ⟨positions, collected, places⟩ := Option.bind_eq_some_iff.mp places
    exact ⟨_, spread, positions, found, .inr ⟨first, rest, rfl, spreads⟩, collected,
      (Option.some.inj places).symm⟩

/-- So does the placing of a node. -/
theorem place?_reaches (places : place? below frames node = some after) :
    Reaches below ⟨frames, node :: waiting, .begin⟩ ⟨after, waiting, .begin⟩ := by
  obtain ⟨children, spread, positions, found, spreads, collected, rfl⟩ := place?_eq_some places
  refine Reaches.trans ?_ (Reaches.single (.stand found collected))
  rcases spreads with ⟨rfl, rfl⟩ | ⟨first, rest, rfl, spreads⟩
  · exact Reaches.single (.leaf found)
  · exact (Reaches.single (.enter found)).trans (spread?_reaches spreads)

theorem foldlM_reaches {nodes : List Nat} (places : nodes.foldlM (place? below) frames = some after) :
    Reaches below ⟨frames, nodes, .begin⟩ (finish after) := by
  induction nodes generalizing frames with
  | nil =>
    obtain rfl : frames = after := Option.some.inj places
    exact .refl
  | cons node rest inductionHypothesis =>
    rw [List.foldlM_cons] at places
    obtain ⟨placed, here, places⟩ := Option.bind_eq_some_iff.mp places
    exact (place?_reaches here).trans (inductionHypothesis places)

/-- The steps lead from the first moment to the frames of the tree. -/
theorem ofTree?_reaches {root : Nat} (placed : ofTree? below root = some frames) :
    ∃ first, start? below root = some first ∧ Reaches below first (finish frames) := by
  simp only [ofTree?, Option.bind_eq_bind, Option.bind_eq_some_iff] at placed
  obtain ⟨order, ordered, places⟩ := placed
  exact ⟨⟨initial below.size, order, .begin⟩, by rw [start?, ordered]; rfl, foldlM_reaches places⟩

end Moment

end Frames

end ExprDiagram
