/-
This file says how far a subtree is moved. In the rows that it shares with the subtrees to its left
it asks for room: as much as brings its leftmost node one unit to the right of their rightmost one.
The subtree is moved by the largest of these demands, so that it touches the others in some row, but
only when that is not negative; a subtree that could be moved to the left stays where it is, and
keeps more than one unit in all rows.

The shift of a node is found in the frames when all nodes have been placed: it is set once, when the
node's parent is placed, and nothing below is changed after that.
-/

import ExprDiagram.Proofs.Placement.Descent
import ExprDiagram.Proofs.Placement.Rigidity
import ExprDiagram.Proofs.Placement.Stages

namespace ExprDiagram

open RoseTree

namespace Frames

/-! ### What placing keeps -/

section

variable {α : Type} [Coordinate α] {below : Array (List Nat)} {frames joined spread placed : Frames α}
variable {node : Nat}

theorem join?_keeps {first previous moved : Nat} {merged left : List α}
    (joins : frames.join? below first previous moved merged left = some joined) :
    joined.offset = frames.offset ∧ joined.shift = frames.shift := by
  have kept : ∀ side short tall, frames.setThread? below side short tall = some joined →
      joined.offset = frames.offset ∧ joined.shift = frames.shift := by
    intro side short tall joins
    rcases setThread?_cases joins with rfl | ⟨_, _, _, _, _, rfl⟩
    · exact ⟨rfl, rfl⟩
    · exact ⟨rfl, rfl⟩
  rcases join?_cases joins with joins | joins | rfl
  · exact kept _ _ _ joins
  · exact kept _ _ _ joins
  · exact ⟨rfl, rfl⟩

/-- Putting subtrees side by side moves their tops only. -/
theorem spread?_keeps {first previous : Nat} {merged : List α} {rest : List Nat}
    (spreads : frames.spread? below first previous merged rest = some spread) :
    spread.offset = frames.offset ∧
      ∀ other ∉ rest, spread.shift[other]? = frames.shift[other]? := by
  induction rest generalizing frames previous merged with
  | nil =>
    obtain rfl : frames = spread := Option.some.inj spreads
    exact ⟨rfl, fun _ _ => rfl⟩
  | cons next rest inductionHypothesis =>
    simp only [Moment.spread?_round, Option.bind_eq_some_iff] at spreads
    obtain ⟨_, _, _, _, _, _, joined, joins, spreads⟩ := spreads
    obtain ⟨offset, shift⟩ := join?_keeps joins
    obtain ⟨offsetRest, shiftRest⟩ := inductionHypothesis spreads
    refine ⟨offsetRest.trans offset, fun other outside => ?_⟩
    rw [shiftRest other (List.not_mem_of_not_mem_cons outside), shift]
    exact Array.getElem?_setIfInBounds_ne (List.ne_of_not_mem_cons outside).symm

/-- Placing a node moves its children, and gives a place to the node itself. -/
theorem place?_keeps (places : place? below frames node = some placed) {nodes : List Nat}
    (found : below[node]? = some nodes) :
    (∀ other ≠ node, placed.offset[other]? = frames.offset[other]?) ∧
      ∀ other ∉ nodes, placed.shift[other]? = frames.shift[other]? := by
  obtain ⟨children, spread, positions, here, spreads, _, rfl⟩ := Moment.place?_eq_some places
  obtain rfl := Option.some.inj (here.symm.trans found)
  have kept : spread.offset = frames.offset ∧
      ∀ other ∉ children, spread.shift[other]? = frames.shift[other]? := by
    rcases spreads with ⟨rfl, rfl⟩ | ⟨first, rest, rfl, spreads⟩
    · exact ⟨rfl, fun _ _ => rfl⟩
    · obtain ⟨offset, shift⟩ := spread?_keeps spreads
      exact ⟨offset, fun other outside => shift other (List.not_mem_of_not_mem_cons outside)⟩
  refine ⟨fun other different => ?_, kept.2⟩
  rw [← kept.1]
  exact Array.getElem?_setIfInBounds_ne (Ne.symm different)

end

/-! ### Finished frames -/

variable {below : Array (List Nat)} {frames first between placed : Frames Rat}
variable {tree : RoseTree Nat} {trees children : List (RoseTree Nat)} {id depth : Nat}

/-- In all subtrees of a tree, the top has the place that it has in its own drawing, and the trees
below it are packed in its frame. -/
def Composed (frames : Frames Rat) (tree : RoseTree Nat) : Prop :=
  ∀ depth id children, Subtree depth (.node id children) tree →
    frames.offsetOf id = (plain (.node id children)).value.2 ∧
      children.map (frames.drawn 0) = pack [] (children.map plain)

theorem Composed.congr (composed : Composed frames tree)
    (offset : ∀ id ∈ tree.values, frames.offset[id]? = placed.offset[id]?)
    (shift : ∀ id ∈ valuesAll tree.children, frames.shift[id]? = placed.shift[id]?) :
    Composed placed tree := by
  intro depth id children subtree
  obtain ⟨stands, packed⟩ := composed depth id children subtree
  have inTree := subtree.values_infix.subset
  have inBelow : valuesAll children ⊆ valuesAll tree.children := subtree.valuesAll_children_subset
  refine ⟨?_, ?_⟩
  · rw [← stands, offsetOf, offsetOf, offset id (inTree List.mem_cons_self)]
  · rw [← packed]
    refine List.map_congr_left fun child member => drawn_eq (fun other inChild => ?_)
      (fun other inChild => ?_) 0
    · rw [offsetOf, offsetOf, offset other
        (inTree (List.mem_cons_of_mem _ (values_subset_valuesAll member inChild)))]
    · rw [shiftOf, shiftOf, shift other (inBelow (values_subset_valuesAll member inChild))]

theorem Composed.node (placing : Placing below frames between children)
    (places : place? below between id = some placed)
    (all : Placing below frames placed [.node id children])
    (composed : ∀ child ∈ children, Composed between child) :
    Composed placed (.node id children) := by
  have listed := all.grove.listed _ List.mem_cons_self
  have distinct := all.grove.tree List.mem_cons_self
  have settled := all.settled _ List.mem_cons_self
  have outside := not_mem_children distinct
  have here : below[id]? = some (children.map value) := by
    cases listed with
    | node here _ => exact here
  obtain ⟨offset, shift⟩ := place?_keeps places here
  intro depth top lower subtree
  cases subtree with
  | top =>
    have unmoved : placed.shiftOf id = 0 := settled.unmoved
    have drawn := settled.drawn
    rw [drawn_node, unmoved, add_zero, add_zero] at drawn
    refine ⟨?_, ?_⟩
    · rw [← drawn, value]
    · rw [plain_node] at drawn
      exact (RoseTree.node.inj drawn).2
  | inside member subtree =>
    refine (composed _ member).congr (fun other inChild => ?_) (fun other inLower => ?_) _ _ _
      subtree
    · exact (offset other fun same =>
        outside (same ▸ values_subset_valuesAll member inChild)).symm
    · refine (shift other fun inTops => ?_).symm
      obtain ⟨sibling, inChildren, rfl⟩ := List.mem_map.mp inTops
      obtain rfl := eq_of_mem_values placing.grove.distinct inChildren member
        sibling.value_mem_values (valuesAll_children_subset _ inLower)
      obtain ⟨number, deeper⟩ := sibling
      exact not_mem_children (placing.grove.tree member) inLower

/-- In the frames of a tree all subtrees are packed in their places. -/
theorem composed_of_placing (placing : Placing below frames placed [tree]) :
    ∀ other ∈ [tree], Composed placed other := by
  refine placing.induct (motive := fun _ placed trees => ∀ tree ∈ trees, Composed placed tree)
    (fun _ _ member => absurd member List.not_mem_nil) ?_ ?_
  · intro frames first placed tree rest _ placingRest all composed composedRest
    have grove : Grove below ([tree] ++ rest) := all.grove
    refine List.forall_mem_cons.mpr ⟨?_, composedRest⟩
    have apart : ∀ id ∈ tree.values, id ∉ valuesAll rest := by
      have disjoint := grove.disjoint
      rwa [valuesAll_singleton] at disjoint
    exact (composed tree List.mem_cons_self).congr
      (fun id inTree => placingRest.outside.offset id (apart id inTree))
      (fun id inBelow => placingRest.outside.shift id
        (apart id (tree.valuesAll_children_subset inBelow)))
  · intro frames between placed id children placing places all composed
    exact List.forall_mem_singleton.mpr (Composed.node placing places all composed)

end Frames

/-! ### Largest demands -/

theorem exists_pack (placed drawings : List Drawing) :
    ∃ more, pack placed drawings = placed ++ more := by
  induction drawings generalizing placed with
  | nil => exact ⟨[], (List.append_nil placed).symm⟩
  | cons next rest inductionHypothesis =>
    obtain ⟨more, same⟩ := inductionHypothesis (placed ++ [translate (clearance placed next) next])
    exact ⟨_, same.trans (List.append_assoc _ _ _)⟩

/-- The clearance is the largest demand of the rows that are shared, or zero if that is negative. -/
theorem exists_largest {placed : List Drawing} {next : Drawing}
    (shared : 0 < min (heightAll placed) next.height) :
    ∃ largest, clearance placed next = max 0 largest ∧
      IsGreatest {demand | ∃ row < min (heightAll placed) next.height,
        demand = 1 + rightmost row placed - leftmost row [next]} largest := by
  have fold : clearance placed next = ((List.range (min (heightAll placed) next.height)).map
      fun row => 1 + rightmost row placed - leftmost row [next]).foldl max 0 := by
    rw [List.foldl_map]
    rfl
  rw [List.foldl_max] at fold
  cases found : ((List.range (min (heightAll placed) next.height)).map
      fun row => 1 + rightmost row placed - leftmost row [next]).max? with
  | none =>
    rw [List.max?_eq_none_iff, List.map_eq_nil_iff, List.range_eq_nil] at found
    exact absurd found shared.ne'
  | some largest =>
    rw [found] at fold
    obtain ⟨member, bound⟩ := List.max?_eq_some_iff.mp found
    refine ⟨largest, fold, ?_, ?_⟩
    · obtain ⟨row, inside, same⟩ := List.mem_map.mp member
      exact ⟨row, List.mem_range.mp inside, same.symm⟩
    · rintro demand ⟨row, inside, rfl⟩
      exact bound _ (List.mem_map_of_mem (List.mem_range.mpr inside))

/-! ### Demands on the page -/

/-- Where nodes stand. -/
def standingAt (offset : Array Rat) (nodes : List Nat) : Set Rat :=
  {position | ∃ node ∈ nodes, offset[node]? = some position}

/-- How far a subtree has to be moved for the sake of each row that it shares with the subtrees to
its left: one unit further than from its leftmost node, where that would stand if the subtree had
not been moved, to their rightmost one. -/
def demands (offset : Array Rat) (shift : Rat) (earlier : List (RoseTree Nat))
    (next : RoseTree Nat) : Set Rat :=
  {demand | ∃ row right left, IsGreatest (standingAt offset (rowAll row earlier)) right ∧
    IsLeast (standingAt offset (next.row row)) left ∧ demand = separation + right - (left - shift)}

/-- In some row, a subtree keeps no more than the separation to the subtrees to its left. -/
def Touches (offset : Array Rat) (earlier : List (RoseTree Nat)) (next : RoseTree Nat) : Prop :=
  ∃ row right left, IsGreatest (standingAt offset (rowAll row earlier)) right ∧
    IsLeast (standingAt offset (next.row row)) left ∧ left = right + separation

theorem touches_iff {offset : Array Rat} {earlier : List (RoseTree Nat)} {next : RoseTree Nat}
    (shift : Rat) : Touches offset earlier next ↔ shift ∈ demands offset shift earlier next := by
  constructor
  · rintro ⟨row, right, left, greatest, least, touching⟩
    exact ⟨row, right, left, greatest, least, by linarith⟩
  · rintro ⟨row, right, left, greatest, least, demanded⟩
    exact ⟨row, right, left, greatest, least, by linarith⟩

variable {below : Array (List Nat)} {tree next : RoseTree Nat} {earlier later : List (RoseTree Nat)}
variable {offset : Array Rat} {drawings : List Drawing} {trees : List (RoseTree Nat)}
variable {distance : Rat} {depth id : Nat}

/-- The nodes of a row stand where their drawings, moved by a distance, have them. -/
theorem standingAt_rowAll (ids : drawings.map (map Prod.fst) = trees)
    (stands : ∀ item ∈ valuesAll drawings, offset[item.1]? = some (item.2 + distance)) (row : Nat) :
    standingAt offset (rowAll row trees) =
      (· + distance) '' {position | position ∈ positionsAt row drawings} := by
  subst ids
  ext position
  constructor
  · rintro ⟨node, member, found⟩
    rw [rowAll_map] at member
    obtain ⟨item, inRow, rfl⟩ := List.mem_map.mp member
    refine ⟨item.2, List.mem_map_of_mem inRow, ?_⟩
    exact Option.some.inj ((stands item (rowAll_subset_valuesAll row _ inRow)).symm.trans found)
  · rintro ⟨own, member, rfl⟩
    obtain ⟨item, inRow, rfl⟩ := List.mem_map.mp member
    refine ⟨item.1, ?_, stands item (rowAll_subset_valuesAll row _ inRow)⟩
    rw [rowAll_map]
    exact List.mem_map_of_mem inRow

theorem isGreatest_standingAt_iff (ids : drawings.map (map Prod.fst) = trees)
    (stands : ∀ item ∈ valuesAll drawings, offset[item.1]? = some (item.2 + distance)) {row : Nat}
    {position : Rat} : IsGreatest (standingAt offset (rowAll row trees)) position ↔
      row < heightAll drawings ∧ position = rightmost row drawings + distance := by
  rw [standingAt_rowAll ids stands]
  have moved : row < heightAll drawings → IsGreatest ((· + distance) ''
      {position | position ∈ positionsAt row drawings}) (rightmost row drawings + distance) :=
    fun inside => (monotone_id.add_const distance).map_isGreatest (isGreatest_rightmost inside)
  constructor
  · intro greatest
    obtain ⟨own, member, -⟩ := greatest.1
    have inside := positionsAt_ne_nil_iff.mp (List.ne_nil_of_mem member)
    exact ⟨inside, greatest.unique (moved inside)⟩
  · rintro ⟨inside, rfl⟩
    exact moved inside

theorem isLeast_standingAt_iff (ids : drawings.map (map Prod.fst) = trees)
    (stands : ∀ item ∈ valuesAll drawings, offset[item.1]? = some (item.2 + distance)) {row : Nat}
    {position : Rat} : IsLeast (standingAt offset (rowAll row trees)) position ↔
      row < heightAll drawings ∧ position = leftmost row drawings + distance := by
  rw [standingAt_rowAll ids stands]
  have moved : row < heightAll drawings → IsLeast ((· + distance) ''
      {position | position ∈ positionsAt row drawings}) (leftmost row drawings + distance) :=
    fun inside => (monotone_id.add_const distance).map_isLeast (isLeast_leftmost inside)
  constructor
  · intro least
    obtain ⟨own, member, -⟩ := least.1
    have inside := positionsAt_ne_nil_iff.mp (List.ne_nil_of_mem member)
    exact ⟨inside, least.unique (moved inside)⟩
  · rintro ⟨inside, rfl⟩
    exact moved inside

/-- The drawings of the first trees below a node are packed as if they were the only ones, and the
drawing of the next one is moved by its clearance. -/
theorem exists_pack_children (earlier later : List (RoseTree Nat)) (next : RoseTree Nat) :
    ∃ more, pack [] ((earlier ++ next :: later).map plain) = pack [] (earlier.map plain) ++
      translate (clearance (pack [] (earlier.map plain)) (plain next)) (plain next) :: more := by
  rw [List.map_append, List.map_cons, pack_append, pack]
  obtain ⟨more, same⟩ := exists_pack (pack [] (earlier.map plain) ++
    [translate (clearance (pack [] (earlier.map plain)) (plain next)) (plain next)])
    (later.map plain)
  exact ⟨more, same.trans (List.append_assoc _ _ _)⟩

theorem ids_pack_plain (trees : List (RoseTree Nat)) :
    (pack [] (trees.map plain)).map (map Prod.fst) = trees := by
  rw [ids_pack, List.map_nil, List.nil_append, List.map_map]
  exact map_eq_self fun tree _ => ids_plain tree

/-- In the frames of a tree, a subtree is moved by its clearance. -/
theorem Frames.Composed.shiftOf_eq {frames : Frames Rat} (composed : frames.Composed tree)
    (subtree : Subtree depth (.node id (earlier ++ next :: later)) tree) :
    frames.shiftOf next.value = clearance (pack [] (earlier.map plain)) (plain next) := by
  obtain ⟨-, packed⟩ := composed _ _ _ subtree
  obtain ⟨more, pack_eq⟩ := exists_pack_children earlier later next
  rw [pack_eq, List.map_append, List.map_cons] at packed
  have length : (earlier.map (frames.drawn 0)).length = (pack [] (earlier.map plain)).length := by
    have ids := congrArg List.length (ids_pack_plain earlier)
    rw [List.length_map] at ids
    rw [List.length_map, ids]
  have here := (List.cons.inj (List.append_inj packed length).2).1
  obtain ⟨number, children⟩ := next
  have own := (composed _ _ _ (subtree.child (List.mem_append_right _ List.mem_cons_self))).1
  have tops := congrArg (fun drawing : Drawing => drawing.value.2) here
  simp only [drawn_node, value] at tops
  rw [own, zero_add] at tops
  exact add_left_cancel tops

/-- On the page, the first trees below a node stand as they are packed, moved by some distance, and
the next one as it is drawn alone, moved by its clearance as well. -/
theorem exists_distance (stands : ∀ item ∈ (centred tree).values, offset[item.1]? = some item.2)
    (subtree : Subtree depth (.node id (earlier ++ next :: later)) tree) :
    ∃ distance, (∀ item ∈ valuesAll (pack [] (earlier.map plain)),
        offset[item.1]? = some (item.2 + distance)) ∧
      ∀ item ∈ valuesAll [plain next], offset[item.1]? =
        some (item.2 + (clearance (pack [] (earlier.map plain)) (plain next) + distance)) := by
  obtain ⟨distance, drawn⟩ := exists_subtree_centred subtree
  obtain ⟨more, pack_eq⟩ := exists_pack_children earlier later next
  rw [plain_node, pack_eq] at drawn
  have inside : ∀ item ∈ valuesAll (pack [] (earlier.map plain) ++
      translate (clearance (pack [] (earlier.map plain)) (plain next)) (plain next) :: more),
      offset[item.1]? = some (item.2 + distance) :=
    fun item member => stands _ (drawn.values_infix.subset
      (mem_translate _ (List.mem_cons_of_mem _ member)))
  rw [valuesAll_append, valuesAll] at inside
  refine ⟨distance, fun item member => inside item (List.mem_append_left _ member),
    fun item member => ?_⟩
  rw [valuesAll_singleton] at member
  rw [← add_assoc]
  exact inside _ (List.mem_append_right _ (List.mem_append_left _ (mem_translate _ member)))

/-- The demands of a subtree are those of its drawing, when it stands alone. -/
theorem demands_eq (stands : ∀ item ∈ (centred tree).values, offset[item.1]? = some item.2)
    (subtree : Subtree depth (.node id (earlier ++ next :: later)) tree) :
    demands offset (clearance (pack [] (earlier.map plain)) (plain next)) earlier next =
      {demand | ∃ row < min (heightAll (pack [] (earlier.map plain))) (plain next).height,
        demand = 1 + rightmost row (pack [] (earlier.map plain)) - leftmost row [plain next]} := by
  obtain ⟨distance, inEarlier, inNext⟩ := exists_distance stands subtree
  have ids : [plain next].map (map Prod.fst) = [next] := by rw [List.map_singleton, ids_plain]
  have greatest := fun row right =>
    @isGreatest_standingAt_iff _ _ _ _ (ids_pack_plain earlier) inEarlier row right
  have least := fun row left => @isLeast_standingAt_iff _ _ _ _ ids inNext row left
  ext demand
  constructor
  · rintro ⟨row, right, left, isRight, isLeft, rfl⟩
    rw [← rowAll_singleton] at isLeft
    obtain ⟨rowEarlier, rfl⟩ := (greatest row right).mp isRight
    obtain ⟨rowNext, rfl⟩ := (least row left).mp isLeft
    refine ⟨row, lt_min rowEarlier (heightAll_singleton (plain next) ▸ rowNext), ?_⟩
    show 1 + _ - _ = _
    ring
  · rintro ⟨row, shared, rfl⟩
    obtain ⟨rowEarlier, rowNext⟩ := lt_min_iff.mp shared
    have isLeft := (least row _).mpr ⟨(heightAll_singleton (plain next)).symm ▸ rowNext, rfl⟩
    rw [rowAll_singleton] at isLeft
    refine ⟨row, _, _, (greatest row _).mpr ⟨rowEarlier, rfl⟩, isLeft, ?_⟩
    show _ = 1 + _ - _
    ring

/-! ### Shifts -/

/-- In the frames of a tree, each subtree below a node is moved by the largest demand of the rows
that it shares with those to its left, or not at all when that is negative; and in the first case,
but not in the second, it touches them. -/
theorem shift_eq_largest_demand (below : Array (List Nat)) (tree : RoseTree Nat)
    (listed : tree.ListedIn below) (distinct : tree.values.Nodup) :
    ∃ (frames : Frames Rat) (offset : Array Rat),
      Frames.ofTree? below tree.value = some frames ∧ offsets? tree.value below = some offset ∧
      ∀ depth id earlier next later,
        Subtree depth (.node id (earlier ++ next :: later)) tree → earlier ≠ [] →
        ∃ shift largest : Rat, frames.shift[next.value]? = some shift ∧
          IsGreatest (demands offset shift earlier next) largest ∧ shift = max 0 largest ∧
          (Touches offset earlier next ↔ 0 ≤ largest) := by
  obtain ⟨frames, placing⟩ := Frames.exists_placing_tree listed distinct
  obtain ⟨offset, computed, stands⟩ := exists_offsets listed distinct
  have composed := Frames.composed_of_placing placing tree List.mem_cons_self
  refine ⟨frames, offset, placing.ofTree?, computed, ?_⟩
  intro depth id earlier next later subtree nonempty
  have shared : 0 < min (heightAll (pack [] (earlier.map plain))) (plain next).height := by
    refine lt_min (rowAll_ne_nil_iff.mp ?_) (plain next).height_pos
    intro empty
    rw [rowAll_zero, List.map_eq_nil_iff] at empty
    have ids := ids_pack_plain earlier
    rw [empty, List.map_nil] at ids
    exact nonempty ids.symm
  obtain ⟨largest, clears, greatest⟩ := exists_largest shared
  rw [← demands_eq stands subtree] at greatest
  have inside := subtree.child (List.mem_append_right earlier List.mem_cons_self)
  have member : next.value ∈ tree.values := inside.values_infix.subset next.value_mem_values
  refine ⟨_, largest, placing.sizedPlaced.getElem?_shift (listed.values_lt _ member), ?_⟩
  rw [composed.shiftOf_eq subtree]
  refine ⟨greatest, clears, ?_⟩
  rw [touches_iff (clearance (pack [] (earlier.map plain)) (plain next))]
  constructor
  · intro demanded
    have bound := greatest.2 demanded
    rw [clears] at bound
    exact (le_max_left 0 largest).trans bound
  · intro nonnegative
    rw [clears, max_eq_right nonnegative] at greatest ⊢
    exact greatest.1

theorem shift_eq_largest_demand_threaded :
    threaded.ListedIn threadedBelow ∧ threaded.values.Nodup ∧
      ∃ (frames : Frames Rat) (offset : Array Rat),
        Frames.ofTree? threadedBelow 0 = some frames ∧ offsets? 0 threadedBelow = some offset ∧
        ∀ depth id earlier next later,
          Subtree depth (.node id (earlier ++ next :: later)) threaded → earlier ≠ [] →
          ∃ shift largest : Rat, frames.shift[next.value]? = some shift ∧
            IsGreatest (demands offset shift earlier next) largest ∧ shift = max 0 largest ∧
            (Touches offset earlier next ↔ 0 ≤ largest) :=
  ⟨by decide, by decide,
    shift_eq_largest_demand threadedBelow threaded (by decide) (by decide)⟩

/-- A node without children to the left of one that has four. -/
def loose : RoseTree Nat :=
  .node 0 [.node 1 [], .node 2 [.node 3 [], .node 4 [], .node 5 [], .node 6 []]]

/-- The lists of that tree. -/
def looseBelow : Array (List Nat) :=
  #[[1, 2], [], [3, 4, 5, 6], [], [], [], []]

/-- Not every subtree touches those to its left. Over the wide row below it the second child of the
root stands further to the right, in its own frame, than its sibling asks for; it is not moved back,
and keeps one and a half units. -/
theorem exists_loose :
    loose.ListedIn looseBelow ∧ loose.values.Nodup ∧
      ∃ (frames : Frames Rat) (offset : Array Rat) (first second : RoseTree Nat),
        Frames.ofTree? looseBelow 0 = some frames ∧ offsets? 0 looseBelow = some offset ∧
        loose = .node 0 [first, second] ∧ frames.shift[second.value]? = some 0 ∧
        ¬ IsGreatest (demands offset 0 [first] second) 0 ∧ ¬ Touches offset [first] second := by
  have computed : offsets? 0 looseBelow =
      some (#[0, -3 / 4, 3 / 4, -3 / 4, 1 / 4, 5 / 4, 9 / 4] : Array Rat) := by
    decide +kernel
  have unmoved : ((Frames.ofTree? looseBelow 0).bind fun frames : Frames Rat => frames.shift[2]?) =
      some 0 := by
    decide +kernel
  obtain ⟨frames, placed, shift⟩ := Option.bind_eq_some_iff.mp unmoved
  have apart : ¬ Touches #[0, -3 / 4, 3 / 4, -3 / 4, 1 / 4, 5 / 4, 9 / 4] [.node 1 []]
      (.node 2 [.node 3 [], .node 4 [], .node 5 [], .node 6 []]) := by
    rintro ⟨row, right, left, greatest, least, touching⟩
    obtain ⟨node, inFirst, foundRight⟩ := greatest.1
    obtain ⟨other, inSecond, foundLeft⟩ := least.1
    cases row with
    | zero =>
      rw [rowAll_singleton, row_zero, List.mem_singleton] at inFirst
      rw [row_zero, List.mem_singleton] at inSecond
      subst inFirst inSecond
      obtain rfl := Option.some.inj foundRight
      obtain rfl := Option.some.inj foundLeft
      exact absurd touching (by decide +kernel)
    | succ row => cases inFirst
  refine ⟨by decide, by decide, frames, _, _, _, placed, computed, rfl, shift, fun greatest => ?_,
    apart⟩
  exact apart ((touches_iff 0).mpr greatest.1)

end ExprDiagram
