/-
This file shows that a layout whose numbers are those of a spanning tree can be written in every
form. All numbers that the drawings look up are places of nodes. What is taken away from columns and
rows is never more than there is: half of a label is no more than half of the longest, by which the
leftmost column stands off the edge, and an edge falls by at least the height of one row.
-/

import ExprDiagram.Proofs.Layout.Spanning
import ExprDiagram.Render.Output

namespace ExprDiagram

/-- When no step fails, going through a list does not fail. -/
theorem foldlM_eq_some {α β : Type} {run : β → α → Option β} {step : β → α → β} {items : List α}
    (each : ∀ item ∈ items, ∀ state, run state item = some (step state item)) (state : β) :
    items.foldlM run state = some (items.foldl step state) := by
  induction items generalizing state with
  | nil => rfl
  | cons item rest inductionHypothesis =>
    rw [List.foldlM_cons, each item List.mem_cons_self state]
    exact inductionHypothesis (fun other member => each other (List.mem_cons_of_mem _ member)) _

theorem mapM_eq_some {α β : Type} {run : α → Option β} {result : α → β} {items : List α}
    (each : ∀ item ∈ items, run item = some (result item)) :
    items.mapM run = some (items.map result) := by
  induction items with
  | nil => rfl
  | cons item rest inductionHypothesis =>
    rw [List.mapM_cons, each item List.mem_cons_self,
      inductionHypothesis fun other member => each other (List.mem_cons_of_mem _ member)]
    rfl

variable {α : Type} {layout : Layout α} {style : ChartStyle} {place : Nat}

namespace Layout

/-- Every node is numbered by its place, and the children of all nodes are places. -/
structure Numbered (layout : Layout α) : Prop where
  numbers : ∀ (id : Nat) (placed : PlacedNode α), layout.nodes[id]? = some placed → placed.id = id
  children_lt : ∀ placed ∈ layout.nodes, ∀ child ∈ placed.children, child < layout.size

theorem Spanned.numbered (spanned : layout.Spanned) : layout.Numbered :=
  ⟨spanned.numbers, spanned.children_lt⟩

/-- Every node stands at the place that its number names. -/
theorem Numbered.getElem?_id (numbered : layout.Numbered) {placed : PlacedNode α}
    (member : placed ∈ layout.nodes) : layout.nodes[placed.id]? = some placed := by
  obtain ⟨place, bound, rfl⟩ := Array.getElem_of_mem member
  have found := Array.getElem?_eq_getElem bound
  rw [numbered.numbers place _ found, found]

/-- An edge belongs to an argument of the node of its upper number. -/
theorem Spanned.slot (spanned : layout.Spanned) {upper lower position : Nat}
    (member : (upper, lower, position) ∈ layout.edges) :
    ∃ above, layout.nodes[upper]? = some above ∧ above.children[position]? = some lower := by
  obtain ⟨above, inNodes, inEdges⟩ := List.mem_flatMap.mp member
  obtain ⟨⟨child, slot⟩, inChildren, same⟩ := List.mem_map.mp inEdges
  cases same
  exact ⟨above, spanned.numbered.getElem?_id (Array.mem_toList_iff.mp inNodes),
    List.mem_zipIdx_iff_getElem?.mp inChildren⟩

/-- An edge joins the node of its upper number to one of the children of this node. -/
theorem Spanned.edge (spanned : layout.Spanned) {upper lower position : Nat}
    (member : (upper, lower, position) ∈ layout.edges) :
    ∃ above below, layout.nodes[upper]? = some above ∧ layout.nodes[lower]? = some below ∧
      lower ∈ above.children := by
  obtain ⟨above, found, isSlot⟩ := spanned.slot member
  have isChild := List.mem_of_getElem? isSlot
  have childBound := spanned.children_lt above (Array.mem_of_getElem? found) lower isChild
  exact ⟨above, _, found, Array.getElem?_eq_getElem childBound, isChild⟩

theorem Spanned.height_pos (spanned : layout.Spanned) : 0 < layout.height :=
  lt_height_iff.mpr ⟨_, Array.getElem_mem spanned.rootNode, Nat.zero_le _⟩

end Layout

/-! ### Drawings with characters -/

namespace Chart

theorem length_le_widest {labels : Array (List Char)} {label : List Char}
    (found : labels[place]? = some label) : label.length ≤ widest labels := by
  rw [widest, ← Array.foldl_toList]
  exact (le_foldl_max List.length _ 0).2 label
    (Array.mem_toList_iff.mpr (Array.mem_of_getElem? found))

end Chart

namespace Layout

variable [Coordinate α]

/-- The column of a node in the drawing of a layout. -/
def column (style : ChartStyle) (layout : Layout α) (placed : PlacedNode α) : Nat :=
  let widest := Chart.widest (Chart.ofLayout style layout).labels
  widest / 2 + Coordinate.nearest
    ((placed.offset - layout.minOffset) * Coordinate.ofNat (Chart.unit style widest))

/-- The cell of the label of a node in the drawing of a layout. -/
def cell (style : ChartStyle) (layout : Layout α) (placed : PlacedNode α) : Cell :=
  ⟨layout.column style placed, placed.depth * Chart.step style⟩

variable {placed : PlacedNode α}

theorem getElem?_columns (style : ChartStyle) (found : layout.nodes[place]? = some placed) :
    (Chart.ofLayout style layout).columns[place]? = some (layout.column style placed) := by
  show (layout.nodes.map (layout.column style))[place]? = _
  rw [Array.getElem?_map, found, Option.map_some]

theorem cell?_eq (found : layout.nodes[place]? = some placed) :
    (Chart.ofLayout style layout).cell? place = some (layout.cell style placed) := by
  have depth : (Chart.ofLayout style layout).depths[place]? = some placed.depth := by
    simp only [Chart.ofLayout, Array.getElem?_map, found, Option.map_some]
  rw [Chart.cell?, getElem?_columns style found, depth]
  rfl

theorem getElem?_labels (style : ChartStyle) (found : layout.nodes[place]? = some placed) :
    (Chart.ofLayout style layout).labels[place]? =
      some (placed.drawnLabel style.charSet.chars) := by
  simp only [Chart.ofLayout, Array.getElem?_map, found, Option.map_some]

theorem length_drawnLabel_le (style : ChartStyle) (found : layout.nodes[place]? = some placed) :
    (placed.drawnLabel style.charSet.chars).length ≤
      Chart.widest (Chart.ofLayout style layout).labels :=
  Chart.length_le_widest (getElem?_labels style found)

/-- A label fits to the left of the column of its node: the leftmost column leaves room for half of
the longest label. -/
theorem half_le_column (style : ChartStyle) (found : layout.nodes[place]? = some placed) :
    (placed.drawnLabel style.charSet.chars).length / 2 ≤ layout.column style placed :=
  (Nat.div_le_div_right (length_drawnLabel_le style found)).trans (Nat.le_add_right _ _)

end Layout

/-- What is taken away in the drawing of a layout is there: there is a row, half of each label lies
within the column of its node, and the lower end of each edge stands two lines below its upper end
or deeper. -/
structure Layout.Drawable [Coordinate α] (layout : Layout α) (style : ChartStyle) : Prop where
  height : 0 < layout.height
  labels : ∀ (place : Nat) (label : List Char),
    (Chart.ofLayout style layout).labels[place]? = some label →
    ∃ column, (Chart.ofLayout style layout).columns[place]? = some column ∧
      label.length / 2 ≤ column
  edges : ∀ (upper lower position : Nat), (upper, lower, position) ∈ layout.edges →
    ∃ above below, (Chart.ofLayout style layout).cell? upper = some above ∧
      (Chart.ofLayout style layout).cell? lower = some below ∧ above.row + 2 ≤ below.row

namespace Layout

variable [Coordinate α]

theorem Spanned.drawable (spanned : layout.Spanned) (graded : layout.Graded) (style : ChartStyle) :
    layout.Drawable style := by
  refine ⟨spanned.height_pos, fun place label found => ?_, fun upper lower position member => ?_⟩
  · have bound : place < layout.nodes.size := by
      have inLabels := (Array.getElem?_eq_some_iff.mp found).1
      rwa [Chart.ofLayout, Array.size_map] at inLabels
    have here := Array.getElem?_eq_getElem bound
    obtain rfl := Option.some.inj (found.symm.trans (getElem?_labels style here))
    exact ⟨_, getElem?_columns style here, half_le_column style here⟩
  · obtain ⟨above, below, foundAbove, foundBelow, isChild⟩ := spanned.edge member
    refine ⟨_, _, cell?_eq foundAbove, cell?_eq foundBelow, ?_⟩
    have deeper : above.depth + 1 ≤ below.depth :=
      graded.deeper above (Array.mem_of_getElem? foundAbove) lower isChild below foundBelow
    have rows := Nat.mul_le_mul_right (Chart.step style) deeper
    have least : 2 ≤ Chart.step style := Nat.le_max_right _ _
    rw [Nat.add_mul, Nat.one_mul] at rows
    exact (Nat.add_le_add_left least _).trans rows

/-- The cell of the label of the node at a place. -/
def cellAt (style : ChartStyle) (layout : Layout α) (place : Nat) : Cell :=
  ((Chart.ofLayout style layout).cell? place).getD ⟨0, 0⟩

/-- The grid of a drawing before anything is drawn on it. -/
def blank (style : ChartStyle) (layout : Layout α) : Canvas := (Chart.ofLayout style layout).blank

/-- Draws an edge between the cells of its nodes. -/
def wire (style : ChartStyle) (layout : Layout α) (canvas : Canvas) (edge : Nat × Nat × Nat) :
    Canvas :=
  canvas.wire (layout.cellAt style edge.1) (layout.cellAt style edge.2.1)

/-- The grid with the lines of all edges. -/
def wiring (style : ChartStyle) (layout : Layout α) : Canvas :=
  layout.edges.foldl (layout.wire style) (layout.blank style)

/-- The grid with the lines of all edges and the labels of all nodes. -/
def drawing (style : ChartStyle) (layout : Layout α) : Canvas :=
  layout.nodes.toList.foldl
    (fun canvas placed =>
      let label := placed.drawnLabel style.charSet.chars
      canvas.write (layout.column style placed - label.length / 2)
        (placed.depth * Chart.step style) label)
    (layout.wiring style)

/-- Edges of the layout can be drawn in any order. -/
theorem Drawable.foldlM_wire? (drawable : layout.Drawable style) {edges : List (Nat × Nat × Nat)}
    (inside : ∀ edge ∈ edges, edge ∈ layout.edges) (canvas : Canvas) :
    edges.foldlM (fun canvas (upper, lower, _) =>
        (Chart.ofLayout style layout).wire? canvas upper lower) canvas =
      some (edges.foldl (layout.wire style) canvas) := by
  refine foldlM_eq_some (fun edge member canvas => ?_) _
  obtain ⟨upper, lower, position⟩ := edge
  obtain ⟨above, below, foundAbove, foundBelow, _⟩ :=
    drawable.edges upper lower position (inside _ member)
  show Chart.wire? _ canvas upper lower = _
  rw [Chart.wire?, wire, cellAt, cellAt, foundAbove, foundBelow]
  rfl

theorem Drawable.wired?_eq (drawable : layout.Drawable style) :
    layout.wired? style = some (layout.wiring style) :=
  drawable.foldlM_wire? (fun _ member => member) _

theorem Spanned.foldlM_label? (spanned : layout.Spanned) (style : ChartStyle) (canvas : Canvas) :
    (layout.nodes.toList.zip (Chart.ofLayout style layout).labels.toList).foldlM
        (fun canvas (node, label) =>
          (Chart.ofLayout style layout).label? canvas node.id node.depth label) canvas =
      some (layout.nodes.toList.foldl
        (fun canvas placed =>
          let label := placed.drawnLabel style.charSet.chars
          canvas.write (layout.column style placed - label.length / 2)
            (placed.depth * Chart.step style) label)
        canvas) := by
  have pairs : layout.nodes.toList.zip (Chart.ofLayout style layout).labels.toList =
      layout.nodes.toList.map fun placed => (placed, placed.drawnLabel style.charSet.chars) := by
    rw [List.map_prod_left_eq_zip, Chart.ofLayout, Array.toList_map]
  rw [pairs, List.foldlM_map]
  refine foldlM_eq_some (fun placed member canvas => ?_) _
  have found := spanned.numbered.getElem?_id (Array.mem_toList_iff.mp member)
  show Chart.label? _ canvas placed.id placed.depth _ = _
  rw [Chart.label?, getElem?_columns style found]
  exact if_pos (half_le_column style found)

theorem Spanned.canvas?_eq (spanned : layout.Spanned) (drawable : layout.Drawable style) :
    layout.canvas? style = some (layout.drawing style) := by
  rw [canvas?, drawable.wired?_eq]
  exact spanned.foldlM_label? style (layout.wiring style)

theorem Spanned.exists_chart (spanned : layout.Spanned) (graded : layout.Graded)
    (style : ChartStyle) : ∃ text, layout.chart? style = some text := by
  rw [chart?, spanned.canvas?_eq (spanned.drawable graded style)]
  by_cases empty : layout.isEmpty
  · exact ⟨_, if_pos empty⟩
  · exact ⟨_, if_neg empty⟩

theorem storedChart?_of_storable (storable : (Chart.ofLayout style layout).Storable) :
    layout.storedChart? style = layout.chart? style :=
  if_pos storable

/-! ### Vector drawings -/

/-- The disc of a node. -/
def disc (style : PageStyle α) (layout : Layout α) (placed : PlacedNode α) : Disc α :=
  ⟨style.centre layout.minOffset placed, placed.label, placed.kind == .var⟩

/-- The centre of the disc of the node at a place. -/
def centreAt (style : PageStyle α) (layout : Layout α) (place : Nat) : Point α :=
  (layout.nodes[place]?.map (style.centre layout.minOffset)).getD ⟨Coordinate.zero, Coordinate.zero⟩

/-- The curve of an edge. -/
def curve (style : PageStyle α) (layout : Layout α) (edge : Nat × Nat × Nat) : Curve α :=
  style.curve (layout.centreAt style edge.1) edge.2.2
    (layout.nodes[edge.1]?.elim 0 fun upper => upper.children.length)
    (layout.centreAt style edge.2.1)

/-- The geometry of a layout: curves in the order of the edges and discs in that of the nodes. -/
def page (style : PageStyle α) (layout : Layout α) : Page α where
  width := style.columnWidth * layout.width + Coordinate.two * style.inset
  height := style.rowHeight * Coordinate.ofNat (layout.height - 1) + Coordinate.two * style.inset
  curves := layout.edges.map (layout.curve style)
  discs := layout.nodes.toList.map (layout.disc style)

theorem centreAt_eq (style : PageStyle α) (found : layout.nodes[place]? = some placed) :
    layout.centreAt style place = style.centre layout.minOffset placed := by
  rw [centreAt, found]
  rfl

theorem getElem?_centres (style : PageStyle α) (bound : place < layout.size) :
    (layout.nodes.map (style.centre layout.minOffset))[place]? =
      some (layout.centreAt style place) := by
  have found := Array.getElem?_eq_getElem bound
  rw [Array.getElem?_map, found, centreAt_eq style found, Option.map_some]

theorem Numbered.page?_eq (numbered : layout.Numbered) (style : PageStyle α) :
    layout.page? style = some (layout.page style) := by
  have number : ∀ node ∈ layout.nodes.toList, layout.nodes[node.id]? = some node := fun node member =>
    numbered.getElem?_id (Array.mem_toList_iff.mp member)
  have inRange : ∀ node ∈ layout.nodes.toList, node.id < layout.size := fun node member =>
    (Array.getElem?_eq_some_iff.mp (number node member)).1
  have discs : layout.nodes.toList.mapM (fun node =>
      (layout.nodes.map (style.centre layout.minOffset))[node.id]?.bind fun centre =>
        some (⟨centre, node.label, node.kind == .var⟩ : Disc α)) =
      some (layout.nodes.toList.map (layout.disc style)) := by
    refine mapM_eq_some fun node member => ?_
    rw [getElem?_centres style (inRange node member), centreAt_eq style (number node member)]
    rfl
  have curves : layout.nodes.toList.mapM
      (style.curves? (layout.nodes.map (style.centre layout.minOffset))) =
      some (layout.nodes.toList.map fun node => node.children.zipIdx.map fun item =>
        layout.curve style (node.id, item.1, item.2)) := by
    refine mapM_eq_some fun node member => mapM_eq_some fun item inChildren => ?_
    have isChild := List.fst_mem_of_mem_zipIdx inChildren
    have below := numbered.children_lt node (Array.mem_toList_iff.mp member) item.1 isChild
    simp only [getElem?_centres style (inRange node member), getElem?_centres style below, curve,
      number node member]
    rfl
  have ordered : (layout.nodes.toList.map fun node => node.children.zipIdx.map fun item =>
      layout.curve style (node.id, item.1, item.2)).flatten =
      layout.edges.map (layout.curve style) := by
    rw [edges, List.map_flatMap, List.flatMap_def]
    simp only [List.map_map]
    rfl
  rw [page?, page, ← ordered]
  simp only [curves, discs, Option.bind_eq_bind, Option.bind_some, Option.pure_def]

theorem Spanned.page?_eq (spanned : layout.Spanned) (style : PageStyle α) :
    layout.page? style = some (layout.page style) :=
  spanned.numbered.page?_eq style

theorem Spanned.exists_page (spanned : layout.Spanned) (style : PageStyle α) :
    ∃ page, layout.page? style = some page :=
  ⟨_, spanned.page?_eq style⟩

/-- A layout is written in every form and with all measures, if there is enough memory for the grid
of a drawing with characters. -/
theorem Spanned.exists_render {layout : Layout Float} (spanned : layout.Spanned)
    (graded : layout.Graded) (config : RenderConfig)
    (room : config.format = .ascii → (Chart.ofLayout config.chart layout).Storable) :
    ∃ text, layout.render config = .ok text := by
  rw [render]
  cases format : config.format with
  | json => exact ⟨_, rfl⟩
  | svg =>
    obtain ⟨page, computed⟩ := spanned.exists_page config.page
    show ∃ text, inRange (layout.svg? config.page) = .ok text
    rw [svg?, computed]
    by_cases empty : layout.isEmpty
    · exact ⟨_, by rw [if_pos empty]; rfl⟩
    · exact ⟨_, by rw [if_neg empty]; rfl⟩
  | ascii =>
    obtain ⟨text, computed⟩ := spanned.exists_chart graded config.chart
    show ∃ text, inRange (layout.storedChart? config.chart) = .ok text
    rw [storedChart?_of_storable (room format), computed]
    exact ⟨text, rfl⟩

end Layout

end ExprDiagram
