/-
This file shows that the plain drawing of a layout is its box drawing in other characters. A cell of
the plain drawing tells less than its counterpart: a plus sign stands for any lines that meet, and
is read as lines on all four sides. Still, whatever is joined into a cell on both sides leaves
counterparts, because lines that once met are drawn as a plus sign for ever. So the two grids, drawn
side by side, stay counterparts cell by cell, and so do the texts that are made of them.
-/

import ExprDiagram.Proofs.Drawing.Labels

namespace ExprDiagram

/-! ### Characters -/

namespace LineChars

/-- The plain character with the name of a box character; other characters stand for themselves. -/
def exchange (character : Char) : Char :=
  ((box.toList.zip plain.toList).lookup character).getD character

theorem exchange_of_not_mem {character : Char} (free : character ∉ box.toList) :
    exchange character = character := by
  have missing : (box.toList.zip plain.toList).lookup character = none := by
    rw [List.lookup_eq_none_iff]
    intro pair member
    have named := (List.of_mem_zip member).1
    rw [bne_iff_ne]
    rintro rfl
    exact free named
  rw [exchange, missing, Option.getD_none]

theorem exchange_map_of_free {text : List Char}
    (free : ∀ character ∈ text, character ∉ box.toList) : text.map exchange = text :=
  (List.map_congr_left fun character member => exchange_of_not_mem (free character member)).trans
    text.map_id

theorem isWhiteSpace_exchange (character : Char) :
    isWhiteSpace (exchange character) = isWhiteSpace character := by
  by_cases named : character ∈ box.toList
  · have each : box.toList.all fun character =>
        isWhiteSpace (exchange character) == isWhiteSpace character := by decide +kernel
    exact beq_iff_eq.mp (List.all_eq_true.mp each character named)
  · rw [exchange_of_not_mem named]

end LineChars

open LineChars

/-- The characters of the box set and the blank. Nothing else is in a cell while lines are drawn. -/
def lineCharacters : List Char := ' ' :: box.toList

namespace Junction

/-- A vertical arm and a horizontal one meet. The plain set shows every such junction alike. -/
def Meets (junction : Junction) : Prop :=
  (junction.up || junction.down) ∧ (junction.left || junction.right)

instance (junction : Junction) : Decidable junction.Meets := inferInstanceAs (Decidable (_ ∧ _))

theorem Meets.merge {first : Junction} (meets : first.Meets) (second : Junction) :
    (first.merge second).Meets := by
  obtain ⟨vertical, horizontal⟩ := meets
  rw [Bool.or_eq_true] at vertical horizontal
  simp only [Meets, Junction.merge, Bool.or_eq_true]
  exact ⟨vertical.imp .inl .inl, horizontal.imp .inl .inl⟩

theorem Meets.toChar_plain {junction : Junction} (meets : junction.Meets) :
    junction.toChar .plain = '+' := by
  obtain ⟨up, down, left, right⟩ := junction
  revert up down left right
  decide

theorem exchange_toChar (junction : Junction) :
    exchange (junction.toChar .box) = junction.toChar .plain := by
  obtain ⟨up, down, left, right⟩ := junction
  revert up down left right
  decide

/-- What a cell shows can be read from its counterpart, unless lines meet in it. -/
theorem ofChar?_exchange {character : Char} (lined : character ∈ lineCharacters) :
    ofChar? (exchange character) = ofChar? character ∨
      exchange character = '+' ∧ ∃ existing ∈ ofChar? character, existing.Meets := by
  have each : lineCharacters.all fun character =>
      ofChar? (exchange character) = ofChar? character ∨
        exchange character = '+' ∧ ∃ existing ∈ ofChar? character, existing.Meets := by decide
  exact of_decide_eq_true (List.all_eq_true.mp each character lined)

end Junction

/-- Whatever a cell shows, joining a junction into it on both sides leaves counterparts. -/
theorem Canvas.exchange_joined (junction : Junction) {character : Char}
    (lined : character ∈ lineCharacters) :
    exchange (joined .box junction character) = joined .plain junction (exchange character) := by
  rcases Junction.ofChar?_exchange lined with same | ⟨plus, existing, shown, meets⟩
  · rw [joined, joined, same]
    split <;> exact Junction.exchange_toChar _
  · have cross : Junction.Meets ⟨true, true, true, true⟩ := by decide
    rw [joined, shown, plus]
    show exchange ((existing.merge junction).toChar .box) =
      (Junction.merge ⟨true, true, true, true⟩ junction).toChar .plain
    rw [Junction.exchange_toChar, (meets.merge junction).toChar_plain,
      (cross.merge junction).toChar_plain]

theorem Canvas.joined_box_mem (junction : Junction) (character : Char) :
    joined .box junction character ∈ lineCharacters := by
  unfold joined
  split <;> exact Junction.toChar_mem .box _

/-! ### Texts -/

theorem map_intercalate {α β : Type} (change : α → β) (separator : α) (lines : List (List α)) :
    ([separator].intercalate lines).map change =
      [change separator].intercalate (lines.map (List.map change)) := by
  induction lines with
  | nil => rfl
  | cons line rest inductionHypothesis =>
    cases rest with
    | nil => simp
    | cons next rest =>
      rw [List.intercalate_cons_cons, List.map_append, List.map_append, inductionHypothesis]
      exact List.intercalate_cons_cons.symm

theorem trimLine_exchange (line : List Char) :
    trimLine (line.map exchange) = (trimLine line).map exchange := by
  have same : isWhiteSpace ∘ exchange = isWhiteSpace := funext isWhiteSpace_exchange
  rw [trimLine, trimLine, ← List.map_reverse, List.dropWhile_map, same, List.map_reverse]

namespace Canvas

/-- The grid with plain characters. -/
def exchange (canvas : Canvas) : Canvas :=
  ⟨canvas.width, canvas.height, .plain, canvas.rows.map (·.map LineChars.exchange)⟩

theorem lines_exchange (canvas : Canvas) :
    canvas.exchange.lines = canvas.lines.map (List.map LineChars.exchange) := by
  have trimmed : (canvas.exchange.rows.toList.map fun cells => trimLine cells.toList) =
      (canvas.rows.toList.map fun cells => trimLine cells.toList).map
        (List.map LineChars.exchange) := by
    rw [exchange, Array.toList_map, List.map_map, List.map_map]
    refine List.map_congr_left fun cells _ => ?_
    rw [Function.comp_apply, Function.comp_apply, Array.toList_map, trimLine_exchange]
  have empty : List.isEmpty ∘ List.map LineChars.exchange = List.isEmpty :=
    funext fun line => List.isEmpty_map
  rw [lines, lines, trimmed, ← List.map_reverse, List.dropWhile_map, empty, List.map_reverse]

theorem text_exchange (canvas : Canvas) :
    canvas.exchange.text = canvas.text.map LineChars.exchange := by
  refine String.toList_injective ?_
  have lineFeed : LineChars.exchange '\n' = '\n' := by decide
  rw [text, text, lines_exchange, String.toList_map, String.toList_ofList, String.toList_ofList,
    List.map_append, map_intercalate, List.map_singleton, lineFeed]

/-! ### Cells -/

theorem map_modify {α β : Type} {change : α → α} {otherChange : β → β} {image : α → β}
    {items : Array α} (commutes : ∀ item ∈ items, image (change item) = otherChange (image item))
    (index : Nat) :
    (items.modify index change).map image = (items.map image).modify index otherChange := by
  refine Array.ext_getElem? fun place => ?_
  simp only [Array.getElem?_map, Array.getElem?_modify]
  split
  · cases found : items[place]? with
    | none => rfl
    | some item => exact congrArg some (commutes item (Array.mem_of_getElem? found))
  · rfl

theorem forall_mem_modify {α : Type} {holds : α → Prop} {change : α → α} {items : Array α}
    (all : ∀ item ∈ items, holds item) (changed : ∀ item, holds item → holds (change item))
    (index : Nat) : ∀ item ∈ items.modify index change, holds item := by
  intro item member
  obtain ⟨place, found⟩ := Array.getElem?_of_mem member
  rw [Array.getElem?_modify] at found
  split at found
  · obtain ⟨old, here, rfl⟩ := Option.map_eq_some_iff.mp found
    exact changed old (all old (Array.mem_of_getElem? here))
  · exact all item (Array.mem_of_getElem? found)

/-- Changing a cell on both sides leaves counterparts, if it does so for the characters that the
cell may have. -/
theorem update_exchange {canvas : Canvas} (change otherChange : Char → Char)
    (commutes : ∀ cells ∈ canvas.rows, ∀ character ∈ cells,
      LineChars.exchange (change character) = otherChange (LineChars.exchange character))
    (column row : Nat) :
    (canvas.update column row change).exchange = canvas.exchange.update column row otherChange := by
  have rows : (canvas.rows.modify row fun cells => cells.modify column change).map
        (·.map LineChars.exchange) =
      (canvas.rows.map (·.map LineChars.exchange)).modify row
        fun cells => cells.modify column otherChange :=
    map_modify (fun cells member => map_modify (commutes cells member) column) row
  rw [exchange, update, rows]
  rfl

theorem set_exchange (canvas : Canvas) (column row : Nat) (character : Char) :
    (canvas.set column row character).exchange =
      canvas.exchange.set column row (LineChars.exchange character) :=
  update_exchange (fun _ => character) (fun _ => LineChars.exchange character)
    (fun _ _ _ _ => rfl) column row

theorem write_exchange (canvas : Canvas) (column row : Nat) (label : List Char) :
    (canvas.write column row label).exchange =
      canvas.exchange.write column row (label.map LineChars.exchange) := by
  induction label generalizing canvas column with
  | nil => rfl
  | cons character rest inductionHypothesis =>
    rw [write, inductionHypothesis, set_exchange]
    rfl

/-! ### Lines -/

/-- The second grid is the first one with plain characters, and the first one shows nothing but what
is drawn of lines. -/
structure Counterparts (canvas other : Canvas) : Prop where
  box : canvas.charSet = .box
  lined : ∀ cells ∈ canvas.rows, ∀ character ∈ cells, character ∈ lineCharacters
  same : other = canvas.exchange

variable {canvas other : Canvas}

theorem Counterparts.update (counterparts : canvas.Counterparts other) (column row : Nat)
    {change otherChange : Char → Char} (lined : ∀ character, change character ∈ lineCharacters)
    (commutes : ∀ character ∈ lineCharacters,
      LineChars.exchange (change character) = otherChange (LineChars.exchange character)) :
    (canvas.update column row change).Counterparts (other.update column row otherChange) := by
  refine ⟨counterparts.box, ?_, ?_⟩
  · have inRow : ∀ cells : Array Char, (∀ character ∈ cells, character ∈ lineCharacters) →
        ∀ character ∈ cells.modify column change, character ∈ lineCharacters := fun cells each =>
      forall_mem_modify each (fun character _ => lined character) column
    exact forall_mem_modify counterparts.lined inRow row
  · rw [counterparts.same, update_exchange change otherChange]
    exact fun cells inRows character inCells =>
      commutes character (counterparts.lined cells inRows character inCells)

theorem Counterparts.plain (counterparts : canvas.Counterparts other) : other.charSet = .plain := by
  rw [counterparts.same]
  rfl

theorem Counterparts.join (counterparts : canvas.Counterparts other) (column row : Nat)
    (junction : Junction) :
    (canvas.join column row junction).Counterparts (other.join column row junction) := by
  rw [Canvas.join, Canvas.join, counterparts.box, counterparts.plain]
  exact counterparts.update column row (joined_box_mem junction) fun character lined =>
    exchange_joined junction lined

theorem Counterparts.arrow (counterparts : canvas.Counterparts other) (column row : Nat) :
    (canvas.set column row CharSet.box.chars.arrowDown).Counterparts
      (other.set column row CharSet.plain.chars.arrowDown) :=
  counterparts.update column row (fun _ => List.mem_cons_of_mem _ (LineChars.arrowDown_mem _))
    fun _ _ => by decide

theorem Counterparts.foldl {α : Type} {draw otherDraw : Canvas → α → Canvas} {items : List α}
    (each : ∀ item ∈ items, ∀ canvas other, Counterparts canvas other →
      (draw canvas item).Counterparts (otherDraw other item))
    (counterparts : canvas.Counterparts other) :
    (items.foldl draw canvas).Counterparts (items.foldl otherDraw other) := by
  induction items generalizing canvas other with
  | nil => exact counterparts
  | cons item rest inductionHypothesis =>
    obtain ⟨here, later⟩ := List.forall_mem_cons.mp each
    exact inductionHypothesis later (here canvas other counterparts)

theorem Counterparts.horizontalBetween (counterparts : canvas.Counterparts other)
    (row first second : Nat) :
    (canvas.horizontalBetween row first second).Counterparts
      (other.horizontalBetween row first second) := by
  obtain rfl := counterparts.same
  exact counterparts.foldl fun column _ _ _ further => further.join column row .horizontal

theorem Counterparts.vertical (counterparts : canvas.Counterparts other)
    (column top bottom : Nat) :
    (canvas.vertical column top bottom).Counterparts (other.vertical column top bottom) := by
  obtain rfl := counterparts.same
  exact counterparts.foldl fun row _ _ _ further => further.join column row .vertical

theorem Counterparts.across (counterparts : canvas.Counterparts other) (upper lower : Cell)
    (start turn : Junction) :
    (((canvas.join upper.column (upper.row + 1) start).horizontalBetween (upper.row + 1)
        upper.column lower.column).join lower.column (upper.row + 1) turn).Counterparts
      (((other.join upper.column (upper.row + 1) start).horizontalBetween (upper.row + 1)
        upper.column lower.column).join lower.column (upper.row + 1) turn) :=
  ((counterparts.join _ _ start).horizontalBetween _ _ _).join _ _ turn

/-- Drawing an edge on both sides leaves counterparts. -/
theorem Counterparts.wire (counterparts : canvas.Counterparts other) (upper lower : Cell) :
    (canvas.wire upper lower).Counterparts (other.wire upper lower) := by
  have across := counterparts.across upper lower
  unfold Canvas.wire
  simp only
  split
  · exact counterparts
  · split
    · rw [(across _ _).box, (across _ _).plain]
      exact ((across _ _).vertical _ _ _).arrow _ _
    · exact across _ _

theorem counterparts_blank (width height : Nat) :
    (blank width height .box).Counterparts (blank width height .plain) := by
  refine ⟨rfl, fun cells inRows character inCells => ?_, ?_⟩
  · obtain rfl := (Array.mem_replicate.mp inRows).2
    obtain rfl := (Array.mem_replicate.mp inCells).2
    exact List.mem_cons_self
  · have space : LineChars.exchange ' ' = ' ' := by decide
    rw [exchange, blank, blank, Array.map_replicate, Array.map_replicate, space]

end Canvas

/-! ### Layouts -/

/-- The writing with plain characters. -/
def Writing.exchange (writing : Writing) : Writing :=
  ⟨writing.column, writing.row, writing.text.map LineChars.exchange⟩

theorem Writing.put_exchange (canvas : Canvas) (writing : Writing) :
    writing.exchange.put canvas.exchange = (writing.put canvas).exchange :=
  (canvas.write_exchange writing.column writing.row writing.text).symm

section

variable {α : Type} {placed : PlacedNode α}

/-- No label of the layout has a character of the box set. -/
def Layout.FreeOfBox (layout : Layout α) : Prop :=
  ∀ placed ∈ layout.nodes, ∀ character ∈ placed.label.toList, character ∉ box.toList

/-- Labels are as long in one set of characters as in the other. -/
theorem length_drawnLabel (chars other : LineChars) (placed : PlacedNode α) :
    (placed.drawnLabel chars).length = (placed.drawnLabel other).length := by
  unfold PlacedNode.drawnLabel
  split
  · simp only [List.length_append, List.length_cons]
  · rfl

/-- The brackets around a defined name are exchanged. -/
theorem drawnLabel_exchange
    (free : ∀ character ∈ placed.label.toList, character ∉ box.toList) :
    placed.drawnLabel .plain = (placed.drawnLabel .box).map LineChars.exchange := by
  have label := exchange_map_of_free free
  have opening : LineChars.exchange LineChars.box.nameOpen = LineChars.plain.nameOpen := by decide
  have closing : LineChars.exchange LineChars.box.nameClose = LineChars.plain.nameClose := by decide
  unfold PlacedNode.drawnLabel
  split
  · rw [List.map_append, List.map_cons, List.map_singleton, label, opening, closing]
  · exact label.symm

end

namespace Layout

variable {α : Type} [Coordinate α] {layout : Layout α} {columnWidth rowHeight : Nat}

theorem widest_eq (layout : Layout α) (first second : ChartStyle) :
    Chart.widest (Chart.ofLayout first layout).labels =
      Chart.widest (Chart.ofLayout second layout).labels := by
  have length := length_drawnLabel (α := α) first.charSet.chars second.charSet.chars
  simp only [Chart.widest, Chart.ofLayout, Array.foldl_map, length]

/-- The nodes stand in the same columns, whatever they are drawn with. -/
theorem column_plain (layout : Layout α) (columnWidth rowHeight : Nat) :
    layout.column ⟨.plain, columnWidth, rowHeight⟩ =
      layout.column ⟨.box, columnWidth, rowHeight⟩ := by
  funext placed
  rw [column, column, widest_eq layout ⟨.plain, columnWidth, rowHeight⟩
    ⟨.box, columnWidth, rowHeight⟩]
  rfl

theorem columns_plain (layout : Layout α) (columnWidth rowHeight : Nat) :
    (Chart.ofLayout ⟨.plain, columnWidth, rowHeight⟩ layout).columns =
      (Chart.ofLayout ⟨.box, columnWidth, rowHeight⟩ layout).columns :=
  congrArg layout.nodes.map (layout.column_plain columnWidth rowHeight)

theorem cellAt_plain (layout : Layout α) (columnWidth rowHeight place : Nat) :
    layout.cellAt ⟨.plain, columnWidth, rowHeight⟩ place =
      layout.cellAt ⟨.box, columnWidth, rowHeight⟩ place := by
  rw [cellAt, cellAt, Chart.cell?, Chart.cell?, columns_plain]
  rfl

theorem blank_counterparts (layout : Layout α) (columnWidth rowHeight : Nat) :
    (layout.blank ⟨.box, columnWidth, rowHeight⟩).Counterparts
      (layout.blank ⟨.plain, columnWidth, rowHeight⟩) := by
  rw [blank, blank, Chart.blank, Chart.blank, Chart.width, Chart.width, columns_plain,
    widest_eq layout ⟨.plain, columnWidth, rowHeight⟩ ⟨.box, columnWidth, rowHeight⟩]
  exact Canvas.counterparts_blank _ _

/-- Edge by edge, the two grids stay counterparts. -/
theorem wiring_counterparts (layout : Layout α) (columnWidth rowHeight : Nat) :
    (layout.wiring ⟨.box, columnWidth, rowHeight⟩).Counterparts
      (layout.wiring ⟨.plain, columnWidth, rowHeight⟩) := by
  refine (layout.blank_counterparts columnWidth rowHeight).foldl
    fun edge _ canvas other counterparts => ?_
  rw [wire, wire, cellAt_plain, cellAt_plain]
  exact counterparts.wire _ _

theorem writing_plain {placed : PlacedNode α}
    (free : ∀ character ∈ placed.label.toList, character ∉ box.toList)
    (columnWidth rowHeight : Nat) :
    layout.writing ⟨.plain, columnWidth, rowHeight⟩ placed =
      (layout.writing ⟨.box, columnWidth, rowHeight⟩ placed).exchange := by
  have label : placed.drawnLabel CharSet.plain.chars =
      (placed.drawnLabel CharSet.box.chars).map LineChars.exchange := drawnLabel_exchange free
  simp only [writing, PlacedNode.writing, Writing.exchange, column_plain, label, List.length_map]
  rfl

/-- Label by label, the plain grid stays the box grid in plain characters. -/
theorem drawing_plain (free : layout.FreeOfBox) (columnWidth rowHeight : Nat) :
    layout.drawing ⟨.plain, columnWidth, rowHeight⟩ =
      (layout.drawing ⟨.box, columnWidth, rowHeight⟩).exchange := by
  have writings : layout.nodes.toList.map (layout.writing ⟨.plain, columnWidth, rowHeight⟩) =
      (layout.nodes.toList.map (layout.writing ⟨.box, columnWidth, rowHeight⟩)).map
        Writing.exchange := by
    rw [List.map_map]
    exact List.map_congr_left fun placed member =>
      writing_plain (free placed (Array.mem_toList_iff.mp member)) columnWidth rowHeight
  rw [drawing_eq, drawing_eq, (layout.wiring_counterparts columnWidth rowHeight).same, writings,
    List.foldl_map]
  exact List.foldl_hom Canvas.exchange Writing.put_exchange

end Layout

/-- The plain drawing is the box drawing in other characters. Whatever text is converted, if no
label has a character of the box set, then with all measures the two drawings have the same text,
but for the characters of lines, arrows and brackets, in place of which stand those of the plain
set. -/
theorem chart_plain (α : Type) [Coordinate α] {source : String} {layout : Layout α}
    (converted : convert source = .ok layout) (free : layout.FreeOfBox)
    (columnWidth rowHeight : Nat) :
    ∃ text, layout.chart? ⟨.box, columnWidth, rowHeight⟩ = some text ∧
      layout.chart? ⟨.plain, columnWidth, rowHeight⟩ = some (text.map LineChars.exchange) := by
  obtain ⟨_, box, _⟩ := printed_of_convert ⟨.box, columnWidth, rowHeight⟩ converted
  obtain ⟨_, plain, _⟩ := printed_of_convert ⟨.plain, columnWidth, rowHeight⟩ converted
  refine ⟨_, box, ?_⟩
  rw [plain, Layout.drawing_plain free, Canvas.text_exchange]

theorem chart_plain_twoRows :
    ∃ layout : Layout Float, convert twoRows = .ok layout ∧ layout.FreeOfBox ∧
      ∃ text, layout.chart? ⟨.box, 0, 4⟩ = some text ∧
        layout.chart? ⟨.plain, 0, 4⟩ = some (text.map LineChars.exchange) := by
  obtain ⟨layout, converted⟩ := twoRows_converted Float
  have labelled : twoRowsProgram.arena.Labelled fun label =>
      ∀ character ∈ label.toList, character ∉ box.toList := by
    have each : twoRowsProgram.arena.exprs.toList.all fun expr =>
        expr.label.toList.all fun character => character ∉ box.toList := by decide
    intro id expr found character inLabel
    have all := List.all_eq_true.mp each expr
      (Array.mem_toList_iff.mpr (Array.mem_of_getElem? found))
    exact of_decide_eq_true (List.all_eq_true.mp all character inLabel)
  have free : layout.FreeOfBox := fun placed member =>
    holds_label_of_convert converted twoRows_parsed labelled member
  exact ⟨layout, converted, free, chart_plain Float converted free 0 4⟩

end ExprDiagram
