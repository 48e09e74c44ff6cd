/-
This file finds what a scanner for markup sees in a vector drawing: the page, a triangle and a curve
for each edge, a circle and a label for each node, and nothing else. Labels are the only text of the
outside in a drawing, and they are escaped, so that a label can look like markup or like an entity
and is still only a label. The numbers in a drawing have no character that ends an attribute or a
tag.
-/

import ExprDiagram.Proofs.Layout.Rendering
import ExprDiagram.Proofs.Svg.Tags

namespace ExprDiagram

/-! ### Numbers -/

/-- A text that ends neither the value of an attribute nor a tag. -/
def Inert (text : List Char) : Prop :=
  '"' ∉ text ∧ '>' ∉ text

namespace Inert

variable {first second : List Char} {character : Char}

instance (text : List Char) : Decidable (Inert text) :=
  inferInstanceAs (Decidable ('"' ∉ text ∧ '>' ∉ text))

theorem append (inertFirst : Inert first) (inertSecond : Inert second) :
    Inert (first ++ second) :=
  ⟨List.not_mem_append inertFirst.1 inertSecond.1, List.not_mem_append inertFirst.2 inertSecond.2⟩

theorem append_text {first second : String} (inertFirst : Inert first.toList)
    (inertSecond : Inert second.toList) : Inert (first ++ second).toList := by
  rw [String.toList_append]
  exact inertFirst.append inertSecond

theorem subset (inert : Inert second) (inside : first ⊆ second) : Inert first :=
  ⟨fun quote => inert.1 (inside quote), fun ends => inert.2 (inside ends)⟩

end Inert

theorem trimEnd_subset (character : Char) (text : List Char) : trimEnd character text ⊆ text := by
  intro other member
  rw [trimEnd, List.mem_reverse] at member
  exact List.mem_reverse.mp ((List.dropWhile_sublist _).subset member)

theorem inert_digitChar : ∀ digit < 10, Inert [Nat.digitChar digit] := by
  decide

theorem inert_toDigits (count : Nat) : Inert (Nat.toDigits 10 count) := by
  constructor <;> intro member <;>
    cases Nat.isDigit_of_mem_toDigits (by decide) (Nat.le_refl 10) member

theorem inert_writeHundredths (count : Nat) : Inert (writeHundredths count) := by
  rw [writeHundredths]
  refine (inert_toDigits _).append ?_
  have point : Inert ['.'] := by decide
  have tenths := inert_digitChar _ (Nat.mod_lt (count / 10) (by decide))
  have hundredths := inert_digitChar _ (Nat.mod_lt count (by decide))
  exact point.append (tenths.append hundredths)

theorem inert_writeFixed (number : Binary) : Inert number.writeFixed := by
  cases number with
  | notANumber => decide
  | infinite negative => cases negative <;> decide
  | finite negative significand exponent =>
    have sign : Inert ['-'] := by decide
    rw [Binary.writeFixed]
    split_ifs
    · exact sign.append (inert_writeHundredths _)
    · exact inert_writeHundredths _

theorem inert_writeShort (number : Float) : Inert (writeShort number).toList := by
  rw [writeShort, Binary.writeShort, String.toList_ofList]
  split_ifs
  · decide
  · exact ((inert_writeFixed _).subset (trimEnd_subset _ _)).subset (trimEnd_subset _ _)

theorem inert_writePair {separator : String} (inert : Inert separator.toList) (x y : Float) :
    Inert (writePair separator x y).toList :=
  ((inert_writeShort x).append_text inert).append_text (inert_writeShort y)

/-! ### Pieces -/

open Markup

theorem plain_of_inert {name value : String} (plain : '=' ∉ name.toList ∧ '>' ∉ name.toList)
    (inert : Inert value.toList) : Plain (name, value) :=
  ⟨plain, inert⟩

theorem plain_of_number {name : String} (plain : '=' ∉ name.toList ∧ '>' ∉ name.toList)
    (number : Float) : Plain (name, writeShort number) :=
  plain_of_inert plain (inert_writeShort number)

theorem plain_stroke : ∀ entry ∈ stroke, Plain entry := by
  rw [stroke, List.forall_mem_cons, List.forall_mem_singleton]
  exact ⟨plain_of_inert (by decide) (by decide), plain_of_inert (by decide) (by decide)⟩

theorem Curve.sound_triangle (curve : Curve Float) : curve.triangle.Sound := by
  have corner : ∀ x y, Inert (writePair "," x y).toList := inert_writePair (by decide)
  have blank : Inert " ".toList := by decide
  refine ⟨by decide, List.forall_mem_cons.mpr ⟨plain_of_inert (by decide) ?_,
    List.forall_mem_singleton.mpr (plain_of_inert (by decide) (by decide))⟩⟩
  exact ((((corner _ _).append_text blank).append_text (corner _ _)).append_text
    blank).append_text (corner _ _)

theorem Curve.sound_path (curve : Curve Float) : curve.path.Sound := by
  have point : ∀ x y, Inert (writePair " " x y).toList := inert_writePair (by decide)
  have comma : Inert ", ".toList := by decide
  have start : Inert "M ".toList := by decide
  have bend : Inert " C ".toList := by decide
  refine ⟨by decide, List.forall_mem_append.mpr ⟨List.forall_mem_cons.mpr
    ⟨plain_of_inert (by decide) ?_,
      List.forall_mem_singleton.mpr (plain_of_inert (by decide) (by decide))⟩, plain_stroke⟩⟩
  exact ((((((start.append_text (point _ _)).append_text bend).append_text
    (point _ _)).append_text comma).append_text (point _ _)).append_text comma).append_text
    (point _ _)

theorem Disc.sound_circle (radius : Float) (disc : Disc Float) : (disc.circle radius).Sound := by
  refine ⟨by decide, ?_⟩
  rw [List.forall_mem_append, List.forall_mem_append]
  refine ⟨⟨?_, plain_stroke⟩, ?_⟩
  · simp only [List.forall_mem_cons]
    exact ⟨plain_of_number (by decide) _, plain_of_number (by decide) _,
      plain_of_number (by decide) _, plain_of_inert (by decide) (by decide),
      List.forall_mem_nil _⟩
  · split_ifs
    · exact List.forall_mem_singleton.mpr (plain_of_inert (by decide) (by decide))
    · exact List.forall_mem_nil _

theorem Disc.sound_caption (fontSize : Float) (disc : Disc Float) :
    (disc.caption fontSize).Sound := by
  refine ⟨by decide, ?_⟩
  simp only [List.forall_mem_cons]
  exact ⟨plain_of_number (by decide) _, plain_of_number (by decide) _,
    plain_of_inert (by decide) (by decide), plain_of_inert (by decide) (by decide),
    plain_of_inert (by decide) (by decide), plain_of_number (by decide) _,
    List.forall_mem_nil _⟩

theorem Page.sound_markup (style : PageStyle Float) (page : Page Float) :
    ∀ piece ∈ page.markup style, piece.Sound := by
  have corner : Inert "0 0 ".toList := by decide
  have blank : Inert " ".toList := by decide
  have size : Inert ("0 0 " ++ writeShort page.width ++ " " ++ writeShort page.height).toList :=
    ((corner.append_text (inert_writeShort _)).append_text blank).append_text (inert_writeShort _)
  rw [markup, List.forall_mem_append, List.forall_mem_append, List.forall_mem_append]
  refine ⟨⟨⟨List.forall_mem_cons.mpr ⟨⟨by decide, ?_⟩,
    List.forall_mem_singleton.mpr ⟨by decide, ?_⟩⟩, ?_⟩, ?_⟩,
    List.forall_mem_singleton.mpr (show IsName "svg" by decide)⟩
  · simp only [List.forall_mem_cons]
    exact ⟨plain_of_inert (by decide) (by decide), plain_of_number (by decide) _,
      plain_of_number (by decide) _, plain_of_inert (by decide) size,
      List.forall_mem_nil _⟩
  · simp only [List.forall_mem_cons]
    exact ⟨plain_of_number (by decide) _, plain_of_number (by decide) _,
      plain_of_inert (by decide) (by decide),
      List.forall_mem_nil _⟩
  · intro piece member
    obtain ⟨curve, _, inPieces⟩ := List.mem_flatMap.mp member
    simp only [List.mem_cons, List.not_mem_nil, or_false] at inPieces
    rcases inPieces with rfl | rfl
    · exact curve.sound_triangle
    · exact curve.sound_path
  · intro piece member
    obtain ⟨disc, _, inPieces⟩ := List.mem_flatMap.mp member
    simp only [List.mem_cons, List.not_mem_nil, or_false] at inPieces
    rcases inPieces with rfl | rfl
    · exact disc.sound_circle style.radius
    · exact disc.sound_caption style.fontSize

/-! ### The tags of a drawing -/

/-- What a tag does with which element. -/
def Markup.Tag.shape (tag : Tag) : TagKind × String := (tag.kind, tag.name)

/-- Whether the rim of the element is dashed. -/
def Markup.Tag.isDashed (tag : Tag) : Bool :=
  tag.attributes.any fun entry => entry.1 == "stroke-dasharray"

/-- The shapes of the tags of an edge. -/
def edgeShapes : List (TagKind × String) := [(.empty, "polygon"), (.empty, "path")]

/-- The tags of an edge. -/
def Curve.tags (curve : Curve Float) : List Tag := [curve.triangle, curve.path].flatMap Markup.tags

namespace Layout

/-- The tags are those of a drawing of the layout. The page is opened and gets its ground; each
edge, in the order of the nodes and of their children, has a triangle and a curve, with the
coordinates of the edge from this slot of the node to this child; each node in order has a circle,
dashed if the node is a defined name, and a label; and the page is closed. The text of a label is
that of the node with its three special characters replaced one after the other, which leaves none
of them; replacing the entities gives the label of the node back. -/
structure Drawn (style : PageStyle Float) (layout : Layout Float) (tags : List Tag) : Prop where
  shapes : tags.map Tag.shape =
    [(.opening, "svg"), (.empty, "rect")] ++
      (layout.nodes.toList.flatMap fun placed => placed.children.flatMap fun _ => edgeShapes) ++
      (layout.nodes.toList.flatMap fun _ =>
        [(.empty, "circle"), (.opening, "text"), (.closing, "text")]) ++
      [(.closing, "svg")]
  edges : tags.filter (·.shape ∈ edgeShapes) =
    layout.nodes.toList.flatMap fun placed => placed.children.zipIdx.flatMap fun (child, slot) =>
      (layout.curve style (placed.id, child, slot)).tags
  dashed : (tags.filter (·.shape = (.empty, "circle"))).map Tag.isDashed =
    layout.nodes.toList.map (·.kind == .var)
  replaced : (tags.filter (·.shape = (.opening, "text"))).map Tag.text =
    layout.nodes.toList.map fun placed =>
      replace '>' "&gt;" (replace '<' "&lt;" (replace '&' "&amp;" placed.label.toList))
  escaped : ∀ tag ∈ tags, Escaped tag.text
  labels : (tags.filter (·.shape = (.opening, "text"))).map (fun tag => unescape tag.text) =
    layout.nodes.toList.map fun placed => placed.label.toList

end Layout

/-- The tags of a node. -/
def Disc.tags (style : PageStyle Float) (disc : Disc Float) : List Tag :=
  [disc.circle style.radius, disc.caption style.fontSize].flatMap Markup.tags

/-- The tags before those of edges and nodes. -/
def Page.front (page : Page Float) : List Tag :=
  let width := writeShort page.width
  let height := writeShort page.height
  [⟨.opening, "svg", [("xmlns", "http://www.w3.org/2000/svg"), ("width", width), ("height", height),
      ("viewBox", "0 0 " ++ width ++ " " ++ height)], ['\n']⟩,
    ⟨.empty, "rect", [("width", width), ("height", height), ("fill", "white")], ['\n']⟩]

theorem Page.tags_markup (style : PageStyle Float) (page : Page Float) :
    (page.markup style).flatMap Markup.tags =
      page.front ++ page.curves.flatMap Curve.tags ++ page.discs.flatMap (Disc.tags style) ++
        [⟨.closing, "svg", [], ['\n']⟩] := by
  rw [markup, List.flatMap_append, List.flatMap_append, List.flatMap_append, List.flatMap_assoc,
    List.flatMap_assoc]
  rfl

namespace Layout

theorem flatMap_zipIdx {Item Entry : Type} (items : List Item) (entries : List Entry) :
    (items.zipIdx.flatMap fun _ => entries) = items.flatMap fun _ => entries :=
  calc (items.zipIdx.flatMap fun _ => entries)
      = (items.zipIdx.map Prod.fst).flatMap fun _ => entries := by rw [List.flatMap_map]
    _ = items.flatMap fun _ => entries := by rw [List.zipIdx_map_fst]

/-- All edges have the same tags, up to their numbers. -/
theorem shapes_curves (style : PageStyle Float) (layout : Layout Float) :
    ((layout.page style).curves.flatMap Curve.tags).map Tag.shape =
      layout.nodes.toList.flatMap fun placed => placed.children.flatMap fun _ => edgeShapes := by
  have same : ∀ curve : Curve Float, curve.tags.map Tag.shape = edgeShapes := fun _ => rfl
  rw [page, edges, List.map_flatMap, List.flatMap_map, List.flatMap_assoc]
  simp only [same, List.flatMap_map, flatMap_zipIdx]

/-- Circles and labels are those of the nodes. -/
theorem filter_tags (style : PageStyle Float) (layout : Layout Float) {shape : TagKind × String}
    (ofNode : shape ∈ [(.empty, "circle"), (.opening, "text")]) :
    (((layout.page style).markup style).flatMap Markup.tags).filter (·.shape = shape) =
      layout.nodes.toList.flatMap fun placed =>
        ((layout.disc style placed).tags style).filter (·.shape = shape) := by
  simp only [List.mem_cons, List.not_mem_nil, or_false] at ofNode
  have front : (layout.page style).front.filter (·.shape = shape) = [] := by
    rcases ofNode with rfl | rfl <;> rfl
  have edge : ∀ curve : Curve Float, curve.tags.filter (·.shape = shape) = [] := by
    intro curve
    rcases ofNode with rfl | rfl <;> rfl
  have back : [(⟨.closing, "svg", [], ['\n']⟩ : Tag)].filter (·.shape = shape) = [] := by
    rcases ofNode with rfl | rfl <;> rfl
  have edges : ((layout.page style).curves.flatMap Curve.tags).filter (·.shape = shape) = [] := by
    rw [List.filter_flatMap, List.flatMap_eq_nil_iff]
    exact fun curve _ => edge curve
  rw [Page.tags_markup, List.filter_append, List.filter_append, List.filter_append, front, edges,
    back, List.append_nil, List.nil_append, List.nil_append, List.filter_flatMap, page,
    List.flatMap_map]

/-- Triangles and curves are those of the children of the nodes, each in its slot. -/
theorem filter_edgeShapes (style : PageStyle Float) (layout : Layout Float) :
    (((layout.page style).markup style).flatMap Markup.tags).filter (·.shape ∈ edgeShapes) =
      layout.nodes.toList.flatMap fun placed => placed.children.zipIdx.flatMap fun (child, slot) =>
        (layout.curve style (placed.id, child, slot)).tags := by
  have front : (layout.page style).front.filter (·.shape ∈ edgeShapes) = [] := rfl
  have edge : ∀ curve : Curve Float, curve.tags.filter (·.shape ∈ edgeShapes) = curve.tags :=
    fun _ => rfl
  have node : ∀ disc : Disc Float, (disc.tags style).filter (·.shape ∈ edgeShapes) = [] :=
    fun _ => rfl
  have nodes : ((layout.page style).discs.flatMap (Disc.tags style)).filter
      (·.shape ∈ edgeShapes) = [] := by
    rw [List.filter_flatMap, List.flatMap_eq_nil_iff]
    exact fun disc _ => node disc
  have back : [(⟨.closing, "svg", [], ['\n']⟩ : Tag)].filter (·.shape ∈ edgeShapes) = [] := rfl
  rw [Page.tags_markup, List.filter_append, List.filter_append, List.filter_append, front, nodes,
    back, List.append_nil, List.append_nil, List.nil_append, List.filter_flatMap, page]
  simp only [edge, edges, List.flatMap_map, List.flatMap_assoc]

theorem drawn_scan (style : PageStyle Float) (layout : Layout Float) :
    layout.Drawn style (((layout.page style).markup style).flatMap Markup.tags) := by
  have circle : ∀ disc : Disc Float, ((disc.tags style).filter
      (·.shape = (.empty, "circle"))).map Tag.isDashed = [disc.dashed] := by
    rintro ⟨centre, label, dashed⟩
    cases dashed <;> rfl
  have text : ∀ disc : Disc Float, ((disc.tags style).filter
      (·.shape = (.opening, "text"))).map Tag.text = [disc.label.toList.flatMap escape] :=
    fun _ => rfl
  have texts : ((((layout.page style).markup style).flatMap Markup.tags).filter
      (·.shape = (.opening, "text"))).map Tag.text =
      layout.nodes.toList.map fun placed => placed.label.toList.flatMap escape := by
    rw [filter_tags style layout (by decide), List.map_flatMap]
    simp only [text]
    exact List.flatMap_pure_eq_map _ _
  refine ⟨?_, filter_edgeShapes style layout, ?_, ?_, ?_, ?_⟩
  · rw [Page.tags_markup, List.map_append, List.map_append, List.map_append, shapes_curves, page,
      List.map_flatMap, List.flatMap_map]
    rfl
  · rw [filter_tags style layout (by decide), List.map_flatMap]
    simp only [circle]
    exact List.flatMap_pure_eq_map _ _
  · simp only [texts, flatMap_escape]
  · intro tag member
    obtain ⟨piece, _, inTags⟩ := List.mem_flatMap.mp member
    exact escaped_tags piece tag inTags
  · have read := congrArg (List.map unescape) texts
    rw [List.map_map, List.map_map] at read
    exact read.trans (List.map_congr_left fun placed _ => unescape_flatMap_escape _)

end Layout

/-- The structure of a vector drawing does not depend on its labels. Whatever stands in the labels
of a layout that has nodes, is numbered by their places and has edges to its own nodes only, the
tags of its drawing are those of the page, the edges and the nodes, and each label is read back from
the text of its element; no two texts are escaped alike. -/
theorem svg_drawn {layout : Layout Float} (nonempty : 0 < layout.size)
    (numbered : layout.Numbered) (style : PageStyle Float) :
    ∃ text, layout.svg? style = some text ∧ layout.Drawn style (scan text.toList) ∧
      Function.Injective fun label : List Char => label.flatMap escape := by
  have some : layout.isEmpty = false := by
    rwa [Layout.isEmpty, Array.isEmpty_eq_false_iff, ← Array.size_pos_iff]
  refine ⟨document ((layout.page style).markup style), ?_, ?_, ?_⟩
  · rw [Layout.svg?, if_neg (by simp [some]), numbered.page?_eq style, Option.map_some]
  · rw [scan_document (Page.sound_markup style _)]
    exact Layout.drawn_scan style layout
  · exact Function.LeftInverse.injective unescape_flatMap_escape

/-- Two nodes whose labels look like markup and like an entity. -/
def disguised : Layout Float where
  root := 0
  nodes := #[⟨0, "</text><g>", .call, 0, 0.0, [1, 1], [1]⟩,
    ⟨1, "&lt;\"&amp;amp;", .var, 1, 0.0, [], []⟩]

theorem svg_drawn_disguised :
    0 < disguised.size ∧ disguised.Numbered ∧ ∃ text,
      disguised.svg? RenderConfig.default.page = some text ∧
        (scan text.toList).map Tag.shape =
          [(.opening, "svg"), (.empty, "rect"), (.empty, "polygon"), (.empty, "path"),
            (.empty, "polygon"), (.empty, "path"), (.empty, "circle"), (.opening, "text"),
            (.closing, "text"), (.empty, "circle"), (.opening, "text"), (.closing, "text"),
            (.closing, "svg")] ∧
        (scan text.toList).filter (·.shape ∈ edgeShapes) =
          (disguised.curve RenderConfig.default.page (0, 1, 0)).tags ++
            (disguised.curve RenderConfig.default.page (0, 1, 1)).tags ∧
        ((scan text.toList).filter (·.shape = (.opening, "text"))).map
            (fun tag => String.ofList tag.text) =
          ["&lt;/text&gt;&lt;g&gt;", "&amp;lt;\"&amp;amp;amp;"] := by
  have nonempty : 0 < disguised.size := by decide
  have numbered : disguised.Numbered := by
    refine ⟨fun id placed found => ?_, ?_⟩
    · match id, found with
      | 0, found => exact (Option.some.inj found) ▸ rfl
      | 1, found => exact (Option.some.inj found) ▸ rfl
    · decide
  obtain ⟨text, written, drawn, _⟩ := svg_drawn nonempty numbered RenderConfig.default.page
  have texts := congrArg (List.map String.ofList) drawn.replaced
  rw [List.map_map] at texts
  exact ⟨nonempty, numbered, text, written, drawn.shapes, drawn.edges, texts⟩

end ExprDiagram
