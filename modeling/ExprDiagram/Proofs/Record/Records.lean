/-
This file shows that records determine their layout. Whoever reads the text of the records, in
whichever way it is spaced, finds the same value, and from this value the layout can be put together
again, field by field. Of the way in which values are written only this is used, that they read
back. A position is written with digits; what is needed of a reader of numbers is only that it finds
the position in them.
-/

import ExprDiagram.Proofs.Record.Decoding

namespace ExprDiagram

/-! ### Taking records apart -/

/-- The kind that a word names. -/
def NodeKind.ofText? (text : String) : Option NodeKind :=
  [NodeKind.call, .symbol, .number, .var].find? fun kind => kind.text == text

theorem NodeKind.ofText?_text (kind : NodeKind) : ofText? kind.text = some kind := by
  cases kind <;> decide

namespace JsonValue

/-- The field of an object. -/
def field? (key : String) : JsonValue → Option JsonValue
  | object fields => fields.lookup key
  | _ => none

/-- The items of an array. -/
def items? : JsonValue → Option (List JsonValue)
  | array items => some items
  | _ => none

def text? : JsonValue → Option String
  | string text => some text
  | _ => none

/-- What a number stands for, where `numeral` reads its literal. -/
def number? {α : Type} (numeral : String → Option α) : JsonValue → Option α
  | number literal => numeral literal
  | _ => none

/-- The count that a number stands for, which is written with nothing but digits. -/
def count? : JsonValue → Option Nat := number? String.toNat?

/-- The counts in an array. -/
def counts? (value : JsonValue) : Option (List Nat) := do (← value.items?).mapM count?

variable {α : Type}

/-- The node of a record. -/
def node? (numeral : String → Option α) (value : JsonValue) : Option (PlacedNode α) := do
  return {
    id := ← (← value.field? "id").count?
    label := ← (← value.field? "label").text?
    kind := ← NodeKind.ofText? (← (← value.field? "kind").text?)
    depth := ← (← value.field? "depth").count?
    offset := ← (← value.field? "offset").number? numeral
    children := ← (← value.field? "childs").counts?
    below := ← (← value.field? "belows").counts? }

/-- The layout of some records. -/
def layout? (numeral : String → Option α) (value : JsonValue) : Option (Layout α) := do
  return {
    root := ← (← value.field? "root").count?
    nodes := (← (← (← value.field? "nodes").items?).mapM (node? numeral)).toArray }

end JsonValue

/-! ### Reading counts -/

namespace Json

open JsonValue

theorem count?_ofNat (count : Nat) : (ofNat count).value.count? = some count :=
  Nat.toNat?_repr count

theorem values_map {Item : Type} (write : Item → Json) (items : List Item) :
    values (items.map write) = items.map fun item => (write item).value := by
  induction items with
  | nil => rfl
  | cons first rest inductionHypothesis => rw [List.map_cons, values, inductionHypothesis]; rfl

/-- Reading each of the written items gives the items. -/
theorem mapM_written {Item Value : Type} {write : Item → Value} {read : Value → Option Item}
    {items : List Item} (each : ∀ item ∈ items, read (write item) = some item) :
    (items.map write).mapM read = some items := by
  induction items with
  | nil => rfl
  | cons first rest inductionHypothesis =>
    obtain ⟨here, later⟩ := List.forall_mem_cons.mp each
    rw [List.map_cons, List.mapM_cons, here, inductionHypothesis later]
    rfl

theorem counts?_array (counts : List Nat) :
    (array (counts.map ofNat)).value.counts? = some counts := by
  rw [value, values_map]
  exact mapM_written fun count _ => count?_ofNat count

/-! ### Reading layouts -/

section

variable {α : Type} {write : α → Json} {numeral : String → Option α}

/-- A record reads back as its node, if its position does. -/
theorem node?_toJson (placed : PlacedNode α)
    (reads : (write placed.offset).value.number? numeral = some placed.offset) :
    (placed.toJson write).value.node? numeral = some placed := by
  have id : (placed.toJson write).value.field? "id" = some (ofNat placed.id).value := rfl
  have label : (placed.toJson write).value.field? "label" = some (.string placed.label) := rfl
  have kind : (placed.toJson write).value.field? "kind" = some (.string placed.kind.text) := rfl
  have depth : (placed.toJson write).value.field? "depth" = some (ofNat placed.depth).value := rfl
  have offset : (placed.toJson write).value.field? "offset" = some (write placed.offset).value :=
    rfl
  have children : (placed.toJson write).value.field? "childs" =
      some (array (placed.children.map ofNat)).value := rfl
  have below : (placed.toJson write).value.field? "belows" =
      some (array (placed.below.map ofNat)).value := rfl
  simp only [node?, id, label, kind, depth, offset, children, below, text?, Option.bind_eq_bind,
    Option.bind_some, count?_ofNat, counts?_array, NodeKind.ofText?_text, reads]
  rfl

/-- Records read back as their layout, if all positions do. -/
theorem layout?_toJson (layout : Layout α)
    (reads : ∀ placed ∈ layout.nodes,
      (write placed.offset).value.number? numeral = some placed.offset) :
    (layout.toJson write).value.layout? numeral = some layout := by
  have root : (layout.toJson write).value.field? "root" = some (ofNat layout.root).value := rfl
  have nodes : (layout.toJson write).value.field? "nodes" =
      some (.array (layout.nodes.toList.map fun placed => (placed.toJson write).value)) := by
    rw [← values_map]
    rfl
  have each := mapM_written fun placed (member : placed ∈ layout.nodes.toList) =>
    node?_toJson placed (reads placed (Array.mem_toList_iff.mp member))
  simp only [layout?, root, nodes, items?, Option.bind_eq_bind, Option.bind_some, count?_ofNat, each]
  rfl

end

/-! ### Numbers in records -/

end Json

/-- Whether a number is written with digits. -/
def Binary.isFinite : Binary → Bool
  | finite .. => true
  | _ => false

namespace Json

theorem sound_ofNat (count : Nat) : (ofNat count).Sound := JsonToken.isNumeral_repr count

theorem sound_ofFloat (number : Float) : (ofFloat number).Sound := by
  unfold ofFloat
  split
  · exact NumeralFormat.isNumeral_writeBinary _ _ _ _
  · trivial

theorem soundItems_map {Item : Type} {write : Item → Json} {items : List Item}
    (each : ∀ item ∈ items, (write item).Sound) : SoundItems (items.map write) := by
  induction items with
  | nil => trivial
  | cons first rest inductionHypothesis =>
    obtain ⟨here, later⟩ := List.forall_mem_cons.mp each
    exact ⟨here, inductionHypothesis later⟩

/-- All numbers in the records of a layout are numbers by the grammar, if positions are written as
such. -/
theorem sound_toJson {α : Type} {write : α → Json} (sound : ∀ position, (write position).Sound)
    (layout : Layout α) : (layout.toJson write).Sound := by
  refine ⟨sound_ofNat layout.root, soundItems_map fun placed _ => ?_, trivial⟩
  have counts (places : List Nat) : SoundItems (places.map ofNat) :=
    soundItems_map fun count _ => sound_ofNat count
  exact ⟨sound_ofNat _, trivial, trivial, sound_ofNat _, sound _, counts _, counts _, trivial⟩

/-- A finite position is written as a number, which is read as it is written. -/
theorem number?_ofFloat {number : Float} {numeral : String → Option Float}
    (finite : (Binary.ofFloat number).isFinite)
    (reads : numeral (recordFormat.write number) = some number) :
    (ofFloat number).value.number? numeral = some number := by
  rw [NumeralFormat.write] at reads
  unfold ofFloat
  cases parts : Binary.ofFloat number with
  | finite negative significand exponent =>
    rw [parts] at reads
    exact reads
  | infinite negative =>
    rw [parts] at finite
    cases finite
  | notANumber =>
    rw [parts] at finite
    cases finite

end Json

/-! ### Layouts -/

section

-- Nothing is used of the way in which values and positions are written but what is named here.
variable {α : Type} {text : Json → String} {write : α → Json} {numeral : String → Option α}

/-- Written records read back as a value in which the layout is found again. -/
theorem Json.ReadsBack.records (readsBack : ReadsBack text)
    (sound : ∀ position, (write position).Sound) (layout : Layout α)
    (reads : ∀ placed ∈ layout.nodes,
      (write placed.offset).value.number? numeral = some placed.offset) :
    JsonValue.read? (text (layout.toJson write) ++ "\n") = some (layout.toJson write).value ∧
      (layout.toJson write).value.layout? numeral = some layout :=
  ⟨readsBack _ (sound_toJson sound layout), layout?_toJson layout reads⟩

/-- Records on one line have one line feed, at their end. -/
theorem Json.OneLine.records (oneLine : OneLine text) (sound : ∀ position, (write position).Sound)
    (layout : Layout α) :
    (text (layout.toJson write) ++ "\n").toList.count '\n' = 1 ∧
      (text (layout.toJson write) ++ "\n").toList.getLast? = some '\n' := by
  have none := oneLine _ (sound_toJson sound layout)
  rw [String.toList_append]
  constructor
  · rw [List.count_append, List.count_eq_zero.mpr none]
    rfl
  · exact List.getLast?_concat

end

/-- The records of a layout determine it, whatever its labels contain. If all positions are finite,
and a reader of numbers finds them in their literals, then both ways of writing the records read as
one value, in which the layout is found again; and without blanks, the only line feed is the last
character. -/
theorem records_determine {layout : Layout Float} {numeral : String → Option Float}
    (finite : ∀ placed ∈ layout.nodes, (Binary.ofFloat placed.offset).isFinite)
    (reads : ∀ placed ∈ layout.nodes,
      numeral (recordFormat.write placed.offset) = some placed.offset) :
    ∃ value, JsonValue.read? (layout.records Json.indented) = some value ∧
      JsonValue.read? (layout.records Json.compact) = some value ∧
      value.layout? numeral = some layout ∧
      (layout.records Json.compact).toList.count '\n' = 1 ∧
      (layout.records Json.compact).toList.getLast? = some '\n' := by
  have numbers : ∀ placed ∈ layout.nodes,
      (Json.ofFloat placed.offset).value.number? numeral = some placed.offset :=
    fun placed member => Json.number?_ofFloat (finite placed member) (reads placed member)
  obtain ⟨indented, found⟩ :=
    Json.indented_plain.readsBack.records Json.sound_ofFloat layout numbers
  obtain ⟨compact, _⟩ := Json.compact_plain.readsBack.records Json.sound_ofFloat layout numbers
  exact ⟨_, indented, compact, found, Json.oneLine_compact.records Json.sound_ofFloat layout⟩

/-- A reader of numbers that have no exponent. -/
def plainNumeral? (literal : String) : Option Float :=
  let unsigned := literal.toList.dropWhile (· == '-')
  let whole := unsigned.takeWhile Char.isDigit
  let fraction := (unsigned.dropWhile Char.isDigit).drop 1
  let number := Float.ofScientific (Nat.ofDigitChars 10 (whole ++ fraction) 0) true fraction.length
  if fraction.all Char.isDigit then
    some (if literal.toList.head? = some '-' then -number else number)
  else none

/-- A layout with labels that need escapes. -/
def quotedLayout : Layout Float where
  root := 0
  nodes := #[⟨0, "say \"f\"", .call, 0, 0.5, [1, 1, 2], [1, 2]⟩,
    ⟨1, "a\\b\n\x01", .symbol, 1, -0.25, [], []⟩, ⟨2, "⟨λ⟩", .var, 1, 1.25, [], []⟩]

theorem records_determine_quoted :
    (∀ placed ∈ quotedLayout.nodes, (Binary.ofFloat placed.offset).isFinite) ∧
    (∀ placed ∈ quotedLayout.nodes,
      plainNumeral? (recordFormat.write placed.offset) = some placed.offset) ∧
    ∃ value, JsonValue.read? (quotedLayout.records Json.indented) = some value ∧
      JsonValue.read? (quotedLayout.records Json.compact) = some value ∧
      value.layout? plainNumeral? = some quotedLayout ∧
      (quotedLayout.records Json.compact).toList.count '\n' = 1 ∧
      (quotedLayout.records Json.compact).toList.getLast? = some '\n' := by
  have finite : ∀ placed ∈ quotedLayout.nodes, (Binary.ofFloat placed.offset).isFinite := by
    decide +kernel
  have reads : ∀ placed ∈ quotedLayout.nodes,
      plainNumeral? (recordFormat.write placed.offset) = some placed.offset := by
    decide +kernel
  exact ⟨finite, reads, records_determine finite reads⟩

end ExprDiagram
