/-
This file shows that the text of a JSON value reads back as the value, in whatever way it is spaced,
as long as only blanks are put between tokens; so both ways of spacing say the same. A reader that
is handed the tokens of a value delivers the value, whatever stands around it. Without any blanks,
the text is one line, since control characters are escaped wherever they may occur.
-/

import ExprDiagram.Proofs.Record.Scanning

namespace ExprDiagram

open JsonScanner

/-! ### The tokens of a value -/

namespace JsonValue

mutual
/-- The tokens that a value is written with. -/
def tokens : JsonValue → List JsonToken
  | string text => [.string text]
  | array items => .openArray :: itemTokens items ++ [.closeArray]
  | object fields => .openObject :: fieldTokens fields ++ [.closeObject]
  | null => [.bare null]
  | boolean value => [.bare (boolean value)]
  | number literal => [.bare (number literal)]

/-- The tokens between the brackets of an array. -/
def itemTokens : List JsonValue → List JsonToken
  | [] => []
  | [item] => item.tokens
  | item :: next :: rest => item.tokens ++ .comma :: itemTokens (next :: rest)

/-- The tokens between the braces of an object. -/
def fieldTokens : List (String × JsonValue) → List JsonToken
  | [] => []
  | [(key, value)] => .string key :: .colon :: value.tokens
  | (key, value) :: next :: rest =>
    .string key :: .colon :: value.tokens ++ .comma :: fieldTokens (next :: rest)
end

end JsonValue

/-! ### Written values -/

namespace Json

mutual
/-- What a written value reads as. -/
def value : Json → JsonValue
  | null => .null
  | number literal => .number literal
  | string text => .string text
  | array items => .array (values items)
  | object fields => .object (fieldValues fields)

/-- What the items of a written array read as. -/
def values : List Json → List JsonValue
  | [] => []
  | item :: rest => item.value :: values rest

/-- What the fields of a written object read as. -/
def fieldValues : List (String × Json) → List (String × JsonValue)
  | [] => []
  | (key, item) :: rest => (key, item.value) :: fieldValues rest
end

mutual
/-- All numbers in a value are numbers by the grammar. -/
def Sound : Json → Prop
  | null => True
  | number literal => JsonToken.isNumeral literal.toList
  | string _ => True
  | array items => SoundItems items
  | object fields => SoundFields fields

/-- All numbers in some values are numbers by the grammar. -/
def SoundItems : List Json → Prop
  | [] => True
  | item :: rest => item.Sound ∧ SoundItems rest

/-- All numbers in some fields are numbers by the grammar. -/
def SoundFields : List (String × Json) → Prop
  | [] => True
  | (_, item) :: rest => item.Sound ∧ SoundFields rest
end

/-- Only blanks are put between tokens. -/
structure Spacing.Plain (spacing : Spacing) : Prop where
  line : ∀ level, ∀ character ∈ spacing.line level, isBlank character
  colon : ∃ blanks, spacing.colon = ':' :: blanks ∧ ∀ character ∈ blanks, isBlank character

theorem compact_plain : compact.Plain where
  line _ := nofun
  colon := ⟨[], rfl, nofun⟩

theorem indented_plain : indented.Plain where
  line level := by
    refine List.forall_mem_cons.mpr ⟨rfl, fun character member => ?_⟩
    rw [List.eq_of_mem_replicate member]
    rfl
  colon := ⟨[' '], rfl, by simp [isBlank]⟩

theorem reads_number {literal : String} (isNumeral : JsonToken.isNumeral literal.toList) :
    Reads literal.toList [.bare (.number literal)] := by
  have known : JsonToken.bareValue? literal.toList = some (.number literal) := by
    unfold JsonToken.bareValue?
    split_ifs with isNull isTrue isFalse
    · rw [isNull] at isNumeral
      cases isNumeral
    · rw [isTrue] at isNumeral
      cases isNumeral
    · rw [isFalse] at isNumeral
      cases isNumeral
    · rw [String.ofList_toList]
  exact reads_bare known fun character member =>
    isBare_of_isNumberChar (JsonToken.isNumberChar_of_isNumeral isNumeral character member)

theorem reads_null : Reads ['n', 'u', 'l', 'l'] [.bare .null] := by
  refine reads_bare rfl ?_
  simp only [List.forall_mem_cons, List.not_mem_nil]
  exact ⟨⟨rfl, by decide, rfl⟩, ⟨rfl, by decide, rfl⟩, ⟨rfl, by decide, rfl⟩,
    ⟨rfl, by decide, rfl⟩, nofun⟩

variable {spacing : Spacing}

/-- A key and its value are read as they are written. -/
theorem reads_field (plain : spacing.Plain) (key : String) {text : List Char}
    {tokens : List JsonToken} (reads : Reads text tokens) :
    Reads (quote key ++ spacing.colon ++ text) (.string key :: .colon :: tokens) := by
  obtain ⟨blanks, colon, blank⟩ := plain.colon
  rw [colon, List.append_assoc, List.cons_append]
  exact (reads_quote key).mark rfl (reads.blanks_append blank)

-- The induction follows the text that is written, through the items and fields of every value.
mutual
theorem reads_write (plain : spacing.Plain) (level : Nat) :
    ∀ item : Json, item.Sound → Reads (item.write spacing level) item.value.tokens
  | null, _ => reads_null
  | number _, isNumeral => reads_number isNumeral
  | string text, _ => reads_quote text
  | array [], _ => reads_nil.mark rfl (reads_nil.mark rfl reads_nil)
  | array (item :: rest), sound => by
    have inside := (reads_writeItems plain (level + 1) (item :: rest) sound).append_blanks
      (plain.line level)
    have whole := reads_nil.mark (rfl : mark? '[' = some .openArray)
      (inside.mark (rfl : mark? ']' = some .closeArray) reads_nil)
    simp only [write, List.cons_append, List.append_assoc] at whole ⊢
    exact whole
  | object [], _ => reads_nil.mark rfl (reads_nil.mark rfl reads_nil)
  | object (field :: rest), sound => by
    have inside := (reads_writeFields plain (level + 1) (field :: rest) sound).append_blanks
      (plain.line level)
    have whole := reads_nil.mark (rfl : mark? '\x7b' = some .openObject)
      (inside.mark (rfl : mark? '\x7d' = some .closeObject) reads_nil)
    simp only [write, List.cons_append, List.append_assoc] at whole ⊢
    exact whole

theorem reads_writeItems (plain : spacing.Plain) (level : Nat) :
    ∀ items : List Json, SoundItems items →
      Reads (writeItems spacing level items) (JsonValue.itemTokens (values items))
  | [], _ => reads_nil
  | [item], sound => (reads_write plain level item sound.1).blanks_append (plain.line level)
  | item :: next :: rest, sound => by
    have first := (reads_write plain level item sound.1).blanks_append (plain.line level)
    exact first.mark rfl (reads_writeItems plain level (next :: rest) sound.2)

theorem reads_writeFields (plain : spacing.Plain) (level : Nat) :
    ∀ fields : List (String × Json), SoundFields fields →
      Reads (writeFields spacing level fields) (JsonValue.fieldTokens (fieldValues fields))
  | [], _ => reads_nil
  | [(key, item)], sound => by
    have field := (reads_field plain key (reads_write plain level item sound.1)).blanks_append
      (plain.line level)
    simp only [writeFields, List.append_assoc] at field ⊢
    exact field
  | (key, item) :: next :: rest, sound => by
    have field := (reads_field plain key (reads_write plain level item sound.1)).blanks_append
      (plain.line level)
    have whole := field.mark (rfl : mark? ',' = some .comma)
      (reads_writeFields plain level (next :: rest) sound.2)
    simp only [writeFields, List.append_assoc] at whole ⊢
    exact whole
end

end Json

/-! ### Values that are put together -/

namespace JsonParser

open JsonValue

variable {around : List JsonFrame} {rest : List JsonToken}

/-- What begins an array that is not empty is read like any other item. -/
theorem foldlM_firstItem (item : JsonValue) (items : List JsonValue) :
    (itemTokens (item :: items) ++ rest).foldlM take ⟨around, .firstItem⟩ =
      (itemTokens (item :: items) ++ rest).foldlM take ⟨.items [] :: around, .value⟩ := by
  cases items <;> cases item <;> rfl

theorem foldlM_firstField (field : String × JsonValue) (fields : List (String × JsonValue)) :
    (fieldTokens (field :: fields) ++ rest).foldlM take ⟨around, .firstField⟩ =
      (fieldTokens (field :: fields) ++ rest).foldlM take ⟨around, .key []⟩ := by
  cases fields <;> rfl

-- The induction follows the tokens of a value, through its items and fields. What stands around the
-- value, and what follows it, is arbitrary.
mutual
theorem foldlM_value : ∀ (value : JsonValue) (around : List JsonFrame) (rest : List JsonToken),
    (value.tokens ++ rest).foldlM take ⟨around, .value⟩ = rest.foldlM take (deliver value around)
  | .null, _, _ => rfl
  | .boolean _, _, _ => rfl
  | .number _, _, _ => rfl
  | .string _, _, _ => rfl
  | .array [], _, _ => rfl
  | .array (item :: items), around, rest => by
    have inside := foldlM_items (item :: items) (List.cons_ne_nil _ _) [] around rest
    rw [← foldlM_firstItem, List.nil_append] at inside
    rw [JsonValue.tokens, List.append_assoc]
    exact inside
  | .object [], _, _ => rfl
  | .object (field :: fields), around, rest => by
    have inside := foldlM_fields (field :: fields) (List.cons_ne_nil _ _) [] around rest
    rw [← foldlM_firstField, List.nil_append] at inside
    rw [JsonValue.tokens, List.append_assoc]
    exact inside

theorem foldlM_items : ∀ items : List JsonValue, items ≠ [] → ∀ (before : List JsonValue)
    (around : List JsonFrame) (rest : List JsonToken),
    (itemTokens items ++ .closeArray :: rest).foldlM take ⟨.items before :: around, .value⟩ =
      rest.foldlM take (deliver (.array (before ++ items)) around)
  | [], nonempty, _, _, _ => absurd rfl nonempty
  | [item], _, before, around, rest =>
    foldlM_value item (.items before :: around) (.closeArray :: rest)
  | item :: next :: items, _, before, around, rest => by
    have others := foldlM_items (next :: items) (List.cons_ne_nil _ _) (before ++ [item]) around rest
    rw [List.append_assoc, List.singleton_append] at others
    rw [itemTokens, List.append_assoc, foldlM_value item]
    exact others

theorem foldlM_fields : ∀ fields : List (String × JsonValue), fields ≠ [] →
    ∀ (before : List (String × JsonValue)) (around : List JsonFrame) (rest : List JsonToken),
    (fieldTokens fields ++ .closeObject :: rest).foldlM take ⟨around, .key before⟩ =
      rest.foldlM take (deliver (.object (before ++ fields)) around)
  | [], nonempty, _, _, _ => absurd rfl nonempty
  | [(key, value)], _, before, around, rest =>
    foldlM_value value (.fields before key :: around) (.closeObject :: rest)
  | (key, value) :: next :: fields, _, before, around, rest => by
    have others := foldlM_fields (next :: fields) (List.cons_ne_nil _ _) (before ++ [(key, value)])
      around rest
    have first := foldlM_value value (.fields before key :: around)
      (.comma :: (fieldTokens (next :: fields) ++ .closeObject :: rest))
    rw [List.append_assoc, List.singleton_append] at others
    rw [fieldTokens, List.append_assoc]
    exact first.trans others
end

end JsonParser

/-- A text reads as the value whose tokens it has. -/
theorem JsonValue.read?_of_reads {text : String} {value : JsonValue}
    (reads : Reads text.toList value.tokens) : read? text = some value := by
  have run := JsonParser.foldlM_value value [] []
  rw [List.append_nil] at run
  rw [read?, reads.tokens?_eq]
  show (value.tokens.foldlM JsonParser.take ⟨[], .value⟩).bind _ = _
  rw [run]
  rfl

/-- What is asked of a way of writing values: what is written reads back as the value, with a line
feed at the end as well. -/
def Json.ReadsBack (text : Json → String) : Prop :=
  ∀ item : Json, item.Sound → JsonValue.read? (text item ++ "\n") = some item.value

/-- Values read back, whichever blanks are put between tokens. -/
theorem Json.Spacing.Plain.readsBack {spacing : Spacing} (plain : spacing.Plain) :
    ReadsBack (text spacing) := by
  intro item sound
  have feed : ∀ character ∈ ['\n'], isBlank character := by simp [isBlank]
  refine JsonValue.read?_of_reads ?_
  rw [String.toList_append, Json.text, String.toList_ofList]
  exact (reads_write plain 0 item sound).append_blanks feed

/-! ### Texts on one line -/

namespace Json

/-- A character that is not a control character. -/
def IsVisible (character : Char) : Prop := 32 ≤ character.toNat

theorem isVisible_of_isNumberChar {character : Char}
    (isNumber : JsonToken.IsNumberChar character) : IsVisible character := by
  rcases isNumber with digit | mark
  · have zero : '0'.toNat = 48 := rfl
    have bounds := Char.isDigit_iff_toNat.mp digit
    unfold IsVisible
    omega
  · have all : ∀ character ∈ ['-', '+', '.', 'e', 'E'], IsVisible character := by
      simp [IsVisible]
    exact all character mark

theorem isVisible_digitChar : ∀ digit < 16, 32 ≤ (Nat.digitChar digit).toNat := by
  decide

/-- No control character is left in an escape. -/
theorem isVisible_escape (character : Char) : ∀ part ∈ escape character, IsVisible part := by
  obtain ⟨letter, same, known⟩ | ⟨control, same⟩ | ⟨_, _, visible, same⟩ :=
    JsonToken.escape_cases character
  · rw [same]
    refine List.forall_mem_cons.mpr ⟨by unfold IsVisible; decide, List.forall_mem_singleton.mpr ?_⟩
    unfold JsonToken.letterEscape? at known
    unfold IsVisible
    split at known <;> first | decide | cases known
  · rw [same]
    simp only [List.forall_mem_cons, List.not_mem_nil, IsVisible]
    exact ⟨by decide, by decide, by decide, by decide, isVisible_digitChar _ (by omega),
      isVisible_digitChar _ (by omega), nofun⟩
  · rw [same]
    exact List.forall_mem_singleton.mpr visible

theorem isVisible_quote (text : String) : ∀ character ∈ quote text, IsVisible character := by
  have quotes : IsVisible '"' := by
    unfold IsVisible
    decide
  refine List.forall_mem_append.mpr ⟨List.forall_mem_cons.mpr ⟨quotes, ?_⟩,
    List.forall_mem_singleton.mpr quotes⟩
  exact List.forall_mem_flatMap.mpr fun character _ => isVisible_escape character

-- The induction follows the text that is written.
mutual
/-- Without blanks, no control character is written at all. -/
theorem isVisible_write (level : Nat) : ∀ item : Json, item.Sound →
    ∀ character ∈ item.write compact level, IsVisible character
  | null, _ => by simp [write, IsVisible]
  | number _, isNumeral => fun character member =>
    isVisible_of_isNumberChar (JsonToken.isNumberChar_of_isNumeral isNumeral character member)
  | string text, _ => isVisible_quote text
  | array [], _ => by simp [write, IsVisible]
  | array (item :: rest), sound => by
    have inside := isVisible_writeItems (level + 1) (item :: rest) sound
    simp only [write, compact, List.append_nil, List.cons_append, List.forall_mem_cons,
      List.forall_mem_append] at inside ⊢
    exact ⟨by simp [IsVisible], inside, by simp [IsVisible]⟩
  | object [], _ => by simp [write, IsVisible]
  | object (field :: rest), sound => by
    have inside := isVisible_writeFields (level + 1) (field :: rest) sound
    simp only [write, compact, List.append_nil, List.cons_append, List.forall_mem_cons,
      List.forall_mem_append] at inside ⊢
    exact ⟨by simp [IsVisible], inside, by simp [IsVisible]⟩

theorem isVisible_writeItems (level : Nat) : ∀ items : List Json, SoundItems items →
    ∀ character ∈ writeItems compact level items, IsVisible character
  | [], _ => nofun
  | [item], sound => isVisible_write level item sound.1
  | item :: next :: rest, sound => by
    have first := isVisible_write level item sound.1
    have others := isVisible_writeItems level (next :: rest) sound.2
    simp only [writeItems, compact, List.nil_append, List.forall_mem_append, List.forall_mem_cons]
    exact ⟨first, by simp [IsVisible], others⟩

theorem isVisible_writeFields (level : Nat) : ∀ fields : List (String × Json), SoundFields fields →
    ∀ character ∈ writeFields compact level fields, IsVisible character
  | [], _ => nofun
  | [(key, item)], sound => by
    have first := isVisible_write level item sound.1
    simp only [writeFields, compact, List.nil_append, List.forall_mem_append,
      List.forall_mem_singleton]
    exact ⟨⟨isVisible_quote key, by simp [IsVisible]⟩, first⟩
  | (key, item) :: next :: rest, sound => by
    have first := isVisible_write level item sound.1
    have others := isVisible_writeFields level (next :: rest) sound.2
    simp only [writeFields, compact, List.nil_append, List.forall_mem_append, List.forall_mem_cons]
    exact ⟨⟨⟨isVisible_quote key, by simp [IsVisible]⟩, first⟩, by simp [IsVisible], others⟩
end

/-- What is asked of a way of writing values on one line. -/
def OneLine (text : Json → String) : Prop :=
  ∀ item : Json, item.Sound → '\n' ∉ (text item).toList

/-- Values are written on one line without blanks. -/
theorem oneLine_compact : OneLine (text compact) := by
  intro item sound member
  rw [text, String.toList_ofList] at member
  have visible : 32 ≤ '\n'.toNat := isVisible_write 0 item sound _ member
  exact absurd visible (by decide)

end Json

end ExprDiagram
