/-
This file shows that the tokens of a JSON text that was written here are those of its value, however
the text is spaced. An escape never contains a bare quote, so the reader finds the end of every text
in quotes where it was written; words and numbers contain neither blanks nor marks nor quotes; and
everything else that is written between tokens is white space.
-/

import ExprDiagram.Proofs.Record.Numerals

namespace ExprDiagram

/-! ### Escapes -/

namespace JsonToken

/-- A character is escaped by a letter, or by its number if it is some other control character, or
stands for itself. -/
theorem escape_cases (character : Char) :
    (∃ letter, Json.escape character = ['\\', letter] ∧ letterEscape? letter = some character) ∨
      character.toNat < 32 ∧ Json.escape character = ['\\', 'u', '0', '0',
        Nat.digitChar (character.toNat / 16), Nat.digitChar (character.toNat % 16)] ∨
      character ≠ '"' ∧ character ≠ '\\' ∧ 32 ≤ character.toNat ∧
        Json.escape character = [character] := by
  unfold Json.escape
  split_ifs with quote backslash backspace formFeed lineFeed carriageReturn tabulator control
  · exact .inl ⟨_, rfl, by rw [quote]; rfl⟩
  · exact .inl ⟨_, rfl, by rw [backslash]; rfl⟩
  · exact .inl ⟨_, rfl, by rw [backspace]; rfl⟩
  · exact .inl ⟨_, rfl, by rw [formFeed]; rfl⟩
  · exact .inl ⟨_, rfl, by rw [lineFeed]; rfl⟩
  · exact .inl ⟨_, rfl, by rw [carriageReturn]; rfl⟩
  · exact .inl ⟨_, rfl, by rw [tabulator]; rfl⟩
  · exact .inr (.inl ⟨control, rfl⟩)
  · exact .inr (.inr ⟨quote, backslash, Nat.le_of_not_lt control, rfl⟩)

theorem codeUnit?_digitChar : ∀ code < 32,
    codeUnit? '0' '0' (Nat.digitChar (code / 16)) (Nat.digitChar (code % 16)) = some code := by
  decide

/-- Reading undoes the escape of a character. -/
theorem unescape_escape (character : Char) (rest : List Char) :
    unescape (Json.escape character ++ rest) = (unescape rest).map (character :: ·) := by
  obtain ⟨letter, same, known⟩ | ⟨control, same⟩ | ⟨noQuote, noBackslash, visible, same⟩ :=
    escape_cases character
  · have noCode : letter ≠ 'u' := by
      rintro rfl
      cases known
    rw [same, List.cons_append, List.cons_append, List.nil_append, unescape.eq_3, known]
    · cases unescape rest <;> rfl
    · exact fun _ _ _ _ _ isCode => absurd isCode noCode
  · have code := codeUnit?_digitChar character.toNat control
    have notLow : ¬ (0xdc00 ≤ character.toNat ∧ character.toNat < 0xe000) := by omega
    have notHigh : ¬ (0xd800 ≤ character.toNat ∧ character.toNat < 0xdc00) := by omega
    rw [same, List.cons_append, List.cons_append, List.cons_append, List.cons_append,
      List.cons_append, List.cons_append, List.nil_append, unescape.eq_2, code]
    simp only [Option.bind_eq_bind, Option.bind_some, if_neg notLow, if_neg notHigh,
      Char.ofNat_toNat]
    cases unescape rest <;> rfl
  · have plain : ¬ (character = '\\' ∨ character = '"' ∨ character.toNat < 32) := by
      rintro (backslash | quote | control)
      · exact noBackslash backslash
      · exact noQuote quote
      · omega
    rw [same, List.cons_append, List.nil_append, unescape.eq_4, if_neg plain]
    · cases unescape rest <;> rfl
    · exact fun _ _ _ _ _ isBackslash => absurd isBackslash noBackslash
    · exact fun _ _ isBackslash => absurd isBackslash noBackslash

/-- What stands in the quotes of a text reads back as the text. -/
theorem unescape_flatMap_escape (text : List Char) :
    unescape (text.flatMap Json.escape) = some text := by
  induction text with
  | nil => rfl
  | cons character rest inductionHypothesis =>
    rw [List.flatMap_cons, unescape_escape, inductionHypothesis, Option.map_some]

end JsonToken

/-! ### Scanning -/

namespace JsonScanner

open JsonToken

/-- A character that goes on with a word or a number. -/
def IsBare (character : Char) : Prop :=
  isBlank character = false ∧ character ≠ '"' ∧ mark? character = none

theorem isBare_of_isNumberChar {character : Char} (isNumber : IsNumberChar character) :
    IsBare character := by
  rcases isNumber with digit | mark
  · have other : ∀ different : Char, different.isDigit = false → character ≠ different := by
      rintro different noDigit rfl
      exact absurd digit (by simp [noDigit])
    refine ⟨?_, other _ rfl, ?_⟩
    · simp [isBlank, other ' ' rfl, other '\t' rfl, other '\n' rfl, other '\r' rfl]
    · unfold mark?
      split <;> first | rfl | exact absurd rfl (other _ rfl)
  · have all : ∀ character ∈ ['-', '+', '.', 'e', 'E'], IsBare character := by
      simp only [List.forall_mem_cons, List.not_mem_nil]
      exact ⟨⟨rfl, by decide, rfl⟩, ⟨rfl, by decide, rfl⟩, ⟨rfl, by decide, rfl⟩,
        ⟨rfl, by decide, rfl⟩, ⟨rfl, by decide, rfl⟩, nofun⟩
    exact all character mark

theorem isBlank_of_mark {character : Char} {token : JsonToken}
    (isMark : mark? character = some token) : isBlank character = false ∧ character ≠ '"' := by
  unfold mark? at isMark
  split at isMark <;> first | exact ⟨rfl, by decide⟩ | cases isMark

variable {scanner : JsonScanner} {tokens more : List JsonToken} {text rest : List Char}
variable {character : Char} {token : JsonToken} {blanks : List Char}

/-- Between tokens, or at the end of a word or a number, these are the tokens so far. -/
def Holds (scanner : JsonScanner) (tokens : List JsonToken) : Prop :=
  ∃ text, scanner.mode = .bare text ∧ finish scanner.tokens text = some tokens

theorem holds_between (tokens : List JsonToken) : Holds ⟨tokens, .bare []⟩ tokens :=
  ⟨[], rfl, rfl⟩

theorem Holds.take_blank (holds : scanner.Holds tokens) (blank : isBlank character) :
    scanner.take character = some ⟨tokens, .bare []⟩ := by
  obtain ⟨text, mode, finished⟩ := holds
  simp only [take, mode, blank, if_true, finished]
  rfl

theorem Holds.take_mark (holds : scanner.Holds tokens) (isMark : mark? character = some token) :
    scanner.take character = some ⟨tokens ++ [token], .bare []⟩ := by
  obtain ⟨text, mode, finished⟩ := holds
  obtain ⟨noBlank, noQuote⟩ := isBlank_of_mark isMark
  simp only [take, mode, noBlank, Bool.false_eq_true, if_false, if_neg noQuote, isMark, finished]
  rfl

/-- Blanks end a word or a number, and else change nothing. -/
theorem Holds.take_blanks (holds : scanner.Holds tokens)
    (blank : ∀ character ∈ blanks, isBlank character) :
    ∃ last, blanks.foldlM take scanner = some last ∧ last.Holds tokens := by
  induction blanks generalizing scanner with
  | nil => exact ⟨scanner, rfl, holds⟩
  | cons first others inductionHypothesis =>
    obtain ⟨here, later⟩ := List.forall_mem_cons.mp blank
    rw [List.foldlM_cons, holds.take_blank here]
    exact inductionHypothesis (holds_between tokens) later

/-! ### Texts and their tokens -/

/-- Wherever a token may begin, the text is read as the tokens. -/
def Reads (text : List Char) (tokens : List JsonToken) : Prop :=
  ∀ before, ∃ last, text.foldlM take ⟨before, .bare []⟩ = some last ∧
    last.Holds (before ++ tokens)

theorem reads_nil : Reads [] [] := fun before =>
  ⟨_, rfl, (List.append_nil before).symm ▸ holds_between before⟩

/-- A mark ends what stands before it. -/
theorem Reads.mark (reads : Reads text tokens) (isMark : mark? character = some token)
    (next : Reads rest more) : Reads (text ++ character :: rest) (tokens ++ token :: more) := by
  intro before
  obtain ⟨last, computed, holds⟩ := reads before
  obtain ⟨final, later, end_⟩ := next (before ++ tokens ++ [token])
  refine ⟨final, ?_, ?_⟩
  · rw [List.foldlM_append, computed]
    show List.foldlM take last (character :: rest) = _
    rw [List.foldlM_cons, holds.take_mark isMark]
    exact later
  · rwa [List.append_assoc, List.append_assoc] at end_

theorem Reads.append_blanks (reads : Reads text tokens)
    (blank : ∀ character ∈ blanks, isBlank character) : Reads (text ++ blanks) tokens := by
  intro before
  obtain ⟨last, computed, holds⟩ := reads before
  obtain ⟨final, later, end_⟩ := holds.take_blanks blank
  refine ⟨final, ?_, end_⟩
  rw [List.foldlM_append, computed]
  exact later

theorem Reads.blanks_append (reads : Reads text tokens)
    (blank : ∀ character ∈ blanks, isBlank character) : Reads (blanks ++ text) tokens := by
  intro before
  induction blanks with
  | nil => exact reads before
  | cons first others inductionHypothesis =>
    obtain ⟨here, later⟩ := List.forall_mem_cons.mp blank
    rw [List.cons_append, List.foldlM_cons, (holds_between before).take_blank here]
    exact inductionHypothesis later

/-- The tokens of a text are those that it is read as. -/
theorem Reads.tokens?_eq (reads : Reads text tokens) : tokens? text = some tokens := by
  obtain ⟨last, computed, holds⟩ := reads []
  obtain ⟨bare, mode, finished⟩ := holds
  simp only [tokens?, computed, Option.bind_eq_bind, Option.bind_some, mode]
  exact finished

/-- A word or a number is a token. -/
theorem reads_bare {value : JsonValue} (known : bareValue? text = some value)
    (bare : ∀ character ∈ text, IsBare character) : Reads text [.bare value] := by
  intro before
  have run : ∀ seen, text.foldlM take ⟨before, .bare seen⟩ =
      some ⟨before, .bare (seen ++ text)⟩ := by
    clear known
    intro seen
    induction text generalizing seen with
    | nil => rw [List.append_nil]; rfl
    | cons first others inductionHypothesis =>
      obtain ⟨⟨noBlank, noQuote, noMark⟩, later⟩ := List.forall_mem_cons.mp bare
      have step : take ⟨before, .bare seen⟩ first = some ⟨before, .bare (seen ++ [first])⟩ := by
        simp only [take, noBlank, Bool.false_eq_true, if_false, if_neg noQuote, noMark]
      rw [List.foldlM_cons, step]
      show List.foldlM take _ others = _
      rw [inductionHypothesis later, List.append_assoc, List.singleton_append]
  refine ⟨_, run [], text, rfl, ?_⟩
  have some : text.isEmpty = false := by
    rw [List.isEmpty_eq_false_iff]
    rintro rfl
    cases known
  simp only [finish, some, Bool.false_eq_true, if_false, known]
  rfl

/-- In a text in quotes, characters are gathered. -/
theorem foldlM_take_quoted (before : List JsonToken) (seen : List Char)
    (plain : ∀ character ∈ text, character ≠ '"' ∧ character ≠ '\\') :
    text.foldlM take ⟨before, .quoted seen⟩ = some ⟨before, .quoted (seen ++ text)⟩ := by
  induction text generalizing seen with
  | nil => rw [List.append_nil]; rfl
  | cons first others inductionHypothesis =>
    obtain ⟨⟨noQuote, noBackslash⟩, later⟩ := List.forall_mem_cons.mp plain
    have step : take ⟨before, .quoted seen⟩ first = some ⟨before, .quoted (seen ++ [first])⟩ := by
      simp only [take, if_neg noQuote, if_neg noBackslash]
    rw [List.foldlM_cons, step]
    show List.foldlM take _ others = _
    rw [inductionHypothesis _ later, List.append_assoc, List.singleton_append]

theorem foldlM_take_backslash (before : List JsonToken) (seen : List Char) (character : Char)
    (rest : List Char) :
    ('\\' :: character :: rest).foldlM take ⟨before, .quoted seen⟩ =
      rest.foldlM take ⟨before, .quoted (seen ++ ['\\', character])⟩ := by
  show List.foldlM take ⟨before, .quoted (seen ++ ['\\'] ++ [character])⟩ rest = _
  rw [List.append_assoc, List.singleton_append]

theorem digitChar_plain : ∀ digit < 16,
    Nat.digitChar digit ≠ '"' ∧ Nat.digitChar digit ≠ '\\' := by
  decide

/-- In a text in quotes, the reader goes past an escape. -/
theorem foldlM_take_escape (before : List JsonToken) (seen : List Char) (character : Char) :
    (Json.escape character).foldlM take ⟨before, .quoted seen⟩ =
      some ⟨before, .quoted (seen ++ Json.escape character)⟩ := by
  obtain ⟨letter, same, _⟩ | ⟨control, same⟩ | ⟨noQuote, noBackslash, _, same⟩ :=
    escape_cases character
  · rw [same, foldlM_take_backslash]
    rfl
  · have digits : ∀ digit ∈ ['0', '0', Nat.digitChar (character.toNat / 16),
        Nat.digitChar (character.toNat % 16)], digit ≠ '"' ∧ digit ≠ '\\' := by
      simp only [List.forall_mem_cons, List.not_mem_nil]
      exact ⟨by decide, by decide, digitChar_plain _ (by omega), digitChar_plain _ (by omega), nofun⟩
    rw [same, foldlM_take_backslash, foldlM_take_quoted _ _ digits, List.append_assoc]
    rfl
  · rw [same]
    exact foldlM_take_quoted before seen (List.forall_mem_singleton.mpr ⟨noQuote, noBackslash⟩)

theorem foldlM_take_flatMap_escape (before : List JsonToken) (seen text : List Char) :
    (text.flatMap Json.escape).foldlM take ⟨before, .quoted seen⟩ =
      some ⟨before, .quoted (seen ++ text.flatMap Json.escape)⟩ := by
  induction text generalizing seen with
  | nil => rw [List.flatMap_nil, List.append_nil]; rfl
  | cons first others inductionHypothesis =>
    rw [List.flatMap_cons, List.foldlM_append, foldlM_take_escape]
    show List.foldlM take _ _ = _
    rw [inductionHypothesis, List.append_assoc]

/-- A text in quotes is a token. -/
theorem reads_quote (text : String) : Reads (Json.quote text) [.string text] := by
  intro before
  have opened : take ⟨before, .bare []⟩ '"' = some ⟨before, .quoted []⟩ := rfl
  have closed : take ⟨before, .quoted (text.toList.flatMap Json.escape)⟩ '"' =
      some ⟨before ++ [.string text], .bare []⟩ := by
    simp only [take, if_true, unescape_flatMap_escape, Option.bind_eq_bind, Option.bind_some,
      String.ofList_toList]
    rfl
  refine ⟨_, ?_, holds_between _⟩
  rw [Json.quote, List.cons_append, List.foldlM_cons, opened]
  show List.foldlM take _ (_ ++ ['"']) = _
  rw [List.foldlM_append, foldlM_take_flatMap_escape]
  show List.foldlM take _ ['"'] = _
  rw [List.foldlM_cons, List.nil_append, closed]
  rfl

end JsonScanner

end ExprDiagram
