/-
This file shows that a text is cut in the only way in which it can be taken apart into tokens and
the gaps around them. Gaps hold blanks only, words hold none and no parentheses, and two words have
a gap between them that is not empty; under these rules the characters of a text leave no choice
where a token begins and ends. So writing tokens with any such gaps and cutting what was written
gives the tokens back, and the gaps of a text have no part in what it means.
-/

import ExprDiagram.Conversion
import Mathlib.Data.List.Chain
import Mathlib.Tactic.Common

namespace ExprDiagram

/-! ### Tokens with gaps -/

/-- The characters of which gaps are made. -/
def blanks : List Char := [' ', '\t', '\n', '\r', '\x0b', '\x0c']

theorem isBlank_iff {character : Char} : isBlank character ↔ character ∈ blanks := by
  simp [isBlank, blanks, or_assoc]

/-- A token that can be cut out of a text. A word has characters, all of which can stand in a word,
and it is a number exactly if all of them are digits. -/
def Token.Cuttable (token : Token) : Prop :=
  ∀ word ∈ token.word?, word ≠ "" ∧
    (∀ character ∈ word.toList, character ∉ blanks ∧ character ≠ '(' ∧ character ≠ ')') ∧
    (token.isNumber ↔ ∀ character ∈ word.toList, character.isDigit)

theorem isWordCharacter_iff {character : Char} :
    isWordCharacter character ↔ character ∉ blanks ∧ character ≠ '(' ∧ character ≠ ')' := by
  simp [isWordCharacter, ← isBlank_iff, and_assoc]

-- The characters are gone through one by one: left to itself, the search for an instance would go
-- through all characters there are.
instance (token : Token) : Decidable token.Cuttable :=
  decidable_of_iff
    (∀ word ∈ token.word?, word ≠ "" ∧ word.toList.all isWordCharacter ∧
      (token.isNumber ↔ word.toList.all Char.isDigit))
    (by simp only [Token.Cuttable, List.all_eq_true, isWordCharacter_iff])

/-- Tokens as they stand in a text: the gap before the first one, and the tokens in order, each with
the gap that follows it. -/
structure Spacing where
  margin : List Char
  pieces : List (Token × List Char)

namespace Spacing

/-- The tokens without the gaps. -/
def tokens (spacing : Spacing) : List Token := spacing.pieces.map Prod.fst

/-- The characters of tokens and of the gaps that follow them. -/
def characters (pieces : List (Token × List Char)) : List Char :=
  pieces.flatMap fun (token, gap) => token.text.toList ++ gap

/-- The text in which the tokens stand. -/
def text (spacing : Spacing) : String :=
  String.ofList (spacing.margin ++ characters spacing.pieces)

/-- Two words do not touch. -/
def Apart (first second : Token × List Char) : Prop :=
  first.1.word?.isSome → second.1.word?.isSome → first.2 ≠ []

instance : DecidableRel Apart := fun first second => inferInstanceAs <| Decidable <|
  first.1.word?.isSome → second.1.word?.isSome → first.2 ≠ []

/-- The gaps hold blanks only, the tokens can be cut out of a text, and words do not touch. -/
@[mk_iff]
structure Legal (spacing : Spacing) : Prop where
  margin : ∀ character ∈ spacing.margin, character ∈ blanks
  gaps : ∀ piece ∈ spacing.pieces, ∀ character ∈ piece.2, character ∈ blanks
  cuttable : ∀ piece ∈ spacing.pieces, piece.1.Cuttable
  apart : spacing.pieces.IsChain Apart

instance (spacing : Spacing) : Decidable spacing.Legal :=
  decidable_of_iff
    (spacing.margin.all (· ∈ blanks) ∧ (∀ piece ∈ spacing.pieces, piece.2.all (· ∈ blanks)) ∧
      (∀ piece ∈ spacing.pieces, piece.1.Cuttable) ∧ spacing.pieces.IsChain Apart)
    (by simp only [legal_iff, List.all_eq_true, decide_eq_true_eq])

end Spacing

/-! ### Single tokens -/

theorem cut_blanks {gap : List Char} (blank : ∀ character ∈ gap, character ∈ blanks)
    (rest : List Char) : cut (gap ++ rest) = cut rest := by
  induction gap with
  | nil => rfl
  | cons first others inductionHypothesis =>
    obtain ⟨here, later⟩ := List.forall_mem_cons.mp blank
    rw [List.cons_append, cut, if_pos (isBlank_iff.mpr here), inductionHypothesis later]

theorem cut_openParen (rest : List Char) : cut ('(' :: rest) = .openParen :: cut rest := by
  rw [cut, if_neg (by decide), if_pos rfl]

theorem cut_closeParen (rest : List Char) : cut (')' :: rest) = .closeParen :: cut rest := by
  rw [cut, if_neg (by decide), if_neg (by decide), if_pos rfl]

theorem cut_wordCharacter {first : Char} (inWord : isWordCharacter first) (rest : List Char) :
    cut (first :: rest) =
      Token.ofWord (first :: rest.takeWhile isWordCharacter) ::
        cut (rest.dropWhile isWordCharacter) := by
  obtain ⟨noBlank, noOpen, noClose⟩ := isWordCharacter_iff.mp inWord
  rw [cut, if_neg (isBlank_iff.not.mpr noBlank), if_neg noOpen, if_neg noClose]

/-- A word ends where a character cannot stand in a word. -/
theorem cut_word {word rest : List Char} (nonempty : word ≠ [])
    (inWord : ∀ character ∈ word, isWordCharacter character)
    (ends : ∀ next ∈ rest.head?, ¬ isWordCharacter next) :
    cut (word ++ rest) = Token.ofWord word :: cut rest := by
  obtain ⟨first, others, rfl⟩ := List.exists_cons_of_ne_nil nonempty
  obtain ⟨here, later⟩ := List.forall_mem_cons.mp inWord
  have taken : rest.takeWhile isWordCharacter = [] := by
    cases rest with
    | nil => rfl
    | cons next _ => simp [ends next rfl]
  have dropped : rest.dropWhile isWordCharacter = rest := by
    cases rest with
    | nil => rfl
    | cons next _ => simp [ends next rfl]
  rw [List.cons_append, cut_wordCharacter here, List.takeWhile_append_of_pos later,
    List.dropWhile_append_of_pos later, taken, dropped, List.append_nil]

/-- The characters of a word tell what token it is. -/
theorem Token.Cuttable.ofWord_eq {token : Token} (cuttable : token.Cuttable) {word : String}
    (isWord : token.word? = some word) : Token.ofWord word.toList = token := by
  obtain ⟨_, _, number⟩ := cuttable word isWord
  cases token with
  | openParen => cases isWord
  | closeParen => cases isWord
  | identifier text =>
    obtain rfl := Option.some.inj isWord
    simpa [Token.ofWord, Token.isNumber] using number
  | number text =>
    obtain rfl := Option.some.inj isWord
    simpa [Token.ofWord, Token.isNumber] using number

/-- A word that is made of characters that can stand in a word can be cut out of a text. -/
theorem Token.cuttable_ofWord {word : List Char} (nonempty : word ≠ [])
    (inWord : ∀ character ∈ word, isWordCharacter character) :
    (Token.ofWord word).Cuttable ∧ (Token.ofWord word).text.toList = word ∧
      (Token.ofWord word).word?.isSome := by
  have legal := fun character member => isWordCharacter_iff.mp (inWord character member)
  by_cases digits : word.all Char.isDigit
  · have isNumber : Token.ofWord word = .number (String.ofList word) := if_pos digits
    rw [isNumber]
    refine ⟨?_, String.toList_ofList, rfl⟩
    intro text isWord
    obtain rfl := Option.some.inj isWord
    simp_all [Token.isNumber, String.toList_ofList]
  · have isIdentifier : Token.ofWord word = .identifier (String.ofList word) := if_neg digits
    rw [isIdentifier]
    refine ⟨?_, String.toList_ofList, rfl⟩
    intro text isWord
    obtain rfl := Option.some.inj isWord
    simp_all [Token.isNumber, String.toList_ofList]

namespace Spacing

variable {margin gap : List Char} {token : Token} {pieces : List (Token × List Char)}

theorem characters_cons (token : Token) (gap : List Char) (pieces : List (Token × List Char)) :
    characters ((token, gap) :: pieces) = token.text.toList ++ (gap ++ characters pieces) := by
  rw [characters, List.flatMap_cons, List.append_assoc]
  rfl

/-! ### Cutting what was written -/

/-- What is left when the first token and all before it are taken away. -/
theorem Legal.tail (legal : Legal ⟨margin, (token, gap) :: pieces⟩) : Legal ⟨gap, pieces⟩ where
  margin := legal.gaps _ List.mem_cons_self
  gaps piece member := legal.gaps piece (List.mem_cons_of_mem _ member)
  cuttable piece member := legal.cuttable piece (List.mem_cons_of_mem _ member)
  apart := legal.apart.of_cons

/-- After a word comes the end, a blank or a parenthesis. -/
theorem Legal.word_ends (legal : Legal ⟨margin, (token, gap) :: pieces⟩)
    (isWord : token.word?.isSome) :
    ∀ next ∈ (gap ++ characters pieces).head?, ¬ isWordCharacter next := by
  intro next found inWord
  obtain ⟨noBlank, noOpen, noClose⟩ := isWordCharacter_iff.mp inWord
  cases gap with
  | cons first others =>
    obtain rfl := Option.some.inj found
    exact noBlank (legal.tail.margin _ List.mem_cons_self)
  | nil =>
    cases pieces with
    | nil => cases found
    | cons second rest =>
      obtain ⟨second, following⟩ := second
      have apart := List.isChain_cons_cons.mp legal.apart
      rw [List.nil_append, characters_cons] at found
      cases second with
      | openParen => exact noOpen (Option.some.inj found).symm
      | closeParen => exact noClose (Option.some.inj found).symm
      | identifier text => exact apart.1 isWord rfl rfl
      | number text => exact apart.1 isWord rfl rfl

theorem Legal.cut_characters (legal : Legal ⟨margin, pieces⟩) :
    cut (margin ++ characters pieces) = pieces.map Prod.fst := by
  induction pieces generalizing margin with
  | nil =>
    rw [cut_blanks legal.margin]
    exact cut.eq_1
  | cons piece rest inductionHypothesis =>
    obtain ⟨token, gap⟩ := piece
    have others := inductionHypothesis legal.tail
    rw [cut_blanks legal.margin, characters_cons, List.map_cons, ← others]
    have ofWord : ∀ word, token.word? = some word → token.text = word →
        cut (token.text.toList ++ (gap ++ characters rest)) =
          token :: cut (gap ++ characters rest) := by
      intro word isWord shown
      have cuttable := legal.cuttable _ List.mem_cons_self
      obtain ⟨nonempty, inWord, _⟩ := cuttable word isWord
      rw [shown, cut_word (by simpa using nonempty)
        (fun character member => isWordCharacter_iff.mpr (inWord character member))
        (legal.word_ends (isWord ▸ rfl)), cuttable.ofWord_eq isWord]
    cases token with
    | openParen => exact cut_openParen _
    | closeParen => exact cut_closeParen _
    | identifier text => exact ofWord text rfl rfl
    | number text => exact ofWord text rfl rfl

/-- Cutting the text of tokens with legal gaps gives the tokens. -/
theorem Legal.tokenize_text {spacing : Spacing} (legal : spacing.Legal) :
    tokenize spacing.text = spacing.tokens := by
  rw [tokenize, text, String.toList_ofList]
  exact legal.cut_characters

/-! ### Taking a text apart -/

/-- The first character of a word can stand in a word. -/
theorem Legal.head_isWordCharacter (legal : Legal ⟨[], (token, gap) :: pieces⟩)
    (isWord : token.word?.isSome) :
    ∃ first ∈ (characters ((token, gap) :: pieces)).head?, isWordCharacter first := by
  have begins : ∀ word, token.word? = some word → token.text = word →
      ∃ first ∈ (characters ((token, gap) :: pieces)).head?, isWordCharacter first := by
    intro word isWord shown
    obtain ⟨nonempty, inWord, _⟩ := legal.cuttable _ List.mem_cons_self word isWord
    have nonempty : word.toList ≠ [] := by simpa using nonempty
    obtain ⟨first, others, split⟩ := List.exists_cons_of_ne_nil nonempty
    refine ⟨first, ?_, isWordCharacter_iff.mpr (inWord first (split ▸ List.mem_cons_self))⟩
    rw [characters_cons, shown, split]
    rfl
  cases token with
  | openParen => cases isWord
  | closeParen => cases isWord
  | identifier text => exact begins text rfl rfl
  | number text => exact begins text rfl rfl

/-- One more token before a text: if it is a word, what follows must not go on with the word. -/
theorem Legal.cons (legal : Legal ⟨gap, pieces⟩) (cuttable : token.Cuttable)
    (ends : token.word?.isSome →
      ∀ next ∈ (gap ++ characters pieces).head?, ¬ isWordCharacter next) :
    Legal ⟨[], (token, gap) :: pieces⟩ where
  margin _ member := (by cases member)
  gaps := List.forall_mem_cons.mpr ⟨legal.margin, legal.gaps⟩
  cuttable := List.forall_mem_cons.mpr ⟨cuttable, legal.cuttable⟩
  apart := by
    refine List.isChain_cons.mpr ⟨fun second first isWord isWordSecond empty => ?_, legal.apart⟩
    obtain ⟨other, following⟩ := second
    cases pieces with
    | nil => cases first
    | cons _ rest =>
      obtain rfl := Option.some.inj first
      obtain rfl : gap = [] := empty
      obtain ⟨next, found, inWord⟩ := legal.head_isWordCharacter isWordSecond
      exact ends isWord next found inWord

/-- Every text can be taken apart into the tokens that are cut out of it. -/
theorem exists_legal (characters : List Char) :
    ∃ spacing : Spacing, spacing.Legal ∧ spacing.tokens = cut characters ∧
      spacing.margin ++ Spacing.characters spacing.pieces = characters := by
  fun_induction cut characters with
  | case1 => exact ⟨⟨[], []⟩, ⟨nofun, nofun, nofun, .nil⟩, rfl, rfl⟩
  | case2 first rest blank inductionHypothesis =>
    obtain ⟨⟨margin, pieces⟩, legal, tokens, text⟩ := inductionHypothesis
    refine ⟨⟨first :: margin, pieces⟩, ?_, tokens, congrArg (first :: ·) text⟩
    exact { legal with margin := List.forall_mem_cons.mpr ⟨isBlank_iff.mp blank, legal.margin⟩ }
  | case3 rest _ inductionHypothesis =>
    obtain ⟨⟨margin, pieces⟩, legal, tokens, text⟩ := inductionHypothesis
    refine ⟨⟨[], (.openParen, margin) :: pieces⟩, legal.cons nofun nofun,
      congrArg (Token.openParen :: ·) tokens, ?_⟩
    rw [List.nil_append, characters_cons, text]
    rfl
  | case4 rest _ _ inductionHypothesis =>
    obtain ⟨⟨margin, pieces⟩, legal, tokens, text⟩ := inductionHypothesis
    refine ⟨⟨[], (.closeParen, margin) :: pieces⟩, legal.cons nofun nofun,
      congrArg (Token.closeParen :: ·) tokens, ?_⟩
    rw [List.nil_append, characters_cons, text]
    rfl
  | case5 first rest noBlank noOpen noClose inductionHypothesis =>
    obtain ⟨⟨margin, pieces⟩, legal, tokens, text⟩ := inductionHypothesis
    have inWord : ∀ character ∈ first :: rest.takeWhile isWordCharacter,
        isWordCharacter character := by
      refine List.forall_mem_cons.mpr
        ⟨isWordCharacter_iff.mpr ⟨isBlank_iff.not.mp noBlank, noOpen, noClose⟩,
          fun character member => ?_⟩
      exact List.all_eq_true.mp List.all_takeWhile character member
    obtain ⟨cuttable, shown, _⟩ := Token.cuttable_ofWord (List.cons_ne_nil _ _) inWord
    refine ⟨⟨[], (_, margin) :: pieces⟩, legal.cons cuttable fun _ next found => ?_,
      congrArg (_ :: ·) tokens, ?_⟩
    · have stops := List.head?_dropWhile_not isWordCharacter rest
      rw [text] at found
      rw [found] at stops
      simp [stops]
    · rw [List.nil_append, characters_cons, text, shown, List.cons_append,
        List.takeWhile_append_dropWhile]

end Spacing

/-! ### The tokens of a text -/

/-- The tokens of a text are those that it can be taken apart into, and no others. So tokens that
are written with legal gaps are read back, and two texts that differ in their gaps only are one
program with one layout. -/
theorem tokenize_eq_iff :
    (∀ (source : String) (tokens : List Token), tokenize source = tokens ↔
      ∃ spacing : Spacing, spacing.Legal ∧ spacing.tokens = tokens ∧ spacing.text = source) ∧
    (∀ spacing : Spacing, spacing.Legal → tokenize spacing.text = spacing.tokens) ∧
    ∀ first second : Spacing, first.Legal → second.Legal → first.tokens = second.tokens →
      parse first.text = parse second.text ∧
      ∀ (α : Type) [Coordinate α],
        (convert first.text : Except ConversionError (Layout α)) = convert second.text := by
  refine ⟨fun source tokens => ⟨?_, ?_⟩, fun spacing => Spacing.Legal.tokenize_text,
    fun first second legalFirst legalSecond same => ?_⟩
  · rintro rfl
    obtain ⟨spacing, legal, tokens, text⟩ := Spacing.exists_legal source.toList
    refine ⟨spacing, legal, tokens, ?_⟩
    rw [Spacing.text, text, String.ofList_toList]
  · rintro ⟨spacing, legal, rfl, rfl⟩
    exact legal.tokenize_text
  · have parsed : parse first.text = parse second.text := by
      rw [parse, parse, legalFirst.tokenize_text, legalSecond.tokenize_text, same]
    refine ⟨parsed, fun α _ => ?_⟩
    rw [convert, convert, parsed]

/-- The tokens of a call, with no gap that can be left out. -/
def tightCall : Spacing where
  margin := []
  pieces := [(.openParen, []), (.identifier "λ", [' ']), (.number "007", []), (.closeParen, [])]

/-- The tokens of the same call, with gaps everywhere. -/
def looseCall : Spacing where
  margin := ['\n']
  pieces := [(.openParen, ['\t']), (.identifier "λ", ['\x0b', ' ']), (.number "007", ['\r']),
    (.closeParen, ['\x0c'])]

theorem tokenize_eq_iff_call :
    tightCall.Legal ∧ looseCall.Legal ∧ tightCall.tokens = looseCall.tokens ∧
      tokenize looseCall.text = looseCall.tokens ∧
      parse tightCall.text = parse looseCall.text ∧
      (convert tightCall.text : Except ConversionError (Layout Rat)) = convert looseCall.text := by
  have tight : tightCall.Legal := by decide
  have loose : looseCall.Legal := by decide
  obtain ⟨parsed, converted⟩ := tokenize_eq_iff.2.2 tightCall looseCall tight loose rfl
  exact ⟨tight, loose, rfl, tokenize_eq_iff.2.1 looseCall loose, parsed, converted Rat⟩

end ExprDiagram
