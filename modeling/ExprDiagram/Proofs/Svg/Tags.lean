/-
This file reads markup back. A tag begins with an opening bracket and ends with the next closing
one, whatever stands between them. It names an element and gives it attributes, and it opens the
element, closes it or is all of it. The tags of a text that was written here are those of its pieces:
brackets are escaped in the text of an element, and do not occur in names and attributes. Undoing the
escapes gives the text of the element back, whatever it looks like.
-/

import ExprDiagram.Svg.Markup
import Mathlib.Data.List.Basic
import Mathlib.Logic.Function.Basic

namespace ExprDiagram

namespace Markup

variable {character : Char} {text before after rest : List Char}

/-! ### Entities -/

/-- The text with the three entities replaced by the characters that they stand for. -/
def unescape : List Char → List Char
  | '&' :: 'a' :: 'm' :: 'p' :: ';' :: rest => '&' :: unescape rest
  | '&' :: 'l' :: 't' :: ';' :: rest => '<' :: unescape rest
  | '&' :: 'g' :: 't' :: ';' :: rest => '>' :: unescape rest
  | character :: rest => character :: unescape rest
  | [] => []

theorem unescape_cons (plain : character ≠ '&') (rest : List Char) :
    unescape (character :: rest) = character :: unescape rest := by
  conv_lhs => unfold unescape
  split <;> simp_all

theorem unescape_escape (character : Char) (rest : List Char) :
    unescape (escape character ++ rest) = character :: unescape rest := by
  unfold escape
  split_ifs with ampersand less greater
  · rw [ampersand]
    rfl
  · rw [less]
    rfl
  · rw [greater]
    rfl
  · exact unescape_cons ampersand rest

/-- Undoing the escapes gives the text back. An ampersand of the text has become an entity of its
own, so that what looks like an entity in the text is none. -/
theorem unescape_flatMap_escape (text : List Char) : unescape (text.flatMap escape) = text := by
  induction text with
  | nil => rfl
  | cons character rest inductionHypothesis =>
    rw [List.flatMap_cons, unescape_escape, inductionHypothesis]

/-- The text with every occurrence of a character replaced. -/
def replace (character : Char) (entity : String) (text : List Char) : List Char :=
  text.flatMap fun other => if other = character then entity.toList else [other]

/-- The three characters may be replaced one after the other, if the ampersand is the first. -/
theorem flatMap_escape (text : List Char) :
    text.flatMap escape =
      replace '>' "&gt;" (replace '<' "&lt;" (replace '&' "&amp;" text)) := by
  rw [replace, replace, replace, List.flatMap_assoc, List.flatMap_assoc]
  congr 1
  funext character
  unfold escape
  split_ifs with ampersand less greater
  · rfl
  · rw [List.flatMap_singleton, if_pos less]
    rfl
  · rw [List.flatMap_singleton, if_neg less, List.flatMap_singleton, if_pos greater]
    rfl
  · rw [List.flatMap_singleton, if_neg less, List.flatMap_singleton, if_neg greater]

/-- No character of the text begins or ends a tag, and an ampersand only begins an entity. -/
structure Escaped (text : List Char) : Prop where
  noBegin : '<' ∉ text
  noEnd : '>' ∉ text
  entity : ∀ rest, '&' :: rest <:+ text →
    ∃ name ∈ ["amp;".toList, "lt;".toList, "gt;".toList], name <+: rest

theorem Escaped.nil : Escaped [] :=
  ⟨List.not_mem_nil, List.not_mem_nil, fun _ suffix => by cases List.suffix_nil.mp suffix⟩

/-- A character that needs no escape may stand before an escaped text. -/
theorem Escaped.cons (escaped : Escaped text) (noAmpersand : character ≠ '&')
    (noBegin : character ≠ '<') (noEnd : character ≠ '>') : Escaped (character :: text) := by
  refine ⟨List.not_mem_cons_of_ne_of_not_mem noBegin.symm escaped.noBegin,
    List.not_mem_cons_of_ne_of_not_mem noEnd.symm escaped.noEnd, fun rest suffix => ?_⟩
  rcases List.suffix_cons_iff.mp suffix with here | later
  · exact absurd (List.cons.inj here).1.symm noAmpersand
  · exact escaped.entity rest later

/-- An entity may stand before an escaped text. -/
theorem Escaped.entity_append {name : List Char} (escaped : Escaped text)
    (known : name ∈ ["amp;".toList, "lt;".toList, "gt;".toList]) :
    Escaped ('&' :: name ++ text) := by
  have plain : '&' ∉ name ∧ '<' ∉ name ∧ '>' ∉ name := by
    simp only [List.mem_cons, List.not_mem_nil, or_false] at known
    rcases known with rfl | rfl | rfl <;> decide
  have others : Escaped (name ++ text) := by
    clear known
    induction name with
    | nil => exact escaped
    | cons first letters inductionHypothesis =>
      simp only [List.mem_cons, not_or] at plain
      obtain ⟨⟨noAmpersand, restAmpersand⟩, ⟨noBegin, restBegin⟩, noEnd, restEnd⟩ := plain
      exact (inductionHypothesis ⟨restAmpersand, restBegin, restEnd⟩).cons (Ne.symm noAmpersand)
        (Ne.symm noBegin) (Ne.symm noEnd)
  refine ⟨List.not_mem_cons_of_ne_of_not_mem (by decide) others.noBegin,
    List.not_mem_cons_of_ne_of_not_mem (by decide) others.noEnd, fun rest suffix => ?_⟩
  rcases List.suffix_cons_iff.mp suffix with here | later
  · exact ⟨name, known, (List.cons.inj here).2 ▸ List.prefix_append name text⟩
  · exact others.entity rest later

theorem escaped_flatMap_escape (text : List Char) : Escaped (text.flatMap escape) := by
  induction text with
  | nil => exact .nil
  | cons character rest inductionHypothesis =>
    rw [List.flatMap_cons]
    unfold escape
    split_ifs with ampersand less greater
    · exact inductionHypothesis.entity_append (by decide)
    · exact inductionHypothesis.entity_append (by decide)
    · exact inductionHypothesis.entity_append (by decide)
    · exact inductionHypothesis.cons ampersand less greater

/-! ### Cutting -/

/-- What stands before a mark, and what stands behind it. -/
def cut (mark : Char) (text : List Char) : List Char × List Char :=
  (text.takeWhile (· != mark), (text.dropWhile (· != mark)).tail)

theorem length_cut_le (mark : Char) (text : List Char) :
    (cut mark text).2.length ≤ text.length := by
  have shorter : (text.dropWhile (· != mark)).length ≤ text.length :=
    (List.dropWhile_sublist _).length_le
  rw [cut, List.length_tail]
  omega

theorem length_cut_lt {mark : Char} (member : mark ∈ text) :
    (cut mark text).2.length < text.length := by
  have positive := List.length_pos_of_mem member
  have shorter : (text.dropWhile (· != mark)).length ≤ text.length :=
    (List.dropWhile_sublist _).length_le
  rw [cut, List.length_tail]
  omega

theorem cut_cons (mark : Char) (after : List Char) : cut mark (mark :: after) = ([], after) := by
  rw [cut, List.takeWhile_cons_of_neg (by simp), List.dropWhile_cons_of_neg (by simp),
    List.tail_cons]

theorem cut_append {mark : Char} (outside : mark ∉ before) (after : List Char) :
    cut mark (before ++ mark :: after) = (before, after) := by
  have others : ∀ other ∈ before, (other != mark) = true := fun other member =>
    bne_iff_ne.mpr (ne_of_mem_of_not_mem member outside)
  rw [cut, List.takeWhile_append_of_pos others, List.dropWhile_append_of_pos others]
  obtain ⟨none, rest⟩ := Prod.mk.inj (cut_cons mark after)
  rw [none, rest, List.append_nil]

/-! ### Attributes -/

/-- The attributes of a tag. A blank stands before a name, an equals sign behind it, and the value
stands in quotes. -/
def attributes (text : List Char) : List Attribute :=
  if _blank : ' ' ∈ text then
    let name := cut '=' (cut ' ' text).2
    let value := cut '"' (cut '"' name.2).2
    (String.ofList name.1, String.ofList value.1) :: attributes value.2
  else []
termination_by text.length
decreasing_by
  have first := length_cut_lt _blank
  have second := length_cut_le '=' (cut ' ' text).2
  have third := length_cut_le '"' (cut '=' (cut ' ' text).2).2
  have fourth := length_cut_le '"' (cut '"' (cut '=' (cut ' ' text).2).2).2
  omega

/-- The name of an attribute ends before the equals sign and its value before the quote, and neither
ends the tag. -/
structure Plain (entry : Attribute) : Prop where
  name : '=' ∉ entry.1.toList ∧ '>' ∉ entry.1.toList
  value : '"' ∉ entry.2.toList ∧ '>' ∉ entry.2.toList

variable {name : String} {entry : Attribute} {entries : List Attribute}

theorem writeAttributes_cons (entry : Attribute) (entries : List Attribute) :
    writeAttributes (entry :: entries) = ' ' :: (entry.1.toList ++
      '=' :: '"' :: (entry.2.toList ++ '"' :: writeAttributes entries)) := by
  simp [writeAttributes]

/-- The attributes that were written are read. -/
theorem attributes_write (plain : ∀ entry ∈ entries, Plain entry) (noBlank : ' ' ∉ before)
    (ended : ' ' ∉ after) : attributes (before ++ (writeAttributes entries ++ after)) = entries := by
  induction entries generalizing before with
  | nil =>
    have none : ' ' ∉ before ++ (writeAttributes [] ++ after) := by
      simpa [writeAttributes] using ⟨noBlank, ended⟩
    rw [attributes, dif_neg none]
  | cons entry entries inductionHypothesis =>
    obtain ⟨here, later⟩ := List.forall_mem_cons.mp plain
    have others : attributes (writeAttributes entries ++ after) = entries :=
      inductionHypothesis later List.not_mem_nil
    rw [attributes, dif_pos (by simp [writeAttributes_cons]), writeAttributes_cons]
    simp only [List.cons_append, List.append_assoc, cut_append noBlank, cut_append here.name.1,
      cut_cons, cut_append here.value.1, String.ofList_toList, others]

theorem notMem_writeAttributes (plain : ∀ entry ∈ entries, Plain entry) :
    '>' ∉ writeAttributes entries := by
  induction entries with
  | nil => exact List.not_mem_nil
  | cons entry entries inductionHypothesis =>
    obtain ⟨here, later⟩ := List.forall_mem_cons.mp plain
    rw [writeAttributes_cons]
    simp [here.name.2, here.value.2, inductionHypothesis later]

/-! ### Tags -/

/-- What a tag does with its element. -/
inductive TagKind where
  | opening
  /-- The tag is all of the element. -/
  | empty
  | closing
  deriving DecidableEq

/-- A tag, and the text behind it up to the next one. -/
structure Tag where
  kind : TagKind
  name : String
  attributes : List Attribute
  text : List Char
  deriving DecidableEq

/-- The tag whose brackets enclose the given characters. -/
def Tag.ofBody (body text : List Char) : Tag :=
  match body with
  | '/' :: name => ⟨.closing, String.ofList name, [], text⟩
  | _ =>
    { kind := if body.getLast? = some '/' then .empty else .opening
      name := String.ofList (body.takeWhile fun character => character != ' ' && character != '/')
      attributes := Markup.attributes body
      text }

/-- The tags of a text. -/
def scan (text : List Char) : List Tag :=
  if _more : '<' ∈ text then
    let tag := cut '>' (cut '<' text).2
    .ofBody tag.1 (cut '<' tag.2).1 :: scan tag.2
  else []
termination_by text.length
decreasing_by
  have first := length_cut_lt _more
  have second := length_cut_le '>' (cut '<' text).2
  omega

/-- What stands outside of tags is passed over. -/
theorem scan_append (outside : '<' ∉ before) (rest : List Char) :
    scan (before ++ rest) = scan rest := by
  by_cases more : '<' ∈ rest
  · obtain ⟨first, second, rfl, earlier⟩ := List.eq_append_cons_of_mem more
    have none : '<' ∉ before ++ first := by
      simpa using ⟨outside, earlier⟩
    rw [scan, dif_pos (by simp), scan, dif_pos more, ← List.append_assoc, cut_append none,
      cut_append earlier]
  · rw [scan, dif_neg (by simp [outside, more]), scan, dif_neg more]

theorem scan_tag (noEnd : '>' ∉ text) (rest : List Char) :
    scan ('<' :: (text ++ '>' :: rest)) = .ofBody text (cut '<' rest).1 :: scan rest := by
  rw [scan, dif_pos List.mem_cons_self, cut_cons, cut_append noEnd]

/-! ### Pieces -/

/-- The name of an element has characters, and none of them ends it or the tag. -/
structure IsName (name : String) : Prop where
  nonempty : name ≠ ""
  noBlank : ' ' ∉ name.toList
  noSlash : '/' ∉ name.toList
  noEnd : '>' ∉ name.toList

instance (name : String) : Decidable (IsName name) :=
  decidable_of_iff (name ≠ "" ∧ ' ' ∉ name.toList ∧ '/' ∉ name.toList ∧ '>' ∉ name.toList)
    ⟨fun ⟨nonempty, noBlank, noSlash, noEnd⟩ => ⟨nonempty, noBlank, noSlash, noEnd⟩,
      fun isName => ⟨isName.nonempty, isName.noBlank, isName.noSlash, isName.noEnd⟩⟩

theorem IsName.exists_toList (isName : IsName name) :
    ∃ first rest, name.toList = first :: rest ∧ first ≠ '/' := by
  cases same : name.toList with
  | nil => exact absurd (String.toList_eq_nil_iff.mp same) isName.nonempty
  | cons first rest =>
    exact ⟨first, rest, rfl, fun slash =>
      isName.noSlash (same ▸ slash ▸ List.mem_cons_self)⟩

/-- Attributes end with a quote. -/
theorem getLast?_writeAttributes (noSlash : before.getLast? ≠ some '/')
    (entries : List Attribute) :
    (before ++ writeAttributes entries).getLast? ≠ some '/' := by
  induction entries generalizing before with
  | nil => rwa [show writeAttributes [] = [] from rfl, List.append_nil]
  | cons entry entries inductionHypothesis =>
    have quoted : (before ++ ' ' :: (entry.1.toList ++ '=' :: '"' :: (entry.2.toList ++ ['"']))
        ).getLast? ≠ some '/' := by
      simp [List.getLast?_append, List.getLast?_cons]
    have others := inductionHypothesis quoted
    rw [writeAttributes_cons]
    simpa using others

theorem takeWhile_writeAttributes (entries : List Attribute) (ended : after = [] ∨ after = ['/']) :
    (writeAttributes entries ++ after).takeWhile
      (fun character => character != ' ' && character != '/') = [] := by
  cases entries with
  | nil => rcases ended with rfl | rfl <;> rfl
  | cons entry entries =>
    rw [writeAttributes_cons, List.cons_append]
    rfl

/-- A tag that does not close an element is read by its name, its attributes and its last
character. -/
theorem ofBody_eq (isName : IsName name) (plain : ∀ entry ∈ entries, Plain entry)
    (ended : after = [] ∨ after = ['/']) (text : List Char) :
    Tag.ofBody (name.toList ++ (writeAttributes entries ++ after)) text =
      ⟨if after = ['/'] then .empty else .opening, name, entries, text⟩ := by
  have last : (name.toList ++ (writeAttributes entries ++ after)).getLast? = some '/' ↔
      after = ['/'] := by
    rcases ended with rfl | rfl
    · have notLast : name.toList.getLast? ≠ some '/' := fun here =>
        isName.noSlash (List.mem_of_getLast? here)
      rw [List.append_nil]
      exact ⟨fun here => absurd here (getLast?_writeAttributes notLast entries), nofun⟩
    · simp
  have named : (name.toList ++ (writeAttributes entries ++ after)).takeWhile
      (fun character => character != ' ' && character != '/') = name.toList := by
    rw [List.takeWhile_append_of_pos, takeWhile_writeAttributes entries ended, List.append_nil]
    intro character member
    simp [ne_of_mem_of_not_mem member isName.noBlank, ne_of_mem_of_not_mem member isName.noSlash]
  have noBlankAfter : ' ' ∉ after := by rcases ended with rfl | rfl <;> decide
  have read := attributes_write plain isName.noBlank noBlankAfter
  unfold Tag.ofBody
  split
  · rename_i closing
    obtain ⟨first, rest, same, different⟩ := isName.exists_toList
    rw [same] at closing
    exact absurd (List.cons.inj closing).1 different
  · simp only [last, named, read, String.ofList_toList]

/-- The names and the attributes of the piece are plain. Nothing is asked of a text between tags. -/
def Sound : Markup → Prop
  | .opening name entries | .empty name entries | .text name entries _ =>
    IsName name ∧ ∀ entry ∈ entries, Plain entry
  | .closing name => IsName name

/-- The tags of a piece, each with the text behind it. -/
def tags : Markup → List Tag
  | .opening name entries => [⟨.opening, name, entries, ['\n']⟩]
  | .empty name entries => [⟨.empty, name, entries, ['\n']⟩]
  | .text name entries content =>
    [⟨.opening, name, entries, content.toList.flatMap escape⟩, ⟨.closing, name, [], ['\n']⟩]
  | .closing name => [⟨.closing, name, [], ['\n']⟩]

theorem escaped_tags (piece : Markup) : ∀ tag ∈ piece.tags, Escaped tag.text := by
  have lineFeed : Escaped ['\n'] := Escaped.nil.cons (by decide) (by decide) (by decide)
  cases piece with
  | text name entries content =>
    exact List.forall_mem_cons.mpr ⟨escaped_flatMap_escape content.toList,
      List.forall_mem_singleton.mpr lineFeed⟩
  | opening | empty | closing => exact List.forall_mem_singleton.mpr lineFeed

theorem scan_element (isName : IsName name) (plain : ∀ entry ∈ entries, Plain entry)
    (ended : after = [] ∨ after = ['/']) (rest : List Char) :
    scan ('<' :: (name.toList ++ (writeAttributes entries ++ (after ++ '>' :: rest)))) =
      ⟨if after = ['/'] then .empty else .opening, name, entries, (cut '<' rest).1⟩ ::
        scan rest := by
  have noEnd : '>' ∉ name.toList ++ (writeAttributes entries ++ after) := by
    rcases ended with rfl | rfl <;> simp [isName.noEnd, notMem_writeAttributes plain]
  rw [← ofBody_eq isName plain ended, ← scan_tag noEnd, List.append_assoc, List.append_assoc]

theorem scan_closing (isName : IsName name) (rest : List Char) :
    scan ('<' :: '/' :: (name.toList ++ '>' :: rest)) =
      ⟨.closing, name, [], (cut '<' rest).1⟩ :: scan rest := by
  have noEnd : '>' ∉ '/' :: name.toList := by
    simp [isName.noEnd]
  have read := scan_tag noEnd rest
  rw [List.cons_append] at read
  rw [read, Tag.ofBody, String.ofList_toList]

/-- The tags of a piece are read, whatever begins behind it with a tag of its own. -/
theorem scan_write {piece : Markup} (sound : piece.Sound)
    (begins : rest.takeWhile (· != '<') = []) :
    scan (piece.write ++ '\n' :: rest) = piece.tags ++ scan rest := by
  have behind : (cut '<' ('\n' :: rest)).1 = ['\n'] := by
    rw [cut, List.takeWhile_cons_of_pos (by decide), begins]
  have noBegin : '<' ∉ ['\n'] := by decide
  have later : scan ('\n' :: rest) = scan rest := scan_append noBegin rest
  cases piece with
  | opening name entries =>
    have read := scan_element sound.1 sound.2 (.inl rfl) ('\n' :: rest)
    rw [behind, later] at read
    simpa [write, tags] using read
  | empty name entries =>
    have read := scan_element sound.1 sound.2 (.inr rfl) ('\n' :: rest)
    rw [behind, later] at read
    simpa [write, tags] using read
  | text name entries content =>
    have escaped := (escaped_flatMap_escape content.toList).noBegin
    have read := scan_element sound.1 sound.2 (.inl rfl) (content.toList.flatMap escape ++
      '<' :: '/' :: (name.toList ++ '>' :: '\n' :: rest))
    rw [cut_append escaped, scan_append escaped, scan_closing sound.1, behind, later] at read
    simpa [write, tags] using read
  | closing name =>
    have read := scan_closing sound ('\n' :: rest)
    rw [behind, later] at read
    simpa [write, tags] using read

theorem takeWhile_write (pieces : List Markup) :
    (pieces.flatMap fun piece => piece.write ++ ['\n']).takeWhile (· != '<') = [] := by
  cases pieces with
  | nil => rfl
  | cons piece rest => cases piece <;> rfl

/-- The tags of a document are those of its pieces. -/
theorem scan_document {pieces : List Markup} (sound : ∀ piece ∈ pieces, piece.Sound) :
    scan (document pieces).toList = pieces.flatMap tags := by
  rw [document, String.toList_ofList]
  induction pieces with
  | nil => rw [List.flatMap_nil, List.flatMap_nil, scan, dif_neg List.not_mem_nil]
  | cons piece rest inductionHypothesis =>
    obtain ⟨here, later⟩ := List.forall_mem_cons.mp sound
    rw [List.flatMap_cons, List.flatMap_cons, List.append_assoc, List.singleton_append,
      scan_write here (takeWhile_write rest), inductionHypothesis later]

end Markup

end ExprDiagram
