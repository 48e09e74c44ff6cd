/-
This file shows that every label of a layout is a word of the text that was laid out. Storing a form
adds expressions whose labels are words of the form, the diagram shows each expression under its
label, and the layout keeps the labels of the diagram. So labels hold no blanks and no parentheses,
which a drawing as a text has to rely on: a line feed in a label would break its row in two.
-/

import ExprDiagram.Proofs.Diagram.Depiction
import ExprDiagram.Proofs.Grammar.Spacing
import ExprDiagram.Proofs.Layout.Spanning

namespace ExprDiagram

/-! ### Labels of expressions -/

/-- Something holds of the labels of all expressions. -/
def Arena.Labelled (holds : String → Prop) (arena : Arena) : Prop :=
  ∀ id expr, arena.get? id = some expr → holds expr.label

/-- Something holds of all words among some tokens. -/
def WordsHold (holds : String → Prop) (tokens : List Token) : Prop :=
  ∀ token ∈ tokens, ∀ word, token.word? = some word → holds word

variable {holds : String → Prop}

theorem Arena.Labelled.alloc {arena : Arena} (labelled : arena.Labelled holds) {expr : Expr}
    (label : holds expr.label) : (arena.alloc expr).2.Labelled holds := by
  intro id other found
  rcases Arena.get?_alloc_iff.mp found with before | ⟨_, rfl⟩
  · exact labelled id other before
  · exact label

mutual
theorem Form.store_labelled {form : Form} {tokens : List Token} (spelled : form.Spelled tokens)
    (words : WordsHold holds tokens) (bindings : Bindings) {arena : Arena}
    (labelled : arena.Labelled holds) : (form.store bindings arena).2.Labelled holds := by
  cases spelled with
  | @word token text isWord =>
    rw [Form.store]
    cases bindings.lookup? text with
    | none => exact labelled.alloc (words token List.mem_cons_self text isWord)
    | some id => exact labelled
  | @call label text arguments tokens isWord spelled =>
    rw [Form.store]
    have inner : WordsHold holds tokens := fun token member =>
      words token (List.mem_cons_of_mem _ (List.mem_cons_of_mem _ (List.mem_append_left _ member)))
    refine (Form.storeAll_labelled spelled inner bindings labelled).alloc ?_
    exact words label (List.mem_cons_of_mem _ List.mem_cons_self) text isWord

theorem Form.storeAll_labelled {forms : List Form} {tokens : List Token}
    (spelled : Form.SpelledAll forms tokens) (words : WordsHold holds tokens)
    (bindings : Bindings) {arena : Arena} (labelled : arena.Labelled holds) :
    (Form.storeAll bindings arena forms).2.Labelled holds := by
  cases spelled with
  | nil => exact labelled
  | cons head tail =>
    obtain ⟨front, back⟩ := List.forall_mem_append.mp words
    rw [Form.storeAll]
    have first := Form.store_labelled head front bindings labelled
    exact Form.storeAll_labelled tail back bindings first
end

theorem Scope.define_labelled {scope : Scope} {definition : Definition} {tokens : List Token}
    (spelled : definition.Spelled tokens) (words : WordsHold holds tokens)
    (labelled : scope.arena.Labelled holds) : (scope.define definition).arena.Labelled holds := by
  cases spelled with
  | @intro nameToken name body tokens isWord spelled =>
    obtain ⟨_, _, named, rest⟩ : _ ∧ _ ∧ _ ∧ _ := by
      simpa only [WordsHold, List.forall_mem_cons] using words
    have stored := Form.store_labelled spelled (List.forall_mem_append.mp rest).1 scope.bindings
      labelled
    cases bound : scope.bindings.lookup? name with
    | some id =>
      rw [Scope.define_taken bound]
      exact stored
    | none =>
      rw [Scope.define_free bound]
      exact stored.alloc (named name isWord)

theorem Scope.foldl_define_labelled {definitions : List Definition} {tokens : List Token}
    (spelled : Definition.SpelledAll definitions tokens) (words : WordsHold holds tokens)
    {scope : Scope} (labelled : scope.arena.Labelled holds) :
    (definitions.foldl Scope.define scope).arena.Labelled holds := by
  induction spelled generalizing scope with
  | nil => exact labelled
  | cons head _ inductionHypothesis =>
    obtain ⟨front, back⟩ := List.forall_mem_append.mp words
    exact inductionHypothesis back (Scope.define_labelled head front labelled)

/-- The labels of a parsed program are words that were read. -/
theorem labelled_of_parse {tokens : List Token} {program : Program}
    (parsed : Program.parse tokens = .ok program) (words : WordsHold holds tokens) :
    program.arena.Labelled holds := by
  obtain ⟨script, front, back, rfl, spelled, _, rfl⟩ := exists_script_of_parse parsed
  obtain ⟨read, _⟩ := List.forall_mem_append.mp words
  cases spelled with
  | intro defined spelled _ =>
    obtain ⟨first, second⟩ := List.forall_mem_append.mp read
    have empty : Scope.empty.arena.Labelled holds := by
      intro id expr found
      cases found
    exact Form.store_labelled spelled second _ (Scope.foldl_define_labelled defined first empty)

/-! ### Labels of nodes -/

/-- The words of a text hold nothing but characters of words. -/
theorem wordsHold_tokenize (source : String) :
    WordsHold (fun word => ∀ character ∈ word.toList, isWordCharacter character)
      (tokenize source) := by
  obtain ⟨spacing, legal, tokens, _⟩ := Spacing.exists_legal source.toList
  intro token member word isWord character inWord
  rw [tokenize, ← tokens] at member
  obtain ⟨piece, inPieces, rfl⟩ := List.mem_map.mp member
  obtain ⟨_, characters, _⟩ := legal.cuttable piece inPieces word isWord
  exact isWordCharacter_iff.mpr (characters character inWord)

/-- What holds of the labels of a program holds of the labels of its layout. -/
theorem holds_label_of_convert {α : Type} [Coordinate α] {source : String} {program : Program}
    {layout : Layout α} (converted : convert source = .ok layout)
    (parsed : parse source = .ok program) (labelled : program.arena.Labelled holds)
    {placed : PlacedNode α} (member : placed ∈ layout.nodes) : holds placed.label := by
  obtain ⟨other, arrangement, _, parsedOther, drawn, _, displays⟩ := displays_of_convert converted
  obtain rfl := Except.ok.inj (parsed.symm.trans parsedOther)
  obtain ⟨shown, depicts⟩ := Diagram.ofProgram_depicts drawn
  obtain ⟨node, _, shows⟩ := displays.exists_node member
  have inDiagram : node < arrangement.diagram.graph.size :=
    (Array.getElem?_eq_some_iff.mp shows.shown).1
  rw [depicts.size] at inDiagram
  obtain ⟨expr, _, stored, shownNode, _, _⟩ :=
    depicts.node node _ (List.getElem?_eq_getElem inDiagram)
  have same := Node.mk.inj (Option.some.inj (shows.shown.symm.trans shownNode))
  exact same.1 ▸ labelled _ expr stored

/-- Every character of a label can stand in a word. -/
theorem isWordCharacter_of_label {α : Type} [Coordinate α] {source : String} {layout : Layout α}
    (converted : convert source = .ok layout) {placed : PlacedNode α}
    (member : placed ∈ layout.nodes) {character : Char}
    (inLabel : character ∈ placed.label.toList) : isWordCharacter character := by
  obtain ⟨program, parsed, _⟩ := convert_eq_ok converted
  have labelled := labelled_of_parse parsed (wordsHold_tokenize source)
  exact holds_label_of_convert converted parsed labelled member character inLabel

end ExprDiagram
