/-
This file states the grammar of programs. A form is spelled by a word, or by an opening parenthesis,
a label, the spellings of its arguments and a closing parenthesis; a script by its definitions and
then its expression. The forms are the derivation trees of the grammar, and a list of tokens is a
sentence if it spells some script whose calls are not nested too deeply.

Labels and names keep only their text in a form, so that a form may have several spellings; a word
keeps its kind as well.
-/

import ExprDiagram.Source.Reader

namespace ExprDiagram

/-! ### Heights -/

mutual
/-- The number of levels that a form reaches down from its own: a call without arguments reaches no
farther than a word. -/
def Form.height : Form → Nat
  | .word _ _ => 0
  | .call _ arguments => Form.heightAll arguments

/-- The number of levels that the forms of a list reach down from the level above theirs. -/
def Form.heightAll : List Form → Nat
  | [] => 0
  | form :: rest => max (form.height + 1) (Form.heightAll rest)
end

theorem Form.height_word (kind : WordKind) (text : String) : (Form.word kind text).height = 0 := by
  rw [Form.height]

theorem Form.height_call (label : String) (arguments : List Form) :
    (Form.call label arguments).height = Form.heightAll arguments := by
  rw [Form.height]

theorem Form.heightAll_append (first second : List Form) :
    Form.heightAll (first ++ second) = max (Form.heightAll first) (Form.heightAll second) := by
  induction first with
  | nil => rw [List.nil_append, Form.heightAll, Nat.zero_max]
  | cons form rest inductionHypothesis =>
    rw [List.cons_append, Form.heightAll, Form.heightAll, inductionHypothesis, Nat.max_assoc]

theorem Form.heightAll_singleton (form : Form) : Form.heightAll [form] = form.height + 1 := by
  rw [Form.heightAll, Form.heightAll, Nat.max_zero]

/-- A script whose calls are nested no deeper than is allowed: the expression of the program starts
at the uppermost level, and the body of a definition one level down. -/
structure Script.Shallow (script : Script) : Prop where
  main : script.main.height ≤ maxNesting
  bodies : ∀ definition ∈ script.definitions, definition.body.height ≤ maxNesting - 1

/-! ### Spellings -/

mutual
/-- The tokens spell the form. -/
inductive Form.Spelled : Form → List Token → Prop
  | word {token : Token} {text : String} (isWord : token.word? = some text) :
    Form.Spelled (.word token.kind text) [token]
  | call {label : Token} {text : String} {arguments : List Form} {tokens : List Token}
    (isWord : label.word? = some text) (spelled : Form.SpelledAll arguments tokens) :
    Form.Spelled (.call text arguments) (.openParen :: label :: (tokens ++ [.closeParen]))

/-- The tokens spell the forms one after the other. -/
inductive Form.SpelledAll : List Form → List Token → Prop
  | nil : Form.SpelledAll [] []
  | cons {form : Form} {rest : List Form} {first others : List Token}
    (head : form.Spelled first) (tail : Form.SpelledAll rest others) :
    Form.SpelledAll (form :: rest) (first ++ others)
end

/-- The tokens spell the definition: the keyword, a name and a body, in parentheses. -/
inductive Definition.Spelled : Definition → List Token → Prop
  | intro {name : Token} {text : String} {body : Form} {tokens : List Token}
    (isWord : name.word? = some text) (spelled : body.Spelled tokens) :
    Definition.Spelled ⟨text, body⟩
      (.openParen :: .identifier defineKeyword :: name :: (tokens ++ [.closeParen]))

/-- The tokens spell the definitions one after the other. -/
inductive Definition.SpelledAll : List Definition → List Token → Prop
  | nil : Definition.SpelledAll [] []
  | cons {definition : Definition} {rest : List Definition} {first others : List Token}
    (head : definition.Spelled first) (tail : Definition.SpelledAll rest others) :
    Definition.SpelledAll (definition :: rest) (first ++ others)

/-- The tokens begin the way every definition begins. -/
def BeginsDefinition (tokens : List Token) : Prop :=
  [.openParen, .identifier defineKeyword] <+: tokens

/-- The tokens spell the script: its definitions in order, and then an expression that does not
begin the way a definition does. -/
inductive Script.Spelled : Script → List Token → Prop
  | intro {definitions : List Definition} {main : Form} {front back : List Token}
    (defined : Definition.SpelledAll definitions front) (spelled : main.Spelled back)
    (noDefinition : ¬ BeginsDefinition back) : Script.Spelled ⟨definitions, main⟩ (front ++ back)

/-- The tokens are a sentence of the grammar within the bounds on nesting. -/
def Sentence (tokens : List Token) : Prop :=
  ∃ script : Script, script.Spelled tokens ∧ script.Shallow

/-! ### Joining spellings -/

theorem Form.SpelledAll.append {first second : List Form} {firstTokens secondTokens : List Token}
    (spelledFirst : Form.SpelledAll first firstTokens)
    (spelledSecond : Form.SpelledAll second secondTokens) :
    Form.SpelledAll (first ++ second) (firstTokens ++ secondTokens) := by
  induction first generalizing firstTokens with
  | nil =>
    cases spelledFirst
    exact spelledSecond
  | cons form rest inductionHypothesis =>
    cases spelledFirst with
    | cons head tail =>
      rw [List.cons_append, List.append_assoc]
      exact .cons head (inductionHypothesis tail)

theorem Form.SpelledAll.singleton {form : Form} {tokens : List Token}
    (spelled : form.Spelled tokens) : Form.SpelledAll [form] tokens := by
  have joined := Form.SpelledAll.cons spelled .nil
  rwa [List.append_nil] at joined

theorem Definition.SpelledAll.append {first second : List Definition}
    {firstTokens secondTokens : List Token}
    (spelledFirst : Definition.SpelledAll first firstTokens)
    (spelledSecond : Definition.SpelledAll second secondTokens) :
    Definition.SpelledAll (first ++ second) (firstTokens ++ secondTokens) := by
  induction spelledFirst with
  | nil => exact spelledSecond
  | cons head _ inductionHypothesis =>
    rw [List.cons_append, List.append_assoc]
    exact .cons head inductionHypothesis

theorem Definition.SpelledAll.singleton {definition : Definition} {tokens : List Token}
    (spelled : definition.Spelled tokens) : Definition.SpelledAll [definition] tokens := by
  have joined := Definition.SpelledAll.cons spelled .nil
  rwa [List.append_nil] at joined

end ExprDiagram
