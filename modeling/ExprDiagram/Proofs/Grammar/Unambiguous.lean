/-
This file shows that the grammar is unambiguous. A spelling determines the form and the place where
the form ends, whatever is written behind it: a word ends at once, and the arguments of a call end
at the first closing parenthesis that stands where an argument could begin. So where definitions are
found at the beginning of the tokens, every script that the tokens spell begins with them, and what
is left when one of them is taken out still spells a script.
-/

import ExprDiagram.Proofs.Grammar.Recognition

namespace ExprDiagram

variable {form : Form} {definition : Definition} {definitions before : List Definition}
variable {tokens first front back rest further : List Token}

/-! ### Forms -/

/-- A spelling begins with a token that closes nothing. -/
theorem Form.Spelled.exists_head (spelled : form.Spelled tokens) :
    ∃ token tail, tokens = token :: tail ∧ token ≠ .closeParen := by
  cases spelled with
  | @word token text isWord => exact ⟨token, [], rfl, Reader.word?_ne_closeParen isWord⟩
  | call isWord inside => exact ⟨.openParen, _, rfl, Token.noConfusion⟩

/-- No form begins with a closing parenthesis. -/
theorem Form.Spelled.not_closing (spelled : form.Spelled tokens)
    (same : tokens ++ rest = .closeParen :: further) : False := by
  obtain ⟨token, tail, rfl, opening⟩ := spelled.exists_head
  exact opening (List.cons.inj same).1

mutual
/-- Where two forms are spelled from the same place on, they are one form with one spelling. -/
theorem Form.Spelled.unique {form other : Form} {first second rest further : List Token}
    (spelled : form.Spelled first) (spelledOther : other.Spelled second)
    (same : first ++ rest = second ++ further) : form = other ∧ first = second := by
  cases spelled with
  | @word token text isWord =>
    cases spelledOther with
    | @word otherToken otherText isOther =>
      obtain ⟨rfl, _⟩ := List.cons.inj same
      obtain rfl := Option.some.inj (isWord.symm.trans isOther)
      exact ⟨rfl, rfl⟩
    | call isLabel inside =>
      obtain ⟨rfl, _⟩ := List.cons.inj same
      cases isWord
  | @call label text arguments inside isLabel spelledAll =>
    cases spelledOther with
    | word isWord =>
      obtain ⟨rfl, _⟩ := List.cons.inj same
      cases isWord
    | @call otherLabel otherText otherArguments otherInside isOther spelledAllOther =>
      simp only [List.cons_append, List.append_assoc, List.nil_append, List.cons.injEq,
        true_and] at same
      obtain ⟨rfl, inner⟩ := same
      obtain rfl := Option.some.inj (isLabel.symm.trans isOther)
      obtain ⟨rfl, rfl⟩ := spelledAll.unique spelledAllOther inner
      exact ⟨rfl, rfl⟩

/-- Where two lists of forms are spelled from the same place on, each up to a closing parenthesis,
they are one list with one spelling. -/
theorem Form.SpelledAll.unique {forms others : List Form} {first second rest further : List Token}
    (spelled : Form.SpelledAll forms first) (spelledOther : Form.SpelledAll others second)
    (same : first ++ .closeParen :: rest = second ++ .closeParen :: further) :
    forms = others ∧ first = second := by
  cases spelled with
  | nil =>
    cases spelledOther with
    | nil => exact ⟨rfl, rfl⟩
    | cons head tail =>
      rw [List.append_assoc] at same
      exact (head.not_closing same.symm).elim
  | cons head tail =>
    cases spelledOther with
    | nil =>
      rw [List.append_assoc] at same
      exact (head.not_closing same).elim
    | cons otherHead otherTail =>
      rw [List.append_assoc, List.append_assoc] at same
      obtain ⟨rfl, rfl⟩ := head.unique otherHead same
      obtain ⟨rfl, rfl⟩ := tail.unique otherTail (List.append_cancel_left same)
      exact ⟨rfl, rfl⟩
end

/-! ### Definitions -/

/-- A definition begins the way definitions do. -/
theorem Definition.Spelled.beginsDefinition (spelled : definition.Spelled tokens) :
    BeginsDefinition (tokens ++ rest) := by
  cases spelled with
  | intro isWord inside => exact ⟨_, rfl⟩

/-- Where two definitions are spelled from the same place on, they are one definition with one
spelling. -/
theorem Definition.Spelled.unique {definition other : Definition}
    {first second rest further : List Token} (spelled : definition.Spelled first)
    (spelledOther : other.Spelled second) (same : first ++ rest = second ++ further) :
    definition = other ∧ first = second := by
  cases spelled with
  | @intro name text body inside isWord spelledBody =>
    cases spelledOther with
    | @intro otherName otherText otherBody otherInside isOther spelledOther =>
      simp only [List.cons_append, List.append_assoc, List.nil_append, List.cons.injEq,
        true_and] at same
      obtain ⟨rfl, inner⟩ := same
      obtain rfl := Option.some.inj (isWord.symm.trans isOther)
      obtain ⟨rfl, rfl⟩ := spelledBody.unique spelledOther inner
      exact ⟨rfl, rfl⟩

/-- Definitions at the beginning of the tokens are the first ones of all definitions before a place
where no definition begins. -/
theorem Definition.SpelledAll.exists_rest (spelled : Definition.SpelledAll before first)
    (spelledAll : Definition.SpelledAll definitions front) (noDefinition : ¬ BeginsDefinition back)
    (same : first ++ rest = front ++ back) :
    ∃ after remaining, definitions = before ++ after ∧ Definition.SpelledAll after remaining ∧
      rest = remaining ++ back := by
  induction spelled generalizing definitions front with
  | nil => exact ⟨definitions, front, rfl, spelledAll, same⟩
  | @cons definition before tokens others head _ inductionHypothesis =>
    rw [List.append_assoc] at same
    cases spelledAll with
    | nil =>
      rw [List.nil_append] at same
      exact absurd (same ▸ head.beginsDefinition) noDefinition
    | cons otherHead otherTail =>
      rw [List.append_assoc] at same
      obtain ⟨rfl, rfl⟩ := head.unique otherHead same
      obtain ⟨after, remaining, rfl, spelledRest, split⟩ :=
        inductionHypothesis otherTail (List.append_cancel_left same)
      exact ⟨after, remaining, rfl, spelledRest, split⟩

/-! ### Scripts -/

/-- Whether a form begins the way definitions do is settled within its spelling. -/
theorem Form.Spelled.beginsDefinition_of_append (spelled : form.Spelled tokens)
    (begins : BeginsDefinition (tokens ++ rest)) : BeginsDefinition tokens := by
  obtain ⟨further, same⟩ := begins
  cases spelled with
  | word isWord =>
    obtain ⟨rfl, _⟩ := List.cons.inj same
    cases isWord
  | call isLabel inside =>
    obtain ⟨_, tail⟩ := List.cons.inj same
    obtain ⟨rfl, _⟩ := List.cons.inj tail
    exact ⟨_, rfl⟩

/-- What is read when a definition is taken out of the tokens: the script that was read with it, less
that definition. -/
theorem parse_without {program : Program} {middle : List Token}
    (defined : Definition.SpelledAll before first) (spelled : definition.Spelled middle)
    (parsed : Program.parse (first ++ middle ++ rest) = .ok program) :
    ∃ after main, program = Script.program ⟨before ++ definition :: after, main⟩ ∧
      Program.parse (first ++ rest) = .ok (Script.program ⟨before ++ after, main⟩) := by
  obtain ⟨script, consumed, trailing, split, whole, shallow, rfl⟩ := exists_script_of_parse parsed
  cases whole with
  | @intro definitions main front back definedAll spelledMain noDefinition =>
    have ends : ¬ BeginsDefinition (back ++ trailing) :=
      fun begins => noDefinition (spelledMain.beginsDefinition_of_append begins)
    rw [List.append_assoc front] at split
    obtain ⟨after, remaining, rfl, spelledAfter, rfl⟩ :=
      (defined.append (.singleton spelled)).exists_rest definedAll ends split
    have shorter : Script.Spelled ⟨before ++ after, main⟩ (first ++ remaining ++ back) :=
      .intro (defined.append spelledAfter) spelledMain noDefinition
    have kept := (List.sublist_append_right [definition] after).append_left before
    have shallowShorter : Script.Shallow ⟨before ++ after, main⟩ := by
      refine ⟨shallow.main, fun other member => shallow.bodies other ?_⟩
      rw [List.append_assoc]
      exact kept.subset member
    refine ⟨after, main, by rw [List.append_assoc, List.singleton_append], ?_⟩
    rw [← parse_spelled shorter shallowShorter trailing]
    simp only [List.append_assoc]

end ExprDiagram
