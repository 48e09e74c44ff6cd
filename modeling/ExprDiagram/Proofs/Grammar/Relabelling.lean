/-
This file shows that reading does not depend on which words are used, but for the keyword. When the
words of the tokens are replaced, different words by different ones and the keyword by itself, the
reader takes and refuses the same tokens, at the same positions: the only word that it looks at is
the one behind a parenthesis between forms, which it compares with the keyword. So each state it
comes to is the former state with the words replaced, and so is what has been read in the end.
-/

import ExprDiagram.Proofs.Grammar.Acceptance

namespace ExprDiagram

variable {labels : String → String}

/-! ### Replacing words -/

/-- The token with another word, if it is one. It is a number or an identifier as before. -/
def Token.relabel (labels : String → String) : Token → Token
  | openParen => openParen
  | closeParen => closeParen
  | identifier text => identifier (labels text)
  | number text => number (labels text)

mutual
/-- The form with other words. -/
def Form.relabel (labels : String → String) : Form → Form
  | .word kind text => .word kind (labels text)
  | .call label arguments => .call (labels label) (Form.relabelAll labels arguments)

/-- The forms with other words. -/
def Form.relabelAll (labels : String → String) : List Form → List Form
  | [] => []
  | form :: rest => form.relabel labels :: Form.relabelAll labels rest
end

theorem Form.relabelAll_eq_map (labels : String → String) (forms : List Form) :
    Form.relabelAll labels forms = forms.map (Form.relabel labels) := by
  induction forms with
  | nil => rfl
  | cons form rest inductionHypothesis => rw [relabelAll, inductionHypothesis, List.map_cons]

/-- The definition with other words. -/
def Definition.relabel (labels : String → String) (definition : Definition) : Definition :=
  ⟨labels definition.name, definition.body.relabel labels⟩

/-- The script with other words. -/
def Script.relabel (labels : String → String) (script : Script) : Script :=
  ⟨script.definitions.map (Definition.relabel labels), script.main.relabel labels⟩

/-- The cause with another name or label, if it holds one. What is expected is no word of the
tokens. -/
def ParseError.relabel (labels : String → String) : ParseError → ParseError
  | unexpectedEnd expected => unexpectedEnd expected
  | expectedIdentifier position => expectedIdentifier position
  | unexpectedClose position => unexpectedClose position
  | unclosedDefinition name => unclosedDefinition (labels name)
  | unclosedCall label => unclosedCall (labels label)
  | nestedTooDeep limit => nestedTooDeep limit

namespace Reader

/-- The goal with another name, if it holds one. -/
def Goal.relabel (labels : String → String) : Goal → Goal
  | body name => body (labels name)
  | main => main

/-- The open call with other words. -/
def OpenCall.relabel (labels : String → String) (call : OpenCall) : OpenCall :=
  ⟨labels call.label, call.arguments.map (Form.relabel labels)⟩

/-- The stage with other words. -/
def Stage.relabel (labels : String → String) : Stage → Stage
  | between => between
  | head => head
  | defining => defining
  | calling goal around => calling (goal.relabel labels) (around.map (OpenCall.relabel labels))
  | expression goal around =>
    expression (goal.relabel labels) (around.map (OpenCall.relabel labels))
  | closing name body => closing (labels name) (body.relabel labels)
  | done main => done (main.relabel labels)

end Reader

/-- The reader with other words. -/
def Reader.relabel (labels : String → String) (reader : Reader) : Reader :=
  ⟨reader.definitions.map (Definition.relabel labels), reader.stage.relabel labels⟩

/-- The reading with other words. -/
def Reading.relabel (labels : String → String) (reading : Reading) : Reading :=
  ⟨reading.definitions.map (Definition.relabel labels),
    (reading.outcome.map fun read => (read.1.relabel labels, read.2)).mapError
      (ParseError.relabel labels)⟩

/-! ### Words of a token -/

theorem Token.word?_relabel (labels : String → String) (token : Token) :
    (token.relabel labels).word? = token.word?.map labels := by
  cases token <;> rfl

theorem Token.kind_relabel (labels : String → String) (token : Token) :
    (token.relabel labels).kind = token.kind := by
  cases token <;> rfl

theorem Token.relabel_eq_closeParen_iff {token : Token} :
    token.relabel labels = .closeParen ↔ token = .closeParen := by
  cases token <;> simp [relabel]

theorem Token.relabel_eq_openParen_iff {token : Token} :
    token.relabel labels = .openParen ↔ token = .openParen := by
  cases token <;> simp [relabel]

/-- The only place where a word is compared with another: it is the keyword if and only if its
replacement is. -/
theorem Token.relabel_eq_define_iff (injective : Function.Injective labels)
    (keyword : labels defineKeyword = defineKeyword) {token : Token} :
    token.relabel labels = .identifier defineKeyword ↔ token = .identifier defineKeyword := by
  cases token with
  | identifier text =>
    rw [relabel, identifier.injEq, identifier.injEq]
    exact ⟨fun same => injective (same.trans keyword.symm), fun same => same ▸ keyword⟩
  | _ => simp [relabel]

namespace Reader

variable {goal : Goal} {around : List OpenCall} {position : Nat} {token : Token}

/-! ### Taking a token -/

theorem Goal.level_relabel (labels : String → String) (goal : Goal) :
    (goal.relabel labels).level = goal.level := by
  cases goal <;> rfl

theorem Stage.deliver_relabel (labels : String → String) (goal : Goal) (around : List OpenCall)
    (form : Form) :
    Stage.deliver (goal.relabel labels) (around.map (OpenCall.relabel labels))
        (form.relabel labels) =
      (Stage.deliver goal around form).relabel labels := by
  cases around with
  | cons call outer => rfl
  | nil => cases goal <;> rfl

theorem takeLabel_relabel (labels : String → String) (goal : Goal) (around : List OpenCall)
    (position : Nat) (token : Token) :
    takeLabel (goal.relabel labels) (around.map (OpenCall.relabel labels)) position
        (token.relabel labels) =
      ((takeLabel goal around position token).map (Stage.relabel labels)).mapError
        (ParseError.relabel labels) := by
  cases token <;> rfl

theorem takeName_relabel (labels : String → String) (position : Nat) (token : Token) :
    takeName position (token.relabel labels) =
      ((takeName position token).map (Stage.relabel labels)).mapError
        (ParseError.relabel labels) := by
  cases token <;> rfl

theorem takeExpression_relabel (labels : String → String) (goal : Goal) (around : List OpenCall)
    (position : Nat) (token : Token) :
    takeExpression (goal.relabel labels) (around.map (OpenCall.relabel labels)) position
        (token.relabel labels) =
      ((takeExpression goal around position token).map (Stage.relabel labels)).mapError
        (ParseError.relabel labels) := by
  by_cases closing : token = .closeParen
  · subst closing
    cases around with
    | nil => rfl
    | cons call outer =>
      have form : Form.call (labels call.label) (call.arguments.map (Form.relabel labels)).reverse =
          (Form.call call.label call.arguments.reverse).relabel labels := by
        rw [Form.relabel, Form.relabelAll_eq_map, List.map_reverse]
      exact congrArg Except.ok ((congrArg _ form).trans (Stage.deliver_relabel labels goal outer _))
  · rw [takeExpression_opening _ (mt Token.relabel_eq_closeParen_iff.mp closing),
      takeExpression_opening _ closing, Goal.level_relabel, List.length_map, Token.word?_relabel,
      Token.kind_relabel]
    split
    · rfl
    · cases token.word? with
      | none => rfl
      | some text =>
        exact congrArg Except.ok (Stage.deliver_relabel labels goal around (.word token.kind text))

/-- Putting a stage into its reader changes nothing about how the two runs go on. -/
theorem map_stage_relabel (definitions : List Definition) (taken : Except ParseError Stage) :
    (do return ⟨definitions.map (Definition.relabel labels),
        ← (taken.map (Stage.relabel labels)).mapError (ParseError.relabel labels)⟩ :
        Except ParseError Reader) =
      ((do return ⟨definitions, ← taken⟩ : Except ParseError Reader).map
        (Reader.relabel labels)).mapError (ParseError.relabel labels) := by
  cases taken <;> rfl

/-- A token with another word is taken or refused as the token is, if it is the keyword just when
the token is. -/
theorem take_relabel (injective : Function.Injective labels)
    (keyword : labels defineKeyword = defineKeyword) (reader : Reader) (position : Nat)
    (token : Token) :
    (reader.relabel labels).take position (token.relabel labels) =
      ((reader.take position token).map (Reader.relabel labels)).mapError
        (ParseError.relabel labels) := by
  obtain ⟨definitions, stage⟩ := reader
  cases stage with
  | between =>
    simp only [take, Reader.relabel, Stage.relabel, Token.relabel_eq_openParen_iff]
    split
    · rfl
    · rw [← map_stage_relabel, ← takeExpression_relabel]
      rfl
  | head =>
    simp only [take, Reader.relabel, Stage.relabel, Token.relabel_eq_define_iff injective keyword]
    split
    · rfl
    · rw [← map_stage_relabel, ← takeLabel_relabel]
      rfl
  | defining =>
    simp only [take, Reader.relabel, Stage.relabel]
    rw [← map_stage_relabel, ← takeName_relabel]
  | calling goal around =>
    simp only [take, Reader.relabel, Stage.relabel]
    rw [← map_stage_relabel, ← takeLabel_relabel]
  | expression goal around =>
    simp only [take, Reader.relabel, Stage.relabel]
    rw [← map_stage_relabel, ← takeExpression_relabel]
  | closing name body =>
    simp only [take, Reader.relabel, Stage.relabel, Token.relabel_eq_closeParen_iff]
    split
    · have defined : (definitions ++ [Definition.mk name body]).map (Definition.relabel labels) =
          definitions.map (Definition.relabel labels) ++ [⟨labels name, body.relabel labels⟩] :=
        List.map_append
      exact congrArg (fun defined => Except.ok (Reader.mk defined .between)) defined.symm
    · rfl
  | done main => rfl

/-! ### Reading -/

theorem Stage.finish_relabel (labels : String → String) (stage : Stage) :
    (stage.relabel labels).finish =
      (stage.finish.map (Form.relabel labels)).mapError (ParseError.relabel labels) := by
  cases stage with
  | expression goal around => cases around <;> rfl
  | _ => rfl

theorem Stage.relabel_ne_done {stage : Stage} (unfinished : ∀ main, stage ≠ .done main) :
    ∀ main, stage.relabel labels ≠ .done main := by
  cases stage with
  | done main => exact absurd rfl (unfinished main)
  | _ => exact fun _ => Stage.noConfusion

/-- Step by step, the reader comes from the tokens with other words to what it comes to from the
tokens, with other words. -/
theorem run_relabel (injective : Function.Injective labels)
    (keyword : labels defineKeyword = defineKeyword) (reader : Reader) (position : Nat)
    (tokens : List Token) :
    (reader.relabel labels).run position (tokens.map (Token.relabel labels)) =
      (reader.run position tokens).relabel labels := by
  induction tokens generalizing reader position with
  | nil =>
    rw [List.map_nil, run, run, Reader.relabel, Stage.finish_relabel]
    cases finished : reader.stage.finish <;> rfl
  | cons token rest inductionHypothesis =>
    by_cases complete : ∃ main, reader.stage = .done main
    · obtain ⟨definitions, stage⟩ := reader
      obtain ⟨main, rfl⟩ := complete
      rw [run_done, Reader.relabel, Stage.relabel, run_done, List.length_map]
      rfl
    · have unfinished : ∀ main, reader.stage ≠ .done main := fun main same => complete ⟨main, same⟩
      have taking := take_relabel injective keyword reader position token
      rw [List.map_cons]
      cases taken : reader.take position token with
      | error cause =>
        rw [taken] at taking
        rw [run_cons_refused unfinished taken,
          run_cons_refused (Stage.relabel_ne_done unfinished) taking]
        rfl
      | ok next =>
        rw [taken] at taking
        rw [run_cons unfinished taken, run_cons (Stage.relabel_ne_done unfinished) taking]
        exact inductionHypothesis next (position + 1)

end Reader

/-- Reading tokens with other words gives what reading the tokens gives, with other words. -/
theorem read_relabel (injective : Function.Injective labels)
    (keyword : labels defineKeyword = defineKeyword) (tokens : List Token) :
    read (tokens.map (Token.relabel labels)) = (read tokens).relabel labels :=
  Reader.run_relabel injective keyword Reader.start 0 tokens

theorem Reading.script_relabel (labels : String → String) (reading : Reading) :
    (reading.relabel labels).script =
      (reading.script.map (Script.relabel labels)).mapError (ParseError.relabel labels) := by
  obtain ⟨definitions, cause | read⟩ := reading <;> rfl

end ExprDiagram
