/-
This file tells incomplete programs from wrong ones. From every state of the reader there are tokens
that complete the program: the open calls are closed, a definition is closed, and a word follows. So
tokens that were all taken can be continued to a program, whatever error their end gives; and a
token that is refused is the first one after which no program can follow, so that the error stays
the same whatever is written behind it.
-/

import ExprDiagram.Proofs.Grammar.Recognition

namespace ExprDiagram

namespace Reader

variable {definitions : List Definition} {goal : Goal} {around : List OpenCall}
variable {reader last : Reader} {position : Nat} {front tokens : List Token} {token : Token}
variable {cause : ParseError}

/-! ### Tokens that are taken -/

/-- The reader takes all of the tokens, which begin at the position, before its program is complete;
it is then in the last state. -/
inductive Takes : Reader → Nat → List Token → Reader → Prop
  | nil (reader : Reader) (position : Nat) : Takes reader position [] reader
  | cons {reader next last : Reader} {position : Nat} {token : Token} {rest : List Token}
    (unfinished : ∀ main, reader.stage ≠ .done main)
    (taken : reader.take position token = .ok next) (others : Takes next (position + 1) rest last) :
    Takes reader position (token :: rest) last

/-- After the tokens that it takes, the reader goes on from the last state. -/
theorem Takes.run_append (takes : Takes reader position front last) (rest : List Token) :
    reader.run position (front ++ rest) = last.run (position + front.length) rest := by
  induction takes with
  | nil => rfl
  | @cons reader next last position token others unfinished taken _ inductionHypothesis =>
    rw [List.cons_append, run_cons unfinished taken, inductionHypothesis, List.length_cons,
      Nat.add_right_comm, Nat.add_assoc]

/-- A token is left for one of two reasons: the program is complete, or the token is refused. -/
theorem takes_or_stops (reader : Reader) (position : Nat) (tokens : List Token) :
    (∃ last, Takes reader position tokens last) ∨
      ∃ front token rest last, tokens = front ++ token :: rest ∧ Takes reader position front last ∧
        ((∃ main, last.stage = .done main) ∨
          ∃ cause, last.take (position + front.length) token = .error cause) := by
  induction tokens generalizing reader position with
  | nil => exact .inl ⟨reader, .nil reader position⟩
  | cons token rest inductionHypothesis =>
    by_cases complete : ∃ main, reader.stage = .done main
    · exact .inr ⟨[], token, rest, reader, rfl, .nil reader position, .inl complete⟩
    · have unfinished : ∀ main, reader.stage ≠ .done main := fun main same => complete ⟨main, same⟩
      cases taken : reader.take position token with
      | error cause =>
        exact .inr ⟨[], token, rest, reader, rfl, .nil reader position, .inr ⟨cause, taken⟩⟩
      | ok next =>
        rcases inductionHypothesis next (position + 1) with
          ⟨last, takes⟩ | ⟨front, stopped, others, last, rfl, takes, stops⟩
        · exact .inl ⟨last, .cons unfinished taken takes⟩
        · refine .inr ⟨token :: front, stopped, others, last, rfl, .cons unfinished taken takes, ?_⟩
          rwa [List.length_cons, Nat.add_comm front.length, ← Nat.add_assoc]

/-- The last stage refuses no token. -/
theorem unfinished_of_refused (refused : reader.take position token = .error cause) :
    ∀ main, reader.stage ≠ .done main := by
  intro main complete
  rw [take, complete] at refused
  cases refused

/-! ### Completions -/

/-- There are tokens with which the reader completes its program. -/
def Completes (reader : Reader) (position : Nat) : Prop :=
  ∃ further result, (reader.run position further).outcome = .ok result

theorem completes_of_run {first second : Reader} {other : Nat} (taken : List Token)
    (runs : ∀ rest, first.run position (taken ++ rest) = second.run other rest)
    (completes : second.Completes other) : first.Completes position := by
  obtain ⟨further, result, done⟩ := completes
  exact ⟨taken ++ further, result, by rw [runs, done]⟩

theorem completes_between (definitions : List Definition) (position : Nat) :
    Completes ⟨definitions, .between⟩ position :=
  ⟨[.identifier "x"], (.word .symbol "x", 0), rfl⟩

/-- What has been delivered can be completed, by induction on the open calls: each of them is
closed and delivered to the next. -/
theorem completes_deliver (definitions : List Definition) (goal : Goal) (around : List OpenCall)
    (position : Nat) (form : Form) :
    Completes ⟨definitions, .deliver goal around form⟩ position := by
  induction around generalizing position form with
  | nil =>
    cases goal with
    | body name =>
      exact completes_of_run [.closeParen]
        (fun rest => run_cons (fun main => Stage.noConfusion) rfl) (completes_between _ _)
    | main => exact ⟨[], (form, 0), rfl⟩
  | cons call outer inductionHypothesis =>
    exact completes_of_run [.closeParen]
      (fun rest => run_close ⟨call.label, form :: call.arguments⟩) (inductionHypothesis _ _)

theorem completes_expression (definitions : List Definition) (goal : Goal)
    (around : List OpenCall) (position : Nat) :
    Completes ⟨definitions, .expression goal around⟩ position := by
  cases around with
  | nil =>
    have room : goal.level + ([] : List OpenCall).length ≤ maxNesting := by
      cases goal with
      | body name => exact Nat.le_of_ble_eq_true rfl
      | main => exact Nat.zero_le _
    exact completes_of_run [.identifier "x"] (fun rest => run_word rfl room)
      (completes_deliver definitions goal [] _ _)
  | cons call outer =>
    exact completes_of_run [.closeParen] (fun rest => run_close call)
      (completes_deliver definitions goal outer _ _)

/-- Every state of the reader can be completed. -/
theorem completes (reader : Reader) (position : Nat) : reader.Completes position := by
  obtain ⟨definitions, stage⟩ := reader
  -- a word is a label as well as a name, and in no case the keyword
  have word : ∀ goal around next,
      take ⟨definitions, stage⟩ position (.identifier "x") = .ok ⟨definitions, next⟩ →
      next = .expression goal around → (∀ main, stage ≠ .done main) →
      Completes ⟨definitions, stage⟩ position := by
    rintro goal around _ taken rfl unfinished
    exact completes_of_run [.identifier "x"]
      (fun rest => run_cons unfinished taken) (completes_expression definitions goal around _)
  cases stage with
  | between => exact completes_between definitions position
  | head => exact word .main [⟨"x", []⟩] _ rfl rfl fun _ => Stage.noConfusion
  | defining => exact word (.body "x") [] _ rfl rfl fun _ => Stage.noConfusion
  | calling goal around =>
    exact word goal (⟨"x", []⟩ :: around) _ rfl rfl fun _ => Stage.noConfusion
  | expression goal around => exact completes_expression definitions goal around position
  | closing name body =>
    exact completes_of_run [.closeParen]
      (fun rest => run_cons (fun main => Stage.noConfusion) rfl) (completes_between _ _)
  | done main => exact ⟨[], (main, 0), rfl⟩

/-! ### Causes -/

theorem cause_of_takeLabel (refused : takeLabel goal around position token = .error cause) :
    cause = .expectedIdentifier position := by
  unfold takeLabel at refused
  split at refused
  · cases refused
  · exact (Except.error.inj refused).symm

theorem cause_of_takeName (refused : takeName position token = .error cause) :
    cause = .expectedIdentifier position := by
  unfold takeName at refused
  split at refused
  · cases refused
  · exact (Except.error.inj refused).symm

theorem cause_of_takeExpression
    (refused : takeExpression goal around position token = .error cause) :
    cause = .unexpectedClose position ∨ cause = .nestedTooDeep maxNesting := by
  unfold takeExpression at refused
  split at refused
  · cases refused
  · exact .inl (Except.error.inj refused).symm
  · split at refused
    · exact .inr (Except.error.inj refused).symm
    · split at refused <;> cases refused

/-- A token that would change only the stage is refused for the cause that the stage gives. -/
theorem error_of_stage {computation : Except ParseError Stage}
    (refused : (do return ⟨definitions, ← computation⟩ : Except ParseError Reader) = .error cause) :
    computation = .error cause := by
  cases computation with
  | error other => exact congrArg Except.error (Except.error.inj refused)
  | ok next => cases refused

/-- The cause can be found in a token at the position. -/
inductive Refusal (position : Nat) : ParseError → Prop
  | noWord : Refusal position (.expectedIdentifier position)
  | noExpression : Refusal position (.unexpectedClose position)
  | tooDeep : Refusal position (.nestedTooDeep maxNesting)
  | notClosed (name : String) : Refusal position (.unclosedDefinition name)

/-- Every place that is named in the cause of a refusal is that of the token. -/
theorem refusal_of_take (refused : reader.take position token = .error cause) :
    Refusal position cause := by
  have expression : ∀ goal around, takeExpression goal around position token = .error cause →
      Refusal position cause := by
    intro goal around refused
    rcases cause_of_takeExpression refused with rfl | rfl
    · exact .noExpression
    · exact .tooDeep
  obtain ⟨definitions, stage⟩ := reader
  unfold take at refused
  cases stage with
  | between =>
    simp only at refused
    split at refused
    · cases refused
    · exact expression .main [] (error_of_stage refused)
  | head =>
    simp only at refused
    split at refused
    · cases refused
    · exact cause_of_takeLabel (error_of_stage refused) ▸ .noWord
  | defining => exact cause_of_takeName (error_of_stage refused) ▸ .noWord
  | calling goal around => exact cause_of_takeLabel (error_of_stage refused) ▸ .noWord
  | expression goal around => exact expression goal around (error_of_stage refused)
  | closing name body =>
    simp only at refused
    split at refused
    · cases refused
    · exact Except.error.inj refused ▸ .notClosed name
  | done main => cases refused

end Reader

/-! ### Errors -/

/-- The tokens are the beginning of a list that is read as a program. -/
def Continuable (tokens : List Token) : Prop :=
  ∃ further program, Program.parse (tokens ++ further) = .ok program

/-- The error is found at the end of the tokens. A definition that is not closed may be found there
or at a token behind the body; it is found at the end if all tokens have been taken. -/
def ParseError.AtEnd (tokens : List Token) : ParseError → Prop
  | .unexpectedEnd _ => True
  | .unclosedCall _ => True
  | .unclosedDefinition _ => ∃ last, Reader.Takes .start 0 tokens last
  | _ => False

theorem Reader.Stage.finish_atEnd {stage : Reader.Stage} {tokens : List Token} {last : Reader}
    {cause : ParseError} (takes : Reader.Takes .start 0 tokens last)
    (failed : stage.finish = .error cause) : cause.AtEnd tokens := by
  cases stage with
  | expression goal around =>
    cases around with
    | nil => exact Except.error.inj failed ▸ trivial
    | cons call outer => exact Except.error.inj failed ▸ trivial
  | closing name body => exact Except.error.inj failed ▸ ⟨last, takes⟩
  | done main => cases failed
  | _ => exact Except.error.inj failed ▸ trivial

theorem Reader.Refusal.takes_of_atEnd {position : Nat} {cause : ParseError} {tokens : List Token}
    (refusal : Reader.Refusal position cause) (atEnd : cause.AtEnd tokens) :
    ∃ last, Reader.Takes .start 0 tokens last := by
  cases refusal with
  | notClosed name => exact atEnd
  | _ => exact atEnd.elim

theorem Reader.Refusal.eq_of_named {position place : Nat} {cause : ParseError}
    (refusal : Reader.Refusal place cause)
    (named : cause = .expectedIdentifier position ∨ cause = .unexpectedClose position) :
    position = place := by
  rcases named with rfl | rfl
  · cases refusal
    rfl
  · cases refusal
    rfl

theorem outcome_of_parse {tokens : List Token} {cause : ParseError}
    (failed : Program.parse tokens = .error cause) : (read tokens).outcome = .error cause := by
  rw [Program.parse, Reading.script] at failed
  cases outcome : (read tokens).outcome with
  | error other =>
    rw [outcome] at failed
    exact congrArg Except.error (Except.error.inj failed)
  | ok result =>
    rw [outcome] at failed
    cases failed

/-- Tokens that have all been taken can be continued, since the last state can be completed. -/
theorem continuable_of_takes {tokens : List Token} {last : Reader}
    (takes : Reader.Takes .start 0 tokens last) : Continuable tokens := by
  obtain ⟨further, result, done⟩ := last.completes (0 + tokens.length)
  rw [← takes.run_append] at done
  have outcome : (read (tokens ++ further)).outcome = .ok result := done
  refine ⟨further, Script.program ⟨(read (tokens ++ further)).definitions, result.1⟩, ?_⟩
  rw [Program.parse, Reading.script, outcome]
  rfl

/-- A token that is refused decides the outcome, whatever stands behind it. -/
theorem parse_refused {front : List Token} {last : Reader} {token : Token} {cause : ParseError}
    (takes : Reader.Takes .start 0 front last)
    (refused : last.take (0 + front.length) token = .error cause) (rest : List Token) :
    Program.parse (front ++ token :: rest) = .error cause := by
  rw [Program.parse, read, takes.run_append,
    Reader.run_cons_refused (Reader.unfinished_of_refused refused) refused]
  rfl

/-- What is parsed does not depend on what is written behind it. -/
theorem parse_append {tokens : List Token} {program : Program}
    (parsed : Program.parse tokens = .ok program) (further : List Token) :
    Program.parse (tokens ++ further) = .ok program := by
  obtain ⟨script, front, back, rfl, spelled, shallow, rfl⟩ := exists_script_of_parse parsed
  rw [List.append_assoc]
  exact parse_spelled spelled shallow (back ++ further)

/-- A parse that fails has taken all tokens, and the end gives the error, or it has taken those
before one that is refused. -/
theorem exists_stop {tokens : List Token} {cause : ParseError}
    (failed : Program.parse tokens = .error cause) :
    (∃ last, Reader.Takes .start 0 tokens last ∧ last.stage.finish = .error cause) ∨
      ∃ front token rest last, tokens = front ++ token :: rest ∧
        Reader.Takes .start 0 front last ∧
        last.take (0 + front.length) token = .error cause := by
  rcases Reader.takes_or_stops .start 0 tokens with
    ⟨last, takes⟩ | ⟨front, token, rest, last, rfl, takes, complete | ⟨other, refused⟩⟩
  · have outcome := outcome_of_parse failed
    rw [read, ← List.append_nil tokens, takes.run_append, Reader.run] at outcome
    refine .inl ⟨last, takes, ?_⟩
    cases finished : last.stage.finish with
    | error other =>
      rw [finished] at outcome
      exact congrArg Except.error (Except.error.inj outcome)
    | ok main =>
      rw [finished] at outcome
      cases outcome
  · obtain ⟨main, complete⟩ := complete
    obtain ⟨definitions, stage⟩ := last
    obtain rfl : stage = .done main := complete
    have outcome := outcome_of_parse failed
    rw [read, takes.run_append, Reader.run_done] at outcome
    cases outcome
  · rw [parse_refused takes refused rest] at failed
    exact .inr ⟨front, token, rest, last, rfl, takes, Except.error.inj failed ▸ refused⟩

/-- Errors are found at the first token that is wrong. What is parsed stays the same when more is
written behind it. An error at the end of the tokens means that the program is incomplete: it can be
continued. Every other error stays whatever is written behind the tokens: one of them is the first
after which no program can follow, and it is the one whose place the error names. -/
theorem parse_error_first (tokens : List Token) :
    (∀ program, Program.parse tokens = .ok program →
      ∀ further, Program.parse (tokens ++ further) = .ok program) ∧
    ∀ cause, Program.parse tokens = .error cause →
      (cause.AtEnd tokens → Continuable tokens) ∧
      (¬ cause.AtEnd tokens →
        (∀ further, Program.parse (tokens ++ further) = .error cause) ∧
        ∃ place < tokens.length,
          Continuable (tokens.take place) ∧ ¬ Continuable (tokens.take (place + 1)) ∧
          ∀ position, cause = .expectedIdentifier position ∨ cause = .unexpectedClose position →
            position = place) := by
  refine ⟨fun program parsed => parse_append parsed, fun cause failed => ?_⟩
  rcases exists_stop failed with
    ⟨last, takes, finished⟩ | ⟨front, token, rest, last, rfl, takes, refused⟩
  · exact ⟨fun _ => continuable_of_takes takes,
      fun elsewhere => absurd (Reader.Stage.finish_atEnd takes finished) elsewhere⟩
  · have refusal := Reader.refusal_of_take refused
    rw [Nat.zero_add] at refusal
    refine ⟨fun atEnd => ?_, fun _ => ⟨fun further => ?_, front.length, ?_, ?_, ?_, ?_⟩⟩
    · obtain ⟨whole, takesAll⟩ := refusal.takes_of_atEnd atEnd
      exact continuable_of_takes takesAll
    · rw [List.append_assoc]
      exact parse_refused takes refused (rest ++ further)
    · rw [List.length_append, List.length_cons]
      omega
    · rw [List.take_left]
      exact continuable_of_takes takes
    · rintro ⟨further, program, parsed⟩
      rw [List.take_length_add_append, List.take_succ_cons, List.take_zero, List.append_assoc,
        List.singleton_append, parse_refused takes refused further] at parsed
      cases parsed
    · exact fun position named => refusal.eq_of_named named

/-- A definition whose closing parenthesis is missing. -/
def unclosedTokens : List Token :=
  [.openParen, .identifier defineKeyword, .identifier "a", .identifier "x"]

/-- A call inside a call, without a label. -/
def unlabelledTokens : List Token := [.openParen, .identifier "f", .openParen, .closeParen]

theorem parse_error_first_unlabelled :
    (Program.parse [.number "1"] = .ok ⟨⟨#[.primitive "1" .number]⟩, .empty, 0⟩ ∧
      ∀ further, Program.parse ([.number "1"] ++ further) =
        .ok ⟨⟨#[.primitive "1" .number]⟩, .empty, 0⟩) ∧
    (Program.parse unclosedTokens = .error (.unclosedDefinition "a") ∧
      (ParseError.unclosedDefinition "a").AtEnd unclosedTokens ∧ Continuable unclosedTokens) ∧
    Program.parse unlabelledTokens = .error (.expectedIdentifier 3) ∧
      ¬ (ParseError.expectedIdentifier 3).AtEnd unlabelledTokens ∧
      (∀ further, Program.parse (unlabelledTokens ++ further) = .error (.expectedIdentifier 3)) ∧
      Continuable (unlabelledTokens.take 3) ∧ ¬ Continuable (unlabelledTokens.take (3 + 1)) := by
  have unclosed : (ParseError.unclosedDefinition "a").AtEnd unclosedTokens :=
    ⟨⟨[], .closing "a" (.word .symbol "x")⟩,
      .cons (fun _ => Reader.Stage.noConfusion) rfl (.cons (fun _ => Reader.Stage.noConfusion) rfl
        (.cons (fun _ => Reader.Stage.noConfusion) rfl
          (.cons (fun _ => Reader.Stage.noConfusion) rfl (.nil _ _))))⟩
  obtain ⟨whole, _⟩ := parse_error_first [.number "1"]
  obtain ⟨_, incomplete⟩ := parse_error_first unclosedTokens
  obtain ⟨_, wrong⟩ := parse_error_first unlabelledTokens
  obtain ⟨same, place, _, before, after, named⟩ := (wrong _ rfl).2 id
  obtain rfl := named 3 (.inl rfl)
  exact ⟨⟨rfl, whole _ rfl⟩, ⟨rfl, unclosed, (incomplete _ rfl).1 unclosed⟩, rfl, id, same, before,
    after⟩

end ExprDiagram
