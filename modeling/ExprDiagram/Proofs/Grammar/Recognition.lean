/-
This file shows that the reader accepts sentences of the grammar only. Every state of the reader
stands for the tokens that led to it: the definitions that are complete, the beginning of the form
at hand, the labels and arguments of the calls that are still open. Taking a token keeps the state
in step with what has been read, so that the tokens before the last stage spell the script that the
reader gives. With the acceptance of sentences this settles which tokens are read and how many.
-/

import ExprDiagram.Proofs.Grammar.Acceptance
import ExprDiagram.Program.Scope

namespace ExprDiagram

namespace Reader

/-! ### What a state stands for -/

/-- The tokens begin the form that the goal belongs to, up to its expression. -/
inductive Goal.Begun : Goal → List Token → Prop
  | body {name : Token} {text : String} (isWord : name.word? = some text) :
    Goal.Begun (.body text) [.openParen, .identifier defineKeyword, name]
  | main : Goal.Begun .main []

/-- The tokens open the calls, which are listed from the inside out, and spell the arguments that
are complete. The calls leave room for what has been read in them. The outermost call of a program
does not begin the way a definition does. -/
inductive Goal.Opened (goal : Goal) : List OpenCall → List Token → Prop
  | nil : Goal.Opened goal [] []
  | cons {outer : List OpenCall} {before tokens : List Token} {label : Token} {text : String}
    {arguments : List Form} (around : Goal.Opened goal outer before)
    (isWord : label.word? = some text) (spelled : Form.SpelledAll arguments.reverse tokens)
    (room : goal.level + outer.length + Form.heightAll arguments.reverse ≤ maxNesting)
    (noKeyword : goal = .main → outer = [] → label ≠ .identifier defineKeyword) :
    Goal.Opened goal (⟨text, arguments⟩ :: outer) (before ++ .openParen :: label :: tokens)

/-- The tokens lead from between two forms to the stage. The expression of the program passes
through the common stages only when one of its calls is open. -/
inductive Stage.Reached : Stage → List Token → Prop
  | between : Stage.Reached .between []
  | head : Stage.Reached .head [.openParen]
  | defining : Stage.Reached .defining [.openParen, .identifier defineKeyword]
  | calling {goal : Goal} {around : List OpenCall} {front back : List Token}
    (begun : goal.Begun front) (opened : goal.Opened around back)
    (room : goal.level + around.length ≤ maxNesting) (inner : goal = .main → around ≠ []) :
    Stage.Reached (.calling goal around) (front ++ back ++ [.openParen])
  | expression {goal : Goal} {around : List OpenCall} {front back : List Token}
    (begun : goal.Begun front) (opened : goal.Opened around back)
    (inner : goal = .main → around ≠ []) :
    Stage.Reached (.expression goal around) (front ++ back)
  | closing {name : String} {body : Form} {front back : List Token}
    (begun : Goal.Begun (.body name) front) (spelled : body.Spelled back)
    (shallow : body.height ≤ maxNesting - 1) : Stage.Reached (.closing name body) (front ++ back)
  | done {main : Form} {tokens : List Token} (spelled : main.Spelled tokens)
    (noDefinition : ¬ BeginsDefinition tokens) (shallow : main.height ≤ maxNesting) :
    Stage.Reached (.done main) tokens

/-- The tokens lead from the start of a program to the state. -/
inductive Reached : Reader → List Token → Prop
  | intro {definitions : List Definition} {stage : Stage} {front back : List Token}
    (defined : Definition.SpelledAll definitions front)
    (shallow : ∀ definition ∈ definitions, definition.body.height ≤ maxNesting - 1)
    (reached : stage.Reached back) : Reached ⟨definitions, stage⟩ (front ++ back)

theorem reached_start : Reached start [] :=
  .intro .nil (fun _ member => absurd member List.not_mem_nil) .between

/-! ### Steps -/

variable {goal : Goal} {around : List OpenCall} {front back tokens : List Token}

theorem not_beginsDefinition_singleton (token : Token) : ¬ BeginsDefinition [token] := by
  intro begins
  have long := begins.length_le
  simp only [List.length_cons, List.length_nil] at long
  omega

/-- Delivering a form keeps the stage in step with the tokens. -/
theorem Stage.reached_deliver {form : Form} (begun : goal.Begun front)
    (opened : goal.Opened around back) (spelled : form.Spelled tokens)
    (room : goal.level + around.length + form.height ≤ maxNesting)
    (noDefinition : goal = .main → around = [] → ¬ BeginsDefinition tokens) :
    Stage.Reached (.deliver goal around form) (front ++ back ++ tokens) := by
  cases opened with
  | nil =>
    rw [List.append_nil]
    cases begun with
    | body isWord =>
      refine .closing (.body isWord) spelled ?_
      simp only [Goal.level, List.length_nil, maxNesting] at room ⊢
      omega
    | main =>
      refine .done spelled (noDefinition rfl rfl) ?_
      simpa only [Goal.level, List.length_nil, Nat.zero_add] using room
  | @cons outer before inside label text arguments around isWord spelledAll roomAll noKeyword =>
    have longer : Goal.Opened goal (⟨text, form :: arguments⟩ :: outer)
        (before ++ .openParen :: label :: (inside ++ tokens)) := by
      refine .cons around isWord ?_ ?_ noKeyword
      · rw [List.reverse_cons]
        exact spelledAll.append (.singleton spelled)
      · rw [List.reverse_cons, Form.heightAll_append, Form.heightAll_singleton]
        rw [List.length_cons] at room
        omega
    have reached := Stage.Reached.expression begun longer fun _ => List.cons_ne_nil _ _
    simpa only [Stage.deliver, List.append_assoc, List.cons_append] using reached

/-- Taking a token where an expression may begin keeps the stage in step with the tokens. -/
theorem reached_takeExpression {position : Nat} {token : Token} {next : Stage}
    (begun : goal.Begun front) (opened : goal.Opened around back)
    (inner : goal = .main → around = [] → token ≠ .openParen)
    (taken : takeExpression goal around position token = .ok next) :
    next.Reached (front ++ back ++ [token]) := by
  by_cases closing : token = .closeParen
  · subst closing
    cases opened with
    | nil => cases taken
    | @cons outer before inside label text arguments around isWord spelledAll roomAll noKeyword =>
      rw [takeExpression, Except.ok.injEq] at taken
      rw [← taken]
      have delivered := Stage.reached_deliver begun around (.call isWord spelledAll)
        (by rw [Form.height_call]; exact roomAll) fun isMain outermost begins => by
          obtain ⟨rest, same⟩ := begins
          injection same with _ same
          injection same with same _
          exact noKeyword isMain outermost same.symm
      simpa only [List.append_assoc, List.cons_append] using delivered
  · by_cases room : goal.level + around.length ≤ maxNesting
    · rw [takeExpression_begin token closing room] at taken
      split at taken
      · rename_i text isWord
        rw [← Except.ok.inj taken]
        refine Stage.reached_deliver begun opened (.word isWord) ?_
          fun _ _ => not_beginsDefinition_singleton token
        rwa [Form.height_word, Nat.add_zero]
      · rename_i noWord
        have opening : token = .openParen := by
          cases token with
          | openParen => rfl
          | closeParen => exact absurd rfl closing
          | identifier text => cases noWord
          | number text => cases noWord
        subst opening
        rw [← Except.ok.inj taken]
        exact .calling begun opened room fun isMain empty => inner isMain empty rfl
    · unfold takeExpression at taken
      split at taken
      · exact absurd rfl closing
      · exact absurd rfl closing
      · rw [if_pos (Nat.lt_of_not_le room)] at taken
        cases taken

theorem reached_takeLabel {position : Nat} {token : Token} {next : Stage}
    (begun : goal.Begun front) (opened : goal.Opened around back)
    (room : goal.level + around.length ≤ maxNesting)
    (noKeyword : goal = .main → around = [] → token ≠ .identifier defineKeyword)
    (taken : takeLabel goal around position token = .ok next) :
    next.Reached (front ++ back ++ [.openParen, token]) := by
  unfold takeLabel at taken
  split at taken
  · rename_i label isWord
    rw [← Except.ok.inj taken, List.append_assoc]
    refine .expression begun (.cons opened isWord .nil ?_ noKeyword) fun _ => List.cons_ne_nil _ _
    simpa only [List.reverse_nil, Form.heightAll, Nat.add_zero] using room
  · cases taken

theorem reached_takeName {position : Nat} {token : Token} {next : Stage}
    (taken : takeName position token = .ok next) :
    next.Reached [.openParen, .identifier defineKeyword, token] := by
  unfold takeName at taken
  split at taken
  · rename_i name isWord
    rw [← Except.ok.inj taken]
    have reached := Stage.Reached.expression (.body isWord) .nil Goal.noConfusion
    rwa [List.append_nil] at reached
  · cases taken

/-- The closing parenthesis of a definition completes it. -/
theorem reached_closed {definitions : List Definition} {name : String} {body : Form}
    (defined : Definition.SpelledAll definitions tokens)
    (shallow : ∀ definition ∈ definitions, definition.body.height ≤ maxNesting - 1)
    (begun : Goal.Begun (.body name) front) (spelled : body.Spelled back)
    (bodyShallow : body.height ≤ maxNesting - 1) :
    Reached ⟨definitions ++ [⟨name, body⟩], .between⟩ (tokens ++ (front ++ back ++ [.closeParen])) := by
  cases begun with
  | body isWord =>
    have longer := defined.append (.singleton (.intro isWord spelled))
    have shallowAll : ∀ definition ∈ definitions ++ [⟨name, body⟩],
        definition.body.height ≤ maxNesting - 1 := by
      intro definition member
      rcases List.mem_append.mp member with before | last
      · exact shallow definition before
      · rw [List.mem_singleton.mp last]
        exact bodyShallow
    have reached := Reached.intro longer shallowAll .between
    simpa only [List.append_assoc, List.append_nil, List.cons_append, List.nil_append] using reached

/-- A token that changes only the stage leads to a stage with the same definitions. -/
theorem ok_of_stage {definitions : List Definition} {computation : Except ParseError Stage}
    {next : Reader}
    (done : (do return ⟨definitions, ← computation⟩ : Except ParseError Reader) = .ok next) :
    ∃ stage, computation = .ok stage ∧ next = ⟨definitions, stage⟩ := by
  cases computation with
  | error cause => cases done
  | ok stage => exact ⟨stage, rfl, (Except.ok.inj done).symm⟩

/-- Taking a token keeps the state in step with the tokens. -/
theorem reached_take {reader next : Reader} {consumed : List Token} {position : Nat} {token : Token}
    (reached : reader.Reached consumed) (unfinished : ∀ main, reader.stage ≠ .done main)
    (taken : reader.take position token = .ok next) : next.Reached (consumed ++ [token]) := by
  cases reached with
  | @intro definitions stage front back defined shallow reached =>
    rw [List.append_assoc]
    cases reached with
    | between =>
      simp only [take] at taken
      split at taken
      · rename_i opening
        rw [← Except.ok.inj taken, opening]
        exact .intro defined shallow .head
      · rename_i opening
        obtain ⟨stage, advanced, rfl⟩ := ok_of_stage taken
        exact .intro defined shallow
          (reached_takeExpression .main .nil (fun _ _ => opening) advanced)
    | head =>
      simp only [take] at taken
      split at taken
      · rename_i keyword
        rw [← Except.ok.inj taken, keyword]
        exact .intro defined shallow .defining
      · rename_i keyword
        obtain ⟨stage, advanced, rfl⟩ := ok_of_stage taken
        exact .intro defined shallow
          (reached_takeLabel .main .nil (Nat.zero_le _) (fun _ _ => keyword) advanced)
    | defining =>
      simp only [take] at taken
      obtain ⟨stage, advanced, rfl⟩ := ok_of_stage taken
      exact .intro defined shallow (reached_takeName advanced)
    | @calling goal around before inside begun opened room inner =>
      simp only [take] at taken
      obtain ⟨stage, advanced, rfl⟩ := ok_of_stage taken
      refine .intro defined shallow ?_
      have labelled := reached_takeLabel begun opened room
        (fun isMain empty => absurd empty (inner isMain)) advanced
      simpa only [List.append_assoc, List.cons_append, List.nil_append] using labelled
    | expression begun opened inner =>
      simp only [take] at taken
      obtain ⟨stage, advanced, rfl⟩ := ok_of_stage taken
      exact .intro defined shallow
        (reached_takeExpression begun opened (fun isMain empty => absurd empty (inner isMain)) advanced)
    | @closing name body before inside begun spelled bodyShallow =>
      simp only [take] at taken
      split at taken
      · rename_i closing
        rw [← Except.ok.inj taken, closing]
        exact reached_closed defined shallow begun spelled bodyShallow
      · cases taken
    | done => exact absurd rfl (unfinished _)

/-! ### Runs -/

/-- When the tokens may end at a stage, they spell the expression of the program. -/
theorem Stage.Reached.finish {stage : Stage} {tokens : List Token} {main : Form}
    (reached : stage.Reached tokens) (finished : stage.finish = .ok main) :
    stage = .done main := by
  cases reached with
  | expression begun opened inner =>
    cases opened with
    | nil => cases finished
    | cons => cases finished
  | done =>
    rw [Stage.finish, Except.ok.injEq] at finished
    rw [finished]
  | _ => cases finished

/-- A state at the last stage stands for a sentence. -/
theorem Reached.sentence {definitions : List Definition} {main : Form} {consumed : List Token}
    (reached : Reached ⟨definitions, .done main⟩ consumed) : Sentence consumed := by
  cases reached with
  | intro defined shallow reached =>
    cases reached with
    | done spelled noDefinition mainShallow =>
      exact ⟨_, .intro defined spelled noDefinition, mainShallow, shallow⟩

/-- Where a run gives a program, what has been read before it and in it is a sentence, and the run
tells how many tokens follow. -/
theorem Reached.run {reader : Reader} {consumed : List Token} (reached : reader.Reached consumed)
    {position : Nat} {tokens : List Token} {main : Form} {trailing : Nat}
    (done : (reader.run position tokens).outcome = .ok (main, trailing)) :
    ∃ front back, tokens = front ++ back ∧ back.length = trailing ∧ Sentence (consumed ++ front) := by
  obtain ⟨definitions, stage⟩ := reader
  induction tokens generalizing definitions stage consumed position with
  | nil =>
    have finished : stage.finish.map (fun main => (main, 0)) = .ok (main, trailing) := done
    cases finish : stage.finish with
    | error cause =>
      rw [finish] at finished
      cases finished
    | ok form =>
      have last : stage = .done form := by
        cases reached with
        | intro defined shallow reached => exact reached.finish finish
      subst last
      rw [finish] at finished
      cases finished
      refine ⟨[], [], rfl, rfl, ?_⟩
      rw [List.append_nil]
      exact reached.sentence
  | cons token rest inductionHypothesis =>
    by_cases last : ∃ form, stage = .done form
    · obtain ⟨form, rfl⟩ := last
      rw [run_done] at done
      cases done
      refine ⟨[], token :: rest, rfl, rfl, ?_⟩
      rw [List.append_nil]
      exact reached.sentence
    · have unfinished : ∀ form, stage ≠ .done form := fun form same => last ⟨form, same⟩
      cases taken : take ⟨definitions, stage⟩ position token with
      | error cause =>
        rw [run_cons_refused unfinished taken] at done
        cases done
      | ok next =>
        rw [run_cons unfinished taken] at done
        obtain ⟨front, back, rfl, length, sentence⟩ :=
          inductionHypothesis next.definitions next.stage (reached_take reached unfinished taken) done
        refine ⟨token :: front, back, rfl, length, ?_⟩
        rwa [List.append_assoc] at sentence

end Reader

/-! ### Sentences -/

/-- A run that gives a program has read a sentence. -/
theorem sentence_of_read {tokens : List Token} {main : Form} {trailing : Nat}
    (done : (read tokens).outcome = .ok (main, trailing)) :
    ∃ front back, tokens = front ++ back ∧ back.length = trailing ∧ Sentence front :=
  Reader.Reached.run Reader.reached_start done

/-- A sentence is parsed as the program of the script that it spells. -/
theorem parse_spelled {script : Script} {tokens : List Token} (spelled : script.Spelled tokens)
    (shallow : script.Shallow) (further : List Token) :
    Program.parse (tokens ++ further) = .ok script.program := by
  rw [Program.parse, Reading.script, read_spelled spelled shallow]
  rfl

/-- Every program that is parsed is that of a script which the tokens begin to spell. -/
theorem exists_script_of_parse {tokens : List Token} {program : Program}
    (parsed : Program.parse tokens = .ok program) :
    ∃ (script : Script) (front back : List Token), tokens = front ++ back ∧
      script.Spelled front ∧ script.Shallow ∧ program = script.program := by
  cases outcome : (read tokens).outcome with
  | error cause =>
    rw [Program.parse, Reading.script, outcome] at parsed
    cases parsed
  | ok result =>
    obtain ⟨front, back, rfl, _, script, spelled, shallow⟩ := sentence_of_read outcome
    rw [parse_spelled spelled shallow] at parsed
    exact ⟨script, front, back, rfl, spelled, shallow, (Except.ok.inj parsed).symm⟩

/-- The tokens that were read, if they are a program; what follows them is left alone. -/
def consumed? (tokens : List Token) : Option (List Token) :=
  match (read tokens).outcome with
  | .ok (_, trailing) => some (tokens.take (tokens.length - trailing))
  | .error _ => none

theorem consumed?_eq_some_iff (tokens front : List Token) :
    consumed? tokens = some front ↔ front <+: tokens ∧ Sentence front := by
  constructor
  · intro consumed
    unfold consumed? at consumed
    split at consumed
    · rename_i main trailing done
      obtain ⟨first, back, rfl, rfl, sentence⟩ := sentence_of_read done
      rw [List.length_append, Nat.add_sub_cancel, List.take_left] at consumed
      rw [← Option.some.inj consumed]
      exact ⟨List.prefix_append first back, sentence⟩
    · cases consumed
  · rintro ⟨⟨back, rfl⟩, script, spelled, shallow⟩
    unfold consumed?
    rw [read_spelled spelled shallow]
    simp only
    rw [List.length_append, Nat.add_sub_cancel, List.take_left]

/-- A list of tokens is read exactly when it begins with a sentence of the grammar, and what is
read is that sentence; so no two sentences begin the same list. -/
theorem parse_iff_sentence (tokens : List Token) :
    ((∃ program, Program.parse tokens = .ok program) ↔
      ∃ front, front <+: tokens ∧ Sentence front) ∧
    ∀ front, (front <+: tokens ∧ Sentence front) ↔ consumed? tokens = some front := by
  refine ⟨?_, fun front => (consumed?_eq_some_iff tokens front).symm⟩
  have consumed : (∃ program, Program.parse tokens = .ok program) ↔
      ∃ front, consumed? tokens = some front := by
    unfold Program.parse consumed? Reading.script
    cases (read tokens).outcome with
    | error cause => simp [Except.map]
    | ok result => simp [Except.map]
  rw [consumed]
  exact exists_congr fun front => consumed?_eq_some_iff tokens front

end ExprDiagram
