/-
This file shows that the reader accepts every sentence of the grammar. Where an expression may
begin, reading the spelling of a form brings the reader to the stage that delivers the form, whatever
stands around it and whatever follows; the claim for a whole sentence is put together from its
definitions and its expression. The height of the form is what the bound on nesting has to leave
room for.
-/

import ExprDiagram.Proofs.Grammar.Spelling

namespace ExprDiagram

namespace Reader

variable {definitions : List Definition} {goal : Goal} {around : List OpenCall} {position : Nat}
  {rest : List Token}

/-! ### Single steps -/

/-- A stage other than the last one hands the next token to `take`. -/
theorem run_cons {reader next : Reader} {token : Token}
    (unfinished : ∀ main, reader.stage ≠ .done main)
    (taken : reader.take position token = .ok next) :
    reader.run position (token :: rest) = next.run (position + 1) rest := by
  rw [Reader.run]
  split
  · rename_i main finished
    exact absurd finished (unfinished main)
  · rw [taken]

/-- A refused token ends the run. -/
theorem run_cons_refused {reader : Reader} {token : Token} {cause : ParseError}
    (unfinished : ∀ main, reader.stage ≠ .done main)
    (refused : reader.take position token = .error cause) :
    reader.run position (token :: rest) = ⟨reader.definitions, .error cause⟩ := by
  rw [Reader.run]
  split
  · rename_i main finished
    exact absurd finished (unfinished main)
  · rw [refused]

/-- The last stage leaves all tokens alone. -/
theorem run_done (main : Form) :
    Reader.run ⟨definitions, .done main⟩ position rest =
      ⟨definitions, .ok (main, rest.length)⟩ := by
  cases rest with
  | nil => rfl
  | cons token rest => rfl

theorem word?_ne_closeParen {token : Token} {text : String} (isWord : token.word? = some text) :
    token ≠ .closeParen := by
  rintro rfl
  cases isWord

/-- Every token but a closing parenthesis begins an expression, if there is room. -/
theorem takeExpression_opening (token : Token) (opening : token ≠ .closeParen) :
    takeExpression goal around position token =
      if maxNesting < goal.level + around.length then .error (.nestedTooDeep maxNesting)
      else
        match token.word? with
        | some text => .ok (.deliver goal around (.word token.kind text))
        | none => .ok (.calling goal around) := by
  unfold takeExpression
  split
  · exact absurd rfl opening
  · exact absurd rfl opening
  · rfl

/-- Where there is room, every token but a closing parenthesis begins an expression. -/
theorem takeExpression_begin (token : Token) (opening : token ≠ .closeParen)
    (room : goal.level + around.length ≤ maxNesting) :
    takeExpression goal around position token =
      match token.word? with
      | some text => .ok (.deliver goal around (.word token.kind text))
      | none => .ok (.calling goal around) := by
  rw [takeExpression_opening token opening, if_neg (Nat.not_lt.mpr room)]

theorem run_word {token : Token} {text : String} (isWord : token.word? = some text)
    (room : goal.level + around.length ≤ maxNesting) :
    Reader.run ⟨definitions, .expression goal around⟩ position (token :: rest) =
      Reader.run ⟨definitions, .deliver goal around (.word token.kind text)⟩ (position + 1) rest := by
  refine run_cons (fun main => Stage.noConfusion) ?_
  simp only [take, takeExpression_begin token (word?_ne_closeParen isWord) room, isWord]
  rfl

theorem run_open {label : Token} {text : String} (isWord : label.word? = some text)
    (room : goal.level + around.length ≤ maxNesting) :
    Reader.run ⟨definitions, .expression goal around⟩ position (.openParen :: label :: rest) =
      Reader.run ⟨definitions, .expression goal (⟨text, []⟩ :: around)⟩ (position + 2) rest := by
  have opened : Reader.run ⟨definitions, .expression goal around⟩ position
      (.openParen :: label :: rest) =
        Reader.run ⟨definitions, .calling goal around⟩ (position + 1) (label :: rest) := by
    refine run_cons (fun main => Stage.noConfusion) ?_
    simp only [take, takeExpression_begin .openParen Token.noConfusion room]
    rfl
  rw [opened]
  refine run_cons (fun main => Stage.noConfusion) ?_
  simp only [take, takeLabel, isWord]
  rfl

theorem run_close (call : OpenCall) :
    Reader.run ⟨definitions, .expression goal (call :: around)⟩ position (.closeParen :: rest) =
      Reader.run ⟨definitions, .deliver goal around (.call call.label call.arguments.reverse)⟩
        (position + 1) rest := by
  exact run_cons (fun main => Stage.noConfusion) rfl

/-! ### Forms -/

mutual
/-- Reading the spelling of a form delivers the form. -/
theorem run_spelled {form : Form} {tokens : List Token} (spelled : form.Spelled tokens)
    (around : List OpenCall) (position : Nat) (rest : List Token)
    (room : goal.level + around.length + form.height ≤ maxNesting) :
    Reader.run ⟨definitions, .expression goal around⟩ position (tokens ++ rest) =
      Reader.run ⟨definitions, .deliver goal around form⟩ (position + tokens.length) rest := by
  cases spelled with
  | word isWord => exact run_word isWord (by omega)
  | @call label text arguments tokens isWord spelled =>
    rw [Form.height_call] at room
    rw [List.cons_append, List.cons_append, run_open isWord (by omega), List.append_assoc,
      run_spelledAll spelled around text [] (position + 2) _ room, List.append_nil,
      List.singleton_append, run_close, List.reverse_reverse]
    congr 1
    simp only [List.length_cons, List.length_append, List.length_nil]
    omega

/-- Reading the spellings of forms inside a call adds the forms to its arguments. -/
theorem run_spelledAll {forms : List Form} {tokens : List Token}
    (spelled : Form.SpelledAll forms tokens) (outer : List OpenCall) (label : String)
    (before : List Form) (position : Nat) (rest : List Token)
    (room : goal.level + outer.length + Form.heightAll forms ≤ maxNesting) :
    Reader.run ⟨definitions, .expression goal (⟨label, before⟩ :: outer)⟩ position (tokens ++ rest) =
      Reader.run ⟨definitions, .expression goal (⟨label, forms.reverse ++ before⟩ :: outer)⟩
        (position + tokens.length) rest := by
  cases spelled with
  | nil => rfl
  | @cons form forms first others head tail =>
    rw [Form.heightAll] at room
    rw [List.append_assoc,
      run_spelled head (⟨label, before⟩ :: outer) position _ (by rw [List.length_cons]; omega),
      Stage.deliver, run_spelledAll tail outer label (form :: before) _ rest (by omega),
      List.reverse_cons, List.append_assoc, List.singleton_append, List.length_append,
      Nat.add_assoc]
end

/-! ### Scripts -/

/-- Reading the spelling of a definition between forms completes the definition. -/
theorem run_definition {definition : Definition} {tokens : List Token}
    (spelled : definition.Spelled tokens) (shallow : definition.body.height ≤ maxNesting - 1)
    (position : Nat) (rest : List Token) :
    Reader.run ⟨definitions, .between⟩ position (tokens ++ rest) =
      Reader.run ⟨definitions ++ [definition], .between⟩ (position + tokens.length) rest := by
  cases spelled with
  | @intro name text body tokens isWord spelled =>
    have named : ∀ tail, Reader.run ⟨definitions, .between⟩ position
        (.openParen :: .identifier defineKeyword :: name :: tail) =
          Reader.run ⟨definitions, .expression (.body text) []⟩ (position + 3) tail := by
      intro tail
      rw [run_cons (fun main => Stage.noConfusion) rfl, run_cons (fun main => Stage.noConfusion) rfl]
      refine run_cons (fun main => Stage.noConfusion) ?_
      simp only [take, takeName, isWord]
      rfl
    have closed : ∀ position, Reader.run ⟨definitions, .closing text body⟩ position
        (.closeParen :: rest) =
          Reader.run ⟨definitions ++ [⟨text, body⟩], .between⟩ (position + 1) rest := by
      intro position
      exact run_cons (fun main => Stage.noConfusion) rfl
    have room : (Goal.body text).level + ([] : List OpenCall).length + body.height ≤ maxNesting := by
      simp only [Goal.level, List.length_nil, maxNesting] at shallow ⊢
      omega
    simp only [List.cons_append, List.append_assoc, List.nil_append]
    rw [named, run_spelled spelled [] _ _ room, Stage.deliver, closed]
    congr 1
    simp only [List.length_cons, List.length_append, List.length_nil]
    omega

theorem run_definitions {defined : List Definition} {tokens : List Token}
    (spelled : Definition.SpelledAll defined tokens)
    (shallow : ∀ definition ∈ defined, definition.body.height ≤ maxNesting - 1)
    (position : Nat) (rest : List Token) :
    Reader.run ⟨definitions, .between⟩ position (tokens ++ rest) =
      Reader.run ⟨definitions ++ defined, .between⟩ (position + tokens.length) rest := by
  induction spelled generalizing definitions position with
  | nil => rw [List.append_nil, List.length_nil, Nat.add_zero, List.nil_append]
  | @cons definition defined first others head _ inductionHypothesis =>
    rw [List.append_assoc, run_definition head (shallow _ List.mem_cons_self),
      inductionHypothesis fun other member => shallow other (List.mem_cons_of_mem _ member)]
    rw [List.append_assoc, List.singleton_append, List.length_append, Nat.add_assoc]

/-- Between forms, the expression of the program is read as any expression is, unless it begins the
way a definition does. -/
theorem run_between {form : Form} {tokens : List Token} (spelled : form.Spelled tokens)
    (noDefinition : ¬ BeginsDefinition tokens) (position : Nat) (rest : List Token) :
    Reader.run ⟨definitions, .between⟩ position (tokens ++ rest) =
      Reader.run ⟨definitions, .expression .main []⟩ position (tokens ++ rest) := by
  have room : Goal.main.level + ([] : List OpenCall).length ≤ maxNesting := Nat.zero_le _
  cases spelled with
  | @word token text isWord =>
    have opening : token ≠ .openParen := by
      rintro rfl
      cases isWord
    rw [List.singleton_append, run_word isWord room]
    refine run_cons (fun main => Stage.noConfusion) ?_
    simp only [take, if_neg opening,
      takeExpression_begin token (word?_ne_closeParen isWord) room, isWord]
    rfl
  | @call label text arguments tokens isWord spelled =>
    have keyword : label ≠ .identifier defineKeyword := by
      rintro rfl
      exact noDefinition ⟨tokens ++ [.closeParen], rfl⟩
    rw [List.cons_append, List.cons_append, run_open isWord room,
      run_cons (fun main => Stage.noConfusion) rfl]
    refine run_cons (fun main => Stage.noConfusion) ?_
    simp only [take, if_neg keyword, takeLabel, isWord]
    rfl

end Reader

/-- A sentence is read as the script that it spells, and what follows it is left alone. -/
theorem read_spelled {script : Script} {tokens : List Token} (spelled : script.Spelled tokens)
    (shallow : script.Shallow) (further : List Token) :
    read (tokens ++ further) = ⟨script.definitions, .ok (script.main, further.length)⟩ := by
  cases spelled with
  | @intro definitions main front back defined spelled noDefinition =>
    have room : Reader.Goal.main.level + ([] : List Reader.OpenCall).length + main.height ≤
        maxNesting := by
      simpa only [Reader.Goal.level, List.length_nil, Nat.zero_add] using shallow.main
    rw [read, Reader.start, List.append_assoc, Reader.run_definitions defined shallow.bodies,
      Reader.run_between spelled noDefinition, Reader.run_spelled spelled [] _ _ room,
      Reader.Stage.deliver, Reader.run_done, List.nil_append]

end ExprDiagram
