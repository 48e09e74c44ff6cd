/-
This file shows that a script with other words stands for the program with other words. A word is
compared with the names that are defined, and the name of a definition with those before it; both
comparisons come out the same when different words are replaced by different ones. So every form is
stored under the number that it had, and the same names are taken.
-/

import ExprDiagram.Proofs.Diagram.Renaming
import ExprDiagram.Proofs.Grammar.Relabelling

namespace ExprDiagram

variable {labels : String → String}

/-! ### Replacing words -/

/-- The arena with other labels. -/
def Arena.relabel (labels : String → String) (arena : Arena) : Arena :=
  ⟨arena.exprs.map (Expr.relabel labels)⟩

/-- The bindings with other names. -/
def Bindings.relabel (labels : String → String) (bindings : Bindings) : Bindings :=
  ⟨bindings.entries.map (Prod.map labels id)⟩

/-- The scope with other words. -/
def Scope.relabel (labels : String → String) (scope : Scope) : Scope :=
  ⟨scope.arena.relabel labels, scope.bindings.relabel labels, scope.ignored.map labels⟩

/-- The program with other words. Its numbers stay. -/
def Program.relabel (labels : String → String) (program : Program) : Program :=
  ⟨program.arena.relabel labels, program.bindings.relabel labels, program.root⟩

/-! ### Storing -/

theorem Arena.get?_relabel (labels : String → String) (arena : Arena) (id : ExprId) :
    (arena.relabel labels).get? id = (arena.get? id).map (Expr.relabel labels) :=
  Array.getElem?_map

theorem Arena.alloc_relabel (labels : String → String) (arena : Arena) (expr : Expr) :
    (arena.relabel labels).alloc (expr.relabel labels) =
      ((arena.alloc expr).1, (arena.alloc expr).2.relabel labels) := by
  rw [alloc, alloc, relabel, relabel, Array.map_push, size, Array.size_map]
  rfl

theorem Bindings.lookup?_relabel (injective : Function.Injective labels) (bindings : Bindings)
    (name : String) :
    (bindings.relabel labels).lookup? (labels name) = bindings.lookup? name :=
  lookup_map_key injective.injOn (fun item _ => Set.mem_univ item.1) (Set.mem_univ name)

theorem Bindings.bind?_relabel (injective : Function.Injective labels) (bindings : Bindings)
    (name : String) (variableId : ExprId) :
    (bindings.relabel labels).bind? (labels name) variableId =
      (bindings.bind? name variableId).map (Bindings.relabel labels) := by
  rw [bind?, bind?, lookup?_relabel injective]
  split
  · rfl
  · have entries : (bindings.entries ++ [(name, variableId)]).map (Prod.map labels id) =
        bindings.entries.map (Prod.map labels id) ++ [(labels name, variableId)] := List.map_append
    exact congrArg (fun entries => some (Bindings.mk entries)) entries.symm

mutual
/-- A form with other words is stored under the number that it had. -/
theorem Form.store_relabel (injective : Function.Injective labels) (bindings : Bindings)
    (arena : Arena) (form : Form) :
    (form.relabel labels).store (bindings.relabel labels) (arena.relabel labels) =
      ((form.store bindings arena).1, (form.store bindings arena).2.relabel labels) := by
  cases form with
  | word kind text =>
    rw [relabel, store, store, Bindings.lookup?_relabel injective]
    cases bindings.lookup? text with
    | some variableId => rfl
    | none => exact arena.alloc_relabel labels (.primitive text kind)
  | call label arguments =>
    rw [relabel, store, store, storeAll_relabel injective bindings arena arguments]
    exact Arena.alloc_relabel labels _ (.call label _)
termination_by structural form

/-- Forms with other words are stored under the numbers that they had. -/
theorem Form.storeAll_relabel (injective : Function.Injective labels) (bindings : Bindings)
    (arena : Arena) (forms : List Form) :
    Form.storeAll (bindings.relabel labels) (arena.relabel labels) (Form.relabelAll labels forms) =
      ((Form.storeAll bindings arena forms).1,
        (Form.storeAll bindings arena forms).2.relabel labels) := by
  cases forms with
  | nil => rfl
  | cons form rest =>
    simp only [relabelAll, storeAll, store_relabel injective bindings arena form,
      storeAll_relabel injective bindings (form.store bindings arena).2 rest]
termination_by structural forms
end

/-! ### Definitions -/

/-- A definition with another name is ignored just when the definition is. -/
theorem Scope.define_relabel (injective : Function.Injective labels) (scope : Scope)
    (definition : Definition) :
    (scope.relabel labels).define (definition.relabel labels) =
      (scope.define definition).relabel labels := by
  have extended := Arena.alloc_relabel labels (definition.body.store scope.bindings scope.arena).2
    (.var definition.name (definition.body.store scope.bindings scope.arena).1)
  rw [Expr.relabel] at extended
  simp only [define, relabel, Definition.relabel, Form.store_relabel injective, extended,
    Bindings.bind?_relabel injective]
  cases scope.bindings.bind? definition.name _ with
  | some bindings => rfl
  | none =>
    have ignored : (scope.ignored ++ [definition.name]).map labels =
        scope.ignored.map labels ++ [labels definition.name] := List.map_append
    exact congrArg (Scope.mk _ _) ignored.symm

theorem Scope.ofDefinitions_relabel (injective : Function.Injective labels)
    (definitions : List Definition) :
    Scope.ofDefinitions (definitions.map (Definition.relabel labels)) =
      (Scope.ofDefinitions definitions).relabel labels := by
  have empty : Scope.empty.relabel labels = Scope.empty :=
    congrArg (Scope.mk · .empty []) (congrArg Arena.mk Array.map_empty)
  have run : ∀ scope : Scope,
      (definitions.map (Definition.relabel labels)).foldl Scope.define (scope.relabel labels) =
        (definitions.foldl Scope.define scope).relabel labels := by
    induction definitions with
    | nil => exact fun scope => rfl
    | cons definition rest inductionHypothesis =>
      intro scope
      rw [List.map_cons, List.foldl_cons, List.foldl_cons, define_relabel injective,
        inductionHypothesis]
  rw [ofDefinitions, ← empty, run]
  rfl

/-- A script with other words stands for the program with other words. -/
theorem Script.program_relabel (injective : Function.Injective labels) (script : Script) :
    (script.relabel labels).program = script.program.relabel labels := by
  rw [program, relabel, Scope.ofDefinitions_relabel injective]
  simp only [Scope.program, Scope.relabel, Form.store_relabel injective]
  rfl

/-- Parsing tokens with other words gives what parsing the tokens gives, with other words. -/
theorem Program.parse_relabel (injective : Function.Injective labels)
    (keyword : labels defineKeyword = defineKeyword) (tokens : List Token) :
    Program.parse (tokens.map (Token.relabel labels)) =
      ((Program.parse tokens).map (Program.relabel labels)).mapError
        (ParseError.relabel labels) := by
  rw [parse, read_relabel injective keyword, Reading.script_relabel, parse]
  cases (read tokens).script with
  | error cause => rfl
  | ok script => exact congrArg Except.ok (script.program_relabel injective)

end ExprDiagram
