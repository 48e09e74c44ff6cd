/-
This file says how a program that was read is stored. Its expressions stand in an order in which
each comes after those below it, so that none leads back to itself. Only the variable of a defined
name is used at several places; a call or a word that stands for itself has one place at most, be it
the root, an argument or the body of a definition. The names are bound to the variables one to one.
A body whose name was taken is stored too, without a place.
-/

import ExprDiagram.Proofs.Meaning.Usage

namespace ExprDiagram

/-! ### Bindings -/

theorem Bindings.mem_of_lookup? {bindings : Bindings} {name : String} {id : ExprId}
    (bound : bindings.lookup? name = some id) : (name, id) ∈ bindings.entries := by
  obtain ⟨before, after, split, _⟩ := List.lookup_eq_some_iff.mp bound
  rw [split]
  exact List.mem_append_right _ List.mem_cons_self

/-- The names are bound to the variables of an arena: each name once, to a variable of its label,
and each variable to one name. -/
structure Bindings.Bind (bindings : Bindings) (arena : Arena) : Prop where
  distinct : (bindings.entries.map Prod.fst).Nodup
  labelled : ∀ name id, (name, id) ∈ bindings.entries →
    ∃ body, arena.get? id = some (.var name body)
  listed : ∀ id name body, arena.get? id = some (.var name body) →
    (name, id) ∈ bindings.entries ∧ (bindings.entries.map Prod.snd).count id = 1
  found : ∀ name id, (name, id) ∈ bindings.entries → bindings.lookup? name = some id

/-- In a tidy arena, names that are listed once are bound to the variables. -/
theorem Arena.Tidy.bind_of_nodup {bindings : Bindings} {arena : Arena} {loose : List ExprId}
    (tidy : arena.Tidy bindings loose) (names : (bindings.entries.map Prod.fst).Nodup)
    (places : (bindings.entries.map Prod.snd).Nodup) : bindings.Bind arena where
  distinct := names
  labelled name id member := (tidy.named name id).mp (Bindings.lookup?_of_mem names member)
  listed id name body found := by
    have member := Bindings.mem_of_lookup? ((tidy.named name id).mpr ⟨body, found⟩)
    exact ⟨member, List.count_eq_one_of_mem places (List.mem_map_of_mem member)⟩
  found _ _ := Bindings.lookup?_of_mem names

/-! ### Programs -/

/-- The program is stored in order and without sharing other than by name. -/
structure Program.Stored (program : Program) : Prop where
  descending : ∀ id expr, program.arena.get? id = some expr → ∀ child ∈ expr.children, child < id
  acyclic : ∀ id, ¬ Relation.TransGen program.arena.Holds id id
  root : program.root < program.arena.size
  inRange : ∀ id ∈ program.arena.uses, id < program.arena.size
  /-- The root counts as a place, like the arguments of calls and the bodies of definitions. -/
  once : ∀ id expr, program.arena.get? id = some expr → (∀ name body, expr ≠ .var name body) →
    (program.root :: program.arena.uses).count id ≤ 1
  bind : program.bindings.Bind program.arena

/-- An expression that is no variable is bound to no name. -/
theorem Arena.Tidy.lookup?_ne {bindings : Bindings} {arena : Arena} {loose : List ExprId}
    (tidy : arena.Tidy bindings loose) {id : ExprId} {expr : Expr}
    (found : arena.get? id = some expr) (noVariable : ∀ name body, expr ≠ .var name body)
    (name : String) : bindings.lookup? name ≠ some id := by
  intro bound
  obtain ⟨body, variableFound⟩ := (tidy.named name id).mp bound
  exact noVariable name body (Option.some.inj (found.symm.trans variableFound))

/-- Whatever tokens a program is read from, it is stored in order, shares nothing but the variables
of its names, and binds its names to its variables one to one. -/
theorem parse_stored {tokens : List Token} {program : Program}
    (parsed : Program.parse tokens = .ok program) : program.Stored := by
  have tidy := tidy_of_parse parsed
  obtain ⟨script, _, _, _, _, _, rfl⟩ := exists_script_of_parse parsed
  have elaborates := Scope.elaborates_ofDefinitions script.definitions
  refine ⟨fun id expr found child member => tidy.ordered.lt_of_get? found member,
    fun id contains => Nat.lt_irrefl id (tidy.ordered.lt_of_transGen contains),
    tidy.bound _ List.mem_cons_self, fun id member => tidy.ordered.uses_lt member,
    fun id expr found noVariable => ?_, ?_⟩
  · exact tidy.once id (tidy.lookup?_ne found noVariable)
  · exact tidy.bind_of_nodup elaborates.distinct elaborates.variables_nodup

/-- A name is used in its own definition and before it is defined, defined again, and used twice. -/
def reusedTokens : List Token :=
  [.openParen, .identifier "define", .identifier "y", .identifier "x", .closeParen,
    .openParen, .identifier "define", .identifier "x", .openParen, .identifier "g",
    .identifier "x", .identifier "y", .closeParen, .closeParen,
    .openParen, .identifier "define", .identifier "x", .openParen, .identifier "h",
    .identifier "x", .closeParen, .closeParen,
    .openParen, .identifier "f", .identifier "x", .identifier "x", .number "1", .closeParen]

/-- The program of those tokens. The call of `h` and its place are those of the body that was
ignored. -/
def reusedProgram : Program :=
  ⟨⟨#[.primitive "x" .symbol, .var "y" 0, .primitive "x" .symbol, .call "g" [2, 1], .var "x" 3,
    .call "h" [4], .primitive "1" .number, .call "f" [4, 4, 6]]⟩, ⟨[("y", 1), ("x", 4)]⟩, 7⟩

theorem parse_stored_reused :
    Program.parse reusedTokens = .ok reusedProgram ∧ reusedProgram.Stored := by
  have parsed : Program.parse reusedTokens = .ok reusedProgram := by decide +kernel
  exact ⟨parsed, parse_stored parsed⟩

end ExprDiagram
