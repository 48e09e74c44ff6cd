/-
This file finds how often the expressions of a parsed program are used. A form is stored after the
forms in it and its number is used once, where the form stands; only the number of a variable is
used at every place that names it. So the expressions stand in order, each expression that is no
variable is used at most once, and there are no more expressions, and no more uses, than tokens.

While a form is being stored, some numbers have been given out that nothing uses yet. They are
carried along as loose ends, and count as uses.
-/

import ExprDiagram.Proofs.Diagram.Sketching
import ExprDiagram.Proofs.Meaning.Elaboration
import Mathlib.Data.List.Flatten

namespace ExprDiagram

variable {bindings : Bindings} {arena between after : Arena} {expr : Expr}
variable {loose others : List ExprId} {id : ExprId}

/-! ### Uses -/

/-- What holds of no two members of a list holds at one place only. -/
theorem index_unique {α : Type} {values : List α} {holds : α → Prop}
    (apart : values.Pairwise fun first second => ¬ (holds first ∧ holds second))
    {first second : Nat} {firstValue secondValue : α}
    (foundFirst : values[first]? = some firstValue)
    (foundSecond : values[second]? = some secondValue) (holdsFirst : holds firstValue)
    (holdsSecond : holds secondValue) : first = second := by
  obtain ⟨firstBound, rfl⟩ := List.getElem?_eq_some_iff.mp foundFirst
  obtain ⟨secondBound, rfl⟩ := List.getElem?_eq_some_iff.mp foundSecond
  have places := List.pairwise_iff_getElem.mp apart
  rcases Nat.lt_trichotomy first second with less | same | greater
  · exact absurd ⟨holdsFirst, holdsSecond⟩ (places first second firstBound secondBound less)
  · exact same
  · exact absurd ⟨holdsSecond, holdsFirst⟩ (places second first secondBound firstBound greater)

theorem index_eq_of_count_le_one {ids : List ExprId} (once : ids.count id ≤ 1) {first second : Nat}
    (foundFirst : ids[first]? = some id) (foundSecond : ids[second]? = some id) :
    first = second := by
  have apart : ids.Pairwise fun first second => ¬ (first = id ∧ second = id) := by
    refine List.pairwise_iff_forall_sublist.mpr fun {first second} sublist ⟨isFirst, isSecond⟩ => ?_
    have twice := Nat.le_trans (sublist.count_le id) once
    rw [isFirst, isSecond, List.count_cons_self, List.count_cons_self] at twice
    omega
  exact index_unique apart foundFirst foundSecond rfl rfl

namespace Arena

/-- The numbers that stand directly below the expressions, as often as they stand there. -/
def uses (arena : Arena) : List ExprId := arena.exprs.toList.flatMap Expr.children

theorem uses_alloc (arena : Arena) (expr : Expr) :
    (arena.alloc expr).2.uses = arena.uses ++ expr.children := by
  rw [uses, alloc, Array.toList_push, List.flatMap_append, List.flatMap_singleton]
  rfl

theorem size_alloc (arena : Arena) (expr : Expr) : (arena.alloc expr).2.size = arena.size + 1 :=
  Array.size_push _

theorem get?_alloc_iff {other : Expr} :
    (arena.alloc expr).2.get? id = some other ↔
      arena.get? id = some other ∨ id = arena.size ∧ expr = other := by
  simp only [alloc, get?, size, Array.getElem?_push]
  by_cases last : id = arena.exprs.size
  · rw [if_pos last, last, Array.getElem?_eq_none (Nat.le_refl _), Option.some.injEq]
    exact ⟨fun same => .inr ⟨rfl, same⟩,
      fun either => (either.resolve_left (Option.some_ne_none other).symm).2⟩
  · rw [if_neg last]
    exact ⟨.inl, fun either => either.resolve_right fun both => last both.1⟩

theorem lt_size (found : arena.get? id = some expr) : id < arena.size :=
  (Array.getElem?_eq_some_iff.mp found).1

theorem Ordered.lt_of_get? (ordered : arena.Ordered) (found : arena.get? id = some expr)
    {child : ExprId} (member : child ∈ expr.children) : child < id :=
  ordered.lt_of_holds ⟨expr, found, member⟩

theorem mem_uses_iff {child : ExprId} : child ∈ arena.uses ↔ ∃ id, arena.Holds id child := by
  rw [uses, List.mem_flatMap]
  constructor
  · rintro ⟨expr, member, inChildren⟩
    obtain ⟨id, bound, rfl⟩ := Array.getElem_of_mem (Array.mem_toList_iff.mp member)
    exact ⟨id, _, Array.getElem?_eq_getElem bound, inChildren⟩
  · rintro ⟨id, expr, found, inChildren⟩
    exact ⟨expr, Array.mem_toList_iff.mpr (Array.mem_of_getElem? found), inChildren⟩

theorem children_sublist_uses (found : arena.get? id = some expr) :
    expr.children.Sublist arena.uses := by
  rw [uses, List.flatMap_def]
  exact List.sublist_flatten_of_mem
    (List.mem_map_of_mem (Array.mem_toList_iff.mpr (Array.mem_of_getElem? found)))

/-- An expression that is used once is used by one expression. -/
theorem eq_of_holds (once : arena.uses.count id ≤ 1) {first second : ExprId}
    (holdsFirst : arena.Holds first id) (holdsSecond : arena.Holds second id) : first = second := by
  have apart : arena.exprs.toList.Pairwise fun first second =>
      ¬ (id ∈ first.children ∧ id ∈ second.children) := by
    refine List.pairwise_iff_forall_sublist.mpr fun {first second} sublist ⟨inFirst, inSecond⟩ => ?_
    have twice := Nat.le_trans ((sublist.flatMap Expr.children).count_le id) once
    rw [List.flatMap_cons, List.flatMap_singleton, List.count_append] at twice
    have positiveFirst := List.count_pos_iff.mpr inFirst
    have positiveSecond := List.count_pos_iff.mpr inSecond
    omega
  obtain ⟨_, foundFirst, inFirst⟩ := holdsFirst
  obtain ⟨_, foundSecond, inSecond⟩ := holdsSecond
  rw [Arena.get?, ← Array.getElem?_toList] at foundFirst foundSecond
  exact index_unique apart foundFirst foundSecond inFirst inSecond

theorem Ordered.uses_lt (ordered : arena.Ordered) (member : id ∈ arena.uses) : id < arena.size := by
  obtain ⟨user, expr, found, inChildren⟩ := mem_uses_iff.mp member
  exact Nat.lt_trans (ordered.lt_of_get? found inChildren) (lt_size found)

theorem Ordered.alloc (ordered : arena.Ordered)
    (lower : ∀ child ∈ expr.children, child < arena.size) :
    (arena.alloc expr).2.Ordered := by
  intro id bound child member
  have found : (arena.alloc expr).2.get? id = some (arena.alloc expr).2.exprs[id] :=
    Array.getElem?_eq_getElem bound
  rcases get?_alloc_iff.mp found with before | ⟨rfl, same⟩
  · exact ordered.lt_of_get? before member
  · exact lower child (same ▸ member)

/-! ### Tidy arenas -/

/-- The variables are those of the names, expressions stand in order, and an expression that is no
variable is used at most once, the loose ends included. -/
structure Tidy (bindings : Bindings) (loose : List ExprId) (arena : Arena) : Prop where
  named : ∀ name id, bindings.lookup? name = some id ↔
    ∃ body, arena.get? id = some (.var name body)
  ordered : arena.Ordered
  bound : ∀ id ∈ loose, id < arena.size
  once : ∀ id, (∀ name, bindings.lookup? name ≠ some id) → (loose ++ arena.uses).count id ≤ 1

theorem Tidy.perm (tidy : arena.Tidy bindings loose) (same : loose.Perm others) :
    arena.Tidy bindings others := by
  refine ⟨tidy.named, tidy.ordered, fun id member => tidy.bound id (same.mem_iff.mpr member),
    fun id unnamed => ?_⟩
  rw [← (same.append_right arena.uses).count_eq]
  exact tidy.once id unnamed

/-- A number that was given out need not be used. -/
theorem Tidy.drop (others : List ExprId) (tidy : arena.Tidy bindings (others ++ loose)) :
    arena.Tidy bindings loose := by
  refine ⟨tidy.named, tidy.ordered, fun id member => tidy.bound id (List.mem_append_right _ member),
    fun id unnamed => ?_⟩
  refine Nat.le_trans ?_ (tidy.once id unnamed)
  rw [List.append_assoc]
  exact (List.sublist_append_right others _).count_le id

/-- The number of a variable may be given out any number of times. -/
theorem Tidy.reference {name : String} (tidy : arena.Tidy bindings loose)
    (named : bindings.lookup? name = some id) : arena.Tidy bindings (id :: loose) := by
  obtain ⟨body, found⟩ := (tidy.named name id).mp named
  refine ⟨tidy.named, tidy.ordered, List.forall_mem_cons.mpr ⟨lt_size found, tidy.bound⟩,
    fun other unnamed => ?_⟩
  have different : id ≠ other := by
    rintro rfl
    exact unnamed name named
  rw [List.cons_append, List.count_cons_of_ne different]
  exact tidy.once other unnamed

/-- A stored expression uses loose ends. -/
theorem Tidy.count_alloc (tidy : arena.Tidy bindings (expr.children ++ loose))
    (unnamed : ∀ name, bindings.lookup? name ≠ some id) :
    (loose ++ (arena.alloc expr).2.uses).count id ≤ 1 := by
  have before := tidy.once id unnamed
  rw [uses_alloc]
  rw [List.count_append, List.count_append] at before ⊢
  omega

theorem Tidy.ordered_alloc (tidy : arena.Tidy bindings (expr.children ++ loose)) :
    (arena.alloc expr).2.Ordered :=
  tidy.ordered.alloc fun child member => tidy.bound child (List.mem_append_left _ member)

theorem Tidy.bound_alloc (tidy : arena.Tidy bindings (expr.children ++ loose)) :
    ∀ id ∈ loose, id < (arena.alloc expr).2.size := by
  intro id member
  rw [size_alloc]
  exact Nat.lt_succ_of_lt (tidy.bound id (List.mem_append_right _ member))

/-- The number of an expression that was stored last is used nowhere. -/
theorem Tidy.fresh (tidy : arena.Tidy bindings (expr.children ++ loose)) :
    (loose ++ (arena.alloc expr).2.uses).count arena.size = 0 := by
  rw [List.count_eq_zero, uses_alloc]
  intro member
  refine Nat.lt_irrefl arena.size ?_
  rcases List.mem_append.mp member with inLoose | inUses
  · exact tidy.bound _ (List.mem_append_right _ inLoose)
  · rcases List.mem_append.mp inUses with before | inChildren
    · exact tidy.ordered.uses_lt before
    · exact tidy.bound _ (List.mem_append_left _ inChildren)

theorem Tidy.alloc (expr : Expr) (tidy : arena.Tidy bindings (expr.children ++ loose))
    (noVariable : ∀ name body, expr ≠ .var name body) :
    (arena.alloc expr).2.Tidy bindings (arena.size :: loose) := by
  refine ⟨fun name id => ?_, tidy.ordered_alloc, List.forall_mem_cons.mpr ⟨?_, tidy.bound_alloc⟩,
    fun id unnamed => ?_⟩
  · refine (tidy.named name id).trans (exists_congr fun body => ?_)
    rw [get?_alloc_iff]
    exact ⟨.inl, fun either => either.resolve_right fun both => noVariable name body both.2⟩
  · rw [size_alloc]
    exact Nat.lt_succ_self _
  · rw [List.cons_append]
    by_cases last : id = arena.size
    · rw [last, List.count_cons_self]
      exact Nat.le_of_eq (congrArg Nat.succ tidy.fresh)
    · rw [List.count_cons_of_ne (Ne.symm last)]
      exact tidy.count_alloc unnamed

/-- A definition binds a new name to a variable above its body. -/
theorem Tidy.bind {name : String} {body : ExprId} (tidy : arena.Tidy bindings [body])
    (free : bindings.lookup? name = none) :
    (arena.alloc (.var name body)).2.Tidy ⟨bindings.entries ++ [(name, arena.size)]⟩ [] := by
  have loose : arena.Tidy bindings ((Expr.var name body).children ++ []) := tidy
  have added : Bindings.lookup? ⟨bindings.entries ++ [(name, arena.size)]⟩ name =
      some arena.size := by
    rw [Bindings.lookup?_append, free, if_pos rfl]
    rfl
  refine ⟨fun other id => ?_, loose.ordered_alloc, fun _ member => (by cases member),
    fun id unnamed => ?_⟩
  · rw [Bindings.lookup?_append, Option.or_eq_some_iff, tidy.named, Option.ite_none_right_eq_some,
      Option.some.injEq]
    constructor
    · rintro (⟨inner, found⟩ | ⟨unknown, rfl, rfl⟩)
      · exact ⟨inner, get?_alloc_iff.mpr (.inl found)⟩
      · exact ⟨body, get?_alloc_iff.mpr (.inr ⟨rfl, rfl⟩)⟩
    · rintro ⟨inner, found⟩
      rcases get?_alloc_iff.mp found with before | ⟨rfl, same⟩
      · exact .inl ⟨inner, before⟩
      · cases same
        exact .inr ⟨free, rfl, rfl⟩
  · refine loose.count_alloc fun other named => unnamed other ?_
    rw [Bindings.lookup?_append, named]
    rfl

end Arena

/-! ### Storing -/

mutual
/-- Storing a form keeps an arena tidy; the number of the form is a loose end. -/
theorem Form.store_tidy (form : Form) (arena : Arena) (loose : List ExprId)
    (tidy : arena.Tidy bindings loose) :
    (form.store bindings arena).2.Tidy bindings ((form.store bindings arena).1 :: loose) := by
  cases form with
  | word kind text =>
    rw [Form.store]
    cases named : bindings.lookup? text with
    | none => exact Arena.Tidy.alloc (.primitive text kind) tidy fun _ _ => Expr.noConfusion
    | some id => exact tidy.reference named
  | call label arguments =>
    rw [Form.store]
    have stored := Form.storeAll_tidy arguments arena loose tidy
    generalize Form.storeAll bindings arena arguments = result at stored
    exact Arena.Tidy.alloc (.call label result.1) stored fun _ _ => Expr.noConfusion

theorem Form.storeAll_tidy (forms : List Form) (arena : Arena) (loose : List ExprId)
    (tidy : arena.Tidy bindings loose) :
    (Form.storeAll bindings arena forms).2.Tidy bindings
      ((Form.storeAll bindings arena forms).1 ++ loose) := by
  cases forms with
  | nil => exact tidy
  | cons form rest =>
    rw [Form.storeAll]
    have first := form.store_tidy arena loose tidy
    have stored := Form.storeAll_tidy rest _ _ first
    exact stored.perm List.perm_middle
end

theorem Scope.define_tidy {scope : Scope} (tidy : scope.arena.Tidy scope.bindings [])
    (definition : Definition) :
    (scope.define definition).arena.Tidy (scope.define definition).bindings [] := by
  have stored := definition.body.store_tidy scope.arena [] tidy
  cases named : scope.bindings.lookup? definition.name with
  | some id =>
    rw [Scope.define_taken named]
    exact Arena.Tidy.drop [(definition.body.store scope.bindings scope.arena).1] stored
  | none =>
    rw [Scope.define_free named]
    exact stored.bind named

theorem Scope.ofDefinitions_tidy (definitions : List Definition) :
    (Scope.ofDefinitions definitions).arena.Tidy (Scope.ofDefinitions definitions).bindings [] := by
  have empty : Scope.empty.arena.Tidy Scope.empty.bindings [] := by
    refine ⟨fun name id => ⟨fun named => (by cases named), fun ⟨body, found⟩ => ?_⟩,
      fun id bound => ?_, fun _ member => (by cases member), fun _ _ => Nat.zero_le _⟩
    · cases found
    · cases bound
  rw [Scope.ofDefinitions]
  generalize Scope.empty = scope at empty
  induction definitions generalizing scope with
  | nil => exact empty
  | cons definition rest inductionHypothesis =>
    exact inductionHypothesis _ (Scope.define_tidy empty definition)

/-! ### Sizes -/

/-- Between two arenas, no more expressions were added than there are tokens, and no more numbers
were used or given out. -/
structure Arena.Adds (arena after : Arena) (given tokens : Nat) : Prop where
  size : after.size ≤ arena.size + tokens
  uses : after.uses.length + given ≤ arena.uses.length + tokens

theorem Arena.Adds.trans {first second firstTokens secondTokens : Nat}
    (lower : arena.Adds between first firstTokens)
    (upper : between.Adds after second secondTokens) :
    arena.Adds after (first + second) (firstTokens + secondTokens) := by
  obtain ⟨size, uses⟩ := lower
  obtain ⟨furtherSize, furtherUses⟩ := upper
  exact ⟨by omega, by omega⟩

theorem Arena.Adds.weaken {given fewer tokens more : Nat} (adds : arena.Adds after given tokens)
    (less : fewer ≤ given) (enough : tokens ≤ more) : arena.Adds after fewer more := by
  obtain ⟨size, uses⟩ := adds
  exact ⟨by omega, by omega⟩

/-- An expression takes a token of its own, and uses what was given out to be used below it. -/
theorem Arena.Adds.alloc {tokens more : Nat} (expr : Expr)
    (adds : arena.Adds between expr.children.length tokens) (positive : 0 < more) :
    arena.Adds (between.alloc expr).2 1 (tokens + more) := by
  obtain ⟨size, uses⟩ := adds
  refine ⟨?_, ?_⟩
  · rw [size_alloc]
    omega
  · rw [uses_alloc, List.length_append]
    omega

mutual
theorem Form.store_adds {form : Form} {tokens : List Token} (spelled : form.Spelled tokens)
    (bindings : Bindings) (arena : Arena) :
    arena.Adds (form.store bindings arena).2 1 tokens.length := by
  cases spelled with
  | @word token text isWord =>
    rw [Form.store]
    cases bindings.lookup? text with
    | none =>
      have none : arena.Adds arena 0 0 := ⟨Nat.le_refl _, Nat.le_refl _⟩
      exact Arena.Adds.alloc (.primitive text token.kind) none Nat.one_pos
    | some id => exact ⟨Nat.le_succ _, Nat.le_refl _⟩
  | @call label text arguments tokens isWord spelled =>
    rw [Form.store]
    obtain ⟨count, adds⟩ := Form.storeAll_adds spelled bindings arena
    rw [← count] at adds
    have stored := Arena.Adds.alloc (.call text (Form.storeAll bindings arena arguments).1) adds
      (Nat.succ_pos 2)
    have length : (Token.openParen :: label :: (tokens ++ [Token.closeParen])).length =
        tokens.length + 3 := by
      rw [List.length_cons, List.length_cons, List.length_append]
      rfl
    rwa [length]

theorem Form.storeAll_adds {forms : List Form} {tokens : List Token}
    (spelled : Form.SpelledAll forms tokens) (bindings : Bindings) (arena : Arena) :
    (Form.storeAll bindings arena forms).1.length = forms.length ∧
      arena.Adds (Form.storeAll bindings arena forms).2 forms.length tokens.length := by
  cases spelled with
  | nil => exact ⟨rfl, Nat.le_refl _, Nat.le_refl _⟩
  | @cons form rest first others head tail =>
    rw [Form.storeAll]
    have stored := Form.store_adds head bindings arena
    obtain ⟨count, adds⟩ := Form.storeAll_adds tail bindings (form.store bindings arena).2
    refine ⟨congrArg Nat.succ count, ?_⟩
    rw [List.length_append, List.length_cons, Nat.add_comm rest.length]
    exact stored.trans adds
end

theorem Scope.define_adds {definition : Definition} {tokens : List Token}
    (spelled : definition.Spelled tokens) (scope : Scope) :
    scope.arena.Adds (scope.define definition).arena 0 tokens.length := by
  cases spelled with
  | @intro nameToken name body tokens isWord spelled =>
    have stored := Form.store_adds spelled scope.bindings scope.arena
    have length : (Token.openParen :: Token.identifier defineKeyword :: nameToken ::
        (tokens ++ [Token.closeParen])).length = tokens.length + 4 := by
      rw [List.length_cons, List.length_cons, List.length_cons, List.length_append]
      rfl
    rw [length]
    cases named : scope.bindings.lookup? name with
    | some id =>
      rw [Scope.define_taken named]
      exact stored.weaken (Nat.zero_le 1) (Nat.le_add_right _ 4)
    | none =>
      rw [Scope.define_free named]
      have extended := Arena.Adds.alloc (.var name (body.store scope.bindings scope.arena).1) stored
        (Nat.succ_pos 3)
      exact extended.weaken (Nat.zero_le 1) (Nat.le_refl _)

theorem Scope.foldl_define_adds {definitions : List Definition} {tokens : List Token}
    (spelled : Definition.SpelledAll definitions tokens) (scope : Scope) :
    scope.arena.Adds (definitions.foldl Scope.define scope).arena 0 tokens.length := by
  induction spelled generalizing scope with
  | nil => exact ⟨Nat.le_refl _, Nat.le_refl _⟩
  | @cons definition rest first others head _ inductionHypothesis =>
    rw [List.length_append]
    exact (Scope.define_adds head scope).trans (inductionHypothesis (scope.define definition))

/-! ### Parsed programs -/

/-- A parsed program is tidy: its root is its only loose end. -/
theorem tidy_of_parse {tokens : List Token} {program : Program}
    (parsed : Program.parse tokens = .ok program) :
    program.arena.Tidy program.bindings [program.root] := by
  obtain ⟨script, _, _, _, _, _, rfl⟩ := exists_script_of_parse parsed
  exact script.main.store_tidy _ [] (Scope.ofDefinitions_tidy script.definitions)

/-- A tidy program has a diagram. -/
theorem Diagram.ofProgram_of_tidy {program : Program}
    (tidy : program.arena.Tidy program.bindings [program.root]) :
    ∃ diagram, Diagram.ofProgram program = .ok diagram :=
  Diagram.ofProgram_ok (tidy.ordered.inRange (tidy.bound program.root List.mem_cons_self))
    tidy.ordered.acyclic

/-- A parsed program has no more expressions, and fewer uses, than the tokens that were read. -/
theorem size_le_of_parse {tokens : List Token} {program : Program}
    (parsed : Program.parse tokens = .ok program) :
    ∃ consumed, consumed? tokens = some consumed ∧ program.arena.size ≤ consumed.length ∧
      program.arena.uses.length < consumed.length := by
  obtain ⟨script, front, back, rfl, spelled, shallow, rfl⟩ := exists_script_of_parse parsed
  refine ⟨front,
    (consumed?_eq_some_iff _ _).mpr ⟨List.prefix_append _ _, script, spelled, shallow⟩, ?_⟩
  cases spelled with
  | @intro definitions main first second defined spelled noDefinition =>
    have scope := Scope.foldl_define_adds defined Scope.empty
    have adds := scope.trans (Form.store_adds spelled (Scope.ofDefinitions definitions).bindings
      (Scope.ofDefinitions definitions).arena)
    rw [← List.length_append] at adds
    have size := adds.size
    have uses := adds.uses
    have none : Scope.empty.arena.size = 0 ∧ Scope.empty.arena.uses.length = 0 := ⟨rfl, rfl⟩
    rw [none.1, Nat.zero_add] at size
    rw [none.2, Nat.zero_add, Nat.zero_add] at uses
    exact ⟨size, uses⟩

end ExprDiagram
