/-
This file says what a script means and shows that its program represents that meaning. The meaning
is computed without numbers and without a store: an environment holds an entry for each definition
before a point, also for those whose name is taken, and a word stands for the first entry of its
name. In a program a reference is the number of its variable, which is the same wherever the name
is used.

Storing a form only adds expressions, so whatever a number represents it goes on representing; with
that the definitions can be followed one by one.
-/

import ExprDiagram.Proofs.Grammar.Recognition

namespace ExprDiagram

/-! ### The meaning of a script -/

/-- What a written expression stands for. -/
inductive Meaning where
  | call (label : String) (arguments : List Meaning)
  | primitive (label : String) (kind : WordKind)
  /-- A defined name and what the body of its definition stands for. -/
  | reference (name : String) (bound : Meaning)

/-- The names of the definitions before a point, in their order, each with what it stands for. -/
abbrev Environment := List (String × Meaning)

mutual
/-- The meaning of a form: a word stands for the first definition of its name, if there is one, and
labels stand for themselves. -/
def Form.meaning (environment : Environment) : Form → Meaning
  | .word kind text => (environment.lookup text).getD (.primitive text kind)
  | .call label arguments => .call label (Form.meaningAll environment arguments)

/-- The meanings of forms. -/
def Form.meaningAll (environment : Environment) : List Form → List Meaning
  | [] => []
  | form :: rest => form.meaning environment :: Form.meaningAll environment rest
end

/-- The environment after one more definition, whose body is understood in the environment before
it. -/
def Environment.define (environment : Environment) (definition : Definition) : Environment :=
  environment ++ [(definition.name,
    .reference definition.name (definition.body.meaning environment))]

/-- The environment after a list of definitions. -/
def Environment.ofDefinitions (definitions : List Definition) : Environment :=
  definitions.foldl Environment.define []

/-- The meaning of the expression of a script. -/
def Script.meaning (script : Script) : Meaning :=
  script.main.meaning (Environment.ofDefinitions script.definitions)

/-! ### Representation -/

mutual
/-- Reading an expression back from its number gives the meaning. Each reference to a name is the
number of the variable that is bound to the name. -/
inductive Represents (bindings : Bindings) (arena : Arena) : ExprId → Meaning → Prop
  | call {id : ExprId} {label : String} {ids : List ExprId} {meanings : List Meaning}
    (found : arena.get? id = some (.call label ids))
    (arguments : RepresentsAll bindings arena ids meanings) :
    Represents bindings arena id (.call label meanings)
  | primitive {id : ExprId} {label : String} {kind : WordKind}
    (found : arena.get? id = some (.primitive label kind)) :
    Represents bindings arena id (.primitive label kind)
  | reference {id bound : ExprId} {name : String} {meaning : Meaning}
    (shared : bindings.lookup? name = some id) (found : arena.get? id = some (.var name bound))
    (represented : Represents bindings arena bound meaning) :
    Represents bindings arena id (.reference name meaning)

/-- The numbers represent the meanings one by one. -/
inductive RepresentsAll (bindings : Bindings) (arena : Arena) :
    List ExprId → List Meaning → Prop
  | nil : RepresentsAll bindings arena [] []
  | cons {id : ExprId} {ids : List ExprId} {meaning : Meaning} {meanings : List Meaning}
    (head : Represents bindings arena id meaning)
    (tail : RepresentsAll bindings arena ids meanings) :
    RepresentsAll bindings arena (id :: ids) (meaning :: meanings)
end

/-- Every expression of the smaller arena stands at its number in the larger one. -/
def Arena.Within (smaller larger : Arena) : Prop :=
  ∀ id expr, smaller.get? id = some expr → larger.get? id = some expr

theorem Arena.Within.refl (arena : Arena) : arena.Within arena := fun _ _ found => found

theorem Arena.Within.trans {first second third : Arena} (lower : first.Within second)
    (upper : second.Within third) : first.Within third :=
  fun id expr found => upper id expr (lower id expr found)

theorem Arena.within_alloc (arena : Arena) (expr : Expr) : arena.Within (arena.alloc expr).2 := by
  intro id other found
  have bound : id < arena.exprs.size := (Array.getElem?_eq_some_iff.mp found).1
  simp only [Arena.alloc, Arena.get?]
  rw [Array.getElem?_push_lt bound]
  rwa [Arena.get?, Array.getElem?_eq_getElem bound] at found

theorem Arena.get?_alloc (arena : Arena) (expr : Expr) :
    (arena.alloc expr).2.get? (arena.alloc expr).1 = some expr := by
  simp only [Arena.alloc, Arena.get?, Arena.size, Array.getElem?_push_size]

/-- Every name of the smaller bindings is bound to the same variable in the larger ones. -/
def Bindings.Within (smaller larger : Bindings) : Prop :=
  ∀ name id, smaller.lookup? name = some id → larger.lookup? name = some id

mutual
theorem Represents.mono {bindings largerBindings : Bindings} {arena larger : Arena} {id : ExprId}
    {meaning : Meaning} (boundWithin : bindings.Within largerBindings)
    (within : arena.Within larger) (represented : Represents bindings arena id meaning) :
    Represents largerBindings larger id meaning := by
  cases represented with
  | call found arguments =>
    exact .call (within _ _ found) (arguments.mono boundWithin within)
  | primitive found => exact .primitive (within _ _ found)
  | reference shared found represented =>
    exact .reference (boundWithin _ _ shared) (within _ _ found)
      (represented.mono boundWithin within)

theorem RepresentsAll.mono {bindings largerBindings : Bindings} {arena larger : Arena}
    {ids : List ExprId} {meanings : List Meaning} (boundWithin : bindings.Within largerBindings)
    (within : arena.Within larger) (represented : RepresentsAll bindings arena ids meanings) :
    RepresentsAll largerBindings larger ids meanings := by
  cases represented with
  | nil => exact .nil
  | cons head tail =>
    exact .cons (head.mono boundWithin within) (tail.mono boundWithin within)
end

mutual
/-- A number represents one meaning only. -/
theorem Represents.unique {bindings : Bindings} {arena : Arena} {id : ExprId}
    {first second : Meaning} (left : Represents bindings arena id first)
    (right : Represents bindings arena id second) : first = second := by
  cases left with
  | call found arguments =>
    cases right with
    | call other otherArguments =>
      rw [found] at other
      cases other
      rw [arguments.unique otherArguments]
    | primitive other => rw [found] at other; cases other
    | reference _ other => rw [found] at other; cases other
  | primitive found =>
    cases right with
    | call other => rw [found] at other; cases other
    | primitive other => rw [found] at other; cases other; rfl
    | reference _ other => rw [found] at other; cases other
  | reference shared found represented =>
    cases right with
    | call other => rw [found] at other; cases other
    | primitive other => rw [found] at other; cases other
    | reference _ other otherRepresented =>
      rw [found] at other
      cases other
      rw [represented.unique otherRepresented]

theorem RepresentsAll.unique {bindings : Bindings} {arena : Arena} {ids : List ExprId}
    {first second : List Meaning} (left : RepresentsAll bindings arena ids first)
    (right : RepresentsAll bindings arena ids second) : first = second := by
  cases left with
  | nil =>
    cases right with
    | nil => rfl
  | cons head tail =>
    cases right with
    | cons otherHead otherTail => rw [head.unique otherHead, tail.unique otherTail]
end

/-! ### Forms -/

/-- The bindings and the environment know the same names, and each variable represents what its
name stands for. -/
structure Agree (bindings : Bindings) (arena : Arena) (environment : Environment) : Prop where
  unknown : ∀ name, bindings.lookup? name = none → environment.lookup name = none
  known : ∀ name id, bindings.lookup? name = some id →
    ∃ meaning, environment.lookup name = some (.reference name meaning) ∧
      Represents bindings arena id (.reference name meaning)

theorem Agree.mono {bindings : Bindings} {arena larger : Arena} {environment : Environment}
    (agree : Agree bindings arena environment) (within : arena.Within larger) :
    Agree bindings larger environment := by
  refine ⟨agree.unknown, fun name id bound => ?_⟩
  obtain ⟨meaning, known, represented⟩ := agree.known name id bound
  exact ⟨meaning, known, represented.mono (fun _ _ bound => bound) within⟩

mutual
/-- A stored form represents its meaning, and nothing that was stored before is lost. -/
theorem Form.store_represents {bindings : Bindings} {environment : Environment} (form : Form)
    (arena : Arena) (agree : Agree bindings arena environment) :
    arena.Within (form.store bindings arena).2 ∧
      Represents bindings (form.store bindings arena).2 (form.store bindings arena).1
        (form.meaning environment) := by
  cases form with
  | word kind text =>
    rw [Form.store, Form.meaning]
    cases bound : bindings.lookup? text with
    | none =>
      rw [agree.unknown text bound]
      exact ⟨arena.within_alloc _, .primitive (arena.get?_alloc _)⟩
    | some variableId =>
      obtain ⟨meaning, known, represented⟩ := agree.known text variableId bound
      rw [known]
      exact ⟨.refl arena, represented⟩
  | call label arguments =>
    rw [Form.store, Form.meaning]
    obtain ⟨within, represented⟩ := Form.storeAll_represents arguments arena agree
    have extended := within.trans (Arena.within_alloc _
      (.call label (Form.storeAll bindings arena arguments).1))
    exact ⟨extended, .call (Arena.get?_alloc _ _)
      (represented.mono (fun _ _ bound => bound) (Arena.within_alloc _ _))⟩

theorem Form.storeAll_represents {bindings : Bindings} {environment : Environment}
    (forms : List Form) (arena : Arena) (agree : Agree bindings arena environment) :
    arena.Within (Form.storeAll bindings arena forms).2 ∧
      RepresentsAll bindings (Form.storeAll bindings arena forms).2
        (Form.storeAll bindings arena forms).1 (Form.meaningAll environment forms) := by
  cases forms with
  | nil => exact ⟨.refl arena, .nil⟩
  | cons form rest =>
    rw [Form.storeAll, Form.meaningAll]
    obtain ⟨within, head⟩ := form.store_represents arena agree
    obtain ⟨further, tail⟩ := Form.storeAll_represents rest _ (agree.mono within)
    exact ⟨within.trans further, .cons (head.mono (fun _ _ bound => bound) further) tail⟩
end

/-! ### Definitions -/

theorem Bindings.lookup?_append (bindings : Bindings) (name other : String) (id : ExprId) :
    Bindings.lookup? ⟨bindings.entries ++ [(name, id)]⟩ other =
      (bindings.lookup? other).or (if other = name then some id else none) := by
  rw [Bindings.lookup?, List.lookup_append, Bindings.lookup?]
  congr 1
  by_cases same : other = name
  · simp [same]
  · simp [same]

theorem Environment.lookup_define (environment : Environment) (definition : Definition)
    (name : String) :
    (environment.define definition).lookup name =
      (environment.lookup name).or (if name = definition.name then
        some (.reference definition.name (definition.body.meaning environment)) else none) := by
  rw [Environment.define, List.lookup_append]
  congr 1
  by_cases same : name = definition.name
  · simp [same]
  · simp [same]

theorem Bindings.lookup?_eq_none_iff {bindings : Bindings} {name : String} :
    bindings.lookup? name = none ↔ name ∉ bindings.entries.map Prod.fst := by
  rw [Bindings.lookup?, List.lookup_eq_none_iff, List.mem_map]
  constructor
  · rintro different ⟨entry, member, rfl⟩
    exact absurd (different entry member) (by simp)
  · intro absent entry member
    simpa using fun same => absent ⟨entry, member, Eq.symm same⟩

/-- What the definitions up to a point have brought about is what they mean. -/
structure Scope.Elaborates (scope : Scope) (definitions : List Definition) : Prop where
  agree : Agree scope.bindings scope.arena (Environment.ofDefinitions definitions)
  names : scope.bindings.entries.map Prod.fst = (definitions.map Definition.name).eraseDups
  distinct : (scope.bindings.entries.map Prod.fst).Nodup

theorem Scope.elaborates_empty : Scope.empty.Elaborates [] :=
  ⟨⟨fun _ _ => rfl, fun _ _ bound => by cases bound⟩, rfl, .nil⟩

/-- A definition whose name is taken adds only expressions that nothing refers to. -/
theorem Scope.define_taken {scope : Scope} {definition : Definition} {id : ExprId}
    (taken : scope.bindings.lookup? definition.name = some id) :
    scope.define definition =
      ⟨(definition.body.store scope.bindings scope.arena).2, scope.bindings,
        scope.ignored ++ [definition.name]⟩ := by
  unfold Scope.define
  simp only [Bindings.bind?, taken, Option.isSome_some, if_true]

/-- A definition whose name is free binds the name to a variable above the stored body. -/
theorem Scope.define_free {scope : Scope} {definition : Definition}
    (free : scope.bindings.lookup? definition.name = none) :
    scope.define definition =
      let (body, arena) := definition.body.store scope.bindings scope.arena
      let (variableId, extended) := arena.alloc (.var definition.name body)
      ⟨extended, ⟨scope.bindings.entries ++ [(definition.name, variableId)]⟩, scope.ignored⟩ := by
  unfold Scope.define
  simp only [Bindings.bind?, free, Option.isSome_none, Bool.false_eq_true, if_false]

theorem eraseDups_concat (names : List String) (name : String) :
    (names ++ [name]).eraseDups = names.eraseDups ++ if name ∈ names then [] else [name] := by
  rw [List.eraseDups_append, List.cons_removeAll]
  by_cases member : name ∈ names
  · simp [member]
  · simp only [List.elem_eq_mem, member, decide_false, if_false, List.nil_removeAll]
    rfl

theorem Environment.ofDefinitions_concat (definitions : List Definition)
    (definition : Definition) :
    Environment.ofDefinitions (definitions ++ [definition]) =
      (Environment.ofDefinitions definitions).define definition := by
  rw [Environment.ofDefinitions, List.foldl_append]
  rfl

theorem Agree.define_taken {bindings : Bindings} {arena : Arena} {environment : Environment}
    {definition : Definition} {id : ExprId} (agree : Agree bindings arena environment)
    (taken : bindings.lookup? definition.name = some id) :
    Agree bindings arena (environment.define definition) := by
  refine ⟨fun name free => ?_, fun name other bound => ?_⟩
  · have different : name ≠ definition.name := by
      rintro rfl
      rw [taken] at free
      cases free
    rw [Environment.lookup_define, agree.unknown name free, if_neg different]
    rfl
  · obtain ⟨meaning, found, represented⟩ := agree.known name other bound
    rw [Environment.lookup_define, found]
    exact ⟨meaning, rfl, represented⟩

theorem Agree.define_free {bindings : Bindings} {arena : Arena} {environment : Environment}
    {definition : Definition} {body id : ExprId} (agree : Agree bindings arena environment)
    (free : bindings.lookup? definition.name = none)
    (found : arena.get? id = some (.var definition.name body))
    (represented : Represents bindings arena body (definition.body.meaning environment)) :
    Agree ⟨bindings.entries ++ [(definition.name, id)]⟩ arena (environment.define definition) := by
  have within : bindings.Within ⟨bindings.entries ++ [(definition.name, id)]⟩ := by
    intro name other bound
    rw [Bindings.lookup?_append, bound]
    rfl
  have added : Bindings.lookup? ⟨bindings.entries ++ [(definition.name, id)]⟩ definition.name =
      some id := by
    rw [Bindings.lookup?_append, free, if_pos rfl]
    rfl
  refine ⟨fun name unbound => ?_, fun name other bound => ?_⟩
  · rw [Bindings.lookup?_append, Option.or_eq_none_iff] at unbound
    have different : name ≠ definition.name := by
      rintro rfl
      rw [if_pos rfl] at unbound
      cases unbound.2
    rw [Environment.lookup_define, agree.unknown name unbound.1, if_neg different]
    rfl
  · rw [Bindings.lookup?_append] at bound
    rw [Environment.lookup_define]
    cases before : bindings.lookup? name with
    | some earlier =>
      rw [before, Option.some_or, Option.some.injEq] at bound
      subst bound
      obtain ⟨meaning, known, representedName⟩ := agree.known name earlier before
      rw [known]
      exact ⟨meaning, rfl, representedName.mono within (.refl arena)⟩
    | none =>
      rw [before, Option.none_or, Option.ite_none_right_eq_some, Option.some.injEq] at bound
      obtain ⟨rfl, rfl⟩ := bound
      rw [agree.unknown _ free, if_pos rfl]
      exact ⟨_, rfl, .reference added found (represented.mono within (.refl arena))⟩

theorem Scope.Elaborates.define {scope : Scope} {definitions : List Definition}
    (elaborates : scope.Elaborates definitions) (definition : Definition) :
    (scope.define definition).Elaborates (definitions ++ [definition]) := by
  obtain ⟨agree, names, distinct⟩ := elaborates
  obtain ⟨within, represented⟩ := definition.body.store_represents scope.arena agree
  have known : definition.name ∈ definitions.map Definition.name ↔
      definition.name ∈ scope.bindings.entries.map Prod.fst := by
    rw [names, List.mem_eraseDups]
  cases bound : scope.bindings.lookup? definition.name with
  | some id =>
    have member : definition.name ∈ scope.bindings.entries.map Prod.fst :=
      Decidable.byContradiction fun absent => by
        rw [Bindings.lookup?_eq_none_iff.mpr absent] at bound
        cases bound
    rw [Scope.define_taken bound]
    refine ⟨?_, ?_, distinct⟩
    · rw [Environment.ofDefinitions_concat]
      exact (agree.mono within).define_taken bound
    · rw [List.map_append, List.map_singleton, eraseDups_concat, if_pos (known.mpr member),
        List.append_nil]
      exact names
  | none =>
    have absent := Bindings.lookup?_eq_none_iff.mp bound
    rw [Scope.define_free bound]
    refine ⟨?_, ?_, ?_⟩
    · rw [Environment.ofDefinitions_concat]
      have extended := Arena.within_alloc (definition.body.store scope.bindings scope.arena).2
        (.var definition.name (definition.body.store scope.bindings scope.arena).1)
      exact (agree.mono (within.trans extended)).define_free bound (Arena.get?_alloc _ _)
        (represented.mono (fun _ _ bound => bound) extended)
    · rw [List.map_append, List.map_append, List.map_singleton, List.map_singleton,
        eraseDups_concat, if_neg fun member => absent (known.mp member), names]
    · rw [List.map_append, List.map_singleton]
      refine List.nodup_append.mpr ⟨distinct, List.pairwise_singleton _ _, ?_⟩
      rintro name member other otherMember rfl
      rw [List.mem_singleton.mp otherMember] at member
      exact absent member

theorem Scope.elaborates_ofDefinitions (definitions : List Definition) :
    (Scope.ofDefinitions definitions).Elaborates definitions := by
  have extended : ∀ (rest before : List Definition) (scope : Scope), scope.Elaborates before →
      (rest.foldl Scope.define scope).Elaborates (before ++ rest) := by
    intro rest
    induction rest with
    | nil =>
      intro before scope elaborates
      rwa [List.append_nil]
    | cons definition rest inductionHypothesis =>
      intro before scope elaborates
      have further := inductionHypothesis _ _ (elaborates.define definition)
      rwa [List.append_assoc] at further
  exact extended definitions [] Scope.empty Scope.elaborates_empty

/-! ### Scripts -/

theorem Bindings.lookup?_of_mem {bindings : Bindings} {name : String} {id : ExprId}
    (distinct : (bindings.entries.map Prod.fst).Nodup) (member : (name, id) ∈ bindings.entries) :
    bindings.lookup? name = some id := by
  obtain ⟨entries⟩ := bindings
  rw [Bindings.lookup?]
  induction entries with
  | nil => cases member
  | cons entry rest inductionHypothesis =>
    rw [List.map_cons, List.nodup_cons] at distinct
    rcases List.mem_cons.mp member with rfl | inRest
    · exact List.lookup_cons_self
    · have different : (name == entry.1) = false := by
        rw [beq_eq_false_iff_ne]
        rintro rfl
        exact distinct.1 (List.mem_map.mpr ⟨_, inRest, rfl⟩)
      rw [List.lookup_cons, different]
      exact inductionHypothesis distinct.2 inRest

/-- Different names are bound to different variables. -/
theorem Scope.Elaborates.variables_nodup {scope : Scope} {definitions : List Definition}
    (elaborates : scope.Elaborates definitions) : (scope.bindings.entries.map Prod.snd).Nodup := by
  have labelled : ∀ name id, (name, id) ∈ scope.bindings.entries →
      ∃ bound, scope.arena.get? id = some (.var name bound) := by
    intro name id member
    obtain ⟨meaning, _, represented⟩ := elaborates.agree.known name id
      (Bindings.lookup?_of_mem elaborates.distinct member)
    cases represented with
    | reference shared found => exact ⟨_, found⟩
  refine List.pairwise_map.mpr ((List.pairwise_map.mp elaborates.distinct).imp_of_mem ?_)
  rintro ⟨name, id⟩ ⟨otherName, otherId⟩ member otherMember different rfl
  obtain ⟨bound, found⟩ := labelled name id member
  obtain ⟨otherBound, otherFound⟩ := labelled otherName id otherMember
  rw [found] at otherFound
  cases otherFound
  exact different rfl

/-- Reading the spelling of a script gives a program whose expression reads back as the meaning of
the script and as nothing else. The bindings list the first definition of each name in order, each
with a variable of its own, which represents what the name stands for. -/
theorem parse_represents {script : Script} {tokens : List Token} (spelled : script.Spelled tokens)
    (shallow : script.Shallow) (further : List Token) :
    ∃ program, Program.parse (tokens ++ further) = .ok program ∧
      (∀ meaning, Represents program.bindings program.arena program.root meaning ↔
        meaning = script.meaning) ∧
      program.bindings.entries.map Prod.fst =
        (script.definitions.map Definition.name).eraseDups ∧
      (program.bindings.entries.map Prod.snd).Nodup ∧
      ∀ name id, (name, id) ∈ program.bindings.entries →
        ∃ meaning, (Environment.ofDefinitions script.definitions).lookup name = some meaning ∧
          Represents program.bindings program.arena id meaning := by
  have elaborates := Scope.elaborates_ofDefinitions script.definitions
  obtain ⟨within, represented⟩ := script.main.store_represents _ elaborates.agree
  refine ⟨script.program, parse_spelled spelled shallow further, fun meaning => ⟨?_, ?_⟩,
    elaborates.names, elaborates.variables_nodup, fun name id member => ?_⟩
  · exact fun other => other.unique represented
  · rintro rfl
    exact represented
  · obtain ⟨meaning, known, representedName⟩ := elaborates.agree.known name id
      (Bindings.lookup?_of_mem elaborates.distinct member)
    exact ⟨_, known, representedName.mono (fun _ _ bound => bound) within⟩

/-- A name that occurs in its own definition, is defined again, and is then used both as the label
of a call and as an argument. -/
def redefinition : Script :=
  ⟨[⟨"x", .call "g" [.word .symbol "x"]⟩, ⟨"x", .word .number "1"⟩],
    .call "x" [.word .symbol "x", .word .number "2"]⟩

/-- The spelling of that script. -/
def redefinitionTokens : List Token :=
  [.openParen, .identifier "define", .identifier "x", .openParen, .identifier "g",
    .identifier "x", .closeParen, .closeParen, .openParen, .identifier "define", .identifier "x",
    .number "1", .closeParen, .openParen, .identifier "x", .identifier "x", .number "2",
    .closeParen]

theorem redefinition_spelled : redefinition.Spelled redefinitionTokens := by
  have symbol : ∀ text, Form.Spelled (.word .symbol text) [.identifier text] :=
    fun text => @Form.Spelled.word (.identifier text) text rfl
  have number : ∀ text, Form.Spelled (.word .number text) [.number text] :=
    fun text => @Form.Spelled.word (.number text) text rfl
  have first : Definition.Spelled _ _ :=
    @Definition.Spelled.intro (.identifier "x") "x" _ _ rfl
      (@Form.Spelled.call (.identifier "g") "g" _ _ rfl (.singleton (symbol "x")))
  have second : Definition.Spelled _ _ :=
    @Definition.Spelled.intro (.identifier "x") "x" _ _ rfl (number "1")
  have main : Form.Spelled _ _ :=
    @Form.Spelled.call (.identifier "x") "x" _ _ rfl
      (.cons (symbol "x") (.singleton (number "2")))
  refine .intro (.cons first (.singleton second)) main ?_
  rintro ⟨rest, same⟩
  injection same with _ same
  injection same with same _
  exact absurd same (by decide)

theorem parse_represents_redefinition :
    redefinition.Spelled redefinitionTokens ∧ redefinition.Shallow ∧
      ∃ program, Program.parse (redefinitionTokens ++ [.closeParen]) = .ok program ∧
        (∀ meaning, Represents program.bindings program.arena program.root meaning ↔
          meaning = .call "x" [.reference "x" (.call "g" [.primitive "x" .symbol]),
            .primitive "2" .number]) ∧
        program.bindings.entries.map Prod.fst = ["x"] ∧
        (program.bindings.entries.map Prod.snd).Nodup ∧
        ∀ name id, (name, id) ∈ program.bindings.entries →
          ∃ meaning, (Environment.ofDefinitions redefinition.definitions).lookup name =
              some meaning ∧
            Represents program.bindings program.arena id meaning := by
  have shallow : redefinition.Shallow := ⟨by decide, by decide⟩
  exact ⟨redefinition_spelled, shallow,
    parse_represents redefinition_spelled shallow [.closeParen]⟩

end ExprDiagram
