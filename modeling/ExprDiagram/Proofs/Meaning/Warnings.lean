/-
This file finds the warnings among the events of laying a text out. The definitions that are read
are those that stand at the beginning of the tokens, as many as there are, also where what follows
them is no program. Each of them whose name an earlier one has is warned of once, in the order in
which they stand, and there are no other warnings.
-/

import ExprDiagram.Journal
import ExprDiagram.Proofs.Grammar.Continuation
import ExprDiagram.Proofs.Meaning.Elaboration
import Mathlib.Data.List.Induction

namespace ExprDiagram

variable {reader next : Reader} {position : Nat} {token : Token} {tokens : List Token}

/-! ### The definitions that are read -/

/-- The definitions stand at the beginning of the tokens, and there are no more of them. One whose
calls are nested too deeply is no definition. -/
structure LeadingDefinitions (tokens : List Token) (definitions : List Definition) : Prop where
  spelled : ∃ front back, tokens = front ++ back ∧ Definition.SpelledAll definitions front
  shallow : ∀ definition ∈ definitions, definition.body.height ≤ maxNesting - 1
  longest : ∀ others front back, tokens = front ++ back → Definition.SpelledAll others front →
    (∀ definition ∈ others, definition.body.height ≤ maxNesting - 1) → others <+: definitions

namespace Reader

/-- What a token adds to the definitions stands behind the others. -/
theorem definitions_prefix_take (taken : reader.take position token = .ok next) :
    reader.definitions <+: next.definitions := by
  have unchanged : ∀ {definitions : List Definition} {computation : Except ParseError Stage},
      (do return ⟨definitions, ← computation⟩ : Except ParseError Reader) = .ok next →
      definitions <+: next.definitions := by
    intro definitions computation done
    obtain ⟨stage, _, rfl⟩ := ok_of_stage done
    exact List.prefix_rfl
  obtain ⟨definitions, stage⟩ := reader
  unfold take at taken
  cases stage with
  | between =>
    simp only at taken
    split at taken
    · exact Except.ok.inj taken ▸ List.prefix_rfl
    · exact unchanged taken
  | head =>
    simp only at taken
    split at taken
    · exact Except.ok.inj taken ▸ List.prefix_rfl
    · exact unchanged taken
  | closing name body =>
    simp only at taken
    split at taken
    · exact Except.ok.inj taken ▸ List.prefix_append _ _
    · cases taken
  | done main => exact Except.ok.inj taken ▸ List.prefix_rfl
  | _ => exact unchanged taken

theorem definitions_prefix_run (reader : Reader) (position : Nat) (tokens : List Token) :
    reader.definitions <+: (reader.run position tokens).definitions := by
  induction tokens generalizing reader position with
  | nil => exact List.prefix_rfl
  | cons token rest inductionHypothesis =>
    rw [run]
    split
    · exact List.prefix_rfl
    · split
      · exact List.prefix_rfl
      · rename_i next taken
        exact (definitions_prefix_take taken).trans (inductionHypothesis next (position + 1))

theorem Takes.reached {last : Reader} {consumed : List Token}
    (takes : Takes reader position tokens last) (reached : reader.Reached consumed) :
    last.Reached (consumed ++ tokens) := by
  induction takes generalizing consumed with
  | nil => rwa [List.append_nil]
  | cons unfinished taken _ inductionHypothesis =>
    have further := inductionHypothesis (reached_take reached unfinished taken)
    rwa [List.append_assoc] at further

/-- The definitions of a reading are those of a state that the reader comes to. -/
theorem exists_reached (tokens : List Token) :
    ∃ front back last, tokens = front ++ back ∧ Reached last front ∧
      (read tokens).definitions = last.definitions := by
  rcases takes_or_stops start 0 tokens with
    ⟨last, takes⟩ | ⟨front, token, rest, last, rfl, takes, complete | ⟨cause, refused⟩⟩
  · refine ⟨tokens, [], last, (List.append_nil tokens).symm, takes.reached reached_start, ?_⟩
    rw [read, ← List.append_nil tokens, takes.run_append]
    rfl
  · refine ⟨front, token :: rest, last, rfl, takes.reached reached_start, ?_⟩
    obtain ⟨definitions, stage⟩ := last
    obtain ⟨main, rfl⟩ := complete
    rw [read, takes.run_append, run_done]
  · refine ⟨front, token :: rest, last, rfl, takes.reached reached_start, ?_⟩
    rw [read, takes.run_append, run_cons_refused (unfinished_of_refused refused) refused]

end Reader

/-- The definitions that are read are those at the beginning of the tokens. -/
theorem read_leading (tokens : List Token) :
    LeadingDefinitions tokens (read tokens).definitions := by
  have longest : ∀ others front back, tokens = front ++ back →
      Definition.SpelledAll others front →
      (∀ definition ∈ others, definition.body.height ≤ maxNesting - 1) →
      others <+: (read tokens).definitions := by
    rintro others front back rfl spelled shallow
    have further := Reader.definitions_prefix_run ⟨others, .between⟩ (0 + front.length) back
    rwa [← List.nil_append others, ← Reader.run_definitions spelled shallow] at further
  obtain ⟨front, back, last, split, reached, same⟩ := Reader.exists_reached tokens
  cases reached with
  | @intro definitions stage first second defined shallow _ =>
    rw [List.append_assoc] at split
    rw [same] at longest ⊢
    exact ⟨⟨first, second ++ back, split, defined⟩, shallow, longest⟩

/-! ### Names that are taken -/

/-- The names of the definitions whose name an earlier definition has, in the order of the
definitions. -/
def redefinedNames (definitions : List Definition) : List String :=
  (definitions.zipIdx.filter fun item =>
    item.1.name ∈ (definitions.take item.2).map Definition.name).map fun item => item.1.name

theorem redefinedNames_concat (definitions : List Definition) (definition : Definition) :
    redefinedNames (definitions ++ [definition]) = redefinedNames definitions ++
      if definition.name ∈ definitions.map Definition.name then [definition.name] else [] := by
  have before : definitions.zipIdx.filter (fun item =>
        item.1.name ∈ ((definitions ++ [definition]).take item.2).map Definition.name) =
      definitions.zipIdx.filter fun item =>
        item.1.name ∈ (definitions.take item.2).map Definition.name := by
    refine List.filter_congr fun item member => ?_
    rw [List.take_append_of_le_length (Nat.le_of_lt (List.snd_lt_of_mem_zipIdx member))]
  rw [redefinedNames, List.zipIdx_append, List.filter_append, before, List.map_append,
    Nat.zero_add, List.zipIdx_singleton, List.filter_cons, List.take_left, List.filter_nil,
    redefinedNames]
  by_cases taken : definition.name ∈ definitions.map Definition.name
  · rw [if_pos taken, if_pos (decide_eq_true taken)]
    rfl
  · rw [if_neg taken, if_neg (by simpa using taken)]
    rfl

example : redefinedNames [⟨"x", .word .number "1"⟩, ⟨"y", .word .symbol "x"⟩,
    ⟨"x", .word .symbol "y"⟩] = ["x"] := by
  decide

/-- A definition is ignored exactly if its name is taken. -/
theorem Scope.ofDefinitions_ignored (definitions : List Definition) :
    (Scope.ofDefinitions definitions).ignored = redefinedNames definitions := by
  induction definitions using List.reverseRecOn with
  | nil => rfl
  | append_singleton definitions definition inductionHypothesis =>
    have elaborates := Scope.elaborates_ofDefinitions definitions
    have known : definition.name ∈ definitions.map Definition.name ↔
        definition.name ∈ (ofDefinitions definitions).bindings.entries.map Prod.fst := by
      rw [elaborates.names, List.mem_eraseDups]
    have step : ofDefinitions (definitions ++ [definition]) =
        (ofDefinitions definitions).define definition := by
      rw [ofDefinitions, List.foldl_append]
      rfl
    rw [step, redefinedNames_concat, ← inductionHypothesis]
    cases bound : (ofDefinitions definitions).bindings.lookup? definition.name with
    | some id =>
      have taken := known.mpr <| Decidable.byContradiction fun absent => by
        rw [Bindings.lookup?_eq_none_iff.mpr absent] at bound
        cases bound
      rw [define_taken bound, if_pos taken]
    | none =>
      have free := Bindings.lookup?_eq_none_iff.mp bound
      rw [define_free bound, if_neg fun taken => free (known.mp taken), List.append_nil]

/-! ### Events -/

variable {α : Type}

/-- The events that are warnings, in their order. -/
def warnings (events : List (Event α)) : List (Event α) :=
  events.filter fun event => event.severity = .warning

theorem warnings_append (first second : List (Event α)) :
    warnings (first ++ second) = warnings first ++ warnings second :=
  List.filter_append first second

theorem warnings_eq_nil {events : List (Event α)}
    (quiet : ∀ event ∈ events, event.severity ≠ .warning) : warnings events = [] :=
  List.filter_eq_nil_iff.mpr fun event member => mt of_decide_eq_true (quiet event member)

variable [Coordinate α]

theorem Arrangement.severity_ne_warning (arrangement : Arrangement α) :
    ∀ event ∈ arrangement.events, event.severity ≠ .warning := by
  have moves : ∀ event ∈ ((arrangement.moves?.getD []).map fun move =>
      Event.moved move.1 move.2.1 move.2.2), event.severity ≠ .warning := by
    intro event member
    obtain ⟨move, _, rfl⟩ := List.mem_map.mp member
    exact Severity.noConfusion
  intro event member
  rw [Arrangement.events] at member
  split at member
  · exact moves event member
  · rcases List.mem_append.mp member with inMoves | last
    · exact moves event inMoves
    · rw [List.mem_singleton.mp last]
      exact Severity.noConfusion

/-- Laying a program out is nothing to be warned of. -/
theorem Program.severity_ne_warning (program : Program) :
    ∀ event ∈ (program.events : List (Event α)), event.severity ≠ .warning := by
  intro event member
  rw [Program.events] at member
  split at member
  · cases member
  · rcases List.mem_cons.mp member with rfl | inRest
    · exact Severity.noConfusion
    · split at inRest
      · cases inRest
      · exact Arrangement.severity_ne_warning _ event inRest

theorem Reading.warnings_events (reading : Reading) :
    warnings (reading.events : List (Event α)) =
      (redefinedNames reading.definitions).map .ignoredDefinition := by
  have ignored : warnings ((Scope.ofDefinitions reading.definitions).ignored.map
        (Event.ignoredDefinition : String → Event α)) =
      (redefinedNames reading.definitions).map .ignoredDefinition := by
    rw [Scope.ofDefinitions_ignored]
    refine List.filter_eq_self.mpr fun event member => ?_
    obtain ⟨name, _, rfl⟩ := List.mem_map.mp member
    rfl
  rw [Reading.events]
  split
  · exact ignored
  · rename_i main trailing _
    have noTokens : warnings (if trailing = 0 then [] else [Event.ignoredTokens trailing] :
        List (Event α)) = [] := by
      split <;> rfl
    rw [warnings_append, warnings_append, ignored, noTokens, List.append_nil,
      warnings_eq_nil, List.append_nil]
    exact List.forall_mem_cons.mpr ⟨Severity.noConfusion, Program.severity_ne_warning _⟩

/-- The warnings of laying a text out are of the definitions whose name is taken. -/
theorem warnings_journal (source : String) :
    warnings (journal source : List (Event α)) =
      (redefinedNames (read (tokenize source)).definitions).map .ignoredDefinition :=
  Reading.warnings_events (read (tokenize source))

end ExprDiagram
