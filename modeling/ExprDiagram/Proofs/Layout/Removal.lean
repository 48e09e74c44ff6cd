/-
This file shows that a definition without effect leaves no trace in the layout. When a definition of
a taken name, or of a name whose variable cannot be reached, is taken out of the tokens, the
expressions after it get other numbers, and a later definition of the name may come to hold; but the
meaning of the program stays the same, a diagram is determined by the meaning, and a layout by the
diagram. That a name is taken is all there is to be warned of.
-/

import ExprDiagram.Proofs.Diagram.Determined
import ExprDiagram.Proofs.Grammar.Unambiguous
import ExprDiagram.Proofs.Layout.Sharing
import ExprDiagram.Proofs.Meaning.Removal
import ExprDiagram.Proofs.Meaning.Warnings

namespace ExprDiagram

/-- A definition that stands behind others in a program has no effect there: its name is taken, or
nothing that can be reached is the variable of its name. -/
def Definition.Ineffective (definition : Definition) (before : List Definition)
    (program : Program) : Prop :=
  definition.name ∈ before.map Definition.name ∨
    ∀ id ∈ program.reachable, program.bindings.lookup? definition.name ≠ some id

/-- The meaning of a script is the same without a definition that has no effect in its program. -/
theorem Script.meaning_of_ineffective {before after : List Definition} {definition : Definition}
    {main : Form}
    (ineffective : definition.Ineffective before
      (Script.program ⟨before ++ definition :: after, main⟩)) :
    Script.meaning ⟨before ++ after, main⟩ =
      Script.meaning ⟨before ++ definition :: after, main⟩ := by
  refine Script.meaning_without (ineffective.imp_right fun unreached mentions => ?_)
  obtain ⟨id, reached, bound⟩ := mentions.exists_reached (Script.program_represents _).2
  exact unreached id reached bound

/-- Scripts of one meaning have one layout. -/
theorem Script.exists_layout_of_meaning (α : Type) [Coordinate α] {script other : Script}
    (same : script.meaning = other.meaning) :
    ∃ layout : Layout α, Layout.ofProgram script.program = .ok layout ∧
      Layout.ofProgram other.program = .ok layout := by
  obtain ⟨diagram, drawn, drawnOther⟩ := Script.exists_diagram_of_meaning same
  obtain ⟨_, _, layout, _, _, computed, _, _⟩ := Layout.ofProgram_displays α drawn
  refine ⟨layout, computed, ?_⟩
  rw [Layout.ofProgram, drawnOther, ← drawn]
  exact computed

/-- Taking a definition without effect out of the tokens of a program leaves a program with the same
layout. The warnings of laying a text out name the definitions, among those at its beginning, whose
name an earlier one has, each of them once and in their order. -/
theorem layout_without_definition (α : Type) [Coordinate α] :
    (∀ (before : List Definition) (definition : Definition) (first middle rest : List Token)
      (program : Program), Definition.SpelledAll before first → definition.Spelled middle →
      Program.parse (first ++ middle ++ rest) = .ok program →
      definition.Ineffective before program →
      ∃ (other : Program) (layout : Layout α), Program.parse (first ++ rest) = .ok other ∧
        Layout.ofProgram program = .ok layout ∧ Layout.ofProgram other = .ok layout) ∧
    ∀ source, LeadingDefinitions (tokenize source) (read (tokenize source)).definitions ∧
      warnings (journal source : List (Event α)) =
        (redefinedNames (read (tokenize source)).definitions).map .ignoredDefinition := by
  refine ⟨fun before definition first middle rest program defined spelled parsed ineffective => ?_,
    fun source => ⟨read_leading (tokenize source), warnings_journal source⟩⟩
  obtain ⟨after, main, rfl, shorter⟩ := parse_without defined spelled parsed
  obtain ⟨layout, computed, same⟩ :=
    Script.exists_layout_of_meaning α (Script.meaning_of_ineffective ineffective)
  exact ⟨_, layout, shorter, same, computed⟩

/-- The definition of a name that is defined again and not used. -/
def unusedTokens : List Token :=
  [.openParen, .identifier "define", .identifier "x", .number "1", .closeParen]

/-- Another definition of the name, which uses it. -/
def againTokens : List Token :=
  [.openParen, .identifier "define", .identifier "x", .openParen, .identifier "g",
    .identifier "x", .closeParen, .closeParen]

/-- The program with both definitions. -/
def unusedProgram : Program :=
  ⟨⟨#[.primitive "1" .number, .var "x" 0, .call "g" [1], .primitive "f" .symbol]⟩, ⟨[("x", 1)]⟩, 3⟩

theorem layout_without_definition_unused :
    Program.parse (unusedTokens ++ againTokens ++ [.identifier "f"]) = .ok unusedProgram ∧
      (∃ (other : Program) (layout : Layout Float),
        Program.parse (againTokens ++ [.identifier "f"]) = .ok other ∧
        Layout.ofProgram unusedProgram = .ok layout ∧ Layout.ofProgram other = .ok layout) ∧
      (∃ (other : Program) (layout : Layout Float),
        Program.parse (unusedTokens ++ [.identifier "f"]) = .ok other ∧
        Layout.ofProgram unusedProgram = .ok layout ∧ Layout.ofProgram other = .ok layout) ∧
      warnings (journal "(define x 1) (define x (g x)) f" : List (Event Float)) =
        [.ignoredDefinition "x"] := by
  have unused : Definition.Spelled ⟨"x", .word .number "1"⟩ unusedTokens :=
    @Definition.Spelled.intro (.identifier "x") "x" _ _ rfl
      (@Form.Spelled.word (.number "1") "1" rfl)
  have again : Definition.Spelled ⟨"x", .call "g" [.word .symbol "x"]⟩ againTokens :=
    @Definition.Spelled.intro (.identifier "x") "x" _ _ rfl
      (@Form.Spelled.call (.identifier "g") "g" _ _ rfl
        (.singleton (@Form.Spelled.word (.identifier "x") "x" rfl)))
  have parsed : Program.parse (unusedTokens ++ againTokens ++ [.identifier "f"]) =
      .ok unusedProgram := by decide +kernel
  have unreached : ∀ id ∈ unusedProgram.reachable,
      unusedProgram.bindings.lookup? "x" ≠ some id := by
    intro id reached
    rcases Relation.ReflTransGen.cases_head reached with rfl | ⟨child, ⟨expr, found, member⟩, _⟩
    · decide
    · obtain rfl := Option.some.inj found
      cases member
  have names : redefinedNames (read (tokenize "(define x 1) (define x (g x)) f")).definitions =
      ["x"] := by decide +kernel
  obtain ⟨without, warned⟩ := layout_without_definition Float
  refine ⟨parsed, ?_, ?_, ?_⟩
  · exact without [] _ [] unusedTokens (againTokens ++ [.identifier "f"]) _ .nil unused parsed
      (.inr unreached)
  · exact without _ _ unusedTokens againTokens _ _ (.singleton unused) again parsed
      (.inl List.mem_cons_self)
  · obtain ⟨_, warnings⟩ := warned "(define x 1) (define x (g x)) f"
    rw [warnings, names]
    rfl

end ExprDiagram
