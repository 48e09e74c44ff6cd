/-
This file finds definitions that the meaning of a script does not depend on. A definition of a taken
name changes what no word stands for. A definition of a free name may change what many words stand
for, those in later definitions among them, and when it is taken out a later definition of the name
may become the one that holds; but all of this shows only where a reference to the name stands, and
if the meaning of the script has none, it stays the same.

The two environments are compared by what they say of names whose meanings keep clear of a set of
hidden names. For a taken name nothing has to be hidden.
-/

import ExprDiagram.Proofs.Diagram.Sketching
import ExprDiagram.Proofs.Meaning.Elaboration

namespace ExprDiagram

open Relation

variable {hidden : String → Prop} {environment smaller : Environment} {definition : Definition}
variable {bindings : Bindings} {arena : Arena} {id : ExprId} {name : String} {meaning : Meaning}

/-! ### Mentioned names -/

/-- A reference to the name stands in the meaning. -/
inductive Meaning.Mentions (name : String) : Meaning → Prop
  | here (bound : Meaning) : Meaning.Mentions name (.reference name bound)
  | body {other : String} {bound : Meaning} (inside : bound.Mentions name) :
    Meaning.Mentions name (.reference other bound)
  | argument {label : String} {arguments : List Meaning} {meaning : Meaning}
    (member : meaning ∈ arguments) (inside : meaning.Mentions name) :
    Meaning.Mentions name (.call label arguments)

/-- No reference to a hidden name stands in the meaning. -/
def Meaning.Avoids (hidden : String → Prop) (meaning : Meaning) : Prop :=
  ∀ name, meaning.Mentions name → ¬ hidden name

theorem Meaning.Avoids.argument {label : String} {arguments : List Meaning}
    (avoids : (Meaning.call label arguments).Avoids hidden) :
    ∀ meaning ∈ arguments, meaning.Avoids hidden :=
  fun _ member name mentions => avoids name (.argument member mentions)

theorem Meaning.Avoids.body (avoids : (Meaning.reference name meaning).Avoids hidden) :
    meaning.Avoids hidden :=
  fun other mentions => avoids other (.body mentions)

theorem RepresentsAll.exists_of_mem {ids : List ExprId} {meanings : List Meaning}
    (represented : RepresentsAll bindings arena ids meanings) (member : meaning ∈ meanings) :
    ∃ id ∈ ids, Represents bindings arena id meaning := by
  induction meanings generalizing ids with
  | nil => cases member
  | cons first rest inductionHypothesis =>
    cases represented with
    | cons head tail =>
      rcases List.mem_cons.mp member with rfl | inRest
      · exact ⟨_, List.mem_cons_self, head⟩
      · obtain ⟨id, inIds, represented⟩ := inductionHypothesis tail inRest
        exact ⟨id, List.mem_cons_of_mem _ inIds, represented⟩

/-- The variable of a name that is mentioned can be reached. -/
theorem Meaning.Mentions.exists_reached (mentions : meaning.Mentions name)
    (represented : Represents bindings arena id meaning) :
    ∃ other, ReflTransGen arena.Holds id other ∧ bindings.lookup? name = some other := by
  induction mentions generalizing id with
  | here bound =>
    cases represented with
    | reference shared _ _ => exact ⟨id, .refl, shared⟩
  | body _ inductionHypothesis =>
    cases represented with
    | reference _ found inside =>
      obtain ⟨other, reached, bound⟩ := inductionHypothesis inside
      exact ⟨other, .head ⟨_, found, List.mem_singleton_self _⟩ reached, bound⟩
  | argument member _ inductionHypothesis =>
    cases represented with
    | call found arguments =>
      obtain ⟨child, inIds, inside⟩ := arguments.exists_of_mem member
      obtain ⟨other, reached, bound⟩ := inductionHypothesis inside
      exact ⟨other, .head ⟨_, found, inIds⟩ reached, bound⟩

/-! ### Environments that can stand in for others -/

/-- The smaller environment knows no more names than the other one, and agrees with it on every name
whose meaning avoids the hidden names. -/
structure Environment.Reduces (hidden : String → Prop) (environment smaller : Environment) :
    Prop where
  unknown : ∀ name, environment.lookup name = none → smaller.lookup name = none
  known : ∀ name meaning, environment.lookup name = some meaning → meaning.Avoids hidden →
    smaller.lookup name = some meaning

mutual
/-- A meaning that avoids the hidden names is the same in both environments. -/
theorem Form.meaning_of_reduces (form : Form) (reduces : environment.Reduces hidden smaller)
    (avoids : (form.meaning environment).Avoids hidden) :
    form.meaning smaller = form.meaning environment := by
  cases form with
  | word kind text =>
    rw [Form.meaning] at avoids ⊢
    rw [Form.meaning]
    cases found : environment.lookup text with
    | none => rw [reduces.unknown text found]
    | some meaning =>
      rw [found] at avoids
      rw [reduces.known text meaning found avoids]
  | call label arguments =>
    rw [Form.meaning] at avoids ⊢
    rw [Form.meaning, Form.meaningAll_of_reduces arguments reduces avoids.argument]

theorem Form.meaningAll_of_reduces (forms : List Form)
    (reduces : environment.Reduces hidden smaller)
    (avoids : ∀ meaning ∈ Form.meaningAll environment forms, meaning.Avoids hidden) :
    Form.meaningAll smaller forms = Form.meaningAll environment forms := by
  cases forms with
  | nil => rfl
  | cons form rest =>
    rw [Form.meaningAll] at avoids ⊢
    obtain ⟨here, later⟩ := List.forall_mem_cons.mp avoids
    rw [Form.meaningAll, form.meaning_of_reduces reduces here,
      Form.meaningAll_of_reduces rest reduces later]
end

/-- A definition of a name that is taken, or hidden, can be left out. -/
theorem Environment.reduces_define
    (ineffective : environment.lookup definition.name ≠ none ∨ hidden definition.name) :
    (environment.define definition).Reduces hidden environment := by
  refine ⟨fun name free => ?_, fun name meaning found avoids => ?_⟩
  · rw [Environment.lookup_define, Option.or_eq_none_iff] at free
    exact free.1
  · rw [Environment.lookup_define, Option.or_eq_some_iff] at found
    rcases found with before | ⟨free, added⟩
    · exact before
    · rw [Option.ite_none_right_eq_some] at added
      obtain ⟨rfl, added⟩ := added
      obtain rfl := Option.some.inj added
      rcases ineffective with taken | isHidden
      · exact absurd free taken
      · exact absurd isHidden (avoids _ (.here _))

/-- One definition more changes nothing of this: where the meaning of its body avoids the hidden
names, it is the same in both environments. -/
theorem Environment.Reduces.define (reduces : environment.Reduces hidden smaller)
    (definition : Definition) :
    (environment.define definition).Reduces hidden (smaller.define definition) := by
  refine ⟨fun name free => ?_, fun name meaning found avoids => ?_⟩
  · rw [Environment.lookup_define, Option.or_eq_none_iff] at free ⊢
    refine ⟨reduces.unknown name free.1, ?_⟩
    by_cases same : name = definition.name
    · rw [if_pos same] at free
      cases free.2
    · exact if_neg same
  · rw [Environment.lookup_define, Option.or_eq_some_iff] at found ⊢
    rcases found with before | ⟨free, added⟩
    · exact .inl (reduces.known name meaning before avoids)
    · rw [Option.ite_none_right_eq_some] at added
      obtain ⟨rfl, added⟩ := added
      obtain rfl := Option.some.inj added
      rw [if_pos rfl, definition.body.meaning_of_reduces reduces avoids.body]
      exact .inr ⟨reduces.unknown _ free, rfl⟩

theorem Environment.Reduces.foldl_define (reduces : environment.Reduces hidden smaller)
    (definitions : List Definition) :
    (definitions.foldl Environment.define environment).Reduces hidden
      (definitions.foldl Environment.define smaller) := by
  induction definitions generalizing environment smaller with
  | nil => exact reduces
  | cons definition rest inductionHypothesis =>
    exact inductionHypothesis (reduces.define definition)

/-! ### Scripts -/

theorem Environment.map_fst_foldl_define (definitions : List Definition)
    (environment : Environment) :
    (definitions.foldl Environment.define environment).map Prod.fst =
      environment.map Prod.fst ++ definitions.map Definition.name := by
  induction definitions generalizing environment with
  | nil => exact (List.append_nil _).symm
  | cons definition rest inductionHypothesis =>
    rw [List.foldl_cons, inductionHypothesis, Environment.define, List.map_append,
      List.append_assoc]
    rfl

theorem Environment.lookup_ofDefinitions_ne_none {definitions : List Definition}
    (member : name ∈ definitions.map Definition.name) :
    (Environment.ofDefinitions definitions).lookup name ≠ none := by
  rw [← List.nil_append (definitions.map Definition.name), ← List.map_nil,
    ← Environment.map_fst_foldl_define] at member
  obtain ⟨entry, inEntries, rfl⟩ := List.mem_map.mp member
  intro free
  exact absurd (List.lookup_eq_none_iff.mp free entry inEntries) (by simp)

/-- A definition of a name that is taken, or that the meaning of the script does not mention, can be
taken out of the script without a change to the meaning. -/
theorem Script.meaning_without {before after : List Definition} {main : Form}
    (ineffective : definition.name ∈ before.map Definition.name ∨
      ¬ (Script.meaning ⟨before ++ definition :: after, main⟩).Mentions definition.name) :
    Script.meaning ⟨before ++ after, main⟩ =
      Script.meaning ⟨before ++ definition :: after, main⟩ := by
  have reduced : ∀ hidden : String → Prop,
      ((Environment.ofDefinitions before).lookup definition.name ≠ none ∨
        hidden definition.name) →
      (Script.meaning ⟨before ++ definition :: after, main⟩).Avoids hidden →
      Script.meaning ⟨before ++ after, main⟩ =
        Script.meaning ⟨before ++ definition :: after, main⟩ := by
    intro hidden ineffective avoids
    have reduces := (Environment.reduces_define ineffective).foldl_define after
    simp only [Script.meaning, Environment.ofDefinitions, List.foldl_append,
      List.foldl_cons] at avoids ⊢
    exact main.meaning_of_reduces reduces avoids
  rcases ineffective with taken | unmentioned
  · exact reduced (fun _ => False) (.inl (Environment.lookup_ofDefinitions_ne_none taken))
      fun _ _ => id
  · refine reduced (· = definition.name) (.inr rfl) ?_
    rintro name mentions rfl
    exact unmentioned mentions

end ExprDiagram
