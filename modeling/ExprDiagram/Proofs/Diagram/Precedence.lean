/-
This file holds two orders that a tree below nodes can keep. What hangs below one node may follow the
list of its children. And going over all nodes in order, a child may hang below the first node that
it stands directly below; this is said along the order, with the children that are known so far, so
that two stretches of an order can be put together.
-/

import ExprDiagram.Proofs.Diagram.Longest
import ExprDiagram.Proofs.Trees.Listed

namespace ExprDiagram

open RoseTree

variable {children : Array (List Nat)} {depth : Array Nat} {below : Array (List Nat)}
variable {node child : Nat} {more : List Nat}

/-! ### Chosen children -/

/-- Some of the numbers of a list, in the order in which they first stand in it. -/
structure Chosen (chosen nodes : List Nat) : Prop where
  subset : chosen ⊆ nodes
  ordered : chosen.Pairwise fun first second => nodes.idxOf first < nodes.idxOf second

namespace Chosen

variable {chosen nodes : List Nat}

theorem nil (nodes : List Nat) : Chosen [] nodes := ⟨List.nil_subset _, .nil⟩

theorem nodup (some : Chosen chosen nodes) : chosen.Nodup :=
  some.ordered.imp fun less same => absurd (same ▸ less) (Nat.lt_irrefl _)

theorem idxOf_cons_lt {first second : Nat} (outside : child ≠ second)
    (less : child ≠ first → nodes.idxOf first < nodes.idxOf second) :
    (child :: nodes).idxOf first < (child :: nodes).idxOf second := by
  rw [List.idxOf_cons_ne nodes outside]
  by_cases same : child = first
  · rw [same, List.idxOf_cons_self]
    exact Nat.succ_pos _
  · rw [List.idxOf_cons_ne nodes same]
    exact Nat.succ_lt_succ (less same)

theorem skip (some : Chosen chosen nodes) (outside : child ∉ chosen) :
    Chosen chosen (child :: nodes) := by
  refine ⟨fun node member => List.mem_cons_of_mem _ (some.subset member), ?_⟩
  refine some.ordered.imp_of_mem fun _ second less => idxOf_cons_lt ?_ fun _ => less
  exact (ne_of_mem_of_not_mem second outside).symm

theorem cons (some : Chosen chosen nodes) (outside : child ∉ chosen) :
    Chosen (child :: chosen) (child :: nodes) := by
  have longer := some.skip outside
  refine ⟨List.cons_subset.mpr ⟨List.mem_cons_self, longer.subset⟩,
    List.pairwise_cons.mpr ⟨fun node member => ?_, longer.ordered⟩⟩
  exact idxOf_cons_lt (ne_of_mem_of_not_mem member outside).symm fun different =>
    absurd rfl different

theorem idxOf_map {rename : Nat → Nat} {node : Nat}
    (injective : ∀ other ∈ nodes, rename other = rename node → other = node) :
    (nodes.map rename).idxOf (rename node) = nodes.idxOf node := by
  induction nodes with
  | nil => rfl
  | cons first rest inductionHypothesis =>
    rw [List.map_cons]
    by_cases same : first = node
    · rw [same, List.idxOf_cons_self, List.idxOf_cons_self]
    · have different : rename first ≠ rename node :=
        fun equal => same (injective first List.mem_cons_self equal)
      rw [List.idxOf_cons_ne _ same, List.idxOf_cons_ne _ different,
        inductionHypothesis fun other member => injective other (List.mem_cons_of_mem _ member)]

/-- New numbers change neither the choice nor the order. -/
theorem map (some : Chosen chosen nodes) {rename : Nat → Nat}
    (injective : ∀ first ∈ nodes, ∀ second ∈ nodes, rename first = rename second → first = second) :
    Chosen (chosen.map rename) (nodes.map rename) := by
  refine ⟨List.map_subset _ some.subset, List.pairwise_map.mpr ?_⟩
  refine some.ordered.imp_of_mem fun {first second} inFirst inSecond less => ?_
  rw [idxOf_map fun other member => injective other member first (some.subset inFirst),
    idxOf_map fun other member => injective other member second (some.subset inSecond)]
  exact less

end Chosen

/-! ### First come -/

/-- One node stands in the list of the other, exactly one row below it. -/
def Tight (children : Array (List Nat)) (depth : Array Nat) (node child : Nat) : Prop :=
  Step children node child ∧ level depth child = level depth node + 1

/-- Going over nodes in order, what stands in the list of a node exactly one row below it hangs below
the node, unless it is known by then: from the start, or as something below a node that came before. -/
def FirstCome (children : Array (List Nat)) (depth : Array Nat) (below : Array (List Nat))
    (known : Nat → Prop) : List Nat → Prop
  | [] => True
  | node :: rest =>
    (∀ child, Tight children depth node child → known child ∨ child ∈ list below node) ∧
      FirstCome children depth below (fun child => known child ∨ child ∈ list below node) rest

namespace FirstCome

variable {known knownOther : Nat → Prop} {belowOther : Array (List Nat)} {nodes : List Nat}

theorem imp (some : FirstCome children depth below known nodes)
    (same : ∀ node ∈ nodes, belowOther[node]? = below[node]?)
    (implied : ∀ node ∈ nodes, ∀ child, Tight children depth node child → known child →
      knownOther child) : FirstCome children depth belowOther knownOther nodes := by
  induction nodes generalizing known knownOther with
  | nil => trivial
  | cons node rest inductionHypothesis =>
    have sameList : list belowOther node = list below node := by
      rw [list, list, same node List.mem_cons_self]
    refine ⟨fun child tight => ?_, inductionHypothesis some.2
      (fun other member => same other (List.mem_cons_of_mem _ member))
      fun other member child tight => ?_⟩
    · rw [sameList]
      exact (some.1 child tight).imp_left (implied node List.mem_cons_self child tight)
    · rw [sameList]
      exact Or.imp_left (implied other (List.mem_cons_of_mem _ member) child tight)

theorem append (first : FirstCome children depth below known nodes)
    (second : FirstCome children depth below
      (fun child => known child ∨ ∃ node ∈ nodes, child ∈ list below node) more) :
    FirstCome children depth below known (nodes ++ more) := by
  induction nodes generalizing known with
  | nil =>
    refine second.imp (fun _ _ => rfl) fun _ _ child _ => ?_
    exact fun either => either.resolve_right fun ⟨_, member, _⟩ => List.not_mem_nil member
  | cons node rest inductionHypothesis =>
    refine ⟨first.1, inductionHypothesis first.2 (second.imp (fun _ _ => rfl) ?_)⟩
    rintro _ _ child _ (before | ⟨other, member, hangs⟩)
    · exact .inl (.inl before)
    · rcases List.mem_cons.mp member with rfl | inRest
      · exact .inl (.inr hangs)
      · exact .inr ⟨other, inRest, hangs⟩

/-- What stands one row below a node hangs below the node or one that came before, if it was not known
from the start. -/
theorem exists_before (some : FirstCome children depth below known nodes) (member : node ∈ nodes)
    (tight : Tight children depth node child) : known child ∨
      ∃ first ∈ nodes, nodes.idxOf first ≤ nodes.idxOf node ∧ child ∈ list below first := by
  induction nodes generalizing known with
  | nil => cases member
  | cons top rest inductionHypothesis =>
    by_cases here : top = node
    · subst here
      exact (some.1 child tight).imp_right fun hangs => ⟨top, member, Nat.le_refl _, hangs⟩
    · have inRest : node ∈ rest := (List.mem_cons.mp member).resolve_left (Ne.symm here)
      rcases inductionHypothesis some.2 inRest with (before | hangs) | ⟨first, inFirst, less, hangs⟩
      · exact .inl before
      · refine .inr ⟨top, List.mem_cons_self, ?_, hangs⟩
        rw [List.idxOf_cons_self]
        exact Nat.zero_le _
      · refine .inr ⟨first, List.mem_cons_of_mem _ inFirst, ?_, hangs⟩
        rw [List.idxOf_cons_ne _ here]
        by_cases same : top = first
        · rw [same, List.idxOf_cons_self]
          exact Nat.zero_le _
        · rw [List.idxOf_cons_ne _ same]
          exact Nat.succ_le_succ less

end FirstCome

end ExprDiagram
