/-
This file selects a tree from the edges of a diagram: below each node stand those of its children
that the tree hangs from it. The walk goes depth first from the root and takes the children of a
node in order; a child is adopted by the node if it stands exactly one step deeper and has not been
adopted before, and then everything below it comes before the next child of the node.

The walk keeps a frame for each node it is inside of, with the children that are still to be
looked at. It ends because a child is adopted only once and a frame only grows shorter.

What is one step deeper is left open. The depths of a diagram are less than the number of its nodes
and are counted exactly; depths that are given as machine words go on with zero after the last word.
-/

namespace ExprDiagram

/-- A node whose children are being looked at, and those that are left. -/
abbrev Frame := Nat × List Nat

/-- The number of steps that a list of frames takes if no child is adopted. -/
def pending : List Frame → Nat
  | [] => 0
  | (_, rest) :: outer => rest.length + 1 + pending outer

theorem count_adopt_lt {adopted : Array Bool} {child : Nat} (bound : child < adopted.size)
    (free : adopted[child] = false) :
    (adopted.set child true).count false < adopted.count false := by
  have positive : 0 < adopted.count false := by
    rw [Array.count_pos_iff]
    exact free ▸ Array.getElem_mem bound
  rw [Array.count_set]
  simp only [free, beq_self_eq_true, if_true]
  have different : (true == false) = false := rfl
  simp only [different, Bool.false_eq_true, if_false]
  omega

/-- Goes on with the walk, where `below` holds what has been adopted so far, and `deeper` gives the
depth one step below another. There is no result when a number does not lie in the lists. -/
def adopt? (deeper : Nat → Nat) (children : Array (List Nat)) (depth : Array Nat)
    (frames : List Frame) (adopted : Array Bool) (below : Array (List Nat)) :
    Option (Array (List Nat)) :=
  match frames with
  | [] => some below
  | (_, []) :: outer => adopt? deeper children depth outer adopted below
  | (node, child :: rest) :: outer =>
    match depth[child]?, depth[node]? with
    | some childDepth, some nodeDepth =>
      if childDepth = deeper nodeDepth then
        if bound : child < adopted.size then
          match _free : adopted[child] with
          | true => adopt? deeper children depth ((node, rest) :: outer) adopted below
          | false =>
            match children[child]? with
            | none => none
            | some grandchildren =>
              adopt? deeper children depth ((child, grandchildren) :: (node, rest) :: outer)
                (adopted.set child true) (below.modify node (· ++ [child]))
        else none
      else adopt? deeper children depth ((node, rest) :: outer) adopted below
    | _, _ => none
termination_by (adopted.count false, pending frames)
decreasing_by
  · exact Prod.Lex.right _ (by simp [pending])
  · exact Prod.Lex.right _ (by simp [pending])
  · exact Prod.Lex.left _ _ (count_adopt_lt bound _free)
  · exact Prod.Lex.right _ (by simp [pending])

/-- For each node the children that the tree hangs from it, in order. Nodes outside the tree have
none. -/
def selectBelowBy? (deeper : Nat → Nat) (root : Nat) (children : Array (List Nat))
    (depth : Array Nat) : Option (Array (List Nat)) := do
  let first ← children[root]?
  adopt? deeper children depth [(root, first)] (Array.replicate children.size false)
    (Array.replicate children.size [])

/-- The number of machine words. -/
def wordCount : Nat := 18446744073709551616

/-- The machine word after another one; after the last comes zero. -/
def nextWord (word : Nat) : Nat := (word + 1) % wordCount

/-- For each node the children that the tree hangs from it, where depths are machine words. -/
def selectBelow? (root : Nat) (children : Array (List Nat)) (depth : Array Nat) :
    Option (Array (List Nat)) :=
  selectBelowBy? nextWord root children depth

end ExprDiagram
