import PizzaChain.Foundation.Unfolding

/-! # Replacing parts of a tree

Every part that meets a test is replaced by one tree, which is left as it is.
-/

namespace PizzaChain

namespace RoseTree

def substitute : RoseTree α → (test : RoseTree α → Bool) → (new : RoseTree α) → RoseTree α
  | .node label children, test, new =>
      if test (.node label children) then new
      else .node label (children.map fun child => child.substitute test new)

variable {test : RoseTree α → Bool} {new : RoseTree α}

theorem substitute_of_test {tree : RoseTree α} (meets : test tree = true) :
    tree.substitute test new = new := by
  rcases tree with ⟨label, children⟩
  rw [substitute, if_pos meets]

theorem substitute_of_not_test {label : α} {children : List (RoseTree α)}
    (fails : test (.node label children) = false) :
    (RoseTree.node label children).substitute test new =
      .node label (children.map fun child => child.substitute test new) := by
  rw [substitute, fails, if_neg Bool.false_ne_true]

/-- A tree stays as it is when no part that meets the test differs from what is
put in. -/
theorem substitute_eq_self {tree : RoseTree α}
    (same : ∀ part, tree.Contains part → test part = true → part = new) :
    tree.substitute test new = tree := by
  induction tree using induct with
  | node label children induction =>
      cases meets : test (.node label children) with
      | true => rw [substitute_of_test meets, same _ (.self _) meets]
      | false =>
          rw [substitute_of_not_test meets]
          congr 1
          refine (List.map_congr_left fun child member => ?_).trans (List.map_id _)
          exact induction child member fun part contains => same part (.child member contains)

/-- A part of the result is a part of what was put in, or comes from a part of
the tree. -/
theorem exists_of_contains_substitute {tree part : RoseTree α}
    (contains : (tree.substitute test new).Contains part) :
    new.Contains part ∨ ∃ whole, tree.Contains whole ∧ part = whole.substitute test new := by
  induction tree using induct with
  | node label children induction =>
      cases meets : test (.node label children) with
      | true =>
          rw [substitute_of_test meets] at contains
          exact .inl contains
      | false =>
          rw [substitute_of_not_test meets] at contains
          cases contains with
          | self =>
              exact .inr ⟨_, .self _, (substitute_of_not_test meets).symm⟩
          | child member below =>
              rcases List.mem_map.mp member with ⟨child, childMember, same⟩
              subst same
              rcases induction child childMember below with inside | ⟨whole, inside, same⟩
              · exact .inl inside
              · exact .inr ⟨whole, .child childMember inside, same⟩

/-- When a tree stays as it is although a part meets the test, what was put in is
such a part itself. -/
theorem test_of_substitute_eq_self {tree part : RoseTree α}
    (same : tree.substitute test new = tree) (contains : tree.Contains part)
    (meets : test part = true) : test new = true := by
  induction contains with
  | self tree =>
      rw [substitute_of_test meets] at same
      rwa [same]
  | @child label children child part member _ induction =>
      cases root : test (.node label children) with
      | true =>
          rw [substitute_of_test root] at same
          rwa [same]
      | false =>
          rw [substitute_of_not_test root, RoseTree.node.injEq] at same
          have fixed := List.map_inj_left.mp (same.2.trans (List.map_id _).symm)
          exact induction (fixed child member) meets

end RoseTree

end PizzaChain
