import PizzaChain.Foundation.Positions

/-! # Level order

The labels of a tree from the root down, each level from left to right. Taking
the front tree off a queue and putting its children behind the others lists a
whole forest in this order.
-/

namespace PizzaChain.RoseTree

def height : RoseTree α → Nat
  | .node _ children => (children.map height).foldr max 0 + 1

/-- The labels at a depth, from left to right. -/
def level : (depth : Nat) → RoseTree α → List α
  | 0, tree => [tree.label]
  | depth + 1, tree => tree.children.flatMap (level depth)

/-- The first levels of a forest, one after the other. -/
def forestOrder (bound : Nat) (trees : List (RoseTree α)) : List α :=
  (List.range bound).flatMap fun depth => trees.flatMap (level depth)

def levelOrder (tree : RoseTree α) : List α :=
  forestOrder tree.height [tree]

theorem height_pos (tree : RoseTree α) : 0 < tree.height := by
  cases tree with
  | node label children =>
      rw [height]
      omega

theorem le_foldr_max {values : List Nat} {value : Nat} (member : value ∈ values) :
    value ≤ values.foldr max 0 := by
  induction values with
  | nil => cases member
  | cons first rest induction =>
      rcases List.mem_cons.mp member with rfl | later
      · exact Nat.le_max_left _ _
      · exact Nat.le_trans (induction later) (Nat.le_max_right _ _)

theorem height_lt_of_mem (label : α) {children : List (RoseTree α)} {child : RoseTree α}
    (member : child ∈ children) : child.height < (RoseTree.node label children).height := by
  have bounded := le_foldr_max (List.mem_map_of_mem (f := height) member)
  rw [height]
  omega

theorem level_eq_nil {depth : Nat} {tree : RoseTree α} (low : tree.height ≤ depth) :
    level depth tree = [] := by
  induction depth generalizing tree with
  | zero =>
      have := tree.height_pos
      omega
  | succ depth induction =>
      cases tree with
      | node label children =>
          rw [level, RoseTree.children, List.flatMap_eq_nil_iff]
          intro child member
          have := height_lt_of_mem label member
          exact induction (by omega)

/-- Moving the first summand of every level behind the second shifts it by one
level. -/
theorem flatMap_range_append (first second : Nat → List α) (bound : Nat) :
    (List.range bound).flatMap (fun depth => first depth ++ second depth) ++ first bound =
      first 0 ++ (List.range bound).flatMap fun depth => second depth ++ first (depth + 1) := by
  induction bound with
  | zero => simp
  | succ bound induction =>
      rw [List.range_succ, List.flatMap_append, List.flatMap_append, ← List.append_assoc (first 0),
        ← induction]
      simp

/-- One turn of the queue. -/
theorem forestOrder_cons {bound : Nat} {label : α} {children rest : List (RoseTree α)}
    (low : (RoseTree.node label children).height ≤ bound) :
    forestOrder bound (.node label children :: rest) =
      label :: forestOrder bound (rest ++ children) := by
  have shifted := flatMap_range_append (fun depth => level depth (.node label children))
    (fun depth => rest.flatMap (level depth)) bound
  rw [level_eq_nil low, List.append_nil] at shifted
  simpa [forestOrder, level, RoseTree.label, RoseTree.children] using shifted

theorem forestOrder_nil (bound : Nat) : forestOrder bound ([] : List (RoseTree α)) = [] := by
  simp [forestOrder]

/-- What holds of the empty queue and carries over from the queue after a turn
to the queue before it holds of every queue. -/
theorem queueInduction {motive : List (RoseTree α) → Prop} (empty : motive [])
    (turn : ∀ label children rest, motive (rest ++ children) →
      motive (.node label children :: rest)) (queue : List (RoseTree α)) : motive queue := by
  generalize enough : (queue.map size).sum = total
  replace enough := Nat.le_of_eq enough
  induction total generalizing queue with
  | zero =>
      cases queue with
      | nil => exact empty
      | cons tree rest =>
          have := tree.size_pos
          simp only [List.map_cons, List.sum_cons] at enough
          omega
  | succ total induction =>
      rcases queue with _ | ⟨⟨label, children⟩, rest⟩
      · exact empty
      · exact turn label children rest (induction _ (sum_size_turn enough))

theorem low_turn {bound : Nat} {label : α} {children rest : List (RoseTree α)}
    (low : ∀ tree ∈ RoseTree.node label children :: rest, tree.height ≤ bound) :
    ∀ tree ∈ rest ++ children, tree.height ≤ bound := by
  intro tree member
  rcases List.mem_append.mp member with other | child
  · exact low tree (List.mem_cons_of_mem _ other)
  · have := low _ List.mem_cons_self
    have := height_lt_of_mem label child
    omega

/-- The order lists every label as often as it occurs. -/
theorem forestOrder_perm {bound : Nat} (queue : List (RoseTree α))
    (low : ∀ tree ∈ queue, tree.height ≤ bound) :
    (forestOrder bound queue).Perm (queue.flatMap labels) := by
  induction queue using queueInduction with
  | empty => rw [forestOrder_nil]; exact .refl _
  | turn label children rest induction =>
      rw [forestOrder_cons (low _ List.mem_cons_self), List.flatMap_cons, labels_node,
        List.cons_append]
      have order := induction (low_turn low)
      rw [List.flatMap_append] at order
      exact (order.trans List.perm_append_comm).cons label

theorem levelOrder_perm (tree : RoseTree α) : tree.levelOrder.Perm tree.labels := by
  have order := @forestOrder_perm _ tree.height [tree] (by simp)
  simpa [levelOrder] using order

theorem mem_levelOrder_iff {children : α → List α} {root : α} {tree : RoseTree α}
    (unfolds : Unfolds (namedGraph children) root tree) (name : α) :
    name ∈ tree.levelOrder ↔ Reachable (namedGraph children) root name := by
  rw [tree.levelOrder_perm.mem_iff, mem_labels_iff_reachable unfolds]

/-- The last label in order stands at a leaf. -/
theorem exists_leaf_of_getLast? {bound : Nat} (queue : List (RoseTree α))
    (low : ∀ tree ∈ queue, tree.height ≤ bound) {last : α}
    (found : (forestOrder bound queue).getLast? = some last) :
    ∃ tree ∈ queue, tree.Contains (.node last []) := by
  induction queue using queueInduction with
  | empty => simp [forestOrder_nil] at found
  | turn label children rest induction =>
      rw [forestOrder_cons (low _ List.mem_cons_self), List.getLast?_cons] at found
      cases later : (forestOrder bound (rest ++ children)).getLast? with
      | none =>
          rw [later] at found
          cases found
          have order := forestOrder_perm _ (low_turn low)
          rw [List.getLast?_eq_none_iff.mp later, List.nil_perm, List.flatMap_append] at order
          have noLabels := (List.append_eq_nil_iff.mp order).2
          have childless : children = [] := by
            cases children with
            | nil => rfl
            | cons child others =>
                rcases child with ⟨childLabel, below⟩
                simp [labels_node] at noLabels
          exact ⟨_, List.mem_cons_self, by rw [childless]; exact .self _⟩
      | some other =>
          rw [later] at found
          cases found
          rcases induction (low_turn low) later with ⟨tree, member, contains⟩
          rcases List.mem_append.mp member with inRest | inChildren
          · exact ⟨tree, List.mem_cons_of_mem _ inRest, contains⟩
          · exact ⟨_, List.mem_cons_self, .child inChildren contains⟩

end PizzaChain.RoseTree
