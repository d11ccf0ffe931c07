import Mathlib.Data.Set.Card
import PizzaChain.Foundation.Unfolding

/-! # Positions in a tree

A position is the list of child indices on the way down to it, so equal parts
at different places have different positions.
-/

namespace PizzaChain

namespace RoseTree

def label : RoseTree α → α
  | .node label _ => label

def children : RoseTree α → List (RoseTree α)
  | .node _ children => children

/-- The part at the end of a downward path. -/
def follow : RoseTree α → (path : List Nat) → Option (RoseTree α)
  | tree, [] => some tree
  | .node _ children, index :: path => children[index]?.bind fun child => child.follow path

theorem contains_iff_follow {tree part : RoseTree α} :
    tree.Contains part ↔ ∃ path, tree.follow path = some part := by
  constructor
  · intro contains
    induction contains with
    | self tree => exact ⟨[], by rw [follow]⟩
    | child member _ induction =>
        rcases induction with ⟨path, found⟩
        rcases List.getElem?_of_mem member with ⟨index, child⟩
        exact ⟨index :: path, by simp [follow, child, found]⟩
  · intro followed
    rcases followed with ⟨path, found⟩
    induction path generalizing tree with
    | nil =>
        rw [follow] at found
        cases found
        exact .self _
    | cons index path induction =>
        rcases tree with ⟨label, children⟩
        rw [follow] at found
        rcases Option.bind_eq_some_iff.mp found with ⟨child, childFound, below⟩
        exact .child (List.mem_of_getElem? childFound) (induction below)

mutual

/-- Every position of a tree with the part that stands there. -/
def positions : RoseTree α → List (List Nat × RoseTree α)
  | .node label children => ([], .node label children) :: positionsFrom 0 children

/-- The positions below a node, in its children from the given index on. -/
def positionsFrom : (start : Nat) → List (RoseTree α) → List (List Nat × RoseTree α)
  | _, [] => []
  | start, child :: rest =>
      child.positions.map (fun position => (start :: position.1, position.2)) ++
        positionsFrom (start + 1) rest

end

theorem mem_positionsFrom_iff {start : Nat} {children : List (RoseTree α)} {path : List Nat}
    {part : RoseTree α} :
    (path, part) ∈ positionsFrom start children ↔
      ∃ index rest child, path = (start + index) :: rest ∧ children[index]? = some child ∧
        (rest, part) ∈ child.positions := by
  induction children generalizing start with
  | nil => simp [positionsFrom]
  | cons first others induction =>
      rw [positionsFrom, List.mem_append, induction, List.mem_map]
      constructor
      · intro member
        rcases member with ⟨⟨rest, other⟩, member, equal⟩ |
          ⟨index, rest, child, equal, found, member⟩
        · cases equal
          exact ⟨0, rest, first, rfl, rfl, member⟩
        · exact ⟨index + 1, rest, child, by rw [equal, Nat.add_assoc, Nat.add_comm 1], found,
            member⟩
      · intro member
        rcases member with ⟨index, rest, child, equal, found, member⟩
        cases index with
        | zero =>
            cases found
            exact .inl ⟨(rest, part), member, by rw [equal]; rfl⟩
        | succ index =>
            exact .inr ⟨index, rest, child, by rw [equal, Nat.add_assoc, Nat.add_comm 1], found,
              member⟩

/-- The listed positions are those that can be followed. -/
theorem mem_positions_iff {tree part : RoseTree α} {path : List Nat} :
    (path, part) ∈ tree.positions ↔ tree.follow path = some part := by
  induction path generalizing tree with
  | nil =>
      cases tree with
      | node label children =>
          simp only [positions, follow, List.mem_cons, mem_positionsFrom_iff, Prod.mk.injEq]
          simp [eq_comm]
  | cons index path induction =>
      cases tree with
      | node label children =>
          simp only [positions, follow, List.mem_cons, mem_positionsFrom_iff, Prod.mk.injEq,
            Option.bind_eq_some_iff, ← induction]
          simp

theorem nodup_positionsFrom (start : Nat) (children : List (RoseTree α))
    (each : ∀ child ∈ children, (child.positions.map Prod.fst).Nodup) :
    ((positionsFrom start children).map Prod.fst).Nodup := by
  induction children generalizing start with
  | nil => simp [positionsFrom]
  | cons first others induction =>
      rw [positionsFrom, List.map_append, List.nodup_append, List.map_map]
      refine ⟨?_, induction _ fun child member => each child (List.mem_cons_of_mem _ member), ?_⟩
      · have firstNodup := (each first List.mem_cons_self).map (List.cons_injective (a := start))
        rwa [List.map_map] at firstNodup
      · intro left leftMember right rightMember equal
        subst equal
        rcases List.mem_map.mp leftMember with ⟨leftPosition, _, leftPath⟩
        rcases List.mem_map.mp rightMember with ⟨⟨rightPath, part⟩, rightPosition, samePath⟩
        rcases mem_positionsFrom_iff.mp rightPosition with ⟨index, rest, _, shifted, _⟩
        have heads : start = start + 1 + index := by
          have paths := leftPath.trans (samePath.symm.trans shifted)
          exact (List.cons.inj paths).1
        omega

/-- No position is listed twice. -/
theorem nodup_positions (tree : RoseTree α) : (tree.positions.map Prod.fst).Nodup := by
  induction tree using induct with
  | node label children induction =>
      rw [positions, List.map_cons, List.nodup_cons]
      refine ⟨?_, nodup_positionsFrom 0 children induction⟩
      intro member
      rcases List.mem_map.mp member with ⟨⟨path, part⟩, position, empty⟩
      rcases mem_positionsFrom_iff.mp position with ⟨index, rest, _, equal, _⟩
      exact List.cons_ne_nil _ _ (equal.symm.trans empty)

/-! ## Labels -/

/-- The labels of all nodes, each as often as it occurs. -/
def labels (tree : RoseTree α) : List α :=
  tree.positions.map fun position => position.2.label

theorem map_positionsFrom (start : Nat) (children : List (RoseTree α)) :
    (positionsFrom start children).map (fun position => position.2.label) =
      children.flatMap labels := by
  induction children generalizing start with
  | nil => rfl
  | cons first others induction =>
      rw [positionsFrom, List.map_append, List.map_map, induction, List.flatMap_cons]
      rfl

theorem labels_node (label : α) (children : List (RoseTree α)) :
    (RoseTree.node label children).labels = label :: children.flatMap labels := by
  rw [labels, positions, List.map_cons, map_positionsFrom]
  rfl

theorem mem_labels_iff {tree : RoseTree α} {value : α} :
    value ∈ tree.labels ↔ ∃ part, tree.Contains part ∧ part.label = value := by
  constructor
  · intro member
    induction tree using induct with
    | node label children induction =>
        rw [labels_node] at member
        rcases List.mem_cons.mp member with equal | below
        · exact ⟨.node label children, .self _, equal.symm⟩
        · rcases List.mem_flatMap.mp below with ⟨child, childMember, inside⟩
          rcases induction child childMember inside with ⟨part, contains, labelled⟩
          exact ⟨part, .child childMember contains, labelled⟩
  · intro labelledPart
    rcases labelledPart with ⟨part, contains, labelled⟩
    induction contains with
    | self tree =>
        rcases tree with ⟨label, children⟩
        rw [labels_node, ← labelled]
        exact List.mem_cons_self
    | child member _ induction =>
        rw [labels_node]
        exact List.mem_cons_of_mem _ (List.mem_flatMap.mpr ⟨_, member, induction labelled⟩)

theorem countP_labels_le_of_contains (test : α → Bool) {tree part : RoseTree α}
    (contains : tree.Contains part) : part.labels.countP test ≤ tree.labels.countP test := by
  induction contains with
  | self tree => exact Nat.le_refl _
  | child member _ induction =>
      rw [labels_node, List.countP_cons]
      rcases List.append_of_mem member with ⟨before, after, split⟩
      rw [split, List.flatMap_append, List.flatMap_cons, List.countP_append, List.countP_append]
      omega

/-- A label occurs as often as there are positions that carry it. -/
theorem encard_follow_label [DecidableEq α] (tree : RoseTree α) (value : α) :
    Set.encard { path | ∃ part, tree.follow path = some part ∧ part.label = value } =
      tree.labels.count value := by
  let carrying := tree.positions.filter fun position => position.2.label == value
  have nodup : (carrying.map Prod.fst).Nodup :=
    tree.nodup_positions.sublist (List.filter_sublist.map _)
  have same : { path | ∃ part, tree.follow path = some part ∧ part.label = value } =
      ((carrying.map Prod.fst).toFinset : Set (List Nat)) := by
    ext path
    simp [carrying, mem_positions_iff]
  rw [same, Set.encard_coe_eq_coe_finsetCard, List.toFinset_card_of_nodup nodup, List.length_map,
    labels, List.count_eq_countP, List.countP_map, List.countP_eq_length_filter]
  rfl

end RoseTree

/-! ## Graphs in which every name is its own label -/

def namedGraph (children : ν → List ν) (name : ν) : Option (ν × List ν) :=
  some (name, children name)

section NamedGraph

variable {children : ν → List ν}

theorem edge_namedGraph_iff {parent child : ν} :
    Edge (namedGraph children) parent child ↔ child ∈ children parent := by
  constructor
  · intro edge
    rcases edge with ⟨_, others, found, member⟩
    cases found
    exact member
  · intro member
    exact ⟨parent, _, rfl, member⟩

theorem complete_namedGraph (root : ν) : Complete (namedGraph children) root :=
  fun name _ => ⟨name, children name, rfl⟩

theorem unfolds_namedGraph_node_iff {name label : ν} {trees : List (RoseTree ν)} :
    Unfolds (namedGraph children) name (.node label trees) ↔
      label = name ∧ List.Forall₂ (Unfolds (namedGraph children)) (children name) trees := by
  rw [unfolds_node_iff]
  constructor
  · intro unfolded
    rcases unfolded with ⟨others, found, below⟩
    cases found
    exact ⟨rfl, below⟩
  · intro unfolded
    exact ⟨_, by rw [unfolded.1]; rfl, unfolded.2⟩

/-- The labels of the unfolded tree are the reachable names. -/
theorem mem_labels_iff_reachable {root : ν} {tree : RoseTree ν}
    (unfolds : Unfolds (namedGraph children) root tree) (name : ν) :
    name ∈ tree.labels ↔ Reachable (namedGraph children) root name := by
  rw [RoseTree.mem_labels_iff]
  constructor
  · intro labelled
    rcases labelled with ⟨⟨label, trees⟩, contains, same⟩
    rcases exists_reachable_of_contains contains .refl unfolds with ⟨other, reachable, below⟩
    have named := (unfolds_namedGraph_node_iff.mp below).1
    rw [RoseTree.label] at same
    rwa [← same, named]
  · intro reachable
    rcases exists_contains_of_reachable unfolds reachable with ⟨⟨label, trees⟩, contains, below⟩
    exact ⟨_, contains, (unfolds_namedGraph_node_iff.mp below).1⟩

/-! ## Downward paths -/

/-- The name at the end of a downward path, where a child that is listed twice
gives two steps. -/
def descend (entry : ν → Option (α × List ν)) : (name : ν) → (path : List Nat) → Option ν
  | name, [] => some name
  | name, index :: path =>
      (entry name).bind fun found => found.2[index]?.bind fun child => descend entry child path

/-- Going down the graph is going down the tree that it unfolds to. -/
theorem descend_eq_some_iff {name : ν} {tree : RoseTree ν}
    (unfolds : Unfolds (namedGraph children) name tree) {path : List Nat} {other : ν} :
    descend (namedGraph children) name path = some other ↔
      ∃ part, tree.follow path = some part ∧ part.label = other := by
  induction path generalizing name tree with
  | nil =>
      rcases tree with ⟨label, trees⟩
      simp [descend, RoseTree.follow, RoseTree.label, (unfolds_namedGraph_node_iff.mp unfolds).1]
  | cons index path induction =>
      rcases tree with ⟨label, trees⟩
      have childrenUnfold := (unfolds_namedGraph_node_iff.mp unfolds).2
      rcases getElem?_related childrenUnfold index with ⟨noName, noTree⟩ |
        ⟨child, childTree, childFound, treeFound, childUnfolds⟩
      · simp [descend, namedGraph, RoseTree.follow, noName, noTree]
      · simp [descend, namedGraph, RoseTree.follow, childFound, treeFound,
          ← induction childUnfolds]

/-- A name labels as many nodes of the unfolded tree as there are downward paths
to it. -/
theorem encard_descend [DecidableEq ν] {root : ν} {tree : RoseTree ν}
    (unfolds : Unfolds (namedGraph children) root tree) (name : ν) :
    Set.encard { path | descend (namedGraph children) root path = some name } =
      tree.labels.count name := by
  rw [← tree.encard_follow_label name]
  congr 1
  ext path
  exact descend_eq_some_iff unfolds

end NamedGraph

end PizzaChain
