import Mathlib.Algebra.GroupWithZero.Nat
import Mathlib.Data.Fintype.Card
import Mathlib.Data.Set.Finite.List
import Mathlib.Logic.Relation
import PizzaChain.Foundation.Lists

/-! # Unfolding a graph into a tree

A finite graph whose names carry a label and an ordered list of children, with
sharing and repetition, unfolds into a finite tree when no cycle is reachable.
-/

namespace PizzaChain

/-! ## Ordered trees -/

inductive RoseTree (α : Type u) : Type u
  | node (label : α) (children : List (RoseTree α))

namespace RoseTree

theorem induct {motive : RoseTree α → Prop}
    (node : ∀ label children, (∀ child ∈ children, motive child) →
      motive (.node label children)) (tree : RoseTree α) : motive tree :=
  match tree with
  | .node label children => node label children fun child _ => induct node child

/-- The number of nodes. -/
def size : RoseTree α → Nat
  | .node _ children => 1 + (children.map size).sum

theorem size_pos (tree : RoseTree α) : 0 < tree.size := by
  cases tree with
  | node label children =>
      rw [size]
      omega

theorem size_lt_of_mem (label : α) {children : List (RoseTree α)} {child : RoseTree α}
    (member : child ∈ children) : child.size < (RoseTree.node label children).size := by
  rcases List.append_of_mem member with ⟨before, after, split⟩
  rw [split, size, List.map_append, List.sum_append, List.map_cons, List.sum_cons]
  omega

/-- Putting the children of the first tree behind the others takes one node off. -/
theorem sum_size_turn {label : α} {children rest : List (RoseTree α)} {fuel : Nat}
    (enough : ((RoseTree.node label children :: rest).map size).sum ≤ fuel + 1) :
    ((rest ++ children).map size).sum ≤ fuel := by
  simp only [List.map_cons, List.sum_cons, size, List.map_append, List.sum_append] at enough ⊢
  omega

/-- The second tree is the first or stands somewhere below its root. -/
inductive Contains : RoseTree α → RoseTree α → Prop
  | self (tree) : Contains tree tree
  | child {label children child tree} : child ∈ children → Contains child tree →
      Contains (.node label children) tree

theorem Contains.tail {tree : RoseTree α} {label : α} {children : List (RoseTree α)}
    (contains : tree.Contains (.node label children)) {child : RoseTree α}
    (member : child ∈ children) : tree.Contains child := by
  generalize equal : RoseTree.node label children = part at contains
  induction contains with
  | self tree => exact equal ▸ .child member (.self child)
  | child inside _ induction => exact .child inside (induction equal)

theorem Contains.trans {tree middle part : RoseTree α} (upper : tree.Contains middle)
    (lower : middle.Contains part) : tree.Contains part := by
  induction upper with
  | self => exact lower
  | child member _ induction => exact .child member (induction lower)

end RoseTree

/-! ## Failing lookups over a list -/

theorem mapM_eq_some_iff {lookup : α → Option β} {values : List α} {results : List β} :
    values.mapM lookup = some results ↔
      List.Forall₂ (fun value result => lookup value = some result) values results := by
  induction values generalizing results with
  | nil =>
      cases results with
      | nil => simp
      | cons result rest => simp
  | cons value values induction =>
      cases found : lookup value with
      | none => cases results <;> simp [found]
      | some first =>
          cases others : values.mapM lookup <;> cases results <;>
            simp [found, others, ← induction]

/-! ## Graphs and their unfoldings -/

section Graph

variable (entry : ν → Option (α × List ν))

def Edge (parent child : ν) : Prop :=
  ∃ label children, entry parent = some (label, children) ∧ child ∈ children

abbrev Reachable (root name : ν) : Prop :=
  Relation.ReflTransGen (Edge entry) root name

/-- No cycle is reachable from the root. -/
def Acyclic (root : ν) : Prop :=
  ∀ name, Reachable entry root name → ¬Relation.TransGen (Edge entry) name name

/-- Every name that is reachable from the root has an entry. -/
def Complete (root : ν) : Prop :=
  ∀ name, Reachable entry root name → ∃ label children, entry name = some (label, children)

/-- The tree below a name, cut off with `none` below the given height. -/
def unfold : (height : Nat) → ν → Option (RoseTree α)
  | 0, _ => none
  | height + 1, name =>
      match entry name with
      | none => none
      | some (label, children) => (children.mapM (unfold height)).map (.node label)

/-- The tree obtained by unfolding the graph from a name. -/
def Unfolds (name : ν) (tree : RoseTree α) : Prop :=
  ∃ height, unfold entry height name = some tree

variable {entry}

theorem unfold_succ_eq_some_iff {height : Nat} {name : ν} {label : α}
    {trees : List (RoseTree α)} :
    unfold entry (height + 1) name = some (.node label trees) ↔
      ∃ children, entry name = some (label, children) ∧
        List.Forall₂ (fun child tree => unfold entry height child = some tree) children trees := by
  rw [unfold]
  cases found : entry name with
  | none => simp
  | some pair =>
      cases pair with
      | mk other children =>
          constructor
          · intro equal
            simp only [Option.map_eq_some_iff, RoseTree.node.injEq] at equal
            rcases equal with ⟨results, unfolded, labels, trees⟩
            subst labels trees
            exact ⟨children, rfl, mapM_eq_some_iff.mp unfolded⟩
          · rintro ⟨others, equal, unfolded⟩
            cases equal
            simp [mapM_eq_some_iff.mpr unfolded]

theorem unfold_mono {low high : Nat} (higher : low ≤ high) {name : ν} {tree : RoseTree α}
    (unfolded : unfold entry low name = some tree) : unfold entry high name = some tree := by
  induction low generalizing high name tree with
  | zero => simp [unfold] at unfolded
  | succ low induction =>
      cases high with
      | zero => omega
      | succ high =>
          cases tree with
          | node label trees =>
              rcases unfold_succ_eq_some_iff.mp unfolded with ⟨children, found, below⟩
              refine unfold_succ_eq_some_iff.mpr ⟨children, found, below.imp ?_⟩
              intro child tree childUnfolded
              exact induction (Nat.le_of_succ_le_succ higher) childUnfolded

theorem Unfolds.unique {name : ν} {left right : RoseTree α}
    (leftUnfolds : Unfolds entry name left) (rightUnfolds : Unfolds entry name right) :
    left = right := by
  rcases leftUnfolds with ⟨leftHeight, leftUnfolded⟩
  rcases rightUnfolds with ⟨rightHeight, rightUnfolded⟩
  have leftHigh := unfold_mono (Nat.le_max_left leftHeight rightHeight) leftUnfolded
  have rightHigh := unfold_mono (Nat.le_max_right leftHeight rightHeight) rightUnfolded
  exact Option.some.inj (leftHigh.symm.trans rightHigh)

/-- Trees below several names are found at one height. -/
theorem exists_height_of_forall₂ {names : List ν} {trees : List (RoseTree α)}
    (unfolded : List.Forall₂ (Unfolds entry) names trees) :
    ∃ height, List.Forall₂ (fun name tree => unfold entry height name = some tree)
      names trees := by
  induction unfolded with
  | nil => exact ⟨0, .nil⟩
  | cons first _ induction =>
      rcases first with ⟨firstHeight, firstUnfolded⟩
      rcases induction with ⟨restHeight, restUnfolded⟩
      refine ⟨max firstHeight restHeight, .cons ?_ (restUnfolded.imp ?_)⟩
      · exact unfold_mono (Nat.le_max_left _ _) firstUnfolded
      · intro name tree unfolded
        exact unfold_mono (Nat.le_max_right _ _) unfolded

theorem unfolds_node_iff {name : ν} {label : α} {trees : List (RoseTree α)} :
    Unfolds entry name (.node label trees) ↔
      ∃ children, entry name = some (label, children) ∧
        List.Forall₂ (Unfolds entry) children trees := by
  constructor
  · rintro ⟨height, unfolded⟩
    cases height with
    | zero => simp [unfold] at unfolded
    | succ height =>
        rcases unfold_succ_eq_some_iff.mp unfolded with ⟨children, found, below⟩
        exact ⟨children, found, below.imp fun _ _ childUnfolded => ⟨height, childUnfolded⟩⟩
  · rintro ⟨children, found, below⟩
    rcases exists_height_of_forall₂ below with ⟨height, unfolded⟩
    exact ⟨height + 1, unfold_succ_eq_some_iff.mpr ⟨children, found, unfolded⟩⟩

theorem exists_forall₂_of_forall {names : List ν}
    (available : ∀ name ∈ names, ∃ tree, Unfolds entry name tree) :
    ∃ trees, List.Forall₂ (Unfolds entry) names trees := by
  induction names with
  | nil => exact ⟨[], .nil⟩
  | cons name names induction =>
      rcases available name List.mem_cons_self with ⟨tree, unfolded⟩
      rcases induction fun other member => available other (List.mem_cons_of_mem _ member) with
        ⟨trees, rest⟩
      exact ⟨tree :: trees, .cons unfolded rest⟩

/-- A graph with more entries unfolds to the same trees. -/
theorem Unfolds.mono {larger : ν → Option (α × List ν)}
    (extended : ∀ name found, entry name = some found → larger name = some found) {name : ν}
    {tree : RoseTree α} (unfolds : Unfolds entry name tree) : Unfolds larger name tree := by
  induction tree using RoseTree.induct generalizing name with
  | node label trees induction =>
      rcases unfolds_node_iff.mp unfolds with ⟨children, found, below⟩
      apply unfolds_node_iff.mpr
      refine ⟨children, extended name _ found, ?_⟩
      clear found unfolds
      induction below with
      | nil => exact .nil
      | cons first _ rest =>
          exact .cons (induction _ List.mem_cons_self first)
            (rest fun tree member => induction tree (List.mem_cons_of_mem _ member))

/-- A graph whose edges lie over those of another one unfolds where that does. -/
theorem exists_unfolds_of_lift {lifted : μ → Option (β × List μ)} (base : μ → ν)
    (lies : ∀ name label children, entry (base name) = some (label, children) →
      ∃ liftedLabel liftedChildren, lifted name = some (liftedLabel, liftedChildren) ∧
        ∀ child ∈ liftedChildren, base child ∈ children)
    {name : μ} {tree : RoseTree α} (unfolds : Unfolds entry (base name) tree) :
    ∃ liftedTree, Unfolds lifted name liftedTree := by
  induction tree using RoseTree.induct generalizing name with
  | node label trees induction =>
      rcases unfolds_node_iff.mp unfolds with ⟨children, found, below⟩
      rcases lies name label children found with ⟨liftedLabel, liftedChildren, liftedFound, inside⟩
      have available : ∀ child ∈ liftedChildren, ∃ liftedTree, Unfolds lifted child liftedTree := by
        intro child member
        rcases exists_related below (inside child member) with ⟨tree, treeMember, childUnfolds⟩
        exact induction tree treeMember childUnfolds
      rcases exists_forall₂_of_forall available with ⟨liftedTrees, liftedBelow⟩
      exact ⟨.node liftedLabel liftedTrees,
        unfolds_node_iff.mpr ⟨liftedChildren, liftedFound, liftedBelow⟩⟩

/-- Every part of the tree below a reachable name is the tree below a reachable
name. -/
theorem exists_reachable_of_contains {root name : ν} {tree part : RoseTree α}
    (contains : tree.Contains part) (reachable : Reachable entry root name)
    (unfolds : Unfolds entry name tree) :
    ∃ other, Reachable entry root other ∧ Unfolds entry other part := by
  induction contains generalizing name with
  | self tree => exact ⟨name, reachable, unfolds⟩
  | @child label children child part member _ induction =>
      rcases unfolds_node_iff.mp unfolds with ⟨names, found, childrenUnfold⟩
      rcases exists_related childrenUnfold.flip member with ⟨childName, childMember, childUnfolds⟩
      exact induction (reachable.tail ⟨label, names, found, childMember⟩) childUnfolds

/-- The tree below every reachable name is a part of the whole tree. -/
theorem exists_contains_of_reachable {root name : ν} {tree : RoseTree α}
    (unfolds : Unfolds entry root tree) (reachable : Reachable entry root name) :
    ∃ part, tree.Contains part ∧ Unfolds entry name part := by
  induction reachable with
  | refl => exact ⟨tree, .self tree, unfolds⟩
  | tail _ edge induction =>
      rcases induction with ⟨⟨label, below⟩, contains, partUnfolds⟩
      rcases unfolds_node_iff.mp partUnfolds with ⟨names, found, childrenUnfold⟩
      rcases edge with ⟨_, others, entryFound, member⟩
      rw [found] at entryFound
      cases entryFound
      rcases exists_related childrenUnfold member with ⟨child, childMember, childUnfolds⟩
      exact ⟨child, contains.tail childMember, childUnfolds⟩

/-- A rank that falls along every edge rules out cycles. -/
theorem acyclic_of_rank (rank : ν → Nat)
    (falls : ∀ parent child, Edge entry parent child → rank child < rank parent) (root : ν) :
    Acyclic entry root := by
  have below : ∀ first last, Relation.TransGen (Edge entry) first last →
      rank last < rank first := by
    intro first last path
    induction path with
    | single edge => exact falls _ _ edge
    | tail _ edge induction => exact Nat.lt_trans (falls _ _ edge) induction
  intro name _ cycle
  exact Nat.lt_irrefl _ (below name name cycle)

/-- A property that the root has and every child inherits holds at every
reachable name. -/
theorem Reachable.inherit {root : ν} {property : ν → Prop} (atRoot : property root)
    (inherited : ∀ parent child, property parent → Edge entry parent child → property child)
    {name : ν} (reachable : Reachable entry root name) : property name := by
  induction reachable with
  | refl => exact atRoot
  | tail _ edge induction => exact inherited _ _ induction edge

/-- A graph that unfolds from a name has no cycle below it: a tree is larger
than the trees below its children. -/
theorem acyclic_of_unfolds {root : ν} {tree : RoseTree α} (unfolds : Unfolds entry root tree) :
    Acyclic entry root := by
  have smaller : ∀ first last, Relation.TransGen (Edge entry) first last →
      ∀ whole, Unfolds entry first whole → ∃ part, Unfolds entry last part ∧
        part.size < whole.size := by
    intro first last path
    have step : ∀ parent child, Edge entry parent child → ∀ whole, Unfolds entry parent whole →
        ∃ part, Unfolds entry child part ∧ part.size < whole.size := by
      intro parent child edge whole wholeUnfolds
      rcases whole with ⟨label, trees⟩
      rcases unfolds_node_iff.mp wholeUnfolds with ⟨names, found, childrenUnfold⟩
      rcases edge with ⟨_, others, entryFound, member⟩
      rw [found] at entryFound
      cases entryFound
      rcases exists_related childrenUnfold member with ⟨part, partMember, partUnfolds⟩
      exact ⟨part, partUnfolds, RoseTree.size_lt_of_mem label partMember⟩
    induction path with
    | single edge => exact step _ _ edge
    | tail _ edge induction =>
        intro whole wholeUnfolds
        rcases induction whole wholeUnfolds with ⟨middle, middleUnfolds, middleSmaller⟩
        rcases step _ _ edge middle middleUnfolds with ⟨part, partUnfolds, partSmaller⟩
        exact ⟨part, partUnfolds, Nat.lt_trans partSmaller middleSmaller⟩
  intro name reachable cycle
  rcases exists_contains_of_reachable unfolds reachable with ⟨whole, _, wholeUnfolds⟩
  rcases smaller name name cycle whole wholeUnfolds with ⟨part, partUnfolds, partSmaller⟩
  rw [partUnfolds.unique wholeUnfolds] at partSmaller
  exact Nat.lt_irrefl _ partSmaller

/-- Going to a child is well-founded below the root when finitely many names and
no cycle are reachable. -/
theorem wellFounded_child {root : ν} (finite : Set.Finite { name | Reachable entry root name })
    (acyclic : Acyclic entry root) :
    WellFounded fun child parent : { name // Reachable entry root name } =>
      Edge entry parent.val child.val := by
  have : Finite { name // Reachable entry root name } := finite
  let below : { name // Reachable entry root name } →
      { name // Reachable entry root name } → Prop :=
    fun child parent => Relation.TransGen (Edge entry) parent.val child.val
  have transitive : IsTrans _ below :=
    ⟨fun _ _ _ first second => second.trans first⟩
  have irreflexive : Std.Irrefl below :=
    ⟨fun name cycle => acyclic name.val name.property cycle⟩
  exact Subrelation.wf (fun edge => Relation.TransGen.single edge)
    (Finite.wellFounded_of_trans_of_irrefl below)

/-- A complete graph with finitely many reachable names and no reachable cycle
unfolds from every reachable name. -/
theorem exists_unfolds_of_finite {root : ν}
    (finite : Set.Finite { name | Reachable entry root name }) (complete : Complete entry root)
    (acyclic : Acyclic entry root) {name : ν} (reachable : Reachable entry root name) :
    ∃ tree, Unfolds entry name tree := by
  let start : { name // Reachable entry root name } := ⟨name, reachable⟩
  change ∃ tree, Unfolds entry start.val tree
  induction start using (wellFounded_child finite acyclic).induction with
  | _ parent induction =>
      rcases complete parent.val parent.property with ⟨label, children, found⟩
      have available : ∀ child ∈ children, ∃ tree, Unfolds entry child tree := by
        intro child member
        have edge : Edge entry parent.val child := ⟨label, children, found, member⟩
        exact induction ⟨child, parent.property.tail edge⟩ edge
      rcases exists_forall₂_of_forall available with ⟨trees, unfolded⟩
      exact ⟨.node label trees, unfolds_node_iff.mpr ⟨children, found, unfolded⟩⟩

/-- A finite complete graph without a reachable cycle unfolds from every
reachable name. -/
theorem exists_unfolds (keys : List ν)
    (covered : ∀ name label children, entry name = some (label, children) → name ∈ keys)
    {root : ν} (complete : Complete entry root) (acyclic : Acyclic entry root)
    {name : ν} (reachable : Reachable entry root name) : ∃ tree, Unfolds entry name tree := by
  refine exists_unfolds_of_finite ((List.finite_toSet keys).subset ?_) complete acyclic reachable
  intro other otherReachable
  rcases complete other otherReachable with ⟨label, children, found⟩
  exact covered other label children found

end Graph

end PizzaChain
