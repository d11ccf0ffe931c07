import PizzaChain.Assets.ParentChains
import PizzaChain.Foundation.Substitution

/-! # Changes and the substituted tree

Each change of `changeAsset` is compared with the tree in which every occurrence
of the old asset is replaced. With one way up to the root all changes agree with
it exactly when each parent has one link to the changed child.
-/

namespace PizzaChain.Assets

variable {runtime : Runtime}

/-- The part is the tree of an asset with the hash of the given one. -/
def isTreeOf (asset : Asset runtime) (part : RoseTree Fields) : Bool :=
  (treeAsset runtime part).hash == asset.hash

section Trees

variable {store : LinkedStore runtime} {rootAsset oldAsset : Asset runtime}
  {newTree : RoseTree Fields}

theorem substitute_of_not_reaches {hash : String} {tree : RoseTree Fields}
    (unfolds : Unfolds (assetGraph store.assets) hash tree)
    (apart : ¬Reachable (assetGraph store.assets) hash oldAsset.hash) :
    tree.substitute (isTreeOf oldAsset) newTree = tree := by
  apply RoseTree.substitute_eq_self
  intro part contains meets
  rcases exists_reachable_of_contains contains .refl unfolds with ⟨name, reachable, partUnfolds⟩
  rw [isTreeOf, hash_of_unfolds partUnfolds, beq_iff_eq] at meets
  exact absurd (meets ▸ reachable) apart

theorem substitute_old {tree : RoseTree Fields}
    (unfolds : Unfolds (assetGraph store.assets) oldAsset.hash tree) :
    tree.substitute (isTreeOf oldAsset) newTree = newTree := by
  apply RoseTree.substitute_of_test
  rw [isTreeOf, hash_of_unfolds unfolds, beq_self_eq_true]

/-- Substituting a tree with the hash of the old asset changes no hash. -/
theorem hash_substitute_of_same {tree : RoseTree Fields}
    (same : (treeAsset runtime newTree).hash = oldAsset.hash) :
    (treeAsset runtime (tree.substitute (isTreeOf oldAsset) newTree)).hash =
      (treeAsset runtime tree).hash := by
  induction tree using RoseTree.induct with
  | node data children induction =>
      cases meets : isTreeOf oldAsset (.node data children) with
      | true =>
          rw [RoseTree.substitute_of_test meets, same]
          exact (eq_of_beq meets).symm
      | false =>
          rw [RoseTree.substitute_of_not_test meets, treeAsset, treeAsset, List.map_map]
          congr 2
          exact List.map_congr_left induction

/-- With single parents the substitution changes one hash in a parent. -/
theorem LinkedStore.SingleParents.substitute_parent
    (single : store.SingleParents rootAsset oldAsset) (old : store.Under rootAsset oldAsset)
    (search : ParentSearch store rootAsset) (newTree : RoseTree Fields)
    {child parent : Asset runtime} (above : store.Above rootAsset oldAsset child)
    (under : store.Under rootAsset parent) (linked : child.hash ∈ parent.childHashes)
    {childTree parentTree : RoseTree Fields}
    (childUnfolds : Unfolds (assetGraph store.assets) child.hash childTree)
    (parentUnfolds : Unfolds (assetGraph store.assets) parent.hash parentTree) :
    let changed := treeAsset runtime (childTree.substitute (isTreeOf oldAsset) newTree)
    treeAsset runtime (parentTree.substitute (isTreeOf oldAsset) newTree) =
        .create runtime (parent.childHashes.map fun hash =>
          if hash = child.hash then changed.hash else hash) parent.data ∧
      (parentTree.substitute (isTreeOf oldAsset) newTree).Contains
        (childTree.substitute (isTreeOf oldAsset) newTree) := by
  intro changed
  rcases parentTree with ⟨data, children⟩
  rcases unfolds_node_iff.mp parentUnfolds with ⟨hashes, found, below⟩
  have contents := assetGraph_eq_some_iff.mp found
  rw [lookupAsset_hash store.unique under.member] at contents
  have sameAsset := Option.some.inj contents
  have sameHashes : parent.childHashes = hashes := by rw [sameAsset]; rfl
  have sameData : parent.data = data := by rw [sameAsset]; rfl
  have lower : isTreeOf oldAsset (.node data children) = false := by
    rw [isTreeOf, hash_of_unfolds parentUnfolds, beq_eq_false_iff_ne]
    intro same
    exact LinkedStore.not_reachable_of_link under.member linked (same ▸ above.reaches)
  rw [RoseTree.substitute_of_not_test lower]
  constructor
  · rw [treeAsset, sameHashes, sameData, List.map_map]
    congr 1
    apply map_eq_map_of_related below _ fun tree => (treeAsset runtime
      (tree.substitute (isTreeOf oldAsset) newTree)).hash
    intro hash member tree treeUnfolds
    by_cases same : hash = child.hash
    · subst same
      rw [if_pos rfl, treeUnfolds.unique childUnfolds]
    · rw [if_neg same, substitute_of_not_reaches treeUnfolds, hash_of_unfolds treeUnfolds]
      intro reaches
      rw [← sameHashes] at member
      rcases LinkedStore.exists_child under member with ⟨other, otherUnder, named⟩
      subst named
      exact same (congrArg Asset.hash
        (single.same_child old search ⟨otherUnder, reaches⟩ above under member linked))
  · rw [sameHashes] at linked
    rcases exists_related below linked with ⟨tree, member, treeUnfolds⟩
    rw [childUnfolds.unique treeUnfolds]
    exact .child (List.mem_map_of_mem member) (.self _)

end Trees

/-! ## Changes that agree with the substitution -/

/-- The changed asset is that of the tree with the old asset substituted. -/
def Faithful (store : LinkedStore runtime) (oldAsset : Asset runtime) (newTree : RoseTree Fields)
    (change : Asset runtime × Asset runtime) : Prop :=
  ∀ tree, Unfolds (assetGraph store.assets) change.1.hash tree →
    change.2 = treeAsset runtime (tree.substitute (isTreeOf oldAsset) newTree)

section Changes

variable {store : LinkedStore runtime} {rootAsset oldAsset newAsset : Asset runtime}
  {search : ParentSearch store rootAsset} {newTree : RoseTree Fields}

theorem faithful_old (sameNew : treeAsset runtime newTree = newAsset) :
    Faithful store oldAsset newTree (oldAsset, newAsset) := by
  intro tree unfolds
  rw [substitute_old unfolds, sameNew]

/-- Changing the first link of a parent agrees with the substitution when there is
only one link, or when the child does not change. -/
theorem LinkedStore.SingleParents.faithful_parent_iff
    (single : store.SingleParents rootAsset oldAsset) (old : store.Under rootAsset oldAsset)
    (search : ParentSearch store rootAsset) {child changed parent : Asset runtime}
    (above : store.Above rootAsset oldAsset child) (under : store.Under rootAsset parent)
    (linked : child.hash ∈ parent.childHashes)
    (faithful : Faithful store oldAsset newTree (child, changed)) :
    Faithful store oldAsset newTree (parent, parent.relink child changed) ↔
      parent.childHashes.count child.hash ≤ 1 ∨ changed.hash = child.hash := by
  rcases store.exists_unfolds above.under.member with ⟨childTree, childUnfolds, _⟩
  rcases store.exists_unfolds under.member with ⟨parentTree, parentUnfolds, _⟩
  have substituted := (single.substitute_parent old search newTree above under linked childUnfolds
    parentUnfolds).1
  rw [← faithful childTree childUnfolds] at substituted
  rw [← set_idxOf_eq_map_iff]
  constructor
  · intro parentFaithful
    have equal := (parentFaithful parentTree parentUnfolds).trans substituted
    exact congrArg Asset.childHashes equal
  · intro equal tree treeUnfolds
    rw [treeUnfolds.unique parentUnfolds, substituted, Asset.relink, equal]

/-- With one way up and one link at each step every change agrees. -/
theorem faithful_of_change (single : store.SingleParents rootAsset oldAsset)
    (old : store.Under rootAsset oldAsset) (sameNew : treeAsset runtime newTree = newAsset)
    (links : newAsset = oldAsset ∨ store.SingleLinks rootAsset oldAsset)
    {change : Asset runtime × Asset runtime}
    (made : Reachable (namedGraph (changes search.getParent)) (oldAsset, newAsset) change) :
    Faithful store oldAsset newTree change := by
  induction made with
  | refl => exact faithful_old sameNew
  | @tail child parent before edge induction =>
      rcases (edge_changes_iff search).mp edge with ⟨⟨under, linked⟩, relinked⟩
      have above := above_of_change old before
      have agrees := (single.faithful_parent_iff old search above under linked
        (show Faithful store oldAsset newTree (child.1, child.2) from induction)).mpr
      rw [← relinked] at agrees
      apply agrees
      rcases links with unchanged | once
      · right
        rcases store.exists_unfolds above.under.member with ⟨tree, unfolds, _⟩
        rw [induction tree unfolds, hash_substitute_of_same, hash_of_unfolds unfolds]
        rw [sameNew, unchanged]
      · exact .inl (once _ _ above under linked).le

/-! ## The tree of the new root -/

/-- The assets over which the new root is unfolded: no two have the same hash. -/
structure Known (search : ParentSearch store rootAsset) (oldAsset newAsset : Asset runtime)
    (newTree : RoseTree Fields) (known : List (Asset runtime)) : Prop where
  unique : HashesUnique known
  stored : ∀ asset ∈ store.assets, asset ∈ known
  changed : ∀ change, Reachable (namedGraph (changes search.getParent)) (oldAsset, newAsset)
    change → change.2 ∈ known
  inserted : ∀ part, newTree.Contains part → treeAsset runtime part ∈ known

variable {known : List (Asset runtime)}

theorem mem_store_of_contains {hash : String} {tree part : RoseTree Fields}
    (unfolds : Unfolds (assetGraph store.assets) hash tree) (contains : tree.Contains part) :
    treeAsset runtime part ∈ store.assets :=
  (mem_of_lookupAsset (lookupAsset_of_contains unfolds contains)).1

namespace Known

/-- When all changes agree, the parts of a substituted tree are known. -/
theorem unfolds_substitute (holds : Known search oldAsset newAsset newTree known)
    (old : store.Under rootAsset oldAsset)
    (faithful : ∀ change, Reachable (namedGraph (changes search.getParent)) (oldAsset, newAsset)
      change → Faithful store oldAsset newTree change)
    {asset : Asset runtime} (under : store.Under rootAsset asset) {tree : RoseTree Fields}
    (unfolds : Unfolds (assetGraph store.assets) asset.hash tree) :
    Unfolds (assetGraph known)
      (treeAsset runtime (tree.substitute (isTreeOf oldAsset) newTree)).hash
      (tree.substitute (isTreeOf oldAsset) newTree) := by
  apply unfolds_of_held holds.unique
  intro part contains
  rcases RoseTree.exists_of_contains_substitute contains with inside | ⟨whole, inside, same⟩
  · exact holds.inserted part inside
  · subst same
    rcases exists_reachable_of_contains inside .refl unfolds with ⟨name, reachable, wholeUnfolds⟩
    have member := mem_store_of_contains unfolds inside
    have named := hash_of_unfolds wholeUnfolds
    by_cases reaches : Reachable (assetGraph store.assets) name oldAsset.hash
    · subst named
      have wholeUnder : store.Under rootAsset (treeAsset runtime whole) :=
        ⟨member, under.reachable.trans reachable⟩
      rcases exists_change_of_above search old newAsset ⟨wholeUnder, reaches⟩ with ⟨changed, made⟩
      rw [← faithful _ made whole wholeUnfolds]
      exact holds.changed _ made
    · rw [substitute_of_not_reaches wholeUnfolds reaches]
      exact holds.stored _ member

/-- Going down from a new root that agrees, all changes agree: a link of a parent
determines the changed child. -/
theorem faithful_of_root (holds : Known search oldAsset newAsset newTree known)
    (single : store.SingleParents rootAsset oldAsset) (old : store.Under rootAsset oldAsset)
    {rootTree : RoseTree Fields}
    (rootUnfolds : Unfolds (assetGraph store.assets) rootAsset.hash rootTree)
    {newRoot : Asset runtime}
    (newUnfolds : Unfolds (assetGraph known) newRoot.hash
      (rootTree.substitute (isTreeOf oldAsset) newTree))
    {change : Asset runtime × Asset runtime}
    (made : Reachable (namedGraph (changes search.getParent)) (oldAsset, newAsset) change)
    (leads : Reachable (namedGraph (changes search.getParent)) change (rootAsset, newRoot)) :
    Faithful store oldAsset newTree change ∧
      ∀ tree, Unfolds (assetGraph store.assets) change.1.hash tree →
        (rootTree.substitute (isTreeOf oldAsset) newTree).Contains
          (tree.substitute (isTreeOf oldAsset) newTree) := by
  induction leads using Relation.ReflTransGen.head_induction_on with
  | refl =>
      have found := lookupAsset_hash holds.unique (holds.changed _ made)
      rw [lookupAsset_of_unfolds newUnfolds] at found
      constructor
      · intro tree unfolds
        rw [unfolds.unique rootUnfolds]
        exact (Option.some.inj found).symm
      · intro tree unfolds
        rw [unfolds.unique rootUnfolds]
        exact .self _
  | @head change parent edge rest induction =>
      rcases induction (made.tail edge) with ⟨parentFaithful, parentInside⟩
      rcases (edge_changes_iff search).mp edge with ⟨⟨under, linked⟩, relinked⟩
      rcases store.exists_unfolds under.member with ⟨parentTree, parentUnfolds, _⟩
      have inside : ∀ tree, Unfolds (assetGraph store.assets) change.1.hash tree →
          (rootTree.substitute (isTreeOf oldAsset) newTree).Contains
            (tree.substitute (isTreeOf oldAsset) newTree) := by
        intro tree unfolds
        exact (parentInside parentTree parentUnfolds).trans
          (single.substitute_parent old search newTree (above_of_change old made) under linked
            unfolds parentUnfolds).2
      refine ⟨fun tree unfolds => ?_, inside⟩
      have substituted := (single.substitute_parent old search newTree (above_of_change old made)
        under linked unfolds parentUnfolds).1
      have links := congrArg Asset.childHashes
        ((relinked.symm.trans (parentFaithful parentTree parentUnfolds)).trans substituted)
      have found := lookupAsset_of_contains newUnfolds (inside tree unfolds)
      exact holds.unique _ (holds.changed _ made) _ (mem_of_lookupAsset found).1
        (eq_of_set_idxOf_eq_map linked links)

/-- When all changes agree, no parent lists a changed child twice. -/
theorem singleLinks_of_faithful (holds : Known search oldAsset newAsset newTree known)
    (single : store.SingleParents rootAsset oldAsset) (old : store.Under rootAsset oldAsset)
    (sameNew : treeAsset runtime newTree = newAsset)
    (faithful : ∀ change, Reachable (namedGraph (changes search.getParent)) (oldAsset, newAsset)
      change → Faithful store oldAsset newTree change) :
    newAsset = oldAsset ∨ store.SingleLinks rootAsset oldAsset := by
  by_cases unchanged : newAsset = oldAsset
  · exact .inl unchanged
  · right
    intro child parent above under linked
    rcases exists_change_of_above search old newAsset above with ⟨changed, made⟩
    have step := edge_relink search under linked changed
    have agrees := (single.faithful_parent_iff old search above under linked
      (faithful _ made)).mp (faithful _ (made.tail step))
    rcases agrees with once | same
    · exact Nat.le_antisymm once (List.count_pos_iff.mpr linked)
    · exfalso
      rcases store.exists_unfolds above.under.member with ⟨tree, unfolds, _⟩
      have newUnfolds := holds.unfolds_substitute old faithful above.under unfolds
      rw [← faithful _ made tree unfolds, same] at newUnfolds
      have oldUnfolds := unfolds_of_held holds.unique fun part contains =>
        holds.stored _ (mem_store_of_contains unfolds contains)
      rw [hash_of_unfolds unfolds] at oldUnfolds
      rcases exists_contains_of_reachable unfolds above.reaches with ⟨part, contains, partUnfolds⟩
      have meets : isTreeOf oldAsset part = true := by
        rw [isTreeOf, hash_of_unfolds partUnfolds, beq_self_eq_true]
      have newMeets := RoseTree.test_of_substitute_eq_self (newUnfolds.unique oldUnfolds) contains
        meets
      rw [isTreeOf, sameNew, beq_iff_eq] at newMeets
      exact unchanged (holds.unique _ (sameNew ▸ holds.inserted _ (.self _)) _
        (holds.stored _ old.member) newMeets)

end Known

end Changes

end PizzaChain.Assets
