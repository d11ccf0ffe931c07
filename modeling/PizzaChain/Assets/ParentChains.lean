import PizzaChain.Assets.ChangeAsset

/-! # Chains of parents

The assets that `changeAsset` comes by on its way up from an asset to the root,
and when there is only one way.
-/

namespace PizzaChain.Assets

variable {runtime : Runtime}

namespace LinkedStore

variable {store : LinkedStore runtime}

theorem edge_of_link {parent : Asset runtime} (member : parent ∈ store.assets) {hash : String}
    (linked : hash ∈ parent.childHashes) :
    Edge (assetGraph store.assets) parent.hash hash :=
  edge_assetGraph_iff.mpr ⟨parent, lookupAsset_hash store.unique member, linked⟩

theorem exists_child {rootAsset parent : Asset runtime} (under : store.Under rootAsset parent)
    {hash : String} (linked : hash ∈ parent.childHashes) :
    ∃ child, store.Under rootAsset child ∧ child.hash = hash := by
  rcases store.closed parent under.member hash linked with ⟨child, member, named⟩
  refine ⟨child, ⟨member, ?_⟩, named⟩
  rw [named]
  exact under.reachable.tail (edge_of_link under.member linked)

/-- What holds of the root and goes from a parent to its children holds of every
asset of the tree. -/
theorem Under.induct {rootAsset : Asset runtime}
    {motive : (asset : Asset runtime) → store.Under rootAsset asset → Prop}
    (rootMember : rootAsset ∈ store.assets) (root : motive rootAsset ⟨rootMember, .refl⟩)
    (child : ∀ parent child under childUnder, child.hash ∈ parent.childHashes →
      motive parent under → motive child childUnder)
    {asset : Asset runtime} (under : store.Under rootAsset asset) : motive asset under := by
  generalize named : asset.hash = hash
  have reachable : Reachable (assetGraph store.assets) rootAsset.hash hash :=
    named ▸ under.reachable
  induction reachable generalizing asset with
  | refl =>
      cases store.unique asset under.member rootAsset rootMember named
      exact root
  | @tail high low path edge induction =>
      subst named
      rcases edge_assetGraph_iff.mp edge with ⟨parent, found, linked⟩
      rcases mem_of_lookupAsset found with ⟨parentMember, parentNamed⟩
      subst parentNamed
      exact child parent asset ⟨parentMember, path⟩ under linked (induction _ rfl)

/-- The asset is in the tree, and the old asset is the same or below it. -/
structure Above (store : LinkedStore runtime) (rootAsset oldAsset asset : Asset runtime) :
    Prop where
  under : store.Under rootAsset asset
  reaches : Reachable (assetGraph store.assets) asset.hash oldAsset.hash

theorem Above.parent {rootAsset oldAsset child parent : Asset runtime}
    (above : store.Above rootAsset oldAsset child) (under : store.Under rootAsset parent)
    (linked : child.hash ∈ parent.childHashes) : store.Above rootAsset oldAsset parent :=
  ⟨under, .head (edge_of_link under.member linked) above.reaches⟩

/-- No asset is reached from itself through one of its links. -/
theorem not_reachable_of_link {parent : Asset runtime} (member : parent ∈ store.assets)
    {hash : String} (linked : hash ∈ parent.childHashes) :
    ¬Reachable (assetGraph store.assets) hash parent.hash := by
  intro reachable
  exact store.acyclic _ (Relation.TransGen.head' (edge_of_link member linked) reachable)

/-- Every asset above the old one, that included, has at most one parent. -/
def SingleParents (store : LinkedStore runtime) (rootAsset oldAsset : Asset runtime) : Prop :=
  ∀ child left right, store.Above rootAsset oldAsset child →
    store.Under rootAsset left → child.hash ∈ left.childHashes →
    store.Under rootAsset right → child.hash ∈ right.childHashes → left = right

/-- Every asset above the old one, that included, is listed once by a parent. -/
def SingleLinks (store : LinkedStore runtime) (rootAsset oldAsset : Asset runtime) : Prop :=
  ∀ child parent, store.Above rootAsset oldAsset child → store.Under rootAsset parent →
    child.hash ∈ parent.childHashes → parent.childHashes.count child.hash = 1

end LinkedStore

/-! ## Going up -/

section Search

variable {store : LinkedStore runtime} {rootAsset : Asset runtime}

theorem transGen_of_parents (search : ParentSearch store rootAsset) {low high : Asset runtime}
    (path : Relation.TransGen (Edge (namedGraph search.getParent)) low high) :
    Relation.TransGen (Edge (assetGraph store.assets)) high.hash low.hash := by
  have link : ∀ child parent, Edge (namedGraph search.getParent) child parent →
      Edge (assetGraph store.assets) parent.hash child.hash := by
    intro child parent edge
    rcases (search.mem_iff child parent).mp (edge_namedGraph_iff.mp edge) with ⟨under, linked⟩
    exact LinkedStore.edge_of_link under.member linked
  induction path with
  | single edge => exact .single (link _ _ edge)
  | tail _ edge induction => exact .head (link _ _ edge) induction

/-- Going up comes to an end. -/
theorem exists_unfolds_parents (search : ParentSearch store rootAsset) (asset : Asset runtime) :
    ∃ tree, Unfolds (namedGraph search.getParent) asset tree := by
  refine exists_unfolds_of_finite ((List.finite_toSet (asset :: store.assets)).subset ?_)
    (complete_namedGraph asset) ?_ .refl
  · intro name reachable
    rcases Relation.ReflTransGen.cases_tail reachable with same | ⟨child, _, edge⟩
    · exact same ▸ List.mem_cons_self
    · apply List.mem_cons_of_mem
      exact ((search.mem_iff child name).mp (edge_namedGraph_iff.mp edge)).1.member
  · intro name _ cycle
    exact store.acyclic _ (transGen_of_parents search cycle)

theorem exists_unfolds_changes (search : ParentSearch store rootAsset)
    (change : Asset runtime × Asset runtime) :
    ∃ tree, Unfolds (namedGraph (changes search.getParent)) change tree := by
  rcases exists_unfolds_parents search change.1 with ⟨tree, unfolds⟩
  refine exists_unfolds_of_lift Prod.fst ?_ unfolds
  intro name label parents found
  cases found
  exact ⟨name, _, rfl, fun other member => ((mem_changes_iff search.getParent).mp member).1⟩

variable {oldAsset : Asset runtime}

/-- An asset above the old one is reached by going up. -/
theorem climbs_of_above (search : ParentSearch store rootAsset) {asset : Asset runtime}
    (old : store.Under rootAsset oldAsset)
    (above : store.Above rootAsset oldAsset asset) :
    Relation.ReflTransGen (fun child parent => store.Above rootAsset oldAsset child ∧
      parent ∈ search.getParent child) oldAsset asset := by
  rcases above with ⟨under, reaches⟩
  generalize named : asset.hash = hash at reaches
  induction reaches using Relation.ReflTransGen.head_induction_on generalizing asset with
  | refl => rw [store.unique asset under.member oldAsset old.member named]
  | @head high low edge path induction =>
      subst named
      rcases edge_assetGraph_iff.mp edge with ⟨other, found, linked⟩
      rw [lookupAsset_hash store.unique under.member] at found
      cases found
      rcases LinkedStore.exists_child under linked with ⟨child, childUnder, childNamed⟩
      subst childNamed
      refine (induction childUnder rfl).tail ⟨⟨childUnder, path⟩, ?_⟩
      exact (search.mem_iff child asset).mpr ⟨under, linked⟩

/-- With single parents two assets above the old one that a parent lists are the
same: otherwise one would be above the other and thus above that parent. -/
theorem LinkedStore.SingleParents.same_child
    (single : store.SingleParents rootAsset oldAsset) (old : store.Under rootAsset oldAsset)
    (search : ParentSearch store rootAsset) {left right parent : Asset runtime}
    (leftAbove : store.Above rootAsset oldAsset left)
    (rightAbove : store.Above rootAsset oldAsset right) (under : store.Under rootAsset parent)
    (leftLinked : left.hash ∈ parent.childHashes) (rightLinked : right.hash ∈ parent.childHashes) :
    left = right := by
  let climb : Asset runtime → Asset runtime → Prop := fun child parent =>
    store.Above rootAsset oldAsset child ∧ parent ∈ search.getParent child
  have functional : Relator.RightUnique climb := by
    intro child first second firstClimb secondClimb
    rcases (search.mem_iff child first).mp firstClimb.2 with ⟨firstUnder, firstLinked⟩
    rcases (search.mem_iff child second).mp secondClimb.2 with ⟨secondUnder, secondLinked⟩
    exact single child first second firstClimb.1 firstUnder firstLinked secondUnder secondLinked
  have apart : ∀ low high : Asset runtime, store.Above rootAsset oldAsset low →
      low.hash ∈ parent.childHashes → high.hash ∈ parent.childHashes →
      Relation.ReflTransGen climb low high → low = high := by
    intro low high lowAbove lowLinked highLinked path
    rcases Relation.ReflTransGen.cases_head path with same | ⟨next, first, rest⟩
    · exact same
    · exfalso
      have listed : climb low parent :=
        ⟨lowAbove, (search.mem_iff low parent).mpr ⟨under, lowLinked⟩⟩
      cases functional first listed
      refine LinkedStore.not_reachable_of_link under.member highLinked ?_
      rcases Relation.reflTransGen_iff_eq_or_transGen.mp rest with same | longer
      · rw [same]
      · have links := Relation.TransGen.mono (fun _ _ step => edge_namedGraph_iff.mpr step.2) _ _
          longer
        exact (transGen_of_parents search links).to_reflTransGen
  rcases Relation.ReflTransGen.total_of_right_unique functional
      (climbs_of_above search old leftAbove) (climbs_of_above search old rightAbove) with up | down
  · exact apart left right leftAbove leftLinked rightLinked up
  · exact (apart right left rightAbove rightLinked leftLinked down).symm

/-! ## The changes on the way up -/

/-- A change leads to those of the parents in the tree. -/
theorem edge_changes_iff (search : ParentSearch store rootAsset)
    {change other : Asset runtime × Asset runtime} :
    Edge (namedGraph (changes search.getParent)) change other ↔
      (store.Under rootAsset other.1 ∧ change.1.hash ∈ other.1.childHashes) ∧
        other.2 = other.1.relink change.1 change.2 := by
  rw [edge_namedGraph_iff, mem_changes_iff, search.mem_iff]

theorem edge_relink (search : ParentSearch store rootAsset) {child parent : Asset runtime}
    (under : store.Under rootAsset parent) (linked : child.hash ∈ parent.childHashes)
    (changed : Asset runtime) :
    Edge (namedGraph (changes search.getParent)) (child, changed)
      (parent, parent.relink child changed) :=
  (edge_changes_iff search).mpr ⟨⟨under, linked⟩, rfl⟩

theorem above_of_change {search : ParentSearch store rootAsset} {newAsset : Asset runtime}
    (old : store.Under rootAsset oldAsset)
    {change : Asset runtime × Asset runtime}
    (made : Reachable (namedGraph (changes search.getParent)) (oldAsset, newAsset) change) :
    store.Above rootAsset oldAsset change.1 := by
  induction made with
  | refl => exact ⟨old, .refl⟩
  | tail _ edge induction =>
      rcases (edge_changes_iff search).mp edge with ⟨⟨under, linked⟩, _⟩
      exact induction.parent under linked

theorem exists_change_of_above (search : ParentSearch store rootAsset)
    (old : store.Under rootAsset oldAsset) (newAsset : Asset runtime) {asset : Asset runtime}
    (above : store.Above rootAsset oldAsset asset) :
    ∃ changed, Reachable (namedGraph (changes search.getParent)) (oldAsset, newAsset)
      (asset, changed) := by
  have climbs := climbs_of_above search old above
  clear above
  induction climbs with
  | refl => exact ⟨newAsset, .refl⟩
  | @tail child parent _ step induction =>
      rcases induction with ⟨changed, made⟩
      rcases (search.mem_iff child parent).mp step.2 with ⟨under, linked⟩
      exact ⟨_, made.tail (edge_relink search under linked changed)⟩

/-- Every way up can be followed to the root. -/
theorem exists_root_change (search : ParentSearch store rootAsset)
    (rootMember : rootAsset ∈ store.assets)
    {asset : Asset runtime} (under : store.Under rootAsset asset) (changed : Asset runtime) :
    ∃ newRoot, Reachable (namedGraph (changes search.getParent)) (asset, changed)
      (rootAsset, newRoot) := by
  induction under using LinkedStore.Under.induct rootMember generalizing changed with
  | root => exact ⟨changed, .refl⟩
  | child parent child under _ linked induction =>
      rcases induction (parent.relink child changed) with ⟨newRoot, rest⟩
      exact ⟨newRoot, .head (edge_relink search under linked changed) rest⟩

end Search

/-! ## Counting the ways up -/

section Counting

variable {store : LinkedStore runtime} {rootAsset oldAsset : Asset runtime}
  {search : ParentSearch store rootAsset}
  {treeOf : Asset runtime × Asset runtime → RoseTree (Asset runtime × Asset runtime)}

/-- The change of the root. -/
def isRootChange (rootAsset : Asset runtime) (change : Asset runtime × Asset runtime) : Bool :=
  change.1.hash == rootAsset.hash

/-- How often a change leads to one of the root. -/
def rootChanges (rootAsset : Asset runtime)
    (treeOf : Asset runtime × Asset runtime → RoseTree (Asset runtime × Asset runtime))
    (change : Asset runtime × Asset runtime) : Nat :=
  (treeOf change).labels.countP (isRootChange rootAsset)

theorem rootChanges_pos
    (unfolds : ∀ change, Unfolds (namedGraph (changes search.getParent)) change (treeOf change))
    (rootMember : rootAsset ∈ store.assets) {asset : Asset runtime}
    (under : store.Under rootAsset asset) (changed : Asset runtime) :
    0 < rootChanges rootAsset treeOf (asset, changed) := by
  rcases exists_root_change search rootMember under changed with ⟨newRoot, made⟩
  rw [rootChanges, List.countP_pos_iff]
  exact ⟨_, (mem_labels_iff_reachable (unfolds _) _).mpr made, beq_self_eq_true _⟩

theorem rootChanges_eq (grows : Worklist.Grows (changes search.getParent) treeOf)
    (change : Asset runtime × Asset runtime) :
    rootChanges rootAsset treeOf change = (if isRootChange rootAsset change then 1 else 0) +
      ((changes search.getParent change).map (rootChanges rootAsset treeOf)).sum := by
  rw [rootChanges, Worklist.labels_of_grows grows, List.countP_cons, List.countP_flatMap,
    Nat.add_comm]
  rfl

/-- When the root is changed once, there is one way up. -/
theorem singleParents_of_rootChanges
    (unfolds : ∀ change, Unfolds (namedGraph (changes search.getParent)) change (treeOf change))
    (grows : Worklist.Grows (changes search.getParent) treeOf)
    (rootMember : rootAsset ∈ store.assets) (old : store.Under rootAsset oldAsset)
    {newAsset : Asset runtime} (once : rootChanges rootAsset treeOf (oldAsset, newAsset) = 1) :
    store.SingleParents rootAsset oldAsset := by
  intro child left right above leftUnder leftLinked rightUnder rightLinked
  by_contra different
  rcases exists_change_of_above search old newAsset above with ⟨changed, made⟩
  have listed : ∀ parent, store.Under rootAsset parent → child.hash ∈ parent.childHashes →
      (parent, parent.relink child changed) ∈ changes search.getParent (child, changed) := by
    intro parent under linked
    exact edge_namedGraph_iff.mp (edge_relink search under linked changed)
  have both := add_le_sum_map (rootChanges rootAsset treeOf) (listed left leftUnder leftLinked)
    (listed right rightUnder rightLinked) fun same => different (Prod.mk.inj same).1
  have leftPositive := rootChanges_pos unfolds rootMember leftUnder (left.relink child changed)
  have rightPositive := rootChanges_pos unfolds rootMember rightUnder (right.relink child changed)
  have below : rootChanges rootAsset treeOf (child, changed) ≤
      rootChanges rootAsset treeOf (oldAsset, newAsset) := by
    rcases exists_contains_of_reachable (unfolds _) made with ⟨part, contains, partUnfolds⟩
    rw [rootChanges, ← partUnfolds.unique (unfolds _)]
    exact RoseTree.countP_labels_le_of_contains _ contains
  have split : rootChanges rootAsset treeOf (child, changed) = _ :=
    rootChanges_eq grows (child, changed)
  omega

/-- With one way up the root is changed once. -/
theorem LinkedStore.SingleParents.rootChanges_eq_one
    (single : store.SingleParents rootAsset oldAsset) (rootMember : rootAsset ∈ store.assets)
    (grows : Worklist.Grows (changes search.getParent) treeOf) {asset : Asset runtime}
    (above : store.Above rootAsset oldAsset asset) (changed : Asset runtime) :
    rootChanges rootAsset treeOf (asset, changed) = 1 := by
  rcases above with ⟨under, reaches⟩
  induction under using LinkedStore.Under.induct rootMember generalizing changed with
  | root =>
      have none : search.getParent rootAsset = [] := by
        apply List.eq_nil_iff_forall_not_mem.mpr
        intro parent member
        rcases (search.mem_iff rootAsset parent).mp member with ⟨under, linked⟩
        exact LinkedStore.not_reachable_of_link under.member linked under.reachable
      rw [rootChanges_eq grows, changes, none]
      simp [isRootChange]
  | child parent child under childUnder linked induction =>
      have only : search.getParent child = [parent] := by
        apply List.perm_singleton.mp
        apply (List.perm_ext_iff_of_nodup (search.nodup child) (List.nodup_singleton parent)).mpr
        intro other
        rw [List.mem_singleton, search.mem_iff]
        constructor
        · intro found
          exact single child other parent ⟨childUnder, reaches⟩ found.1 found.2 under linked
        · intro same
          exact same ▸ ⟨under, linked⟩
      have notRoot : child.hash ≠ rootAsset.hash := by
        intro same
        rw [same] at linked
        exact LinkedStore.not_reachable_of_link under.member linked under.reachable
      have parentReaches := reaches.head (LinkedStore.edge_of_link under.member linked)
      rw [rootChanges_eq grows, changes, only]
      simp [isRootChange, notRoot, induction _ parentReaches]

end Counting

end PizzaChain.Assets
