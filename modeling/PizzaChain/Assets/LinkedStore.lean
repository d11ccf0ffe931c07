import PizzaChain.Assets.GetAssetTree

/-! # Stores of hash-linked assets

A finite set of assets that holds every asset they link to. An asset may be
linked to from several places and several times from one.
-/

namespace PizzaChain.Assets

variable {runtime : Runtime}

/-! ## Assets by hash -/

def lookupAsset (assets : List (Asset runtime)) (hash : String) : Option (Asset runtime) :=
  assets.find? fun asset => asset.hash == hash

theorem mem_of_lookupAsset {assets : List (Asset runtime)} {hash : String}
    {asset : Asset runtime} (found : lookupAsset assets hash = some asset) :
    asset ∈ assets ∧ asset.hash = hash :=
  ⟨List.mem_of_find?_eq_some found, eq_of_beq (List.find?_some found :)⟩

/-- No two of the assets have the same hash. -/
def HashesUnique (assets : List (Asset runtime)) : Prop :=
  ∀ left ∈ assets, ∀ right ∈ assets, left.hash = right.hash → left = right

theorem lookupAsset_hash {assets : List (Asset runtime)} (unique : HashesUnique assets)
    {asset : Asset runtime} (member : asset ∈ assets) :
    lookupAsset assets asset.hash = some asset := by
  cases found : lookupAsset assets asset.hash with
  | none =>
      have absent := List.find?_eq_none.mp found asset member
      simp at absent
  | some other =>
      rcases mem_of_lookupAsset found with ⟨otherMember, same⟩
      rw [unique other otherMember asset member same]

/-- The links of a set of assets: under each hash the data and the child hashes. -/
def assetGraph (assets : List (Asset runtime)) (hash : String) : Option (Fields × List String) :=
  (lookupAsset assets hash).map fun asset => (asset.data, asset.childHashes)

theorem assetGraph_eq_some_iff {assets : List (Asset runtime)} {hash : String} {data : Fields}
    {childHashes : List String} :
    assetGraph assets hash = some (data, childHashes) ↔
      lookupAsset assets hash = some (.create runtime childHashes data) := by
  rw [assetGraph, Option.map_eq_some_iff]
  constructor
  · intro found
    rcases found with ⟨asset, found, contents⟩
    cases contents
    rw [found, Asset.create_contents]
  · intro found
    exact ⟨_, found, rfl⟩

theorem edge_assetGraph_iff {assets : List (Asset runtime)} {parent child : String} :
    Edge (assetGraph assets) parent child ↔
      ∃ asset, lookupAsset assets parent = some asset ∧ child ∈ asset.childHashes := by
  constructor
  · intro edge
    rcases edge with ⟨data, childHashes, found, member⟩
    exact ⟨_, assetGraph_eq_some_iff.mp found, member⟩
  · intro linked
    rcases linked with ⟨asset, found, member⟩
    exact ⟨asset.data, asset.childHashes, by simp [assetGraph, found], member⟩

/-- The tree unfolded from a hash is that of the asset found under it. -/
theorem lookupAsset_of_unfolds {assets : List (Asset runtime)} {hash : String}
    {tree : RoseTree Fields} (unfolds : Unfolds (assetGraph assets) hash tree) :
    lookupAsset assets hash = some (treeAsset runtime tree) := by
  induction tree using RoseTree.induct generalizing hash with
  | node data children induction =>
      rcases unfolds_node_iff.mp unfolds with ⟨hashes, found, below⟩
      have linked : hashes = children.map fun child => (treeAsset runtime child).hash := by
        clear found unfolds
        induction below with
        | nil => rfl
        | cons first _ rest =>
            have named := (mem_of_lookupAsset (induction _ List.mem_cons_self first)).2
            rw [List.map_cons, named]
            rw [← rest fun child member => induction child (List.mem_cons_of_mem _ member)]
      rw [assetGraph_eq_some_iff.mp found, treeAsset, linked]

theorem hash_of_unfolds {assets : List (Asset runtime)} {hash : String} {tree : RoseTree Fields}
    (unfolds : Unfolds (assetGraph assets) hash tree) : (treeAsset runtime tree).hash = hash :=
  (mem_of_lookupAsset (lookupAsset_of_unfolds unfolds)).2

/-- Every part of an unfolded tree is the tree of an asset found under its hash. -/
theorem lookupAsset_of_contains {assets : List (Asset runtime)} {hash : String}
    {tree part : RoseTree Fields} (unfolds : Unfolds (assetGraph assets) hash tree)
    (contains : tree.Contains part) :
    lookupAsset assets (treeAsset runtime part).hash = some (treeAsset runtime part) := by
  rcases exists_reachable_of_contains contains .refl unfolds with ⟨name, _, partUnfolds⟩
  rw [hash_of_unfolds partUnfolds]
  exact lookupAsset_of_unfolds partUnfolds

/-- A tree whose parts are all held unfolds from the hash of its asset. -/
theorem unfolds_of_held {assets : List (Asset runtime)} (unique : HashesUnique assets)
    {tree : RoseTree Fields}
    (held : ∀ part, tree.Contains part → treeAsset runtime part ∈ assets) :
    Unfolds (assetGraph assets) (treeAsset runtime tree).hash tree := by
  induction tree using RoseTree.induct with
  | node data children induction =>
      have found := lookupAsset_hash unique (held _ (.self _))
      rw [treeAsset] at found ⊢
      refine unfolds_node_iff.mpr ⟨_, assetGraph_eq_some_iff.mpr found, ?_⟩
      rw [List.forall₂_map_left_iff, List.forall₂_same]
      intro child member
      exact induction child member fun part contains => held part (.child member contains)

/-! ## Stores -/

structure LinkedStore (runtime : Runtime) where
  assets : List (Asset runtime)
  unique : HashesUnique assets
  closed : ∀ asset ∈ assets, ∀ hash ∈ asset.childHashes, ∃ child ∈ assets, child.hash = hash
  acyclic : ∀ hash, ¬Relation.TransGen (Edge (assetGraph assets)) hash hash

namespace LinkedStore

variable (store : LinkedStore runtime)

/-- A retriever that finds every asset of the store. -/
def retriever : Retriever runtime := fun hash =>
  (lookupAsset store.assets hash).map fun asset => ⟨none, some asset⟩

/-- The asset at the end of a downward path, where a child hash that is listed
twice gives two steps. -/
def follow : Asset runtime → (path : List Nat) → Option (Asset runtime)
  | asset, [] => some asset
  | asset, index :: path => do
      let hash ← asset.childHashes[index]?
      let child ← lookupAsset store.assets hash
      follow child path

variable {store}

theorem exists_of_reachable {root name : String} {asset : Asset runtime}
    (found : lookupAsset store.assets root = some asset)
    (reachable : Reachable (assetGraph store.assets) root name) :
    ∃ other, lookupAsset store.assets name = some other := by
  cases reachable with
  | refl => exact ⟨asset, found⟩
  | tail _ edge =>
      rcases edge_assetGraph_iff.mp edge with ⟨parent, parentFound, member⟩
      rcases store.closed parent (mem_of_lookupAsset parentFound).1 name member with
        ⟨child, childMember, named⟩
      exact ⟨child, named ▸ lookupAsset_hash store.unique childMember⟩

/-- Every asset of the store unfolds to a tree. -/
theorem exists_unfolds {asset : Asset runtime} (member : asset ∈ store.assets) :
    ∃ tree, Unfolds (assetGraph store.assets) asset.hash tree ∧
      treeAsset runtime tree = asset := by
  have held := lookupAsset_hash store.unique member
  have complete : Complete (assetGraph store.assets) asset.hash := by
    intro name reachable
    rcases exists_of_reachable held reachable with ⟨other, found⟩
    exact ⟨other.data, other.childHashes, by simp [assetGraph, found]⟩
  have covered : ∀ name data childHashes,
      assetGraph store.assets name = some (data, childHashes) →
        name ∈ store.assets.map Asset.hash := by
    intro name data childHashes found
    rcases mem_of_lookupAsset (assetGraph_eq_some_iff.mp found) with ⟨otherMember, named⟩
    exact named ▸ List.mem_map_of_mem otherMember
  rcases PizzaChain.exists_unfolds (store.assets.map Asset.hash) covered complete
      (fun name _ => store.acyclic name) .refl with ⟨tree, unfolds⟩
  have found := lookupAsset_of_unfolds unfolds
  rw [held] at found
  exact ⟨tree, unfolds, (Option.some.inj found).symm⟩

theorem retriever_of_contains {hash : String} {tree part : RoseTree Fields}
    (unfolds : Unfolds (assetGraph store.assets) hash tree) (contains : tree.Contains part) :
    store.retriever (treeAsset runtime part).hash = some ⟨none, some (treeAsset runtime part)⟩ := by
  rw [retriever, lookupAsset_of_contains unfolds contains]
  rfl

/-- The downward paths from an asset are those of its tree. -/
theorem follow_treeAsset {hash : String} {tree : RoseTree Fields}
    (unfolds : Unfolds (assetGraph store.assets) hash tree) (path : List Nat) :
    store.follow (treeAsset runtime tree) path = (tree.follow path).map (treeAsset runtime) := by
  induction path generalizing hash tree with
  | nil => rfl
  | cons index path induction =>
      rcases tree with ⟨data, children⟩
      rcases unfolds_node_iff.mp unfolds with ⟨hashes, found, below⟩
      have linked : (treeAsset runtime (.node data children)).childHashes = hashes := by
        have held := lookupAsset_of_unfolds unfolds
        rw [assetGraph_eq_some_iff.mp found] at held
        rw [← Option.some.inj held]
        rfl
      rw [follow, linked, RoseTree.follow]
      rcases getElem?_related below index with ⟨noHash, noTree⟩ |
        ⟨childHash, child, hashFound, treeFound, childUnfolds⟩
      · simp [noHash, noTree]
      · simp [hashFound, treeFound, lookupAsset_of_unfolds childUnfolds, induction childUnfolds]

/-- A root that links to one leaf only, any number of times. -/
def star (root leaf : Asset runtime) (links : ∀ hash ∈ root.childHashes, hash = leaf.hash)
    (leafless : leaf.childHashes = []) (different : leaf.hash ≠ root.hash) :
    LinkedStore runtime where
  assets := [root, leaf]
  unique := by
    intro left leftMember right rightMember equal
    simp only [List.mem_cons, List.not_mem_nil, or_false] at leftMember rightMember
    rcases leftMember with rfl | rfl <;> rcases rightMember with rfl | rfl
    · rfl
    · exact absurd equal.symm different
    · exact absurd equal different
    · rfl
  closed := by
    intro asset member hash linked
    simp only [List.mem_cons, List.not_mem_nil, or_false] at member
    rcases member with rfl | rfl
    · exact ⟨leaf, by simp, (links hash linked).symm⟩
    · simp [leafless] at linked
  acyclic := by
    intro hash
    refine acyclic_of_rank (fun hash => if hash = root.hash then 1 else 0) ?_ hash hash .refl
    intro parent child edge
    rcases edge_assetGraph_iff.mp edge with ⟨asset, found, linked⟩
    rcases mem_of_lookupAsset found with ⟨member, named⟩
    simp only [List.mem_cons, List.not_mem_nil, or_false] at member
    rcases member with rfl | rfl
    · simp [← named, links child linked, different]
    · simp [leafless] at linked

end LinkedStore

/-- The barrow, which links to its wheel twice. -/
def barrowStore : LinkedStore (Runtime.compact lastBytes) :=
  .star barrowRoot barrowWheel (by simp [barrowRoot, Asset.create]) rfl barrow_hash_ne

end PizzaChain.Assets
