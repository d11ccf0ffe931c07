import PizzaChain.Assets.AssetTree

/-! # What a root hash says about a description

The root hash depends on the unfolded tree alone and, without collisions,
determines it: names, unreferenced entries and sharing leave no trace in it.
-/

namespace PizzaChain.Assets

/-- Equal hash lists of trees that are told apart by their hashes are hash lists
of the same trees. -/
theorem children_eq_of_hashes_eq {runtime : Runtime} {left right : List (RoseTree Fields)}
    (separated : ∀ first ∈ left, ∀ second ∈ right,
      (treeAsset runtime first).hash = (treeAsset runtime second).hash → first = second)
    (hashes : left.map (fun tree => (treeAsset runtime tree).hash) =
      right.map fun tree => (treeAsset runtime tree).hash) : left = right := by
  by_contra different
  rcases exists_ne_of_map_eq hashes different with
    ⟨first, firstMember, second, secondMember, treesDiffer, equal⟩
  exact treesDiffer (separated first firstMember second secondMember equal)

/-- Without collisions among the assets of two trees, their root hashes tell
the trees apart. -/
theorem tree_eq_of_hash_eq {runtime : Runtime} (injective : Function.Injective runtime.stringify)
    {assets : Asset runtime → Prop} (noCollision : Asset.NoCollision assets)
    (left right : RoseTree Fields)
    (leftAssets : ∀ part, left.Contains part → assets (treeAsset runtime part))
    (rightAssets : ∀ part, right.Contains part → assets (treeAsset runtime part))
    (equal : (treeAsset runtime left).hash = (treeAsset runtime right).hash) : left = right := by
  induction left using RoseTree.induct generalizing right with
  | node data children induction =>
      cases right with
      | node otherData otherChildren =>
          have same := Asset.eq_of_hash (injective.injOn (s := Set.univ)) noCollision
            (leftAssets _ (.self _)) (rightAssets _ (.self _)) trivial trivial equal
          simp only [treeAsset, Asset.create, Asset.mk.injEq] at same
          have below : children = otherChildren := by
            apply children_eq_of_hashes_eq _ same.1
            intro first firstMember second secondMember hashes
            apply induction first firstMember second
            · exact fun part contains => leftAssets part (.child firstMember contains)
            · exact fun part contains => rightAssets part (.child secondMember contains)
            · exact hashes
          rw [below, same.2.1]

/-- The root asset that `createAssetTree` passes for a description. -/
def CreatesRoot (runtime : Runtime) (description : Description) (calls : List (Call runtime))
    (root : Asset runtime) : Prop :=
  (∃ fuel, createAssetTree runtime description fuel = some ⟨calls, none⟩) ∧
    ∃ call ∈ calls, call.isRoot = true ∧ call.asset = root

theorem exists_createsRoot (runtime : Runtime) {description : Description}
    (complete : Complete description.graph "root") (acyclic : Acyclic description.graph "root") :
    ∃ calls tree, Unfolds description.graph "root" tree ∧ BuildsTree description calls ∧
      CreatesRoot runtime description calls (treeAsset runtime tree) := by
  rcases createAssetTree_buildsTree runtime description complete acyclic with
    ⟨fuel, calls, created, builds⟩
  rcases builds.root_last acyclic with ⟨before, last, split, named, flagged, _⟩
  have member : last ∈ calls := by simp [split]
  rcases (builds.faithful last member).asset with ⟨tree, unfolds, asset⟩
  rw [named] at unfolds
  exact ⟨calls, tree, unfolds, builds, ⟨fuel, created⟩, last, member, flagged, asset⟩

/-- The root hashes of two descriptions agree when their unfolded trees do and,
without a collision among the assets passed for them, only then. -/
theorem rootHash_eq_iff_tree_eq (runtime : Runtime) (left right : Description)
    (leftComplete : Complete left.graph "root") (leftAcyclic : Acyclic left.graph "root")
    (rightComplete : Complete right.graph "root") (rightAcyclic : Acyclic right.graph "root") :
    ∃ leftCalls leftRoot leftTree rightCalls rightRoot rightTree,
      CreatesRoot runtime left leftCalls leftRoot ∧
      CreatesRoot runtime right rightCalls rightRoot ∧
      Unfolds left.graph "root" leftTree ∧ Unfolds right.graph "root" rightTree ∧
      (leftTree = rightTree → leftRoot.hash = rightRoot.hash) ∧
      (Function.Injective runtime.stringify →
        Asset.NoCollision (fun asset =>
          (∃ call ∈ leftCalls, call.asset = asset) ∨ ∃ call ∈ rightCalls, call.asset = asset) →
        leftRoot.hash = rightRoot.hash → leftTree = rightTree) := by
  rcases exists_createsRoot runtime leftComplete leftAcyclic with
    ⟨leftCalls, leftTree, leftUnfolds, leftBuilds, leftCreates⟩
  rcases exists_createsRoot runtime rightComplete rightAcyclic with
    ⟨rightCalls, rightTree, rightUnfolds, rightBuilds, rightCreates⟩
  refine ⟨leftCalls, _, leftTree, rightCalls, _, rightTree, leftCreates, rightCreates,
    leftUnfolds, rightUnfolds, ?_, ?_⟩
  · intro equal
    rw [equal]
  · intro injective noCollision equal
    apply tree_eq_of_hash_eq injective noCollision leftTree rightTree _ _ equal
    · intro part contains
      exact .inl ((leftBuilds.passes_iff leftUnfolds _).mpr ⟨part, contains, rfl⟩)
    · intro part contains
      exact .inr ((rightBuilds.passes_iff rightUnfolds _).mpr ⟨part, contains, rfl⟩)

/-- The wheelbarrow under other names, with its wheels written separately and
an entry that nothing refers to. -/
def wheelbarrowCopy : Description :=
  [("handle", ⟨[], some []⟩),
    ("rim", ⟨[("class", .string "Wheel")], some []⟩),
    ("root", ⟨[("name", .string "wheelbarrow")], some ["base", "rim", "tyre"]⟩),
    ("tyre", ⟨[("class", .string "Wheel")], some []⟩),
    ("base", ⟨[("class", .string "Frame")], some ["tyre"]⟩)]

def wheelbarrowCopyRank (name : String) : Nat :=
  if name = "root" then 2 else if name = "base" then 1 else 0

def wheelbarrowTree : RoseTree Fields :=
  let wheel := .node [("class", .string "Wheel")] []
  .node [("name", .string "wheelbarrow")]
    [.node [("class", .string "Frame")] [wheel], wheel, wheel]

/-- A description of one asset without data. -/
def emptyAsset : Description :=
  [("root", ⟨[], some []⟩)]

/-- A description of one asset with data. -/
def namedAsset : Description :=
  [("root", ⟨[("name", .string "wheel")], some []⟩)]

/-- The stand-in for Keccak tells the two single assets apart. -/
theorem oneAsset_noCollision {calls otherCalls : List (Call (Runtime.compact lastBytes))}
    {root otherRoot : Asset (Runtime.compact lastBytes)}
    (creates : CreatesRoot (Runtime.compact lastBytes) emptyAsset calls root)
    (otherCreates : CreatesRoot (Runtime.compact lastBytes) namedAsset otherCalls otherRoot) :
    Asset.NoCollision fun asset =>
      (∃ call ∈ calls, call.asset = asset) ∨ ∃ call ∈ otherCalls, call.asset = asset := by
  rcases creates with ⟨⟨_, created⟩, _⟩
  rcases otherCreates with ⟨⟨_, otherCreated⟩, _⟩
  cases createAssetTree_unique created
    (show createAssetTree _ emptyAsset 1 = some ⟨[⟨"root", .create _ [] [], true⟩], none⟩ from rfl)
  cases createAssetTree_unique otherCreated
    (show createAssetTree _ namedAsset 1 =
      some ⟨[⟨"root", .create _ [] [("name", .string "wheel")], true⟩], none⟩ from rfl)
  have different : Swarm.swarmHash lastBytes (assetBytes (Runtime.compact lastBytes) [] []) ≠
      Swarm.swarmHash lastBytes
        (assetBytes (Runtime.compact lastBytes) [] [("name", .string "wheel")]) := by
    rw [Swarm.swarmHash_of_short _ (by decide), Swarm.swarmHash_of_short _ (by decide)]
    intro equal
    exact absurd (congrArg Swarm.Digest.bytes equal) (by decide)
  simp only [List.mem_singleton, exists_eq_left]
  rintro _ _ (rfl | rfl) (rfl | rfl) equal
  · rfl
  · exact absurd equal different
  · exact absurd equal.symm different
  · rfl

theorem rootHash_wheelbarrowCopy :
    (∃ calls root copyCalls copyRoot,
      CreatesRoot (Runtime.compact lastBytes) wheelbarrow calls root ∧
      CreatesRoot (Runtime.compact lastBytes) wheelbarrowCopy copyCalls copyRoot ∧
      root.hash = copyRoot.hash) ∧
    (∃ calls root otherCalls otherRoot,
      CreatesRoot (Runtime.compact lastBytes) emptyAsset calls root ∧
      CreatesRoot (Runtime.compact lastBytes) namedAsset otherCalls otherRoot ∧
      root.hash ≠ otherRoot.hash) := by
  constructor
  · rcases rootHash_eq_iff_tree_eq (Runtime.compact lastBytes) wheelbarrow wheelbarrowCopy
        wheelbarrow_complete wheelbarrow_acyclic
        (Description.complete_of_closed (by decide) (by decide))
        (Description.acyclic_of_ranked wheelbarrowCopyRank (by decide)) with
      ⟨calls, root, tree, copyCalls, copyRoot, copyTree, creates, copyCreates, unfolds,
        copyUnfolds, hashes, _⟩
    refine ⟨calls, root, copyCalls, copyRoot, creates, copyCreates, hashes ?_⟩
    have tree_eq : tree = wheelbarrowTree := unfolds.unique ⟨3, rfl⟩
    have copyTree_eq : copyTree = wheelbarrowTree := copyUnfolds.unique ⟨3, rfl⟩
    rw [tree_eq, copyTree_eq]
  · rcases rootHash_eq_iff_tree_eq (Runtime.compact lastBytes) emptyAsset namedAsset
        (Description.complete_of_closed (by decide) (by decide))
        (Description.acyclic_of_ranked (fun _ => 0) (by decide))
        (Description.complete_of_closed (by decide) (by decide))
        (Description.acyclic_of_ranked (fun _ => 0) (by decide)) with
      ⟨calls, root, tree, otherCalls, otherRoot, otherTree, creates, otherCreates, unfolds,
        otherUnfolds, _, trees⟩
    refine ⟨calls, root, otherCalls, otherRoot, creates, otherCreates, fun equal => ?_⟩
    have tree_eq : tree = .node [] [] := unfolds.unique ⟨1, rfl⟩
    have otherTree_eq : otherTree = .node [("name", .string "wheel")] [] :=
      otherUnfolds.unique ⟨1, rfl⟩
    have same := trees (Runtime.compact_injective lastBytes)
      (oneAsset_noCollision creates otherCreates) equal
    rw [tree_eq, otherTree_eq] at same
    simp at same

end PizzaChain.Assets
