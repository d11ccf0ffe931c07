import PizzaChain.Assets.TraverseTree

/-! # Searching for parents

`getParent` of `assetlib.js` calls `traverseTree(rootAsset, retriever, …)`, with
three arguments for its four parameters, so that the callback is undefined.
-/

namespace PizzaChain.Assets

variable {runtime : Runtime}

/-- The runs of `getParent(rootAsset, child, retriever, callback)`, in which the
function that compares with the child is what `traverseTree` is to call. -/
abbrev GetParent (retriever : Retriever runtime) (rootAsset : Asset runtime) :
    List WalkAction → Traversal runtime → Prop :=
  TraverseTree retriever [.asset rootAsset, .suppliedRetriever, .suppliedCallback]

/-- The assets for which that function calls the callback of `getParent`. -/
def parentCalls (child : Asset runtime) (traversal : Traversal runtime) : List (Asset runtime) :=
  traversal.calls.filterMap fun value =>
    match value with
    | .asset asset => if child.hash ∈ asset.childHashes then some asset else none
    | _ => none

theorem mem_parentCalls_iff {child asset : Asset runtime} {traversal : Traversal runtime} :
    asset ∈ parentCalls child traversal ↔
      Argument.asset asset ∈ traversal.calls ∧ child.hash ∈ asset.childHashes := by
  rw [parentCalls, List.mem_filterMap]
  constructor
  · intro called
    rcases called with ⟨value, member, matched⟩
    cases value with
    | asset other =>
        simp only [Option.ite_none_right_eq_some, Option.some.injEq] at matched
        rcases matched with ⟨linked, rfl⟩
        exact ⟨member, linked⟩
    | _ => cases matched
  · intro called
    exact ⟨_, called.1, by simp [called.2]⟩

/-- The runs come to an end without an exception, with the callback called for
exactly the assets reachable from the root that list the hash of the child. -/
def FindsParents (store : LinkedStore runtime) (rootAsset child : Asset runtime)
    (runs : List WalkAction → Traversal runtime → Prop) : Prop :=
  ∃ total, ∀ actions traversal, runs actions traversal →
    traversal.thrown = false ∧ actions.length ≤ total ∧
    (actions.length < total →
      ∃ action next, traverseStep store.retriever traversal action = some next) ∧
    (actions.length = total → ∀ asset, asset ∈ parentCalls child traversal ↔
      (∃ path, store.follow rootAsset path = some asset) ∧ child.hash ∈ asset.childHashes)

/-- `getParent` finds no parent of any asset in any tree: it throws before the
first lookup. -/
theorem getParent_finds_nothing (store : LinkedStore runtime) (rootAsset child : Asset runtime) :
    ¬FindsParents store rootAsset child (GetParent store.retriever rootAsset) ∧
      ∀ actions traversal, GetParent store.retriever rootAsset actions traversal →
        actions = [] ∧ traversal.thrown = true ∧ parentCalls child traversal = [] := by
  constructor
  · intro finds
    rcases finds with ⟨total, finds⟩
    have running := (finds [] _ (.nil _)).1
    cases running
  · intro actions traversal run
    cases run with
    | nil => exact ⟨rfl, rfl, rfl⟩
    | cons first _ => cases first

/-- The barrow lists its wheel, and `getParent` throws at the call. -/
theorem getParent_barrow :
    barrowWheel.hash ∈ barrowRoot.childHashes ∧
      ∃ traversal, GetParent barrowStore.retriever barrowRoot [] traversal ∧
        traversal.thrown = true ∧ parentCalls barrowWheel traversal = [] :=
  ⟨List.mem_cons_self, _, .nil _, rfl, rfl⟩

/-- The search itself is right: with an error argument in front of the root, as
in the calls that `traverseTree` makes itself, every parent is found. -/
theorem traverseTree_finds_parents (store : LinkedStore runtime) (rootAsset child : Asset runtime)
    (member : rootAsset ∈ store.assets) (err : Argument runtime) :
    FindsParents store rootAsset child (TraverseTree store.retriever
      [err, .asset rootAsset, .suppliedRetriever, .suppliedCallback]) := by
  rcases store.exists_unfolds member with ⟨tree, unfolds, rfl⟩
  have serves : ∀ part, tree.Contains part →
      store.retriever (treeAsset runtime part).hash = some ⟨none, some (treeAsset runtime part)⟩ :=
    fun part contains => store.retriever_of_contains unfolds contains
  refine ⟨3 * tree.size - 2, fun actions traversal run => ?_⟩
  rcases traverseTree_follows serves run with ⟨walk, total, sound, follows, progress⟩
  refine ⟨follows.running, by omega, fun unfinished => progress (by omega), ?_⟩
  intro complete asset
  rw [mem_parentCalls_iff, follows.mem_calls_iff sound (by omega)]
  refine and_congr_left fun _ => ?_
  simp only [LinkedStore.follow_treeAsset unfolds, Option.map_eq_some_iff,
    RoseTree.contains_iff_follow]
  constructor
  · intro inside
    rcases inside with ⟨part, ⟨path, placed⟩, same⟩
    exact ⟨path, part, placed, same.symm⟩
  · intro reached
    rcases reached with ⟨path, part, placed, same⟩
    exact ⟨part, ⟨path, placed⟩, same.symm⟩

end PizzaChain.Assets
