import PizzaChain.Assets.CreateAssetTree

/-! # The tree that `createAssetTree` builds

The asset passed for a name is the hash-linked asset of the tree that the
description unfolds to below that name.
-/

namespace PizzaChain.Assets

/-- The root asset of a tree: the children are linked by their hashes. -/
def treeAsset (runtime : Runtime) : RoseTree Fields → Asset runtime
  | .node data children =>
      Asset.create runtime (children.map fun child => (treeAsset runtime child).hash) data

/-! ## The conversion pass -/

/-- The asset of a name, when it is built, is that of the name's tree. -/
def BuiltFor {runtime : Runtime} (description : Description) (assets : Built runtime)
    (name : String) : Prop :=
  ∃ tree, Unfolds description.graph name tree ∧ assets name = some (treeAsset runtime tree)

theorem childHashes_of_built {runtime : Runtime} {description : Description}
    {assets : Built runtime} {children : List String} {trees : List (RoseTree Fields)}
    (unfolds : List.Forall₂ (Unfolds description.graph) children trees)
    (built : ∀ child ∈ children, BuiltFor description assets child) :
    childHashes assets children = .ok (trees.map fun tree => (treeAsset runtime tree).hash) := by
  induction unfolds with
  | nil => rfl
  | @cons child tree children trees first _ induction =>
      rcases built child List.mem_cons_self with ⟨other, otherUnfolds, asset⟩
      rw [otherUnfolds.unique first] at asset
      have rest := induction fun name member => built name (List.mem_cons_of_mem _ member)
      simp [childHashes, asset, rest]

/-- A call that passes the asset of its name's tree. -/
structure Call.Faithful {runtime : Runtime} (description : Description) (call : Call runtime) :
    Prop where
  asset : ∃ tree, Unfolds description.graph call.name tree ∧ call.asset = treeAsset runtime tree
  isRoot : call.isRoot = (call.name == "root")

/-- When every name on the stack comes after its children, the pass builds every
asset and throws nothing. -/
theorem convertToAssets_faithful (runtime : Runtime) (description : Description)
    (finished stack : List String) (assets : Built runtime)
    (built : ∀ name ∈ finished, BuiltFor description assets name)
    (unfolds : ∀ name ∈ stack, ∃ tree, Unfolds description.graph name tree)
    (childrenFirst : ∀ before name after, stack = before ++ name :: after →
      ∀ child, Edge description.graph name child → child ∈ finished ++ before) :
    (convertToAssets runtime description stack assets).thrown = none ∧
      (convertToAssets runtime description stack assets).calls.map Call.name = stack ∧
        ∀ call ∈ (convertToAssets runtime description stack assets).calls,
          call.Faithful description := by
  induction stack generalizing finished assets with
  | nil => simp [convertToAssets]
  | cons name stack induction =>
      rcases unfolds name List.mem_cons_self with ⟨⟨data, trees⟩, unfolded⟩
      rcases unfolds_node_iff.mp unfolded with ⟨children, found, childrenUnfold⟩
      have childrenBuilt : ∀ child ∈ children, BuiltFor description assets child := by
        intro child member
        have earlier := childrenFirst [] name stack rfl child ⟨data, children, found, member⟩
        exact built child (by simpa using earlier)
      have hashes := childHashes_of_built childrenUnfold childrenBuilt
      let asset := treeAsset runtime (.node data trees)
      let next : Built runtime := Function.update assets name (some asset)
      have nextBuilt : ∀ other ∈ finished ++ [name], BuiltFor description next other := by
        intro other member
        by_cases same : other = name
        · subst same
          exact ⟨.node data trees, unfolded, Function.update_self ..⟩
        · have earlier : other ∈ finished := by simpa [same] using member
          rcases built other earlier with ⟨tree, otherUnfolds, otherAsset⟩
          exact ⟨tree, otherUnfolds, by rw [← otherAsset]; exact Function.update_of_ne same ..⟩
      have nextFirst : ∀ before other after, stack = before ++ other :: after →
          ∀ child, Edge description.graph other child → child ∈ finished ++ [name] ++ before := by
        intro before other after split child edge
        have earlier := childrenFirst (name :: before) other after (by rw [split]; rfl) child edge
        simpa using earlier
      have rest := induction (finished ++ [name]) next nextBuilt
        (fun other member => unfolds other (List.mem_cons_of_mem _ member)) nextFirst
      have first : Asset.create runtime (trees.map fun tree => (treeAsset runtime tree).hash) data =
          asset := by
        simp only [asset, treeAsset]
      have entryFound := Description.graph_eq_some_iff.mp found
      simp only [convertToAssets, entryFound, hashes, first]
      refine ⟨rest.1, by rw [List.map_cons, rest.2.1], ?_⟩
      intro call member
      rcases List.mem_cons.mp member with equal | member
      · subst equal
        exact ⟨⟨.node data trees, unfolded, rfl⟩, rfl⟩
      · exact rest.2.2 call member

/-! ## The sequence of calls -/

/-- The names of the calls are a breadth-first collection from the last to the
first, and every call passes the asset of its name's tree. -/
structure BuildsTree {runtime : Runtime} (description : Description)
    (calls : List (Call runtime)) : Prop where
  collected : Collected description [] (calls.map Call.name).reverse
  faithful : ∀ call ∈ calls, call.Faithful description

/-- On a complete acyclic description `createAssetTree` ends without an error
and builds the unfolded tree. -/
theorem createAssetTree_buildsTree (runtime : Runtime) (description : Description)
    (complete : Complete description.graph "root") (acyclic : Acyclic description.graph "root") :
    ∃ fuel calls, createAssetTree runtime description fuel = some ⟨calls, none⟩ ∧
      BuildsTree description calls := by
  have available : ∀ name, Reachable description.graph "root" name →
      ∃ tree, Unfolds description.graph name tree := fun name reachable =>
    exists_unfolds (description.map Prod.fst) Description.mem_keys_of_graph complete acyclic
      reachable
  rcases available "root" .refl with ⟨tree, unfolded⟩
  rcases traverseTreeBreadthFirst_collects description tree.size ["root"] [] [tree]
      (.cons unfolded .nil) (by simp) (Collected.initial description) with
    ⟨results, collects, collected⟩
  have stackUnfolds : ∀ name ∈ results.reverse, ∃ tree, Unfolds description.graph name tree := by
    intro name member
    exact available name (collected.reachable (by simpa using member))
  have childrenFirst : ∀ before name after, results.reverse = before ++ name :: after →
      ∀ child, Edge description.graph name child → child ∈ [] ++ before := by
    intro before name after split child edge
    have reversed : results = after.reverse ++ name :: before.reverse := by
      rw [← List.reverse_reverse results, split]
      simp
    have later := collected.childrenLater after.reverse name before.reverse reversed child edge
    simpa using later
  rcases convertToAssets_faithful runtime description [] results.reverse (fun _ => none)
      (by simp) stackUnfolds childrenFirst with ⟨notThrown, names, faithful⟩
  refine ⟨tree.size, (convertToAssets runtime description results.reverse fun _ => none).calls,
    ?_, ?_, faithful⟩
  · simp only [createAssetTree, collects]
    rw [← notThrown]
  · rw [names, List.reverse_reverse]
    exact collected

namespace BuildsTree

variable {runtime : Runtime} {description : Description} {calls : List (Call runtime)}

/-- A name is passed exactly when it is reachable. -/
theorem exists_call_iff (builds : BuildsTree description calls) (name : String) :
    (∃ call ∈ calls, call.name = name) ↔ Reachable description.graph "root" name := by
  have member : (∃ call ∈ calls, call.name = name) ↔ name ∈ (calls.map Call.name).reverse := by
    simp
  rw [member]
  clear member
  constructor
  · intro passed
    exact builds.collected.reachable (by simpa using passed)
  · intro reachable
    induction reachable with
    | refl =>
        rcases builds.collected.fromRoot with ⟨rest, total, _⟩
        rw [List.append_nil] at total
        simp [total]
    | @tail parent child _ edge induction =>
        rcases List.append_of_mem induction with ⟨before, after, split⟩
        have later := builds.collected.childrenLater before parent after split child edge
        rw [split]
        simp only [List.append_nil] at later
        simp [later]

/-- A child is passed before every call for one of its parents. -/
theorem child_before_parent (builds : BuildsTree description calls)
    {before after : List (Call runtime)} {parent : Call runtime}
    (split : calls = before ++ parent :: after) {child : String}
    (edge : Edge description.graph parent.name child) : ∃ call ∈ before, call.name = child := by
  have reversed : (calls.map Call.name).reverse =
      (after.map Call.name).reverse ++ parent.name :: (before.map Call.name).reverse := by
    simp [split]
  have later := builds.collected.childrenLater _ _ _ reversed child edge
  simpa using later

/-- All calls for one name pass the same asset. -/
theorem asset_eq_of_name_eq (builds : BuildsTree description calls) {left right : Call runtime}
    (leftMember : left ∈ calls) (rightMember : right ∈ calls) (names : left.name = right.name) :
    left.asset = right.asset := by
  rcases (builds.faithful left leftMember).asset with ⟨leftTree, leftUnfolds, leftAsset⟩
  rcases (builds.faithful right rightMember).asset with ⟨rightTree, rightUnfolds, rightAsset⟩
  rw [names] at leftUnfolds
  rw [leftAsset, rightAsset, leftUnfolds.unique rightUnfolds]

/-- The asset of a call carries the data of its name and the hashes of the
assets passed for the child names, in order. -/
theorem contents (builds : BuildsTree description calls) {call : Call runtime}
    (member : call ∈ calls) :
    ∃ children, description.graph call.name = some (call.asset.data, children) ∧
      List.Forall₂ (fun child hash => ∀ other ∈ calls, other.name = child →
        other.asset.hash = hash) children call.asset.childHashes := by
  rcases (builds.faithful call member).asset with ⟨⟨data, trees⟩, unfolds, asset⟩
  rcases unfolds_node_iff.mp unfolds with ⟨children, found, childrenUnfold⟩
  rw [asset, treeAsset]
  refine ⟨children, found, ?_⟩
  change List.Forall₂ _ children (trees.map fun tree => (treeAsset runtime tree).hash)
  rw [List.forall₂_map_right_iff]
  refine childrenUnfold.imp ?_
  intro child tree childUnfolds other otherMember named
  rcases (builds.faithful other otherMember).asset with ⟨otherTree, otherUnfolds, otherAsset⟩
  rw [named] at otherUnfolds
  rw [otherAsset, otherUnfolds.unique childUnfolds]

/-- The assets passed are the assets of the parts of the unfolded tree. -/
theorem passes_iff (builds : BuildsTree description calls) {tree : RoseTree Fields}
    (unfolds : Unfolds description.graph "root" tree) (asset : Asset runtime) :
    (∃ call ∈ calls, call.asset = asset) ↔
      ∃ part, tree.Contains part ∧ asset = treeAsset runtime part := by
  constructor
  · rintro ⟨call, member, rfl⟩
    have reachable := (builds.exists_call_iff call.name).mp ⟨call, member, rfl⟩
    rcases exists_contains_of_reachable unfolds reachable with ⟨part, contains, partUnfolds⟩
    rcases (builds.faithful call member).asset with ⟨other, otherUnfolds, asset⟩
    exact ⟨part, contains, by rw [asset, otherUnfolds.unique partUnfolds]⟩
  · rintro ⟨part, contains, rfl⟩
    rcases exists_reachable_of_contains contains .refl unfolds with ⟨name, reachable, partUnfolds⟩
    rcases (builds.exists_call_iff name).mpr reachable with ⟨call, member, named⟩
    rcases (builds.faithful call member).asset with ⟨other, otherUnfolds, asset⟩
    rw [named] at otherUnfolds
    exact ⟨call, member, by rw [asset, otherUnfolds.unique partUnfolds]⟩

/-- The root comes last, and only that call is flagged. -/
theorem root_last (builds : BuildsTree description calls)
    (acyclic : Acyclic description.graph "root") :
    ∃ before last, calls = before ++ [last] ∧ last.name = "root" ∧ last.isRoot = true ∧
      ∀ call ∈ before, call.isRoot = false := by
  rcases builds.collected.fromRoot with ⟨rest, total, descendants⟩
  rw [List.append_nil, List.reverse_eq_iff, List.reverse_cons] at total
  rcases List.map_eq_append_iff.mp total with ⟨before, final, split, earlier, lastName⟩
  rcases List.map_eq_singleton_iff.mp lastName with ⟨last, single, named⟩
  subst single
  have lastFlag := (builds.faithful last (by simp [split])).isRoot
  refine ⟨before, last, split, named, by simpa [named] using lastFlag, ?_⟩
  intro call member
  have flag := (builds.faithful call (by simp [split, member])).isRoot
  have descendant : call.name ∈ rest := by
    have : call.name ∈ before.map Call.name := List.mem_map_of_mem member
    rw [earlier] at this
    simpa using this
  have proper : call.name ≠ "root" := by
    intro isRoot
    exact acyclic "root" .refl (isRoot ▸ descendants call.name descendant)
  rw [flag]
  exact beq_eq_false_iff_ne.mpr proper

end BuildsTree

/-! ## The hash-linked tree -/

/-- What the sequence of callbacks has to be for a description. -/
structure HashLinked {runtime : Runtime} (description : Description)
    (calls : List (Call runtime)) : Prop where
  passesReachable : ∀ name,
    (∃ call ∈ calls, call.name = name) ↔ Reachable description.graph "root" name
  contents : ∀ call ∈ calls, ∃ children,
    description.graph call.name = some (call.asset.data, children) ∧
      List.Forall₂ (fun child hash => ∀ other ∈ calls, other.name = child →
        other.asset.hash = hash) children call.asset.childHashes
  childrenFirst : ∀ before parent after, calls = before ++ parent :: after →
    ∀ child, Edge description.graph parent.name child → ∃ call ∈ before, call.name = child
  sameAsset : ∀ left ∈ calls, ∀ right ∈ calls, left.name = right.name → left.asset = right.asset
  rootLast : ∃ before last, calls = before ++ [last] ∧ last.name = "root" ∧
    last.isRoot = true ∧ ∀ call ∈ before, call.isRoot = false

/-- `createAssetTree` ends on every complete acyclic description, never reads an
asset that has not been built, and passes on a correct hash-linked tree. -/
theorem createAssetTree_hashLinked (runtime : Runtime) (description : Description)
    (complete : Complete description.graph "root") (acyclic : Acyclic description.graph "root") :
    ∃ fuel calls, createAssetTree runtime description fuel = some ⟨calls, none⟩ ∧
      HashLinked description calls := by
  rcases createAssetTree_buildsTree runtime description complete acyclic with
    ⟨fuel, calls, created, builds⟩
  refine ⟨fuel, calls, created, ?_⟩
  constructor
  · exact builds.exists_call_iff
  · intro call member
    exact builds.contents member
  · intro before parent after split child edge
    exact builds.child_before_parent split edge
  · intro left leftMember right rightMember names
    exact builds.asset_eq_of_name_eq leftMember rightMember names
  · exact builds.root_last acyclic

/-- A wheelbarrow whose wheel is a part of its frame and is listed twice beside
it. -/
def wheelbarrow : Description :=
  [("root", ⟨[("name", .string "wheelbarrow")], some ["frame", "wheel", "wheel"]⟩),
    ("frame", ⟨[("class", .string "Frame")], some ["wheel"]⟩),
    ("wheel", ⟨[("class", .string "Wheel")], some []⟩)]

def wheelbarrowRank (name : String) : Nat :=
  if name = "root" then 2 else if name = "frame" then 1 else 0

theorem wheelbarrow_complete : Complete wheelbarrow.graph "root" :=
  Description.complete_of_closed (by decide) (by decide)

theorem wheelbarrow_acyclic : Acyclic wheelbarrow.graph "root" :=
  Description.acyclic_of_ranked wheelbarrowRank (by decide)

/-- A stand-in for Keccak that keeps the last bytes of a message. -/
def lastBytes (message : Bytes) : Swarm.Digest where
  bytes := (message.reverse ++ List.replicate 32 0).take 32
  length_eq := by simp

theorem createAssetTree_wheelbarrow :
    ∃ fuel calls, createAssetTree (Runtime.compact lastBytes) wheelbarrow fuel =
        some ⟨calls, none⟩ ∧ HashLinked wheelbarrow calls :=
  createAssetTree_hashLinked _ wheelbarrow wheelbarrow_complete wheelbarrow_acyclic

end PizzaChain.Assets
