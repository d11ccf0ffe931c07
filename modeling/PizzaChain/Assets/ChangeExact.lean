import PizzaChain.Assets.SubstitutedTree
import Mathlib.Data.Set.Function

/-! # What a change substitutes

`changeAsset` replaces one link in each parent and starts over for each parent.
The new root is that of the tree with every occurrence of the old asset replaced
exactly when there is one way up to the root with one link at each step.
-/

namespace PizzaChain.Assets

variable {runtime : Runtime}

/-! ## Finished runs -/

section Changes

variable {store : LinkedStore runtime} {rootAsset oldAsset newAsset : Asset runtime}
  {search : ParentSearch store rootAsset} {newTree : RoseTree Fields}

/-- The assets that play a part in a change: those of the store, those that were
called back with before, and the changed ones. -/
def Involved (search : ParentSearch store rootAsset) (before : List (ChangeCall runtime))
    (oldAsset newAsset asset : Asset runtime) : Prop :=
  asset ∈ store.assets ∨ asset ∈ before.map ChangeCall.asset ∨
    ∃ child, Reachable (namedGraph (changes search.getParent)) (oldAsset, newAsset) (child, asset)

/-- One call is marked as that of the root, and what unfolds from it over the old
assets and the called-back ones is the old tree with every occurrence of the old
asset replaced. -/
def Substituted (store : LinkedStore runtime) (rootAsset oldAsset : Asset runtime)
    (newTree : RoseTree Fields) (changing : Changing runtime) : Prop :=
  ∃ newRoot, changing.calls.filter ChangeCall.isRoot = [⟨newRoot, true⟩] ∧
    ∀ rootTree, Unfolds (assetGraph store.assets) rootAsset.hash rootTree →
      Unfolds (assetGraph (store.assets ++ changing.calls.map ChangeCall.asset)) newRoot.hash
        (rootTree.substitute (isTreeOf oldAsset) newTree)

/-- The runs come to an end, and then the result holds. -/
def Ends (getParent : Asset runtime → List (Asset runtime)) (rootAsset : Asset runtime)
    (runs : List Nat → Changing runtime → Prop) (result : Changing runtime → Prop) : Prop :=
  ∃ total, ∀ actions changing, runs actions changing →
    actions.length ≤ total ∧
    (actions.length < total →
      ∃ index next, changeStep getParent rootAsset changing index = some next) ∧
    (actions.length = total → result changing)

theorem Ends.mono {getParent : Asset runtime → List (Asset runtime)}
    {runs : List Nat → Changing runtime → Prop} {result other : Changing runtime → Prop}
    (implies : ∀ actions changing, runs actions changing → result changing → other changing)
    (ends : Ends getParent rootAsset runs result) : Ends getParent rootAsset runs other := by
  rcases ends with ⟨total, ends⟩
  refine ⟨total, fun actions changing run => ?_⟩
  rcases ends actions changing run with ⟨bounded, progress, finished⟩
  exact ⟨bounded, progress, fun complete => implies actions changing run (finished complete)⟩

variable {before : List (ChangeCall runtime)}

/-- The calls after all changes of the unfolded tree were made. -/
structure Finished (search : ParentSearch store rootAsset) (before : List (ChangeCall runtime))
    (oldAsset newAsset : Asset runtime)
    (treeOf : Asset runtime × Asset runtime → RoseTree (Asset runtime × Asset runtime))
    (done : List (Asset runtime × Asset runtime)) (changing : Changing runtime) : Prop where
  calls_eq : changing.calls = before ++ done.map (changeCall rootAsset)
  whole : done.Perm (treeOf (oldAsset, newAsset)).labels

namespace Finished

variable {treeOf : Asset runtime × Asset runtime → RoseTree (Asset runtime × Asset runtime)}
  {done : List (Asset runtime × Asset runtime)} {changing : Changing runtime}

theorem mem_done_iff
    (unfolds : ∀ change, Unfolds (namedGraph (changes search.getParent)) change (treeOf change))
    (finished : Finished search before oldAsset newAsset treeOf done changing)
    (change : Asset runtime × Asset runtime) :
    change ∈ done ↔
      Reachable (namedGraph (changes search.getParent)) (oldAsset, newAsset) change := by
  rw [finished.whole.mem_iff, mem_labels_iff_reachable (unfolds _)]

theorem known_iff
    (unfolds : ∀ change, Unfolds (namedGraph (changes search.getParent)) change (treeOf change))
    (finished : Finished search before oldAsset newAsset treeOf done changing)
    (asset : Asset runtime) :
    asset ∈ store.assets ++ changing.calls.map ChangeCall.asset ↔
      Involved search before oldAsset newAsset asset := by
  have changed : asset ∈ (done.map (changeCall rootAsset)).map ChangeCall.asset ↔
      ∃ child, (child, asset) ∈ done := by
    simp [changeCall]
  rw [finished.calls_eq, List.map_append, List.mem_append, List.mem_append, changed, Involved]
  simp only [finished.mem_done_iff unfolds]

/-- The calls that are marked are those of the changes of the root. -/
theorem filter_calls (finished : Finished search before oldAsset newAsset treeOf done changing)
    (unmarked : ∀ call ∈ before, call.isRoot = false) :
    changing.calls.filter ChangeCall.isRoot =
      (done.filter (isRootChange rootAsset)).map (changeCall rootAsset) := by
  rw [finished.calls_eq, List.filter_append, List.filter_map,
    List.filter_eq_nil_iff.mpr fun call member => by simp [unmarked call member]]
  rfl

theorem all_known (unfolds : ∀ change,
      Unfolds (namedGraph (changes search.getParent)) change (treeOf change))
    (finished : Finished search before oldAsset newAsset treeOf done changing)
    (unique : Set.InjOn Asset.hash { asset | Involved search before oldAsset newAsset asset })
    (inserted : ∀ part, newTree.Contains part →
      Involved search before oldAsset newAsset (treeAsset runtime part)) :
    Known search oldAsset newAsset newTree
      (store.assets ++ changing.calls.map ChangeCall.asset) where
  unique := by
    intro left leftMember right rightMember same
    exact unique ((finished.known_iff unfolds left).mp leftMember)
      ((finished.known_iff unfolds right).mp rightMember) same
  stored := fun asset member => List.mem_append_left _ member
  changed := fun change made => (finished.known_iff unfolds _).mpr (.inr (.inr ⟨change.1, made⟩))
  inserted := fun part contains => (finished.known_iff unfolds _).mpr (inserted part contains)

/-- A root that is changed once is changed by one call. -/
theorem exists_root_change (unfolds : ∀ change,
      Unfolds (namedGraph (changes search.getParent)) change (treeOf change))
    (finished : Finished search before oldAsset newAsset treeOf done changing)
    (rootMember : rootAsset ∈ store.assets) (old : store.Under rootAsset oldAsset)
    (once : rootChanges rootAsset treeOf (oldAsset, newAsset) = 1) :
    ∃ newRoot, done.filter (isRootChange rootAsset) = [(rootAsset, newRoot)] := by
  rw [rootChanges, ← finished.whole.countP_eq, List.countP_eq_length_filter] at once
  rcases List.length_eq_one_iff.mp once with ⟨⟨asset, newRoot⟩, only⟩
  have member : (asset, newRoot) ∈ done.filter (isRootChange rootAsset) := by
    rw [only]
    exact List.mem_cons_self
  rcases List.mem_filter.mp member with ⟨made, isRoot⟩
  have above := above_of_change old ((finished.mem_done_iff unfolds _).mp made)
  have same := store.unique asset above.under.member rootAsset rootMember (eq_of_beq isRoot)
  exact ⟨newRoot, by rw [only, same]⟩

/-- A finished change substitutes exactly under the condition. -/
theorem substituted_iff (unfolds : ∀ change,
      Unfolds (namedGraph (changes search.getParent)) change (treeOf change))
    (grows : Worklist.Grows (changes search.getParent) treeOf)
    (finished : Finished search before oldAsset newAsset treeOf done changing)
    (unmarked : ∀ call ∈ before, call.isRoot = false)
    (rootMember : rootAsset ∈ store.assets) (old : store.Under rootAsset oldAsset)
    (sameNew : treeAsset runtime newTree = newAsset)
    (holds : Known search oldAsset newAsset newTree
      (store.assets ++ changing.calls.map ChangeCall.asset)) :
    Substituted store rootAsset oldAsset newTree changing ↔
      store.SingleParents rootAsset oldAsset ∧
        (newAsset = oldAsset ∨ store.SingleLinks rootAsset oldAsset) := by
  rw [Substituted, finished.filter_calls unmarked]
  constructor
  · intro substituted
    rcases substituted with ⟨marked, calls, newUnfolds⟩
    have once : rootChanges rootAsset treeOf (oldAsset, newAsset) = 1 := by
      rw [rootChanges, ← finished.whole.countP_eq, List.countP_eq_length_filter,
        ← List.length_map (changeCall rootAsset), calls]
      rfl
    have single := singleParents_of_rootChanges unfolds grows rootMember old once
    rcases finished.exists_root_change unfolds rootMember old once with ⟨newRoot, only⟩
    rw [only] at calls
    have sameRoot : newRoot = marked :=
      congrArg ChangeCall.asset (List.cons.inj calls).1
    subst sameRoot
    refine ⟨single, holds.singleLinks_of_faithful single old sameNew fun change made => ?_⟩
    rcases store.exists_unfolds rootMember with ⟨rootTree, rootUnfolds, _⟩
    have above := above_of_change old made
    rcases PizzaChain.Assets.exists_root_change search rootMember above.under change.2 with
      ⟨other, leads⟩
    have isOnly : (rootAsset, other) ∈ done.filter (isRootChange rootAsset) :=
      List.mem_filter.mpr
        ⟨(finished.mem_done_iff unfolds _).mpr (made.trans leads), beq_self_eq_true _⟩
    rw [only, List.mem_singleton] at isOnly
    cases isOnly
    exact (holds.faithful_of_root single old rootUnfolds (newUnfolds rootTree rootUnfolds) made
      leads).1
  · intro condition
    rcases condition with ⟨single, links⟩
    have once := single.rootChanges_eq_one rootMember grows ⟨old, .refl⟩ newAsset
    rcases finished.exists_root_change unfolds rootMember old once with ⟨newRoot, only⟩
    refine ⟨newRoot, by simp [only, changeCall], fun rootTree rootUnfolds => ?_⟩
    have faithful : ∀ change,
        Reachable (namedGraph (changes search.getParent)) (oldAsset, newAsset) change →
          Faithful store oldAsset newTree change :=
      fun change made => faithful_of_change single old sameNew links made
    have made : (rootAsset, newRoot) ∈ done :=
      (List.mem_filter.mp (only ▸ List.mem_cons_self)).1
    have sameRoot : newRoot = _ :=
      faithful _ ((finished.mem_done_iff unfolds _).mp made) rootTree rootUnfolds
    rw [sameRoot]
    exact holds.unfolds_substitute old faithful ⟨rootMember, .refl⟩ rootUnfolds

end Finished

/-- The runs of a change end, and their result is the substitution exactly under
the condition. -/
theorem ends_substituted_iff (search : ParentSearch store rootAsset)
    (before : List (ChangeCall runtime)) (rootMember : rootAsset ∈ store.assets)
    (old : store.Under rootAsset oldAsset)
    (unmarked : ∀ call ∈ before, call.isRoot = false)
    (sameNew : treeAsset runtime newTree = newAsset)
    (unique : Set.InjOn Asset.hash { asset | Involved search before oldAsset newAsset asset })
    (inserted : ∀ part, newTree.Contains part →
      Involved search before oldAsset newAsset (treeAsset runtime part)) :
    Ends search.getParent rootAsset
        (ChangeAsset search.getParent rootAsset before oldAsset newAsset)
        (Substituted store rootAsset oldAsset newTree) ↔
      store.SingleParents rootAsset oldAsset ∧
        (newAsset = oldAsset ∨ store.SingleLinks rootAsset oldAsset) := by
  rcases Worklist.exists_grows (exists_unfolds_changes search) with ⟨treeOf, grows, unfolds⟩
  have finishes : ∀ actions changing,
      ChangeAsset search.getParent rootAsset before oldAsset newAsset actions changing →
      actions.length ≤ (treeOf (oldAsset, newAsset)).size - 1 ∧
      (actions.length < (treeOf (oldAsset, newAsset)).size - 1 →
        ∃ index next, changeStep search.getParent rootAsset changing index = some next) ∧
      (actions.length = (treeOf (oldAsset, newAsset)).size - 1 →
        (Substituted store rootAsset oldAsset newTree changing ↔
          store.SingleParents rootAsset oldAsset ∧
            (newAsset = oldAsset ∨ store.SingleLinks rootAsset oldAsset))) := by
    intro actions changing run
    rcases changes_of_run grows run with ⟨work, total, explores, represents, progress⟩
    refine ⟨by omega, fun shorter => progress (by omega), fun complete => ?_⟩
    have finished : Finished search before oldAsset newAsset treeOf work.done changing :=
      ⟨represents.calls_eq, explores.perm_of_finished (by omega)⟩
    exact finished.substituted_iff unfolds grows unmarked rootMember old sameNew
      (finished.all_known unfolds unique inserted)
  constructor
  · intro ends
    rcases ends with ⟨total, ends⟩
    rcases Transitions.exists_maximal fun actions changing run =>
        (finishes actions changing run).1 with ⟨actions, changing, run, stuck⟩
    have notShorter : ¬actions.length < (treeOf (oldAsset, newAsset)).size - 1 := by
      intro shorter
      rcases (finishes actions changing run).2.1 shorter with ⟨index, next, stepped⟩
      exact stuck index next stepped
    have notBefore : ¬actions.length < total := by
      intro shorter
      rcases (ends actions changing run).2.1 shorter with ⟨index, next, stepped⟩
      exact stuck index next stepped
    have bounded := (finishes actions changing run).1
    have totalBounded := (ends actions changing run).1
    exact ((finishes actions changing run).2.2 (by omega)).mp
      ((ends actions changing run).2.2 (by omega))
  · intro condition
    refine ⟨(treeOf (oldAsset, newAsset)).size - 1, fun actions changing run => ?_⟩
    rcases finishes actions changing run with ⟨bounded, progress, result⟩
    exact ⟨bounded, progress, fun complete => (result complete).mpr condition⟩

end Changes

/-! ## Changing and appending -/

section Assets

variable {store : LinkedStore runtime}

/-- An asset over the trees of its links. -/
theorem treeAsset_of_links {asset : Asset runtime} {children : List (RoseTree Fields)}
    (links : List.Forall₂ (Unfolds (assetGraph store.assets)) asset.childHashes children) :
    (children.map fun child => (treeAsset runtime child).hash) = asset.childHashes := by
  have same := map_eq_map_of_related links id (fun child => (treeAsset runtime child).hash)
    fun hash _ tree unfolds => hash_of_unfolds unfolds
  rw [same, List.map_id]

theorem mem_store_of_links {hashes : List String} {children : List (RoseTree Fields)}
    (links : List.Forall₂ (Unfolds (assetGraph store.assets)) hashes children)
    {child part : RoseTree Fields} (member : child ∈ children) (contains : child.Contains part) :
    treeAsset runtime part ∈ store.assets := by
  rcases exists_related links.flip member with ⟨hash, _, unfolds⟩
  exact mem_store_of_contains unfolds contains

end Assets

/-- `changeAsset` replaces the old asset at every place where it occurs, and
`appendAsset` the asset that is attached to, exactly when the assets on the way up
to the root have one parent each that lists them once; `changeAsset` also when
nothing changes. Both always come to an end. -/
theorem changeAsset_substitutes_iff (store : LinkedStore runtime) (rootAsset : Asset runtime)
    (rootMember : rootAsset ∈ store.assets) (search : ParentSearch store rootAsset)
    (oldAsset newAsset : Asset runtime) (old : store.Under rootAsset oldAsset)
    (newChildren oldChildren : List (RoseTree Fields))
    (newLinks : List.Forall₂ (Unfolds (assetGraph store.assets)) newAsset.childHashes newChildren)
    (oldLinks : List.Forall₂ (Unfolds (assetGraph store.assets)) oldAsset.childHashes oldChildren)
    (changeUnique : Set.InjOn Asset.hash
      { asset | Involved search [] oldAsset newAsset asset })
    (appendUnique : Set.InjOn Asset.hash
      { asset | Involved search [⟨newAsset, false⟩] oldAsset
        (oldAsset.addChildHash newAsset.hash) asset }) :
    (Ends search.getParent rootAsset
        (ChangeAsset search.getParent rootAsset [] oldAsset newAsset)
        (Substituted store rootAsset oldAsset (.node newAsset.data newChildren)) ↔
      store.SingleParents rootAsset oldAsset ∧
        (newAsset = oldAsset ∨ store.SingleLinks rootAsset oldAsset)) ∧
    (Ends search.getParent rootAsset (AppendAsset search.getParent rootAsset oldAsset newAsset)
        (fun changing => ⟨newAsset, false⟩ ∈ changing.calls ∧
          Substituted store rootAsset oldAsset
            (.node oldAsset.data (oldChildren ++ [.node newAsset.data newChildren])) changing) ↔
      store.SingleParents rootAsset oldAsset ∧ store.SingleLinks rootAsset oldAsset) := by
  have newTree : treeAsset runtime (.node newAsset.data newChildren) = newAsset := by
    rw [treeAsset, treeAsset_of_links newLinks, Asset.create_contents]
  have newParts : ∀ part, (RoseTree.node newAsset.data newChildren).Contains part →
      treeAsset runtime part = newAsset ∨ treeAsset runtime part ∈ store.assets := by
    intro part contains
    cases contains with
    | self => exact .inl newTree
    | child member below => exact .inr (mem_store_of_links newLinks member below)
  constructor
  · apply ends_substituted_iff search [] rootMember old (by simp) newTree changeUnique
    intro part contains
    rcases newParts part contains with same | stored
    · exact .inr (.inr ⟨oldAsset, same ▸ .refl⟩)
    · exact .inl stored
  · have extended : treeAsset runtime
          (.node oldAsset.data (oldChildren ++ [.node newAsset.data newChildren])) =
        oldAsset.addChildHash newAsset.hash := by
      rw [treeAsset, List.map_append, treeAsset_of_links oldLinks, List.map_singleton, newTree]
      rfl
    have different : oldAsset.addChildHash newAsset.hash ≠ oldAsset := by
      intro same
      have lengths := congrArg (fun asset => asset.childHashes.length) same
      simp [Asset.addChildHash, Asset.create] at lengths
    have appended := ends_substituted_iff search [⟨newAsset, false⟩] rootMember old (by simp)
      extended appendUnique ?_
    · rw [or_iff_right different] at appended
      rw [← appended]
      constructor
      · exact Ends.mono fun _ _ _ result => result.2
      · exact Ends.mono fun _ _ run result => ⟨mem_calls_of_run run _ List.mem_cons_self, result⟩
    · intro part contains
      cases contains with
      | self => exact .inr (.inr ⟨oldAsset, extended ▸ .refl⟩)
      | child member below =>
          rcases List.mem_append.mp member with oldChild | newChild
          · exact .inl (mem_store_of_links oldLinks oldChild below)
          · rw [List.mem_singleton.mp newChild] at below
            rcases newParts part below with same | stored
            · exact .inr (.inl (by simp [same]))
            · exact .inl stored

/-! ## A root over one leaf -/

section Star

variable {root leaf : Asset runtime} {links : ∀ hash ∈ root.childHashes, hash = leaf.hash}
  {leafless : leaf.childHashes = []} {different : leaf.hash ≠ root.hash}

/-- In such a store only the root is a parent. -/
theorem eq_root_of_link {parent : Asset runtime} {hash : String}
    (member : parent ∈ (LinkedStore.star root leaf links leafless different).assets)
    (linked : hash ∈ parent.childHashes) : parent = root := by
  rcases List.mem_cons.mp member with isRoot | isLeaf
  · exact isRoot
  · rw [List.mem_singleton.mp isLeaf, leafless] at linked
    cases linked

def ParentSearch.star (root leaf : Asset runtime)
    (links : ∀ hash ∈ root.childHashes, hash = leaf.hash) (leafless : leaf.childHashes = [])
    (different : leaf.hash ≠ root.hash) :
    ParentSearch (.star root leaf links leafless different) root where
  getParent := fun child => if child.hash ∈ root.childHashes then [root] else []
  nodup := by
    intro child
    split
    · exact List.nodup_singleton root
    · exact List.nodup_nil
  mem_iff := by
    intro child parent
    constructor
    · intro found
      split at found
      · next linked =>
          cases List.mem_singleton.mp found
          exact ⟨⟨List.mem_cons_self, .refl⟩, linked⟩
      · cases found
    · intro found
      have isRoot := eq_root_of_link found.1.member found.2
      subst isRoot
      rw [if_pos found.2]
      exact List.mem_cons_self

theorem under_star (linked : leaf.hash ∈ root.childHashes) :
    (LinkedStore.star root leaf links leafless different).Under root leaf :=
  ⟨by simp [LinkedStore.star], .single (LinkedStore.edge_of_link List.mem_cons_self linked)⟩

theorem singleParents_star :
    (LinkedStore.star root leaf links leafless different).SingleParents root leaf := by
  intro child left right _ leftUnder leftLinked rightUnder rightLinked
  rw [eq_root_of_link leftUnder.member leftLinked, eq_root_of_link rightUnder.member rightLinked]

theorem singleLinks_star (once : root.childHashes.count leaf.hash = 1) :
    (LinkedStore.star root leaf links leafless different).SingleLinks root leaf := by
  intro child parent _ under linked
  have isRoot := eq_root_of_link under.member linked
  subst isRoot
  rw [links _ linked, once]

/-- A change of the leaf changes the root as well, and that is all. -/
theorem involved_star {before : List (ChangeCall runtime)} {newAsset asset : Asset runtime}
    (involved : Involved (ParentSearch.star root leaf links leafless different) before leaf
      newAsset asset) :
    asset ∈ [root, leaf, newAsset, root.relink leaf newAsset] ++ before.map ChangeCall.asset := by
  have changed : ∀ change, Reachable
      (namedGraph (changes (ParentSearch.star root leaf links leafless different).getParent))
      (leaf, newAsset) change →
      change = (leaf, newAsset) ∨ change = (root, root.relink leaf newAsset) := by
    intro change made
    induction made with
    | refl => exact .inl rfl
    | tail _ edge induction =>
        rcases (edge_changes_iff _).mp edge with ⟨⟨under, linked⟩, relinked⟩
        have isRoot := eq_root_of_link under.member linked
        rcases induction with same | same
        · subst same
          exact .inr (Prod.ext isRoot (by rw [relinked, isRoot]))
        · subst same
          rw [isRoot] at linked
          exact absurd (links _ linked).symm different
  rcases involved with stored | earlier | ⟨child, made⟩
  · rcases List.mem_cons.mp stored with isRoot | isLeaf
    · simp [isRoot]
    · simp [List.mem_singleton.mp isLeaf]
  · exact List.mem_append_right _ earlier
  · rcases changed _ made with same | same
    · cases same
      simp
    · cases same
      simp

end Star

/-- A stand-in for Keccak that keeps the first bytes of a message. -/
def firstBytes (message : Bytes) : Swarm.Digest where
  bytes := (message ++ List.replicate 32 0).take 32
  length_eq := by simp

def wheelDigest : Bytes :=
  Asset.compactDigest firstBytes [] [("class", .string "Wheel")]

def tyreDigest : Bytes :=
  Asset.compactDigest firstBytes [] [("class", .string "Tyre")]

def tyredWheelDigest : Bytes :=
  Asset.compactDigest firstBytes [tyreDigest] [("class", .string "Wheel")]

def vehicleDigest (first : Bytes) (further : Nat) : Bytes :=
  Asset.compactDigest firstBytes (first :: List.replicate further wheelDigest)
    [("name", .string "vehicle")]

def wheel : Asset (Runtime.compact firstBytes) :=
  .create _ [] [("class", .string "Wheel")]

def tyre : Asset (Runtime.compact firstBytes) :=
  .create _ [] [("class", .string "Tyre")]

def tyredWheel : Asset (Runtime.compact firstBytes) :=
  wheel.addChildHash tyre.hash

/-- A vehicle with a first wheel and so many further equal ones. -/
def vehicle (first : Asset (Runtime.compact firstBytes)) (further : Nat) :
    Asset (Runtime.compact firstBytes) :=
  .create _ (first.hash :: List.replicate further wheel.hash) [("name", .string "vehicle")]

theorem relink_vehicle (other : Asset (Runtime.compact firstBytes)) (further : Nat) :
    (vehicle wheel further).relink wheel other = vehicle other further := by
  simp [Asset.relink, vehicle, Asset.create, List.idxOf_cons_self]

theorem wheel_hash : wheel.hash = hex wheelDigest :=
  Asset.hash_compact [] _ (by decide +kernel)

theorem tyre_hash : tyre.hash = hex tyreDigest :=
  Asset.hash_compact [] _ (by decide +kernel)

theorem tyredWheel_hash : tyredWheel.hash = hex tyredWheelDigest := by
  change (Asset.create _ [tyre.hash] [("class", .string "Wheel")]).hash = _
  rw [tyre_hash]
  exact Asset.hash_compact [tyreDigest] _ (by decide +kernel)

theorem vehicle_hash {first : Asset (Runtime.compact firstBytes)} {digest : Bytes}
    (named : first.hash = hex digest) (further : Nat)
    (short : (Asset.compactBytes (digest :: List.replicate further wheelDigest)
      [("name", .string "vehicle")]).length ≤ Swarm.chunkSize) :
    (vehicle first further).hash = hex (vehicleDigest digest further) := by
  rw [vehicle, named, wheel_hash, ← List.map_replicate, ← List.map_cons]
  exact Asset.hash_compact _ _ short

theorem vehicle_links (further : Nat) :
    ∀ hash ∈ (vehicle wheel further).childHashes, hash = wheel.hash := by
  intro hash linked
  rcases List.mem_cons.mp linked with same | later
  · exact same
  · exact (List.mem_replicate.mp later).2

theorem vehicle_hash_ne :
    wheel.hash ≠ (vehicle wheel 0).hash ∧ wheel.hash ≠ (vehicle wheel 1).hash := by
  rw [vehicle_hash wheel_hash 0 (by decide +kernel), vehicle_hash wheel_hash 1 (by decide +kernel),
    wheel_hash, hex_injective.ne_iff, hex_injective.ne_iff]
  decide +kernel

def vehicleSearch (further : Nat) (different : wheel.hash ≠ (vehicle wheel further).hash) :
    ParentSearch (.star (vehicle wheel further) wheel (vehicle_links further) rfl different)
      (vehicle wheel further) :=
  .star (vehicle wheel further) wheel (vehicle_links further) rfl different

theorem getParent_wheel (further : Nat)
    (different : wheel.hash ≠ (vehicle wheel further).hash) :
    (vehicleSearch further different).getParent wheel = [vehicle wheel further] :=
  if_pos List.mem_cons_self

theorem getParent_vehicle (further : Nat)
    (different : wheel.hash ≠ (vehicle wheel further).hash) :
    (vehicleSearch further different).getParent (vehicle wheel further) = [] :=
  if_neg fun linked => different (vehicle_links further _ linked).symm

/-- The assets of a change of the wheel have different hashes when their digests
are different. -/
theorem injOn_vehicle {further : Nat} {different : wheel.hash ≠ (vehicle wheel further).hash}
    {before : List (ChangeCall (Runtime.compact firstBytes))}
    {newAsset : Asset (Runtime.compact firstBytes)} {digest : Bytes} (earlier : List Bytes)
    (named : newAsset.hash = hex digest)
    (earlierNamed : (before.map ChangeCall.asset).map Asset.hash = earlier.map hex)
    (oldHash : (vehicle wheel further).hash = hex (vehicleDigest wheelDigest further))
    (newHash : (vehicle newAsset further).hash = hex (vehicleDigest digest further))
    (nodup : ([vehicleDigest wheelDigest further, wheelDigest, digest,
      vehicleDigest digest further] ++ earlier).Nodup) :
    Set.InjOn Asset.hash
      { asset | Involved (vehicleSearch further different) before wheel newAsset asset } := by
  have hashes : ([vehicle wheel further, wheel, newAsset,
        (vehicle wheel further).relink wheel newAsset] ++ before.map ChangeCall.asset).map
          Asset.hash =
      ([vehicleDigest wheelDigest further, wheelDigest, digest,
        vehicleDigest digest further] ++ earlier).map hex := by
    simp [relink_vehicle, oldHash, wheel_hash, named, newHash, ← earlierNamed]
  have nodupHashes := nodup.map hex_injective
  rw [← hashes] at nodupHashes
  intro left leftInvolved right rightInvolved same
  exact List.inj_on_of_nodup_map nodupHashes (involved_star leftInvolved)
    (involved_star rightInvolved) same

/-- The only wheel of a vehicle is replaced by a tyre, and gets a tyre. -/
theorem changeAsset_substitutes_iff_vehicle :
    Ends (vehicleSearch 0 vehicle_hash_ne.1).getParent (vehicle wheel 0)
      (ChangeAsset (vehicleSearch 0 vehicle_hash_ne.1).getParent (vehicle wheel 0) [] wheel tyre)
      (Substituted (.star (vehicle wheel 0) wheel (vehicle_links 0) rfl vehicle_hash_ne.1)
        (vehicle wheel 0) wheel (.node tyre.data [])) ∧
    Ends (vehicleSearch 0 vehicle_hash_ne.1).getParent (vehicle wheel 0)
      (AppendAsset (vehicleSearch 0 vehicle_hash_ne.1).getParent (vehicle wheel 0) wheel tyre)
      (fun changing => ⟨tyre, false⟩ ∈ changing.calls ∧
        Substituted (.star (vehicle wheel 0) wheel (vehicle_links 0) rfl vehicle_hash_ne.1)
          (vehicle wheel 0) wheel (.node wheel.data [.node tyre.data []]) changing) := by
  have exact := changeAsset_substitutes_iff _ _ List.mem_cons_self
    (vehicleSearch 0 vehicle_hash_ne.1) wheel tyre (under_star List.mem_cons_self) [] [] .nil .nil
    (injOn_vehicle [] tyre_hash rfl (vehicle_hash wheel_hash 0 (by decide +kernel))
      (vehicle_hash tyre_hash 0 (by decide +kernel)) (by decide +kernel))
    (injOn_vehicle [tyreDigest] tyredWheel_hash (congrArg (fun hash => [hash]) tyre_hash)
      (vehicle_hash wheel_hash 0 (by decide +kernel))
      (vehicle_hash tyredWheel_hash 0 (by decide +kernel)) (by decide +kernel))
  have once : (vehicle wheel 0).childHashes.count wheel.hash = 1 := by simp [vehicle, Asset.create]
  exact ⟨exact.1.mpr ⟨singleParents_star, .inr (singleLinks_star once)⟩,
    exact.2.mpr ⟨singleParents_star, singleLinks_star once⟩⟩

/-- When a vehicle has two equal wheels, the change replaces the first and keeps the
second, although no two of the assets have the same hash. -/
theorem changeAsset_keeps_second_wheel :
    Set.InjOn Asset.hash
      { asset | Involved (vehicleSearch 1 vehicle_hash_ne.2) [] wheel tyre asset } ∧
    ChangeAsset (vehicleSearch 1 vehicle_hash_ne.2).getParent (vehicle wheel 1) [] wheel tyre [0]
      ⟨[], [⟨tyre, false⟩, ⟨vehicle tyre 1, true⟩]⟩ ∧
    (vehicle tyre 1).childHashes = [tyre.hash, wheel.hash] ∧ tyre.hash ≠ wheel.hash ∧
    ¬Ends (vehicleSearch 1 vehicle_hash_ne.2).getParent (vehicle wheel 1)
      (ChangeAsset (vehicleSearch 1 vehicle_hash_ne.2).getParent (vehicle wheel 1) [] wheel tyre)
      (Substituted (.star (vehicle wheel 1) wheel (vehicle_links 1) rfl vehicle_hash_ne.2)
        (vehicle wheel 1) wheel (.node tyre.data [])) := by
  have linked : wheel.hash ∈ (vehicle wheel 1).childHashes := List.mem_cons_self
  have unique : Set.InjOn Asset.hash
      { asset | Involved (vehicleSearch 1 vehicle_hash_ne.2) [] wheel tyre asset } :=
    injOn_vehicle [] tyre_hash rfl (vehicle_hash wheel_hash 1 (by decide +kernel))
      (vehicle_hash tyre_hash 1 (by decide +kernel)) (by decide +kernel)
  have apart : tyre.hash ≠ wheel.hash := by
    rw [tyre_hash, wheel_hash, hex_injective.ne_iff]
    decide +kernel
  have tyreTree : treeAsset (Runtime.compact firstBytes) (.node tyre.data []) = tyre := by
    rw [treeAsset]
    rfl
  refine ⟨unique, ?_, rfl, apart, ?_⟩
  · have different := vehicle_hash_ne.2
    have stepped : changeStep (vehicleSearch 1 different).getParent (vehicle wheel 1)
        (changeAsset (vehicleSearch 1 different).getParent (vehicle wheel 1) wheel tyre ⟨[], []⟩)
        0 = some ⟨[], [⟨tyre, false⟩, ⟨vehicle tyre 1, true⟩]⟩ := by
      simp [changeStep, changeAsset, getParent_wheel, getParent_vehicle, relink_vehicle, different]
    exact .cons stepped (.nil _)
  · intro ends
    have condition := (ends_substituted_iff (vehicleSearch 1 vehicle_hash_ne.2) []
      List.mem_cons_self (under_star linked) (by simp) tyreTree unique ?_).mp ends
    · rcases condition.2 with same | single
      · exact apart (congrArg Asset.hash same)
      · have once := single wheel (vehicle wheel 1) ⟨under_star linked, .refl⟩
          ⟨List.mem_cons_self, .refl⟩ linked
        simp [vehicle, Asset.create] at once
    · intro part contains
      cases contains with
      | self =>
          rw [tyreTree]
          exact .inr (.inr ⟨wheel, .refl⟩)
      | child member _ => cases member

end PizzaChain.Assets
