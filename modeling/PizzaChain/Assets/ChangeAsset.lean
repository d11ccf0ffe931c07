import PizzaChain.Assets.LinkedStore
import PizzaChain.Foundation.Worklist

/-! # Changing an asset of a tree

`changeAsset` and `appendAsset` of `assetlib.js`, with `getParent` as it is
documented. Each parent that is found is changed in turn, in any order.
-/

namespace PizzaChain.Assets

variable {runtime : Runtime}

/-! ## The two functions -/

/-- `asset.addChildHash(childHash)`. -/
def Asset.addChildHash (asset : Asset runtime) (childHash : String) : Asset runtime :=
  .create runtime (asset.childHashes ++ [childHash]) asset.data

/-- The new parent of `changeAsset`, with the hash that `indexOf` finds replaced. -/
def Asset.relink (parent oldAsset newAsset : Asset runtime) : Asset runtime :=
  .create runtime
    (parent.childHashes.set (parent.childHashes.idxOf oldAsset.hash) newAsset.hash) parent.data

/-- The asset belongs to the tree under the root. -/
structure LinkedStore.Under (store : LinkedStore runtime) (rootAsset asset : Asset runtime) :
    Prop where
  member : asset ∈ store.assets
  reachable : Reachable (assetGraph store.assets) rootAsset.hash asset.hash

/-- What `getParent` is documented to call back with: once with each asset of the
tree that lists the hash of the child. -/
structure ParentSearch (store : LinkedStore runtime) (rootAsset : Asset runtime) where
  getParent : Asset runtime → List (Asset runtime)
  nodup : ∀ child, (getParent child).Nodup
  mem_iff : ∀ child parent, parent ∈ getParent child ↔
    store.Under rootAsset parent ∧ child.hash ∈ parent.childHashes

/-- A call of `getParent`'s callback that is still to come, with the assets of the
activation of `changeAsset` that made it. -/
structure ParentFound (runtime : Runtime) where
  parent : Asset runtime
  oldAsset : Asset runtime
  newAsset : Asset runtime

/-- A call of the callback of `changeAsset`. -/
structure ChangeCall (runtime : Runtime) where
  asset : Asset runtime
  isRoot : Bool

structure Changing (runtime : Runtime) where
  pending : List (ParentFound runtime)
  calls : List (ChangeCall runtime)

section Functions

variable (getParent : Asset runtime → List (Asset runtime)) (rootAsset : Asset runtime)

/-- `changeAsset(rootAsset, oldAsset, newAsset, retriever, callback)`. -/
def changeAsset (oldAsset newAsset : Asset runtime) (changing : Changing runtime) :
    Changing runtime where
  calls := changing.calls ++ [⟨newAsset, oldAsset.hash == rootAsset.hash⟩]
  pending := changing.pending ++
    (getParent oldAsset).map fun parent => ⟨parent, oldAsset, newAsset⟩

/-- `getParent` calls back with the parent at the given place. -/
def changeStep (changing : Changing runtime) (index : Nat) : Option (Changing runtime) :=
  changing.pending[index]?.map fun found =>
    changeAsset getParent rootAsset found.parent
      (found.parent.relink found.oldAsset found.newAsset)
      { changing with pending := changing.pending.eraseIdx index }

/-- The runs of `changeAsset` after the given calls. -/
abbrev ChangeAsset (before : List (ChangeCall runtime)) (oldAsset newAsset : Asset runtime) :
    List Nat → Changing runtime → Prop :=
  Transitions (fun changing index next => changeStep getParent rootAsset changing index = some next)
    (changeAsset getParent rootAsset oldAsset newAsset ⟨[], before⟩)

/-- The runs of `appendAsset(rootAsset, attachTo, newAsset, retriever, callback)`. -/
abbrev AppendAsset (attachTo newAsset : Asset runtime) : List Nat → Changing runtime → Prop :=
  ChangeAsset getParent rootAsset [⟨newAsset, false⟩] attachTo
    (attachTo.addChildHash newAsset.hash)

/-- The changes that a change leads to. -/
def changes (change : Asset runtime × Asset runtime) : List (Asset runtime × Asset runtime) :=
  (getParent change.1).map fun parent => (parent, parent.relink change.1 change.2)

theorem mem_changes_iff {change other : Asset runtime × Asset runtime} :
    other ∈ changes getParent change ↔
      other.1 ∈ getParent change.1 ∧ other.2 = other.1.relink change.1 change.2 := by
  rw [changes, List.mem_map]
  constructor
  · intro member
    rcases member with ⟨parent, member, equal⟩
    cases equal
    exact ⟨member, rfl⟩
  · intro member
    exact ⟨other.1, member.1, Prod.ext rfl member.2.symm⟩

/-- The call of the callback for a change. -/
def changeCall (change : Asset runtime × Asset runtime) : ChangeCall runtime :=
  ⟨change.2, change.1.hash == rootAsset.hash⟩

end Functions

/-! ## Runs as worklists -/

section Runs

variable {getParent : Asset runtime → List (Asset runtime)} {rootAsset : Asset runtime}
  {before : List (ChangeCall runtime)}

/-- The changes made and the changes to come. -/
structure Represents (rootAsset : Asset runtime) (before : List (ChangeCall runtime))
    (work : Worklist (Asset runtime × Asset runtime)) (changing : Changing runtime) : Prop where
  calls_eq : changing.calls = before ++ work.done.map (changeCall rootAsset)
  pending_eq : work.pending = changing.pending.map fun found =>
    (found.parent, found.parent.relink found.oldAsset found.newAsset)

theorem represents_start (oldAsset newAsset : Asset runtime) :
    Represents rootAsset before (.start (changes getParent) (oldAsset, newAsset))
      (changeAsset getParent rootAsset oldAsset newAsset ⟨[], before⟩) := by
  constructor
  · rfl
  · simp [Worklist.start, changes, changeAsset]

theorem Represents.step {work : Worklist (Asset runtime × Asset runtime)}
    {changing : Changing runtime} (represents : Represents rootAsset before work changing)
    (getParent : Asset runtime → List (Asset runtime)) {index : Nat}
    {found : ParentFound runtime} (waits : changing.pending[index]? = some found) :
    ∃ next nextWork, changeStep getParent rootAsset changing index = some next ∧
      work.step (changes getParent) index = some nextWork ∧
      Represents rootAsset before nextWork next := by
  have placed : work.pending[index]? =
      some (found.parent, found.parent.relink found.oldAsset found.newAsset) := by
    simp [represents.pending_eq, waits]
  refine ⟨_, _, by rw [changeStep, waits]; rfl, by rw [Worklist.step, placed]; rfl, ?_, ?_⟩
  · simp [changeAsset, represents.calls_eq, changeCall]
  · simp [changeAsset, represents.pending_eq, changes, List.eraseIdx_map]

/-- A run makes changes of the unfolded tree and goes on until all are made. -/
theorem changes_of_run {treeOf : Asset runtime × Asset runtime →
      RoseTree (Asset runtime × Asset runtime)}
    (grows : Worklist.Grows (changes getParent) treeOf) {oldAsset newAsset : Asset runtime}
    {actions : List Nat} {changing : Changing runtime}
    (run : ChangeAsset getParent rootAsset before oldAsset newAsset actions changing) :
    ∃ work, (treeOf (oldAsset, newAsset)).size = work.left treeOf + 1 + actions.length ∧
      work.Explores treeOf (oldAsset, newAsset) ∧ Represents rootAsset before work changing ∧
      (work.left treeOf ≠ 0 →
        ∃ index next, changeStep getParent rootAsset changing index = some next) := by
  let standing : Nat → Changing runtime → Prop := fun left changing =>
    ∃ work : Worklist (Asset runtime × Asset runtime), left = work.left treeOf ∧
      work.Explores treeOf (oldAsset, newAsset) ∧ Represents rootAsset before work changing
  have keeps : ∀ left current index next, standing left current →
      changeStep getParent rootAsset current index = some next →
        ∃ rest, left = rest + 1 ∧ standing rest next := by
    intro left current index next stands stepped
    rcases stands with ⟨work, counted, explores, represents⟩
    rcases Option.map_eq_some_iff.mp stepped with ⟨found, waits, _⟩
    rcases represents.step getParent waits with ⟨other, nextWork, advanced, taken, nextRepresents⟩
    cases stepped.symm.trans advanced
    rcases explores.step grows taken with ⟨nextExplores, fewer⟩
    exact ⟨_, counted.trans fewer, nextWork, rfl, nextExplores, nextRepresents⟩
  rcases run.countdown keeps
      ⟨_, rfl, Worklist.explores_start grows, represents_start oldAsset newAsset⟩ with
    ⟨rest, total, work, counted, explores, represents⟩
  refine ⟨work, ?_, explores, represents, fun unfinished => ?_⟩
  · rw [Worklist.left_start grows, total, counted]
    omega
  · rcases Worklist.exists_step (changes getParent) unfinished with ⟨index, nextWork, taken⟩
    rcases Option.map_eq_some_iff.mp taken with ⟨change, placed, _⟩
    rw [represents.pending_eq, List.getElem?_map] at placed
    rcases Option.map_eq_some_iff.mp placed with ⟨found, waits, _⟩
    rcases represents.step getParent waits with ⟨next, _, stepped, _⟩
    exact ⟨index, next, stepped⟩

theorem mem_calls_of_run {oldAsset newAsset : Asset runtime} {actions : List Nat}
    {changing : Changing runtime}
    (run : ChangeAsset getParent rootAsset before oldAsset newAsset actions changing)
    (call : ChangeCall runtime) (earlier : call ∈ before) : call ∈ changing.calls := by
  refine run.invariant (fun changing => call ∈ changing.calls) ?_
    (List.mem_append_left _ earlier)
  intro current index next member stepped
  rcases Option.map_eq_some_iff.mp stepped with ⟨found, _, equal⟩
  subst equal
  exact List.mem_append_left _ member

end Runs

end PizzaChain.Assets
