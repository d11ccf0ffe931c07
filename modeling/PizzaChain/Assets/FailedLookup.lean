import PizzaChain.Assets.LinkedStore

/-! # Lookups that fail

The error branch of `getAssetTree` has no `return`: after the callback it reads
the hash of an asset that is undefined.
-/

namespace PizzaChain.Assets

variable {runtime : Runtime}

/-- The retriever of a store that calls back with an error and no asset for the
given hashes. -/
def LinkedStore.failing (store : LinkedStore runtime) (failed : List String)
    (error : String → SwarmError) : Retriever runtime := fun hash =>
  if hash ∈ failed then some ⟨some (error hash), none⟩ else store.retriever hash

/-- No run of `getAssetTree` throws, and each that cannot go on has called back
once, with an error. -/
def ReportsOnce (retriever : Retriever runtime) (asset : Asset runtime) : Prop :=
  ∀ actions walk, GetAssetTree retriever asset actions walk →
    walk.thrown = false ∧
    ((∀ action, walkStep retriever walk action = none) →
      ∃ reply, walk.calls = [reply] ∧ reply.error.isSome = true)

theorem assets_of_advance {walk next : Walk runtime} (advanced : walk.advance = some next) :
    next.assets = walk.assets := by
  rcases walk with ⟨e, assets, visits, pending, calls, thrown⟩
  match visits with
  | [] => cases advanced
  | ⟨error, []⟩ :: outer =>
      cases advanced
      rfl
  | ⟨error, hash :: hashes⟩ :: outer =>
      cases advanced
      rfl

theorem assets_of_traverse {walk : Walk runtime} {answer : Answer runtime} {key : String}
    {asset : Asset runtime} (stored : (walk.traverse answer).assets key = some asset) :
    walk.assets key = some asset ∨ answer.asset = some asset ∧ asset.hash = key := by
  rcases answer with ⟨error, answered⟩
  cases answered with
  | none => cases error <;> exact .inl stored
  | some other =>
      have updated : Function.update walk.assets other.hash (some other) key = some asset := by
        cases error <;> exact stored
      by_cases same : key = other.hash
      · rw [same, Function.update_self] at updated
        cases updated
        exact .inr ⟨rfl, same.symm⟩
      · rw [Function.update_of_ne same] at updated
        exact .inl updated

/-- Before the first failed lookup is answered: the walk goes over the tree, and
nothing is stored under a hash that fails. -/
structure Unreported (runtime : Runtime) (failed : List String) (tree : RoseTree Fields)
    (visits : List (List (RoseTree Fields))) (pending : List (RoseTree Fields))
    (walk : Walk runtime) : Prop where
  walks : Walks runtime tree visits pending walk
  absent : ∀ hash ∈ failed, walk.assets hash = none

/-- Once it is answered: the error was passed on, and the `TypeError` ends the
walk. -/
structure Reported (failed : List String) (error : String → SwarmError) (walk : Walk runtime) :
    Prop where
  thrown : walk.thrown = true
  called : ∃ hash ∈ failed, ∃ assets, walk.calls = [⟨some (error hash), assets⟩]

/-- Where a run stands: before the report with so many steps left, or after it. -/
def Reporting (runtime : Runtime) (failed : List String) (error : String → SwarmError)
    (tree : RoseTree Fields) (left : Nat) (walk : Walk runtime) : Prop :=
  (∃ visits pending, left = stepsLeft visits pending ∧
    Unreported runtime failed tree visits pending walk) ∨ Reported failed error walk

section Steps

variable {store : LinkedStore runtime} {failed : List String} {error : String → SwarmError}
  {root : String} {tree : RoseTree Fields} {visits : List (List (RoseTree Fields))}
  {pending : List (RoseTree Fields)} {walk next : Walk runtime}

theorem failing_of_contains (error : String → SwarmError)
    (unfolds : Unfolds (assetGraph store.assets) root tree) {part : RoseTree Fields}
    (contains : tree.Contains part)
    (works : (treeAsset runtime part).hash ∉ failed) :
    store.failing failed error (treeAsset runtime part).hash =
      some ⟨none, some (treeAsset runtime part)⟩ := by
  rw [LinkedStore.failing, if_neg works]
  exact store.retriever_of_contains unfolds contains

theorem Unreported.answer (error : String → SwarmError)
    (unfolds : Unfolds (assetGraph store.assets) root tree)
    (unreported : Unreported runtime failed tree visits pending walk) {index : Nat}
    {part : RoseTree Fields} (found : pending[index]? = some part) :
    ∃ next rest, walk.answer (store.failing failed error) index = some next ∧
      stepsLeft visits pending = rest + 1 ∧ Reporting runtime failed error tree rest next := by
  have walks := unreported.walks
  have requested : walk.pending[index]? = some (treeAsset runtime part).hash := by
    simp [walks.pending_eq, found]
  have inside : tree.Contains part :=
    walks.inside part (List.mem_append_right _ (List.mem_of_getElem? found))
  rcases part with ⟨data, children⟩
  by_cases fails : (treeAsset runtime (.node data children)).hash ∈ failed
  · have silent : walk.calls = [] := by
      rw [walks.calls_eq, if_neg]
      intro empty
      rw [empty.2] at found
      cases found
    refine ⟨_, _, by
      rw [Walk.answer, requested]
      simp only [LinkedStore.failing, if_pos fails]
      rfl, stepsLeft_answer visits found, .inr ⟨rfl, _, fails, walk.assets, ?_⟩⟩
    simp [Walk.traverse, silent]
  · rcases walks.answer found (fun other contains same =>
        failing_of_contains error unfolds contains (same ▸ fails)) with
      ⟨next, answered, nextWalks⟩
    refine ⟨next, _, answered, stepsLeft_answer visits found, .inl ⟨_, _, rfl, nextWalks, ?_⟩⟩
    intro hash failing
    cases stored : next.assets hash with
    | none => rfl
    | some asset =>
        exfalso
        rw [Walk.answer, requested] at answered
        simp only [failing_of_contains error unfolds inside fails, Option.map_some,
          Option.some.injEq] at answered
        rw [← answered] at stored
        rcases assets_of_traverse stored with before | ⟨same, named⟩
        · rw [unreported.absent hash failing] at before
          cases before
        · cases same
          exact fails (named ▸ failing)

theorem Unreported.step (unfolds : Unfolds (assetGraph store.assets) root tree)
    (unreported : Unreported runtime failed tree visits pending walk) {action : WalkAction}
    (stepped : walkStep (store.failing failed error) walk action = some next) :
    ∃ rest, stepsLeft visits pending = rest + 1 ∧
      Reporting runtime failed error tree rest next := by
  cases action with
  | advance =>
      rw [unreported.walks.step_advance] at stepped
      rcases unreported.walks.advance stepped with ⟨nextVisits, nextPending, fewer, nextWalks⟩
      have absent : ∀ hash ∈ failed, next.assets hash = none := by
        rw [assets_of_advance stepped]
        exact unreported.absent
      exact ⟨_, fewer, .inl ⟨nextVisits, nextPending, rfl, nextWalks, absent⟩⟩
  | answer index =>
      rw [unreported.walks.step_answer] at stepped
      cases found : pending[index]? with
      | none => simp [Walk.answer, unreported.walks.pending_eq, found] at stepped
      | some part =>
          rcases unreported.answer error unfolds found with ⟨other, rest, answered, reporting⟩
          cases stepped.symm.trans answered
          exact ⟨rest, reporting⟩

/-- A part whose lookup fails is never stored, so a request for it or for
something above it is still to come. -/
theorem Unreported.progress (unfolds : Unfolds (assetGraph store.assets) root tree)
    (unreported : Unreported runtime failed tree visits pending walk) {part : RoseTree Fields}
    (contains : tree.Contains part) (fails : (treeAsset runtime part).hash ∈ failed) :
    ∃ action next, walkStep (store.failing failed error) walk action = some next := by
  refine unreported.walks.progress ?_ ?_
  · intro finished
    rcases stepsLeft_eq_zero_iff.mp finished with ⟨noVisits, noPending⟩
    rcases unreported.walks.covered part contains with stored | ⟨other, member, _⟩
    · rw [unreported.absent _ fails] at stored
      cases stored
    · rw [noVisits, noPending] at member
      cases member
  · intro first found
    rcases unreported.answer error unfolds found with ⟨next, _, answered, _⟩
    exact ⟨next, answered⟩

end Steps

theorem reporting_of_run {store : LinkedStore runtime} {failed : List String}
    {error : String → SwarmError} {root : Asset runtime} {tree : RoseTree Fields}
    (unfolds : Unfolds (assetGraph store.assets) root.hash tree)
    (same : treeAsset runtime tree = root) (works : root.hash ∉ failed)
    {actions : List WalkAction} {walk : Walk runtime}
    (run : GetAssetTree (store.failing failed error) root actions walk) :
    ∃ rest, 3 * tree.size - 2 = rest + actions.length ∧
      Reporting runtime failed error tree rest walk := by
  have keeps : ∀ left current action next, Reporting runtime failed error tree left current →
      walkStep (store.failing failed error) current action = some next →
        ∃ rest, left = rest + 1 ∧ Reporting runtime failed error tree rest next := by
    intro left current action next reporting stepped
    rcases reporting with ⟨visits, pending, counted, unreported⟩ | reported
    · rcases unreported.step unfolds stepped with ⟨rest, fewer, reporting⟩
      exact ⟨rest, counted.trans fewer, reporting⟩
    · simp [walkStep, reported.thrown] at stepped
  refine run.countdown keeps ?_
  subst same
  rcases walksOn_start runtime tree with ⟨visits, pending, counted, walks⟩
  refine .inl ⟨visits, pending, counted, walks, ?_⟩
  intro hash fails
  cases stored : (Walk.start (treeAsset runtime tree)).assets hash with
  | none => rfl
  | some asset =>
      rcases assets_of_traverse stored with before | ⟨isRoot, named⟩
      · cases before
      · cases isRoot
        exact absurd (named ▸ fails) works

/-- `getAssetTree` never reports a failed lookup as it should: whatever is
answered first, it calls back once with an error of a failed lookup, and throws. -/
theorem getAssetTree_throws_after_report (store : LinkedStore runtime) (root : Asset runtime)
    (member : root ∈ store.assets) (failed : List String) (nonempty : failed ≠ [])
    (inside : ∀ hash ∈ failed, hash ≠ root.hash ∧
      Reachable (assetGraph store.assets) root.hash hash) (error : String → SwarmError) :
    ¬ReportsOnce (store.failing failed error) root ∧
      ∃ total, ∀ actions walk, GetAssetTree (store.failing failed error) root actions walk →
        actions.length ≤ total ∧
        ((∀ action, walkStep (store.failing failed error) walk action = none) →
          walk.thrown = true ∧
          ∃ hash ∈ failed, ∃ assets, walk.calls = [⟨some (error hash), assets⟩]) := by
  rcases store.exists_unfolds member with ⟨tree, unfolds, same⟩
  have works : root.hash ∉ failed := fun fails => (inside _ fails).1 rfl
  rcases List.exists_mem_of_ne_nil failed nonempty with ⟨hash, fails⟩
  rcases exists_contains_of_reachable unfolds (inside hash fails).2 with
    ⟨part, contains, partUnfolds⟩
  have named := hash_of_unfolds partUnfolds
  have ends : ∀ actions walk, GetAssetTree (store.failing failed error) root actions walk →
      actions.length ≤ 3 * tree.size - 2 ∧
      ((∀ action, walkStep (store.failing failed error) walk action = none) →
        Reported failed error walk) := by
    intro actions walk run
    rcases reporting_of_run unfolds same works run with ⟨rest, counted, reporting⟩
    refine ⟨by omega, fun stuck => ?_⟩
    rcases reporting with ⟨visits, pending, _, unreported⟩ | reported
    · rcases unreported.progress unfolds contains (named ▸ fails) with ⟨action, next, steps⟩
      rw [stuck action] at steps
      cases steps
    · exact reported
  refine ⟨fun reports => ?_, _, fun actions walk run =>
    ⟨(ends actions walk run).1, fun stuck => ?_⟩⟩
  · rcases Transitions.exists_maximal fun actions walk run => (ends actions walk run).1 with
      ⟨actions, walk, run, stuck⟩
    have reported := (ends actions walk run).2 fun action => by
      cases stepped : walkStep (store.failing failed error) walk action with
      | none => rfl
      | some next => exact absurd stepped (stuck action next)
    have running := (reports actions walk run).1
    rw [reported.thrown] at running
    cases running
  · have reported := (ends actions walk run).2 stuck
    exact ⟨reported.thrown, reported.called⟩

/-- The barrow whose wheel is not found. -/
def wheelless : Retriever (Runtime.compact lastBytes) :=
  barrowStore.failing [barrowWheel.hash] fun _ => ⟨"not found"⟩

theorem wheelless_wheel :
    wheelless barrowWheel.hash = some ⟨some ⟨"not found"⟩, none⟩ :=
  if_pos List.mem_cons_self

theorem reachable_barrowWheel :
    Reachable (assetGraph barrowStore.assets) barrowRoot.hash barrowWheel.hash := by
  refine .single (edge_assetGraph_iff.mpr ⟨barrowRoot, ?_, List.mem_cons_self⟩)
  exact lookupAsset_hash barrowStore.unique List.mem_cons_self

theorem getAssetTree_throws_after_report_wheelless :
    ¬ReportsOnce wheelless barrowRoot ∧
      ∃ total, ∀ actions walk, GetAssetTree wheelless barrowRoot actions walk →
        actions.length ≤ total ∧
        ((∀ action, walkStep wheelless walk action = none) → walk.thrown = true ∧
          ∃ hash ∈ [barrowWheel.hash], ∃ assets,
            walk.calls = [⟨some ⟨"not found"⟩, assets⟩]) := by
  refine getAssetTree_throws_after_report barrowStore barrowRoot List.mem_cons_self
    [barrowWheel.hash] (List.cons_ne_nil _ _) ?_ _
  intro hash fails
  rw [List.mem_singleton.mp fails]
  exact ⟨barrow_hash_ne, reachable_barrowWheel⟩

/-- The first request is answered with the error: one callback, and an exception. -/
theorem getAssetTree_wheelless :
    ∃ walk, GetAssetTree wheelless barrowRoot [.advance, .answer 0] walk ∧
      walk.thrown = true ∧ walk.calls.map Reply.error = [some ⟨"not found"⟩] := by
  let asked : Walk (Runtime.compact lastBytes) := { Walk.start barrowRoot with
    e := 2
    visits := [⟨none, [barrowWheel.hash]⟩]
    pending := [barrowWheel.hash] }
  have first : walkStep wheelless (Walk.start barrowRoot) .advance = some asked := rfl
  have second : walkStep wheelless asked (.answer 0) =
      some ({ asked with pending := [] }.traverse ⟨some ⟨"not found"⟩, none⟩) := by
    change (wheelless barrowWheel.hash).map _ = _
    rw [wheelless_wheel]
    rfl
  exact ⟨_, .cons first (.cons second (.nil _)), rfl, rfl⟩

end PizzaChain.Assets
