import PizzaChain.Assets.LinkedStore

/-! # Traversing an asset tree

`traverseTree` of `assetlib.js`, which hands its retriever and callback on as
further arguments of the retriever. Arguments are matched by position, and a
missing one is undefined.
-/

namespace PizzaChain.Assets

variable {runtime : Runtime}

/-! ## The traversal -/

/-- The JavaScript values that are passed around, with the two functions that the
caller supplies. -/
inductive Argument (runtime : Runtime)
  | undefined
  | null
  | error (error : SwarmError)
  | hash (text : String)
  | asset (asset : Asset runtime)
  | suppliedRetriever
  | suppliedCallback

def Answer.errorArgument (answer : Answer runtime) : Argument runtime :=
  match answer.error with
  | none => .null
  | some error => .error error

def Answer.assetArgument (answer : Answer runtime) : Argument runtime :=
  match answer.asset with
  | none => .undefined
  | some asset => .asset asset

/-- An activation of `traverseTree` in its loop: the hashes it has yet to request,
and its last two arguments. -/
structure TraverseVisit (runtime : Runtime) where
  hashes : List String
  retriever : Argument runtime
  callback : Argument runtime

/-- A call `retriever(hash, traverseTree, retriever, callback)` that is not
answered. -/
structure TraverseRequest (runtime : Runtime) where
  hash : String
  retriever : Argument runtime
  callback : Argument runtime

/-- The activations with the innermost one first, the unanswered requests, the
arguments of the callback so far, and whether a `TypeError` has been thrown. -/
structure Traversal (runtime : Runtime) where
  visits : List (TraverseVisit runtime)
  pending : List (TraverseRequest runtime)
  calls : List (Argument runtime)
  thrown : Bool

namespace Traversal

def idle : Traversal runtime :=
  ⟨[], [], [], false⟩

/-- `callback(asset)`. The retriever in this place would look nothing up. -/
def callBack (traversal : Traversal runtime) (callback asset : Argument runtime) :
    Traversal runtime :=
  match callback with
  | .suppliedCallback => { traversal with calls := traversal.calls ++ [asset] }
  | .suppliedRetriever => traversal
  | _ => { traversal with thrown := true }

/-- `retriever(hash, traverseTree, retriever, callback)`. -/
def request (traversal : Traversal runtime) (hash : String)
    (retriever callback : Argument runtime) : Traversal runtime :=
  match retriever with
  | .suppliedRetriever =>
      { traversal with pending := traversal.pending ++ [⟨hash, retriever, callback⟩] }
  | .suppliedCallback => { traversal with calls := traversal.calls ++ [.hash hash] }
  | _ => { traversal with thrown := true }

/-- `traverseTree(err, asset, retriever, callback)` up to its loop. -/
def traverseTree (traversal : Traversal runtime)
    (_err asset retriever callback : Argument runtime) : Traversal runtime :=
  let called := traversal.callBack callback asset
  if called.thrown then called else
    match asset with
    | .asset asset => { called with
        visits := ⟨asset.childHashes, retriever, callback⟩ :: called.visits }
    | _ => { called with thrown := true }

/-- `traverseTree` called with the given arguments. -/
def apply (traversal : Traversal runtime) (arguments : List (Argument runtime)) :
    Traversal runtime :=
  traversal.traverseTree (arguments.getD 0 .undefined) (arguments.getD 1 .undefined)
    (arguments.getD 2 .undefined) (arguments.getD 3 .undefined)

/-- The innermost activation makes its next request, or ends. -/
def advance (traversal : Traversal runtime) : Option (Traversal runtime) :=
  match traversal.visits with
  | [] => none
  | ⟨[], _, _⟩ :: outer => some { traversal with visits := outer }
  | ⟨hash :: hashes, retriever, callback⟩ :: outer =>
      some ({ traversal with visits := ⟨hashes, retriever, callback⟩ :: outer }.request hash
        retriever callback)

/-- The retriever answers the pending request at the given place. -/
def answer (retriever : Retriever runtime) (traversal : Traversal runtime) (index : Nat) :
    Option (Traversal runtime) :=
  match traversal.pending[index]? with
  | none => none
  | some request => (retriever request.hash).map fun answer =>
      { traversal with pending := traversal.pending.eraseIdx index }.apply
        [answer.errorArgument, answer.assetArgument, request.retriever, request.callback]

end Traversal

def traverseStep (retriever : Retriever runtime) (traversal : Traversal runtime)
    (action : WalkAction) : Option (Traversal runtime) :=
  if traversal.thrown then none else
    match action with
    | .advance => traversal.advance
    | .answer index => traversal.answer retriever index

/-- The runs of `traverseTree` on the given arguments. -/
abbrev TraverseTree (retriever : Retriever runtime) (arguments : List (Argument runtime)) :
    List WalkAction → Traversal runtime → Prop :=
  Transitions (fun traversal action next => traverseStep retriever traversal action = some next)
    (Traversal.idle.apply arguments)

/-! ## Following a walk over the tree -/

/-- The traversal stands where the walk over the tree stands. -/
structure Follows (walk : TreeWalk Fields) (traversal : Traversal runtime) : Prop where
  visits_eq : traversal.visits = walk.visits.map fun parts =>
    ⟨parts.map fun part => (treeAsset runtime part.2).hash, .suppliedRetriever, .suppliedCallback⟩
  pending_eq : traversal.pending = walk.pending.map fun part =>
    ⟨(treeAsset runtime part.2).hash, .suppliedRetriever, .suppliedCallback⟩
  calls_eq : traversal.calls = walk.visited.map fun part => .asset (treeAsset runtime part.2)
  running : traversal.thrown = false

theorem childHashes_branches (path : List Nat) (data : Fields)
    (children : List (RoseTree Fields)) :
    (treeAsset runtime (.node data children)).childHashes =
      (RoseTree.branches path 0 children).map fun part => (treeAsset runtime part.2).hash := by
  have linked := congrArg (List.map fun child => (treeAsset runtime child).hash)
    (RoseTree.map_snd_branches path 0 children)
  rw [List.map_map] at linked
  rw [treeAsset]
  exact linked.symm

/-- An asset in its place is passed to the callback and visited. -/
theorem apply_asset (traversal : Traversal runtime) (err : Argument runtime) (asset : Asset runtime)
    (running : traversal.thrown = false) :
    traversal.apply [err, .asset asset, .suppliedRetriever, .suppliedCallback] =
      { traversal with
        visits := ⟨asset.childHashes, .suppliedRetriever, .suppliedCallback⟩ :: traversal.visits
        calls := traversal.calls ++ [.asset asset] } := by
  simp [Traversal.apply, Traversal.traverseTree, Traversal.callBack, running]

theorem follows_start (err : Argument runtime) (tree : RoseTree Fields) :
    Follows (TreeWalk.start tree) (Traversal.idle.apply
      [err, .asset (treeAsset runtime tree), .suppliedRetriever, .suppliedCallback]) := by
  rcases tree with ⟨data, children⟩
  rw [apply_asset _ _ _ rfl]
  constructor
  · simp [Traversal.idle, TreeWalk.start, childHashes_branches []]
  · rfl
  · rfl
  · rfl

namespace Follows

variable {walk : TreeWalk Fields} {traversal : Traversal runtime}

theorem request {visited : List (List Nat × RoseTree Fields)} {first : List Nat × RoseTree Fields}
    {rest : List (List Nat × RoseTree Fields)} {outer : List (List (List Nat × RoseTree Fields))}
    {pending : List (List Nat × RoseTree Fields)}
    (follows : Follows ⟨visited, (first :: rest) :: outer, pending⟩ traversal) :
    ∃ next, traversal.advance = some next ∧
      Follows ⟨visited, rest :: outer, pending ++ [first]⟩ next := by
  refine ⟨_, by rw [Traversal.advance, follows.visits_eq]; rfl, ?_⟩
  constructor
  · rfl
  · simp [Traversal.request, follows.pending_eq]
  · exact follows.calls_eq
  · exact follows.running

theorem finish {visited : List (List Nat × RoseTree Fields)}
    {outer : List (List (List Nat × RoseTree Fields))} {pending : List (List Nat × RoseTree Fields)}
    (follows : Follows ⟨visited, [] :: outer, pending⟩ traversal) :
    ∃ next, traversal.advance = some next ∧ Follows ⟨visited, outer, pending⟩ next := by
  refine ⟨_, by rw [Traversal.advance, follows.visits_eq]; rfl, ?_⟩
  exact ⟨rfl, follows.pending_eq, follows.calls_eq, follows.running⟩

theorem visit {visited pending : List (List Nat × RoseTree Fields)}
    {visits : List (List (List Nat × RoseTree Fields))}
    (follows : Follows ⟨visited, visits, pending⟩ traversal) {retriever : Retriever runtime}
    {index : Nat} {path : List Nat} {data : Fields} {children : List (RoseTree Fields)}
    (found : pending[index]? = some (path, .node data children))
    (served : retriever (treeAsset runtime (.node data children)).hash =
      some ⟨none, some (treeAsset runtime (.node data children))⟩) :
    ∃ next, traversal.answer retriever index = some next ∧
      Follows ⟨visited ++ [(path, .node data children)],
        RoseTree.branches path 0 children :: visits, pending.eraseIdx index⟩ next := by
  have requested : traversal.pending[index]? = some
      ⟨(treeAsset runtime (.node data children)).hash, .suppliedRetriever, .suppliedCallback⟩ := by
    simp [follows.pending_eq, found]
  have answered : traversal.answer retriever index = some
      ({ traversal with pending := traversal.pending.eraseIdx index }.apply
        [.null, .asset (treeAsset runtime (.node data children)), .suppliedRetriever,
          .suppliedCallback]) := by
    rw [Traversal.answer, requested]
    simp only [served]
    rfl
  refine ⟨_, answered, ?_⟩
  rw [apply_asset { traversal with pending := traversal.pending.eraseIdx index } _ _
    follows.running]
  constructor
  · simp [follows.visits_eq, childHashes_branches path]
  · simp [follows.pending_eq, List.eraseIdx_map]
  · simp [follows.calls_eq]
  · exact follows.running

/-- A step of the traversal is a step of the walk. -/
theorem step (follows : Follows walk traversal) {retriever : Retriever runtime}
    (served : ∀ part ∈ walk.pending, retriever (treeAsset runtime part.2).hash =
      some ⟨none, some (treeAsset runtime part.2)⟩)
    {action : WalkAction} {next : Traversal runtime}
    (stepped : traverseStep retriever traversal action = some next) :
    ∃ nextWalk, TreeWalk.Step walk nextWalk ∧ Follows nextWalk next := by
  rcases walk with ⟨visited, visits, pending⟩
  cases action with
  | advance =>
      rw [traverseStep, follows.running] at stepped
      replace stepped : traversal.advance = some next := stepped
      match visits with
      | [] => simp [Traversal.advance, follows.visits_eq] at stepped
      | [] :: outer =>
          rcases follows.finish with ⟨other, advanced, nextFollows⟩
          cases stepped.symm.trans advanced
          exact ⟨_, .finish, nextFollows⟩
      | (first :: rest) :: outer =>
          rcases follows.request with ⟨other, advanced, nextFollows⟩
          cases stepped.symm.trans advanced
          exact ⟨_, .request, nextFollows⟩
  | answer index =>
      rw [traverseStep, follows.running] at stepped
      replace stepped : traversal.answer retriever index = some next := stepped
      match found : pending[index]? with
      | none => simp [Traversal.answer, follows.pending_eq, found] at stepped
      | some (path, .node data children) =>
          rcases follows.visit found (served _ (List.mem_of_getElem? found)) with
            ⟨other, answered, nextFollows⟩
          cases stepped.symm.trans answered
          exact ⟨_, .visit found, nextFollows⟩

/-- When the walk can go on, so can the traversal. -/
theorem progress (follows : Follows walk traversal) {retriever : Retriever runtime}
    (served : ∀ part ∈ walk.pending, retriever (treeAsset runtime part.2).hash =
      some ⟨none, some (treeAsset runtime part.2)⟩)
    {nextWalk : TreeWalk Fields} (step : TreeWalk.Step walk nextWalk) :
    ∃ action next, traverseStep retriever traversal action = some next := by
  cases step with
  | request =>
      rcases follows.request with ⟨next, advanced, _⟩
      exact ⟨.advance, next, by rw [traverseStep, follows.running]; exact advanced⟩
  | finish =>
      rcases follows.finish with ⟨next, advanced, _⟩
      exact ⟨.advance, next, by rw [traverseStep, follows.running]; exact advanced⟩
  | @visit _ _ _ index _ _ _ found =>
      rcases follows.visit found (served _ (List.mem_of_getElem? found)) with ⟨next, answered, _⟩
      exact ⟨.answer index, next, by rw [traverseStep, follows.running]; exact answered⟩

/-- In the end the callback was called with the assets of all parts of the tree. -/
theorem mem_calls_iff (follows : Follows walk traversal) {tree : RoseTree Fields}
    (sound : walk.Sound tree) (finished : walk.left = 0) (asset : Asset runtime) :
    Argument.asset asset ∈ traversal.calls ↔
      ∃ part, tree.Contains part ∧ asset = treeAsset runtime part := by
  rw [follows.calls_eq, List.mem_map]
  constructor
  · intro called
    rcases called with ⟨part, member, same⟩
    cases same
    have placed := sound.located part (List.mem_append_left _ member)
    exact ⟨part.2, RoseTree.contains_iff_follow.mpr ⟨part.1, placed⟩, rfl⟩
  · intro inside
    rcases inside with ⟨part, contains, same⟩
    rcases RoseTree.contains_iff_follow.mp contains with ⟨path, placed⟩
    rcases List.mem_map.mp (sound.mem_visited finished placed) with ⟨⟨_, other⟩, member, rfl⟩
    have unique := sound.located _ (List.mem_append_left _ member)
    rw [placed] at unique
    cases unique
    exact ⟨_, member, by rw [same]⟩

end Follows

/-- A run over a tree follows a sound walk, whose steps left it counts down. -/
theorem traverseTree_follows {retriever : Retriever runtime} {tree : RoseTree Fields}
    (serves : ∀ part, tree.Contains part →
      retriever (treeAsset runtime part).hash = some ⟨none, some (treeAsset runtime part)⟩)
    {err : Argument runtime} {actions : List WalkAction} {traversal : Traversal runtime}
    (run : TraverseTree retriever
      [err, .asset (treeAsset runtime tree), .suppliedRetriever, .suppliedCallback] actions
      traversal) :
    ∃ walk, 3 * tree.size - 2 = walk.left + actions.length ∧ walk.Sound tree ∧
      Follows walk traversal ∧
      (walk.left ≠ 0 → ∃ action next, traverseStep retriever traversal action = some next) := by
  have served : ∀ walk : TreeWalk Fields, walk.Sound tree → ∀ part ∈ walk.pending,
      retriever (treeAsset runtime part.2).hash = some ⟨none, some (treeAsset runtime part.2)⟩ := by
    intro walk sound part member
    have found := sound.located part
      (List.mem_append_right _ (List.mem_append_right _ member))
    exact serves part.2 (RoseTree.contains_iff_follow.mpr ⟨part.1, found⟩)
  let standing : Nat → Traversal runtime → Prop := fun left traversal =>
    ∃ walk : TreeWalk Fields, left = walk.left ∧ walk.Sound tree ∧ Follows walk traversal
  have keeps : ∀ left current action next, standing left current →
      traverseStep retriever current action = some next →
        ∃ rest, left = rest + 1 ∧ standing rest next := by
    intro left current action next stands stepped
    rcases stands with ⟨walk, counted, sound, follows⟩
    rcases follows.step (served walk sound) stepped with ⟨nextWalk, step, nextFollows⟩
    exact ⟨nextWalk.left, counted.trans step.left_eq, nextWalk, rfl, sound.step step, nextFollows⟩
  have initially : standing (3 * tree.size - 2) (Traversal.idle.apply
      [err, .asset (treeAsset runtime tree), .suppliedRetriever, .suppliedCallback]) :=
    ⟨_, (TreeWalk.left_start tree).symm, TreeWalk.sound_start tree, follows_start err tree⟩
  rcases run.countdown keeps initially with ⟨rest, total, walk, counted, sound, follows⟩
  refine ⟨walk, counted ▸ total, sound, follows, fun unfinished => ?_⟩
  rcases TreeWalk.exists_step unfinished with ⟨next, step⟩
  exact follows.progress (served walk sound) step

/-! ## One call for each path -/

/-- What a run of `traverseTree` shows after some of its `total` steps: it has
called back with the assets at different downward paths, each after the path
without its last step, and goes on until every path had its call. Then it has
visited the assets that a finished `getAssetTree` returns. -/
structure VisitsPaths (store : LinkedStore runtime) (asset : Asset runtime) (total : Nat)
    (actions : List WalkAction) (traversal : Traversal runtime) : Prop where
  running : traversal.thrown = false
  bounded : actions.length ≤ total
  before : actions.length < total →
    ∃ action next, traverseStep store.retriever traversal action = some next
  paths : ∃ paths : List (List Nat), paths.Nodup ∧
    List.Forall₂ (fun path value => ∃ found, store.follow asset path = some found ∧
      value = .asset found) paths traversal.calls ∧
    (∀ earlier path later, paths = earlier ++ path :: later → path ≠ [] →
      path.dropLast ∈ earlier) ∧
    (actions.length = total → ∀ path found, store.follow asset path = some found → path ∈ paths)
  agrees : actions.length = total → ∀ walkActions walk,
    GetAssetTree store.retriever asset walkActions walk →
    (∀ action, walkStep store.retriever walk action = none) →
    ∃ found, walk.calls = [⟨none, found⟩] ∧
      ∀ visited, Argument.asset visited ∈ traversal.calls ↔ ∃ key, found key = some visited

theorem traverseTree_visits_paths (store : LinkedStore runtime) (asset : Asset runtime)
    (member : asset ∈ store.assets) (err : Argument runtime) :
    ∃ total, ∀ actions traversal,
      TraverseTree store.retriever
        [err, .asset asset, .suppliedRetriever, .suppliedCallback] actions traversal →
      VisitsPaths store asset total actions traversal := by
  rcases store.exists_unfolds member with ⟨tree, unfolds, rfl⟩
  have serves : ∀ part, tree.Contains part →
      store.retriever (treeAsset runtime part).hash = some ⟨none, some (treeAsset runtime part)⟩ :=
    fun part contains => store.retriever_of_contains unfolds contains
  refine ⟨3 * tree.size - 2, fun actions traversal run => ?_⟩
  rcases traverseTree_follows serves run with ⟨walk, total, sound, follows, progress⟩
  constructor
  · exact follows.running
  · omega
  · intro unfinished
    exact progress (by omega)
  · refine ⟨walk.visited.map Prod.fst, sound.nodup, ?_, ?_, ?_⟩
    · rw [follows.calls_eq, List.forall₂_map_left_iff, List.forall₂_map_right_iff,
        List.forall₂_same]
      intro part visited
      refine ⟨_, ?_, rfl⟩
      rw [LinkedStore.follow_treeAsset unfolds, sound.located part (List.mem_append_left _ visited)]
      rfl
    · intro earlier path later split nonempty
      rcases List.map_eq_append_iff.mp split with ⟨before, rest, parts, beforeEq, restEq⟩
      rcases List.map_eq_cons_iff.mp restEq with ⟨part, after, restParts, partEq, _⟩
      subst partEq
      rw [← beforeEq]
      exact sound.ordered before part after (by rw [parts, restParts]) nonempty
    · intro complete path found followed
      rw [LinkedStore.follow_treeAsset unfolds] at followed
      rcases Option.map_eq_some_iff.mp followed with ⟨part, partFound, _⟩
      exact sound.mem_visited (by omega) partFound
  · intro complete walkActions assetWalk walkRun stuck
    have readsBack := getAssetTree_tree serves walkRun
    have ended : walkActions.length = 3 * tree.size - 2 := by
      by_contra unfinished
      rcases (readsBack.before (by have := readsBack.bounded; omega)).2 with ⟨action, next, steps⟩
      rw [stuck action] at steps
      cases steps
    rcases (readsBack.finished ended).2.2 with ⟨found, called, returns⟩
    refine ⟨found, called, fun visited => ?_⟩
    rw [follows.mem_calls_iff sound (by omega)]
    constructor
    · intro inside
      exact ⟨_, (returns _ _).mpr ⟨inside, rfl⟩⟩
    · intro returned
      rcases returned with ⟨key, stored⟩
      exact ((returns key visited).mp stored).1

theorem traverseTree_visits_paths_barrow :
    ∃ total, ∀ actions traversal,
      TraverseTree barrowStore.retriever
        [.null, .asset barrowRoot, .suppliedRetriever, .suppliedCallback] actions traversal →
      VisitsPaths barrowStore barrowRoot total actions traversal :=
  traverseTree_visits_paths barrowStore barrowRoot List.mem_cons_self .null

end PizzaChain.Assets
