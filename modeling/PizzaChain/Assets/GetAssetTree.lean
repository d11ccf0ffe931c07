import PizzaChain.Assets.AssetStore
import PizzaChain.Assets.RootHash
import PizzaChain.Foundation.TreeWalk
import PizzaChain.Semantics.Transitions

/-! # Reading an asset tree back

`getAssetTree` of `assetlib.js`. The retriever answers the pending requests in
any order and at any moment, in particular inside the request itself, so the
state keeps the activations of `traverse` that are still on the stack.
-/

namespace PizzaChain.Assets

variable {runtime : Runtime}

/-! ## The walk -/

/-- An activation of `traverse`: its error and the hashes it has yet to request. -/
structure Visit where
  error : Option SwarmError
  hashes : List String

/-- A call of the callback of `getAssetTree`. -/
structure Reply (runtime : Runtime) where
  error : Option SwarmError
  assets : Built runtime

/-- The variables of `getAssetTree`, the stack of visits with the innermost one
first, the unanswered requests, the calls made so far, and whether reading a
property of an undefined asset has thrown. -/
structure Walk (runtime : Runtime) where
  e : Int
  assets : Built runtime
  visits : List Visit
  pending : List String
  calls : List (Reply runtime)
  thrown : Bool

namespace Walk

/-- `traverse(swarmErr, asset, …)` up to its loop. -/
def traverse (walk : Walk runtime) (answer : Answer runtime) : Walk runtime :=
  let walk : Walk runtime := match answer.error with
    | none => walk
    | some error => { walk with calls := walk.calls ++ [⟨some error, walk.assets⟩] }
  match answer.asset with
  | none => { walk with thrown := true }
  | some asset => { walk with
      assets := Function.update walk.assets asset.hash (some asset)
      visits := ⟨answer.error, asset.childHashes⟩ :: walk.visits }

/-- The call of `traverse` in `getAssetTree(asset, …)`. -/
def start (asset : Asset runtime) : Walk runtime :=
  traverse ⟨1, fun _ => none, [], [], [], false⟩ ⟨none, some asset⟩

/-- The innermost visit makes its next request, or ends. -/
def advance (walk : Walk runtime) : Option (Walk runtime) :=
  match walk.visits with
  | [] => none
  | ⟨error, hash :: hashes⟩ :: outer => some { walk with
      e := walk.e + 1
      visits := ⟨error, hashes⟩ :: outer
      pending := walk.pending ++ [hash] }
  | ⟨error, []⟩ :: outer => some { walk with
      e := walk.e - 1
      visits := outer
      calls := if walk.e - 1 = 0 then walk.calls ++ [⟨error, walk.assets⟩] else walk.calls }

/-- The retriever answers the pending request at the given place. -/
def answer (retriever : Retriever runtime) (walk : Walk runtime) (index : Nat) :
    Option (Walk runtime) :=
  match walk.pending[index]? with
  | none => none
  | some hash =>
      (retriever hash).map { walk with pending := walk.pending.eraseIdx index }.traverse

end Walk

inductive WalkAction
  | advance
  | answer (index : Nat)

def walkStep (retriever : Retriever runtime) (walk : Walk runtime) (action : WalkAction) :
    Option (Walk runtime) :=
  if walk.thrown then none else
    match action with
    | .advance => walk.advance
    | .answer index => walk.answer retriever index

/-- The runs of `getAssetTree(asset, retriever, callback)`. -/
abbrev GetAssetTree (retriever : Retriever runtime) (asset : Asset runtime) :
    List WalkAction → Walk runtime → Prop :=
  Transitions (fun walk action next => walkStep retriever walk action = some next)
    (Walk.start asset)

/-! ## The invariant -/

/-- Where a walk over a tree stands: the trees that each visit has yet to
request, and the trees that are requested and not answered. -/
structure Walks (runtime : Runtime) (tree : RoseTree Fields)
    (visits : List (List (RoseTree Fields))) (pending : List (RoseTree Fields))
    (walk : Walk runtime) : Prop where
  visits_eq : walk.visits = visits.map fun trees =>
    ⟨none, trees.map fun tree => (treeAsset runtime tree).hash⟩
  pending_eq : walk.pending = pending.map fun tree => (treeAsset runtime tree).hash
  count : walk.e = pending.length + visits.length
  inside : ∀ part ∈ visits.flatten ++ pending, tree.Contains part
  sound : ∀ key asset, walk.assets key = some asset →
    ∃ part, tree.Contains part ∧ asset = treeAsset runtime part ∧ asset.hash = key
  covered : ∀ part, tree.Contains part →
    walk.assets (treeAsset runtime part).hash = some (treeAsset runtime part) ∨
      ∃ waiting ∈ visits.flatten ++ pending, waiting.Contains part
  running : walk.thrown = false
  calls_eq : walk.calls = if visits = [] ∧ pending = [] then [⟨none, walk.assets⟩] else []

namespace Walks

variable {tree : RoseTree Fields} {walk : Walk runtime}

theorem start (runtime : Runtime) (data : Fields) (children : List (RoseTree Fields)) :
    Walks runtime (.node data children) [children] []
      (Walk.start (treeAsset runtime (.node data children))) where
  visits_eq := by simp [Walk.start, Walk.traverse, treeAsset, Asset.create]
  pending_eq := rfl
  count := rfl
  inside := by
    intro part member
    exact .child (by simpa using member) (.self part)
  sound := by
    intro key asset found
    simp only [Walk.start, Walk.traverse, Function.update_apply] at found
    split at found
    · cases found
      exact ⟨_, .self _, rfl, by simp [*]⟩
    · cases found
  covered := by
    intro part contains
    cases contains with
    | self => exact .inl (by simp [Walk.start, Walk.traverse])
    | child member below => exact .inr ⟨_, by simpa using member, below⟩
  running := rfl
  calls_eq := rfl

/-- The innermost visit requests its next child. -/
theorem request {first : RoseTree Fields} {rest : List (RoseTree Fields)}
    {outer : List (List (RoseTree Fields))} {pending : List (RoseTree Fields)}
    (walks : Walks runtime tree ((first :: rest) :: outer) pending walk) :
    ∃ next, walk.advance = some next ∧
      Walks runtime tree (rest :: outer) (pending ++ [first]) next := by
  have waits : ∀ part, part ∈ (rest :: outer).flatten ++ (pending ++ [first]) ↔
      part ∈ ((first :: rest) :: outer).flatten ++ pending := by
    intro part
    simp only [List.flatten_cons, List.mem_append, List.mem_cons, List.not_mem_nil, or_false]
    tauto
  refine ⟨_, by rw [Walk.advance, walks.visits_eq]; rfl, ?_⟩
  constructor
  · rfl
  · simp [walks.pending_eq]
  · simp [walks.count]
    omega
  · exact fun part member => walks.inside part ((waits part).mp member)
  · exact walks.sound
  · intro part contains
    simp only [waits]
    exact walks.covered part contains
  · exact walks.running
  · simp [walks.calls_eq]

/-- The innermost visit ends, and calls back when nothing is left. -/
theorem finish {outer : List (List (RoseTree Fields))} {pending : List (RoseTree Fields)}
    (walks : Walks runtime tree ([] :: outer) pending walk) :
    ∃ next, walk.advance = some next ∧ Walks runtime tree outer pending next := by
  refine ⟨_, by rw [Walk.advance, walks.visits_eq]; rfl, ?_⟩
  have last : walk.e - 1 = 0 ↔ outer = [] ∧ pending = [] := by
    rw [walks.count, List.length_cons, ← List.length_eq_zero_iff, ← List.length_eq_zero_iff]
    omega
  constructor
  · rfl
  · exact walks.pending_eq
  · simp [walks.count]
    omega
  · exact walks.inside
  · exact walks.sound
  · exact walks.covered
  · exact walks.running
  · simp [walks.calls_eq, last]

/-- What is answered is stored, and what is below it is now to be requested. -/
theorem covered_answer {visits : List (List (RoseTree Fields))} {pending : List (RoseTree Fields)}
    (walks : Walks runtime tree visits pending walk) {retriever : Retriever runtime}
    {index : Nat} {data : Fields} {children : List (RoseTree Fields)}
    (found : pending[index]? = some (.node data children))
    (serves : ∀ part, tree.Contains part →
      (treeAsset runtime part).hash = (treeAsset runtime (.node data children)).hash →
      retriever (treeAsset runtime part).hash = some ⟨none, some (treeAsset runtime part)⟩)
    (part : RoseTree Fields)
    (contains : tree.Contains part) :
    Function.update walk.assets (treeAsset runtime (.node data children)).hash
        (some (treeAsset runtime (.node data children))) (treeAsset runtime part).hash =
      some (treeAsset runtime part) ∨
    ∃ waiting ∈ (children :: visits).flatten ++ pending.eraseIdx index, waiting.Contains part := by
  have waits := perm_of_pending found
  have whole : tree.Contains (.node data children) :=
    walks.inside _ (by simp [waits.mem_iff])
  by_cases same : (treeAsset runtime part).hash = (treeAsset runtime (.node data children)).hash
  · have answers := serves part contains same
    rw [same, serves _ whole rfl] at answers
    simp only [Option.some.injEq, Answer.mk.injEq, true_and] at answers
    rw [same, Function.update_self, answers]
    exact .inl rfl
  · rw [Function.update_of_ne same]
    rcases walks.covered part contains with stored | ⟨waiting, member, below⟩
    · exact .inl stored
    · rw [List.mem_append, waits.mem_iff, List.mem_cons] at member
      rcases member with visited | equal | member
      · exact .inr ⟨waiting, by simp [visited], below⟩
      · subst equal
        cases below with
        | self => exact absurd rfl same
        | child inner below => exact .inr ⟨_, by simp [inner], below⟩
      · exact .inr ⟨waiting, by simp [member], below⟩

/-- A request is answered with the asset of its tree, which is then visited. -/
theorem answer {visits : List (List (RoseTree Fields))} {pending : List (RoseTree Fields)}
    (walks : Walks runtime tree visits pending walk) {retriever : Retriever runtime}
    {index : Nat} {data : Fields} {children : List (RoseTree Fields)}
    (found : pending[index]? = some (.node data children))
    (serves : ∀ part, tree.Contains part →
      (treeAsset runtime part).hash = (treeAsset runtime (.node data children)).hash →
      retriever (treeAsset runtime part).hash = some ⟨none, some (treeAsset runtime part)⟩) :
    ∃ next, walk.answer retriever index = some next ∧
      Walks runtime tree (children :: visits) (pending.eraseIdx index) next := by
  have waits := perm_of_pending found
  have whole : tree.Contains (.node data children) :=
    walks.inside _ (by simp [waits.mem_iff])
  have requested : walk.pending[index]? = some (treeAsset runtime (.node data children)).hash := by
    simp [walks.pending_eq, found]
  refine ⟨_, by rw [Walk.answer, requested]; simp only [serves _ whole rfl]; rfl, ?_⟩
  constructor
  · simp [Walk.traverse, walks.visits_eq, treeAsset, Asset.create]
  · simp [Walk.traverse, walks.pending_eq, List.eraseIdx_map]
  · have length := waits.length_eq
    simp only [List.length_cons] at length
    simp only [Walk.traverse, walks.count, List.length_cons]
    omega
  · intro part member
    simp only [List.flatten_cons, List.mem_append] at member
    rcases member with (child | visited) | waiting
    · exact whole.tail child
    · exact walks.inside part (by simp [visited])
    · exact walks.inside part (by simp [waits.mem_iff, waiting])
  · intro key asset stored
    simp only [Walk.traverse, Function.update_apply] at stored
    split at stored
    · cases stored
      exact ⟨_, whole, rfl, by simp [*]⟩
    · exact walks.sound key asset stored
  · exact walks.covered_answer found serves
  · exact walks.running
  · simp only [Walk.traverse, walks.calls_eq, List.cons_ne_nil, false_and, if_false]
    rw [if_neg]
    rintro ⟨_, empty⟩
    simp [empty] at found

/-- Without an answer a walk goes on in one way, and takes one off the steps left. -/
theorem advance {visits : List (List (RoseTree Fields))} {pending : List (RoseTree Fields)}
    (walks : Walks runtime tree visits pending walk) {next : Walk runtime}
    (advanced : walk.advance = some next) :
    ∃ nextVisits nextPending, stepsLeft visits pending = stepsLeft nextVisits nextPending + 1 ∧
      Walks runtime tree nextVisits nextPending next := by
  match visits with
  | [] => simp [Walk.advance, walks.visits_eq] at advanced
  | [] :: outer =>
      rcases walks.finish with ⟨other, finished, nextWalks⟩
      cases advanced.symm.trans finished
      exact ⟨outer, pending, by simp [stepsLeft_cons]; omega, nextWalks⟩
  | (first :: rest) :: outer =>
      rcases walks.request with ⟨other, requested, nextWalks⟩
      cases advanced.symm.trans requested
      exact ⟨_, _, stepsLeft_request first rest outer pending, nextWalks⟩

theorem step_advance {visits : List (List (RoseTree Fields))} {pending : List (RoseTree Fields)}
    (walks : Walks runtime tree visits pending walk) (retriever : Retriever runtime) :
    walkStep retriever walk .advance = walk.advance := by
  simp [walkStep, walks.running]

theorem step_answer {visits : List (List (RoseTree Fields))} {pending : List (RoseTree Fields)}
    (walks : Walks runtime tree visits pending walk) (retriever : Retriever runtime)
    (index : Nat) : walkStep retriever walk (.answer index) = walk.answer retriever index := by
  simp [walkStep, walks.running]

/-- Every step takes one off the steps that are left. -/
theorem step {visits : List (List (RoseTree Fields))} {pending : List (RoseTree Fields)}
    (walks : Walks runtime tree visits pending walk) {retriever : Retriever runtime}
    (serves : ∀ part, tree.Contains part →
      retriever (treeAsset runtime part).hash = some ⟨none, some (treeAsset runtime part)⟩)
    {action : WalkAction} {next : Walk runtime}
    (stepped : walkStep retriever walk action = some next) :
    ∃ nextVisits nextPending, stepsLeft visits pending = stepsLeft nextVisits nextPending + 1 ∧
      Walks runtime tree nextVisits nextPending next := by
  cases action with
  | advance =>
      rw [walks.step_advance] at stepped
      exact walks.advance stepped
  | answer index =>
      rw [walks.step_answer] at stepped
      match found : pending[index]? with
      | none => simp [Walk.answer, walks.pending_eq, found] at stepped
      | some (.node data children) =>
          rcases walks.answer found fun part contains _ => serves part contains with
            ⟨other, answered, nextWalks⟩
          cases stepped.symm.trans answered
          exact ⟨_, _, stepsLeft_answer visits found, nextWalks⟩

/-- A walk with anything outstanding can go on if an answer can be given. -/
theorem progress {visits : List (List (RoseTree Fields))} {pending : List (RoseTree Fields)}
    (walks : Walks runtime tree visits pending walk) {retriever : Retriever runtime}
    (unfinished : stepsLeft visits pending ≠ 0)
    (answers : ∀ part, pending[0]? = some part → ∃ next, walk.answer retriever 0 = some next) :
    ∃ action next, walkStep retriever walk action = some next := by
  match visits, pending with
  | [], [] => exact absurd rfl unfinished
  | [], part :: pending =>
      rcases answers part rfl with ⟨next, answered⟩
      exact ⟨.answer 0, next, by rw [walks.step_answer, answered]⟩
  | [] :: outer, pending =>
      rcases walks.finish with ⟨next, advanced, _⟩
      exact ⟨.advance, next, by rw [walks.step_advance, advanced]⟩
  | (first :: rest) :: outer, pending =>
      rcases walks.request with ⟨next, advanced, _⟩
      exact ⟨.advance, next, by rw [walks.step_advance, advanced]⟩

end Walks

/-! ## Reading back what was created -/

/-- What a run of `getAssetTree` shows after some of its `total` steps: no
callback and a way to go on before the last one, and then one callback without
an error and with the given assets under their hashes. -/
structure ReadsBack (retriever : Retriever runtime) (assets : Asset runtime → Prop) (total : Nat)
    (actions : List WalkAction) (walk : Walk runtime) : Prop where
  running : walk.thrown = false
  bounded : actions.length ≤ total
  before : actions.length < total → walk.calls = [] ∧
    ∃ action next, walkStep retriever walk action = some next
  finished : actions.length = total → walk.pending = [] ∧ walk.visits = [] ∧
    ∃ found, walk.calls = [⟨none, found⟩] ∧
      ∀ key asset, found key = some asset ↔ assets asset ∧ asset.hash = key

/-- A walk with the given number of steps left. -/
def WalksOn (runtime : Runtime) (tree : RoseTree Fields) (left : Nat) (walk : Walk runtime) :
    Prop :=
  ∃ visits pending, left = stepsLeft visits pending ∧ Walks runtime tree visits pending walk

theorem walksOn_start (runtime : Runtime) (tree : RoseTree Fields) :
    WalksOn runtime tree (3 * tree.size - 2) (Walk.start (treeAsset runtime tree)) := by
  cases tree with
  | node data children =>
      refine ⟨[children], [], ?_, Walks.start runtime data children⟩
      simp only [RoseTree.size, stepsLeft, List.map_cons, List.map_nil, List.sum_cons,
        List.sum_nil]
      omega

theorem getAssetTree_tree {retriever : Retriever runtime} {tree : RoseTree Fields}
    (serves : ∀ part, tree.Contains part →
      retriever (treeAsset runtime part).hash = some ⟨none, some (treeAsset runtime part)⟩)
    {actions : List WalkAction} {walk : Walk runtime}
    (run : GetAssetTree retriever (treeAsset runtime tree) actions walk) :
    ReadsBack retriever (fun asset => ∃ part, tree.Contains part ∧ asset = treeAsset runtime part)
      (3 * tree.size - 2) actions walk := by
  have keeps : ∀ left current action next, WalksOn runtime tree left current →
      walkStep retriever current action = some next →
        ∃ rest, left = rest + 1 ∧ WalksOn runtime tree rest next := by
    rintro left current action next ⟨visits, pending, left_eq, walks⟩ stepped
    rcases walks.step serves stepped with ⟨nextVisits, nextPending, fewer, nextWalks⟩
    exact ⟨_, left_eq.trans fewer, nextVisits, nextPending, rfl, nextWalks⟩
  rcases run.countdown keeps (walksOn_start runtime tree) with
    ⟨rest, counted, visits, pending, rest_eq, walks⟩
  constructor
  · exact walks.running
  · omega
  · intro shorter
    have unfinished : stepsLeft visits pending ≠ 0 := by omega
    constructor
    · rw [walks.calls_eq, if_neg]
      exact fun empty => unfinished (stepsLeft_eq_zero_iff.mpr empty)
    · apply walks.progress unfinished
      intro part found
      rcases part with ⟨data, children⟩
      rcases walks.answer found fun part contains _ => serves part contains with
        ⟨next, answered, _⟩
      exact ⟨next, answered⟩
  · intro complete
    have finished : stepsLeft visits pending = 0 := by omega
    rcases stepsLeft_eq_zero_iff.mp finished with ⟨noVisits, noPending⟩
    subst noVisits noPending
    refine ⟨walks.pending_eq, walks.visits_eq, walk.assets, walks.calls_eq, ?_⟩
    intro key asset
    constructor
    · intro found
      rcases walks.sound key asset found with ⟨part, contains, asset_eq, named⟩
      exact ⟨⟨part, contains, asset_eq⟩, named⟩
    · rintro ⟨⟨part, contains, rfl⟩, rfl⟩
      rcases walks.covered part contains with found | ⟨waiting, member, _⟩
      · exact found
      · cases member

/-- The data objects are values that JavaScript has. -/
def Description.OfValues (runtime : Runtime) (description : Description) : Prop :=
  ∀ pair ∈ description, .object pair.2.data ∈ runtime.values

theorem Description.OfValues.pair_mem_values {runtime : Runtime} {description : Description}
    (ofValues : description.OfValues runtime) {tree part : RoseTree Fields}
    (unfolds : Unfolds description.graph "root" tree) (contains : tree.Contains part) :
    (treeAsset runtime part).pair ∈ runtime.values := by
  rcases exists_reachable_of_contains contains .refl unfolds with ⟨name, _, partUnfolds⟩
  rcases part with ⟨data, children⟩
  rcases unfolds_node_iff.mp partUnfolds with ⟨childNames, found, _⟩
  have own := lookup_of_entry (graph_eq_some_iff.mp found)
  rcases List.lookup_eq_some_iff.mp own with ⟨before, after, split, _⟩
  rw [treeAsset]
  apply assetJson_mem_values
  exact ofValues (name, ⟨data, some childNames⟩) (by simp [split])

/-- What `createAssetTree` passes on and `defaultStorer` stores, in any order and
over any earlier contents of the database, `getAssetTree` reads back with
`defaultRetriever`, in whatever order the requests are answered. -/
theorem getAssetTree_readsBack (runtime : Runtime) (roundTrip : runtime.RoundTrip)
    (description : Description) (ofValues : description.OfValues runtime)
    (complete : Complete description.graph "root") (acyclic : Acyclic description.graph "root") :
    ∃ calls root, CreatesRoot runtime description calls root ∧
      ∀ (database : Database) (stored : List (Asset runtime)),
        (∀ asset, asset ∈ stored ↔ ∃ call ∈ calls, call.asset = asset) →
        Asset.NoCollision (fun asset => asset ∈ stored) →
        ∃ total, ∀ actions walk,
          GetAssetTree (defaultRetriever runtime (storeAll database stored)) root actions walk →
          ReadsBack (defaultRetriever runtime (storeAll database stored))
            (fun asset => ∃ call ∈ calls, call.asset = asset) total actions walk := by
  rcases exists_createsRoot runtime complete acyclic with ⟨calls, tree, unfolds, builds, creates⟩
  refine ⟨calls, _, creates, ?_⟩
  intro database stored all noCollision
  refine ⟨3 * tree.size - 2, fun actions walk run => ?_⟩
  simp only [builds.passes_iff unfolds] at all ⊢
  refine getAssetTree_tree ?_ run
  intro part contains
  apply defaultRetriever_storeAll roundTrip _ noCollision
  · exact (all _).mpr ⟨part, contains, rfl⟩
  · intro asset member
    rcases (all asset).mp member with ⟨other, inside, rfl⟩
    exact ofValues.pair_mem_values unfolds inside

/-- A barrow with two equal wheels. -/
def barrow : Description :=
  [("root", ⟨[("name", .string "barrow")], some ["wheel", "wheel"]⟩),
    ("wheel", ⟨[("class", .string "Wheel")], some []⟩)]

theorem barrow_ofValues (runtime : Runtime) : barrow.OfValues runtime := by
  simp only [Description.OfValues, barrow, List.forall_mem_cons, List.not_mem_nil,
    false_imp_iff, implies_true, and_true]
  exact ⟨Json.wellFormed_object_string .., Json.wellFormed_object_string ..⟩

def barrowWheel : Asset (Runtime.compact lastBytes) :=
  .create _ [] [("class", .string "Wheel")]

def barrowRoot : Asset (Runtime.compact lastBytes) :=
  .create _ [barrowWheel.hash, barrowWheel.hash] [("name", .string "barrow")]

theorem barrow_created : createAssetTree (Runtime.compact lastBytes) barrow 3 =
    some ⟨[⟨"wheel", barrowWheel, false⟩, ⟨"wheel", barrowWheel, false⟩,
      ⟨"root", barrowRoot, true⟩], none⟩ := by
  simp [createAssetTree, traverseTreeBreadthFirst, barrow, Description.entry, convertToAssets,
    childHashes, barrowWheel, barrowRoot, List.lookup_cons]

def barrowWheelDigest : Bytes :=
  Asset.compactDigest lastBytes [] [("class", .string "Wheel")]

theorem barrowWheel_hash : barrowWheel.hash = hex barrowWheelDigest :=
  Asset.hash_compact [] _ (by decide +kernel)

theorem barrowRoot_hash : barrowRoot.hash = hex (Asset.compactDigest lastBytes
    [barrowWheelDigest, barrowWheelDigest] [("name", .string "barrow")]) := by
  rw [barrowRoot, barrowWheel_hash]
  exact Asset.hash_compact [barrowWheelDigest, barrowWheelDigest] _ (by decide +kernel)

theorem barrow_hash_ne : barrowWheel.hash ≠ barrowRoot.hash := by
  rw [barrowWheel_hash, barrowRoot_hash]
  intro equal
  exact absurd (hex_injective equal) (by decide +kernel)

theorem barrow_hashes_differ : Swarm.swarmHash lastBytes barrowRoot.bytes ≠
    Swarm.swarmHash lastBytes barrowWheel.bytes := by
  intro equal
  apply barrow_hash_ne
  rw [barrowWheel.hash_eq, barrowRoot.hash_eq]
  exact congrArg (fun digest : Swarm.Digest => hex digest.bytes) equal.symm

theorem getAssetTree_barrow :
    ∃ calls root, CreatesRoot (Runtime.compact lastBytes) barrow calls root ∧
      ∃ total, ∀ actions walk,
        GetAssetTree (defaultRetriever _ (storeAll (fun _ => none) (calls.map Call.asset))) root
          actions walk →
        ReadsBack (defaultRetriever _ (storeAll (fun _ => none) (calls.map Call.asset)))
          (fun asset => ∃ call ∈ calls, call.asset = asset) total actions walk := by
  rcases getAssetTree_readsBack (Runtime.compact lastBytes) (Runtime.compact_roundTrip lastBytes)
      barrow (barrow_ofValues _) (Description.complete_of_closed (by decide) (by decide))
      (Description.acyclic_of_ranked (fun name => if name = "root" then 1 else 0) (by decide)) with
    ⟨calls, root, creates, readsBack⟩
  refine ⟨calls, root, creates, readsBack (fun _ => none) (calls.map Call.asset) ?_ ?_⟩
  · intro asset
    exact List.mem_map
  · rcases creates.1 with ⟨fuel, created⟩
    cases createAssetTree_unique created barrow_created
    simp only [List.map_cons, List.map_nil, List.mem_cons, List.not_mem_nil, or_false]
    rintro _ _ (rfl | rfl | rfl) (rfl | rfl | rfl) equal
    all_goals first
      | rfl
      | exact absurd equal barrow_hashes_differ
      | exact absurd equal.symm barrow_hashes_differ

end PizzaChain.Assets
