import PizzaChain.Assets.AssetTree
import PizzaChain.Assets.BreadthFirst

/-! # Descriptions with missing parts

The collection takes an absent child list for an empty one, the conversion
throws at it. The conversion starts with the last name in level order, so it
throws before its first callback only if that name is the one without a list.
-/

namespace PizzaChain.Assets

namespace Description

/-- The entries, with an absent child list read as an empty one. -/
def outline (description : Description) (name : String) : Option (Fields × List String) :=
  (description.entry name).map fun entry => (entry.data, entry.children.getD [])

theorem outline_of_graph {description : Description} (name : String)
    (found : Fields × List String) (inGraph : description.graph name = some found) :
    description.outline name = some found := by
  have entryFound := graph_eq_some_iff.mp inGraph
  simp [outline, entryFound]

theorem edge_links_of_graph {description : Description} {parent child : String}
    (edge : Edge description.graph parent child) : Edge description.links parent child := by
  rcases edge with ⟨data, children, found, member⟩
  have entryFound := graph_eq_some_iff.mp found
  apply edge_namedGraph_iff.mpr
  simpa [childNames, entryFound] using member

/-- Every reachable entry is there and has a child list. -/
def Listed (description : Description) : Prop :=
  ∀ name, Reachable description.links "root" name →
    ∃ data children, description.entry name = some ⟨data, some children⟩

theorem reachable_graph_of_listed {description : Description} (listed : description.Listed)
    {name : String} (reachable : Reachable description.links "root" name) :
    Reachable description.graph "root" name := by
  induction reachable with
  | refl => exact .refl
  | @tail parent child before edge induction =>
      rcases listed parent before with ⟨data, children, found⟩
      have member := edge_namedGraph_iff.mp edge
      apply induction.tail
      exact ⟨data, children, graph_eq_some_iff.mpr found, by simpa [childNames, found] using member⟩

theorem reachable_links_of_graph {description : Description} {name : String}
    (reachable : Reachable description.graph "root" name) :
    Reachable description.links "root" name :=
  Relation.ReflTransGen.mono (fun _ _ => edge_links_of_graph) _ _ reachable

theorem complete_graph_of_listed {description : Description} (listed : description.Listed) :
    Complete description.graph "root" := by
  intro name reachable
  rcases listed name (reachable_links_of_graph reachable) with ⟨data, children, found⟩
  exact ⟨data, children, graph_eq_some_iff.mpr found⟩

theorem acyclic_graph_of_links {description : Description}
    (acyclic : Acyclic description.links "root") : Acyclic description.graph "root" := by
  intro name reachable cycle
  apply acyclic name (reachable_links_of_graph reachable)
  exact Relation.TransGen.mono (fun _ _ => edge_links_of_graph) _ _ cycle

/-- The last name of the lowest level has an entry without a child list. -/
def LastUnlisted (description : Description) : Prop :=
  ∃ tree last data, Unfolds description.links "root" tree ∧
    tree.levelOrder.getLast? = some last ∧ description.entry last = some ⟨data, none⟩

end Description

/-! ## The conversion of names without a child list -/

variable {runtime : Runtime} {description : Description}

/-- The conversion ends without an error only if every name has a child list. -/
theorem listed_of_convertToAssets {stack : List String} {assets : Built runtime}
    (quiet : (convertToAssets runtime description stack assets).thrown = none) :
    ∀ name ∈ stack, ∃ data children, description.entry name = some ⟨data, some children⟩ := by
  induction stack generalizing assets with
  | nil => simp
  | cons name stack induction =>
      rw [convertToAssets] at quiet
      split at quiet
      · cases quiet
      · rename_i entry found
        rcases entry with ⟨data, children⟩
        split at quiet
        · cases quiet
        · rename_i present
          split at quiet
          · cases quiet
          · intro other member
            rcases List.mem_cons.mp member with same | later
            · rw [same]
              exact ⟨data, _, by rw [found, ← present]⟩
            · exact induction quiet other later

theorem convertToAssets_unlisted {name : String} {data : Fields}
    (found : description.entry name = some ⟨data, none⟩) (stack : List String)
    (assets : Built runtime) :
    convertToAssets runtime description (name :: stack) assets =
      ⟨[], some (.undefinedChildren name)⟩ := by
  simp [convertToAssets, found]

/-- A leaf is passed on, whatever follows. -/
theorem convertToAssets_leaf {name : String} {data : Fields}
    (found : description.entry name = some ⟨data, some []⟩) (stack : List String)
    (assets : Built runtime) :
    (convertToAssets runtime description (name :: stack) assets).calls ≠ [] := by
  simp [convertToAssets, found, childHashes]

/-- The name converted first is a leaf of the collected tree. -/
theorem childNames_of_last {tree : RoseTree String} {last : String}
    (unfolds : Unfolds description.links "root" tree)
    (found : tree.levelOrder.getLast? = some last) : description.childNames last = [] := by
  rcases RoseTree.exists_leaf_of_getLast? [tree] (by simp) found with ⟨other, member, contains⟩
  rw [List.mem_singleton.mp member] at contains
  rcases exists_reachable_of_contains contains .refl unfolds with ⟨name, _, below⟩
  rcases unfolds_namedGraph_node_iff.mp below with ⟨named, childless⟩
  rw [named]
  exact List.forall₂_nil_right_iff.mp childless

/-! ## All or nothing -/

/-- Every reachable entry was passed on as the asset of its tree, where an absent
child list is empty; or nothing was passed on and an error was thrown. -/
def AllOrNothing (description : Description) (outcome : Outcome runtime) : Prop :=
  (outcome.thrown = none ∧ ∀ name, Reachable description.links "root" name →
    ∃ tree, Unfolds description.outline name tree ∧
      ∃ call ∈ outcome.calls, call.name = name ∧ call.asset = treeAsset runtime tree) ∨
  (outcome.thrown ≠ none ∧ outcome.calls = [])

theorem allOrNothing_of_listed (listed : description.Listed)
    (acyclic : Acyclic description.links "root") :
    ∃ fuel outcome, createAssetTree runtime description fuel = some outcome ∧
      AllOrNothing description outcome := by
  rcases createAssetTree_buildsTree runtime description
      (Description.complete_graph_of_listed listed)
      (Description.acyclic_graph_of_links acyclic) with ⟨fuel, calls, ends, builds⟩
  refine ⟨fuel, _, ends, .inl ⟨rfl, ?_⟩⟩
  intro name reachable
  rcases (builds.exists_call_iff name).mpr (Description.reachable_graph_of_listed listed reachable)
    with ⟨call, member, named⟩
  rcases (builds.faithful call member).asset with ⟨tree, unfolds, asset⟩
  rw [named] at unfolds
  exact ⟨tree, unfolds.mono Description.outline_of_graph, call, member, named, asset⟩

/-- With every reachable entry there but some child list absent, the callback
is made for a part of the tree unless the first conversion fails. -/
theorem allOrNothing_iff_lastUnlisted {tree : RoseTree String}
    (unfolds : Unfolds description.links "root" tree)
    (described : ∀ name, Reachable description.links "root" name → description.entry name ≠ none)
    (unlisted : ¬description.Listed) :
    AllOrNothing description
        (convertToAssets runtime description tree.levelOrder.reverse fun _ => none) ↔
      description.LastUnlisted := by
  have listedNames : ∀ name, name ∈ tree.levelOrder.reverse ↔
      Reachable description.links "root" name := by
    intro name
    rw [List.mem_reverse, RoseTree.mem_levelOrder_iff unfolds]
  have throws : (convertToAssets runtime description tree.levelOrder.reverse
      fun _ => none).thrown ≠ none := by
    intro quiet
    apply unlisted
    intro name reachable
    exact listed_of_convertToAssets quiet name ((listedNames name).mpr reachable)
  constructor
  · intro allOrNothing
    rcases allOrNothing with ⟨quiet, _⟩ | ⟨_, silent⟩
    · exact absurd quiet throws
    · cases order : tree.levelOrder.reverse with
      | nil =>
          have root := (listedNames "root").mpr .refl
          rw [order] at root
          cases root
      | cons last rest =>
          have found : tree.levelOrder.getLast? = some last := by
            rw [List.getLast?_eq_head?_reverse, order, List.head?_cons]
          have reachable := (listedNames last).mp (by rw [order]; exact List.mem_cons_self)
          cases entryFound : description.entry last with
          | none => exact absurd entryFound (described last reachable)
          | some entry =>
              rcases entry with ⟨data, children⟩
              cases children with
              | none => exact ⟨tree, last, data, unfolds, found, entryFound⟩
              | some children =>
                  have childless := childNames_of_last unfolds found
                  simp only [Description.childNames, entryFound, Option.bind_some,
                    Option.getD_some] at childless
                  rw [childless] at entryFound
                  rw [order] at silent
                  exact absurd silent (convertToAssets_leaf entryFound rest _)
  · intro lastUnlisted
    rcases lastUnlisted with ⟨other, last, data, otherUnfolds, found, entryFound⟩
    rw [otherUnfolds.unique unfolds, List.getLast?_eq_head?_reverse] at found
    rcases List.head?_eq_some_iff.mp found with ⟨rest, order⟩
    refine .inr ⟨throws, ?_⟩
    rw [order, convertToAssets_unlisted entryFound]

/-- On a description without a reachable cycle `createAssetTree` ends, and it
passes on all or nothing exactly when a reachable name has no entry, when every
reachable entry has a child list, or when the last name of the lowest level is
one of those without. -/
theorem createAssetTree_allOrNothing_iff (runtime : Runtime) (description : Description)
    (acyclic : Acyclic description.links "root") :
    ∃ fuel outcome, createAssetTree runtime description fuel = some outcome ∧
      (AllOrNothing description outcome ↔
        (∃ name, Reachable description.links "root" name ∧ description.entry name = none) ∨
          description.Listed ∨ description.LastUnlisted) := by
  rcases Description.exists_unfolds_links acyclic with ⟨tree, unfolds⟩
  rcases traverseTreeBreadthFirst_root unfolds with ⟨ends, described⟩ |
    ⟨name, reachable, absent, thrown⟩
  · by_cases listed : description.Listed
    · rcases @allOrNothing_of_listed runtime description listed acyclic with
        ⟨fuel, outcome, created, allOrNothing⟩
      exact ⟨fuel, outcome, created, fun _ => .inr (.inl listed), fun _ => allOrNothing⟩
    · refine ⟨tree.size, _, by rw [createAssetTree, ends], ?_⟩
      rw [allOrNothing_iff_lastUnlisted unfolds described listed]
      constructor
      · intro lastUnlisted
        exact .inr (.inr lastUnlisted)
      · intro condition
        rcases condition with ⟨name, reachable, absent⟩ | listed' | lastUnlisted
        · exact absurd absent (described name reachable)
        · exact absurd listed' listed
        · exact lastUnlisted
  · refine ⟨tree.size, ⟨[], some (.undefinedEntry name)⟩, by rw [createAssetTree, thrown], ?_⟩
    exact ⟨fun _ => .inl ⟨name, reachable, absent⟩, fun _ => .inr ⟨by simp, rfl⟩⟩

/-- The wheel, which comes last, has no child list, so nothing is passed on. -/
theorem createAssetTree_allOrNothing_iff_axle :
    let runtime := Runtime.compact fun _ => ⟨List.replicate 32 0, rfl⟩
    axle.LastUnlisted ∧ ∃ fuel outcome, createAssetTree runtime axle fuel = some outcome ∧
      AllOrNothing axle outcome := by
  intro runtime
  have lastUnlisted : axle.LastUnlisted := by
    refine ⟨.node "root" [.node "wheel" [], .node "wheel" []], "wheel", _, ⟨3, rfl⟩, ?_, rfl⟩
    simp [RoseTree.levelOrder, RoseTree.forestOrder, RoseTree.height, RoseTree.level,
      RoseTree.children, RoseTree.label, List.range_succ]
  rcases createAssetTree_allOrNothing_iff runtime axle (@acyclic_of_traverse axle 3 _ rfl) with
    ⟨fuel, outcome, created, allOrNothing⟩
  exact ⟨lastUnlisted, fuel, outcome, created, allOrNothing.mpr (.inr (.inr lastUnlisted))⟩

/-- Two leaves, of which the first lacks its child list. -/
def lopsided : Description :=
  [("root", ⟨[("name", .string "lopsided")], some ["frame", "wheel"]⟩),
    ("frame", ⟨[("name", .string "frame")], none⟩),
    ("wheel", ⟨[("name", .string "wheel")], some []⟩)]

/-- The second leaf is passed on before the conversion throws at the first. -/
theorem createAssetTree_lopsided :
    let runtime := Runtime.compact fun _ => ⟨List.replicate 32 0, rfl⟩
    Acyclic lopsided.links "root" ∧
      ∃ outcome, createAssetTree runtime lopsided 3 = some outcome ∧
        outcome.calls.map Call.name = ["wheel"] ∧
          outcome.thrown = some (.undefinedChildren "frame") ∧
            ¬AllOrNothing lopsided outcome := by
  refine ⟨@acyclic_of_traverse lopsided 3 _ rfl, _, rfl, rfl, rfl, ?_⟩
  intro allOrNothing
  rcases allOrNothing with ⟨quiet, _⟩ | ⟨_, silent⟩
  · cases quiet
  · cases silent

/-- A part that is nowhere described, but whose name every object has. -/
def unnamedPart : Description :=
  [("root", ⟨[], some ["toString", "wheel"]⟩), ("wheel", ⟨[], some []⟩)]

-- The collection takes the inherited function for an entry, and the conversion throws
-- at it after the wheel was passed on.
example :
    let runtime := Runtime.compact fun _ => ⟨List.replicate 32 0, rfl⟩
    ∃ outcome, createAssetTree runtime unnamedPart 3 = some outcome ∧
      outcome.calls.map Call.name = ["wheel"] ∧
        outcome.thrown = some (.undefinedChildren "toString") :=
  ⟨_, rfl, rfl, rfl⟩

end PizzaChain.Assets
