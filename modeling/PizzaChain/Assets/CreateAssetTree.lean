import PizzaChain.Assets.Asset
import PizzaChain.Foundation.Unfolding

/-! # Creating an asset tree from a description

`createAssetTree` of `assetlib.js`: a breadth-first collection of the names,
then a conversion to assets from the last name collected to the first.
-/

namespace PizzaChain.Assets

/-! ## Descriptions -/

/-- An entry `[data, childNames]`, whose child list may be absent. -/
structure Entry where
  data : Fields
  children : Option (List String)

abbrev Description := List (String × Entry)

namespace Description

/-- `description[n]`. What is inherited has neither data nor a child list. -/
def entry (description : Description) (name : String) : Option Entry :=
  match description.lookup name with
  | some entry => some entry
  | none => if name ∈ inheritedNames then some ⟨[], none⟩ else none

theorem lookup_of_entry {description : Description} {name : String} {data : Fields}
    {children : List String} (found : description.entry name = some ⟨data, some children⟩) :
    description.lookup name = some ⟨data, some children⟩ := by
  rw [entry] at found
  split at found
  · rename_i own
    rw [own, found]
  · split at found <;> cases found

theorem entry_of_lookup {description : Description} {name : String} {entry : Entry}
    (found : description.lookup name = some entry) : description.entry name = some entry := by
  rw [Description.entry, found]

/-- The entries that have a child list, as a graph of names. -/
def graph (description : Description) (name : String) : Option (Fields × List String) :=
  match description.entry name with
  | some ⟨data, some children⟩ => some (data, children)
  | _ => none

theorem graph_eq_some_iff {description : Description} {name : String} {data : Fields}
    {children : List String} :
    description.graph name = some (data, children) ↔
      description.entry name = some ⟨data, some children⟩ := by
  rw [graph]
  split
  · rename_i found
    simp [found]
  · rename_i absent
    constructor
    · intro impossible
      cases impossible
    · intro found
      exact absurd found (absent data children)

theorem mem_keys_of_graph {description : Description} (name : String) (data : Fields)
    (children : List String) (found : description.graph name = some (data, children)) :
    name ∈ description.map Prod.fst := by
  have own := lookup_of_entry (graph_eq_some_iff.mp found)
  rcases List.lookup_eq_some_iff.mp own with ⟨before, after, split, _⟩
  simp [split]

/-- A description is complete when every entry has a child list of described
names. -/
theorem complete_of_closed {description : Description}
    (root : "root" ∈ description.map Prod.fst)
    (closed : ∀ pair ∈ description, pair.2.children.isSome ∧
      ∀ child ∈ pair.2.children.getD [], child ∈ description.map Prod.fst) :
    Complete description.graph "root" := by
  have described : ∀ name ∈ description.map Prod.fst, ∃ data children,
      description.graph name = some (data, children) ∧
        ∀ child ∈ children, child ∈ description.map Prod.fst := by
    intro name member
    cases found : description.lookup name with
    | none =>
        rw [List.lookup_eq_none_iff] at found
        rcases List.mem_map.mp member with ⟨pair, pairMember, named⟩
        have different := found pair pairMember
        simp [named] at different
    | some entry =>
        rcases List.lookup_eq_some_iff.mp found with ⟨before, after, split, _⟩
        have checked := closed (name, entry) (by simp [split])
        rcases entry with ⟨data, children⟩
        cases children with
        | none => simp at checked
        | some children =>
            exact ⟨data, children, graph_eq_some_iff.mpr (entry_of_lookup found),
              by simpa using checked.2⟩
  intro name reachable
  have key : name ∈ description.map Prod.fst := by
    refine Reachable.inherit root ?_ reachable
    intro parent child member edge
    rcases described parent member with ⟨data, children, found, inside⟩
    rcases edge with ⟨_, others, entry, childMember⟩
    rw [found] at entry
    cases entry
    exact inside child childMember
  rcases described name key with ⟨data, children, found, _⟩
  exact ⟨data, children, found⟩

/-- A description has no cycle when a rank falls from every entry to its
children. -/
theorem acyclic_of_ranked {description : Description} (rank : String → Nat)
    (falls : ∀ pair ∈ description, ∀ child ∈ pair.2.children.getD [], rank child < rank pair.1) :
    Acyclic description.graph "root" := by
  refine acyclic_of_rank rank ?_ "root"
  intro parent child edge
  rcases edge with ⟨data, children, found, member⟩
  have own := lookup_of_entry (graph_eq_some_iff.mp found)
  rcases List.lookup_eq_some_iff.mp own with ⟨before, after, split, _⟩
  exact falls (parent, ⟨data, some children⟩) (by simp [split]) child member

end Description

/-! ## The two passes -/

/-- The `TypeError`s of the two passes, by the name at which they are thrown. -/
inductive Thrown
  | undefinedEntry (name : String)
  | undefinedChildren (name : String)
  | undefinedAsset (name : String)

/-- The `while` loop of `traverseTreeBreadthFirst`. The result is `none` when
the queue has not become empty after `fuel` turns. -/
def traverseTreeBreadthFirst (description : Description) :
    (fuel : Nat) → (queue results : List String) → Option (Except Thrown (List String))
  | _, [], results => some (.ok results)
  | 0, _ :: _, _ => none
  | fuel + 1, name :: queue, results =>
      match description.entry name with
      | none => some (.error (.undefinedEntry name))
      | some entry =>
          match entry.children with
          | none => traverseTreeBreadthFirst description fuel queue (results ++ [name])
          | some children =>
              traverseTreeBreadthFirst description fuel (queue ++ children) (results ++ [name])

/-- One call of the callback, together with the name it is made for. -/
structure Call (runtime : Runtime) where
  name : String
  asset : Asset runtime
  isRoot : Bool

/-- The calls that were made, and the error that ended the pass if there is one. -/
structure Outcome (runtime : Runtime) where
  calls : List (Call runtime)
  thrown : Option Thrown

/-- The object that holds the assets built so far. -/
abbrev Built (runtime : Runtime) := String → Option (Asset runtime)

/-- The inner loop of `convertToAssets`: the hashes of the children. -/
def childHashes {runtime : Runtime} (assets : Built runtime) :
    (children : List String) → Except Thrown (List String)
  | [] => .ok []
  | child :: rest =>
      match assets child with
      | none => .error (.undefinedAsset child)
      | some asset =>
          match childHashes assets rest with
          | .error thrown => .error thrown
          | .ok hashes => .ok (asset.hash :: hashes)

/-- The `while` loop of `convertToAssets`, on the names still to be popped. -/
def convertToAssets (runtime : Runtime) (description : Description) :
    (stack : List String) → (assets : Built runtime) → Outcome runtime
  | [], _ => ⟨[], none⟩
  | name :: stack, assets =>
      match description.entry name with
      | none => ⟨[], some (.undefinedEntry name)⟩
      | some entry =>
          match entry.children with
          | none => ⟨[], some (.undefinedChildren name)⟩
          | some children =>
              match childHashes assets children with
              | .error thrown => ⟨[], some thrown⟩
              | .ok hashes =>
                  let asset := Asset.create runtime hashes entry.data
                  let rest := convertToAssets runtime description stack
                    (Function.update assets name (some asset))
                  ⟨⟨name, asset, name == "root"⟩ :: rest.calls, rest.thrown⟩

/-- `createAssetTree(description, callback)`, as the sequence of its callbacks. -/
def createAssetTree (runtime : Runtime) (description : Description) (fuel : Nat) :
    Option (Outcome runtime) :=
  match traverseTreeBreadthFirst description fuel ["root"] [] with
  | none => none
  | some (.error thrown) => some ⟨[], some thrown⟩
  | some (.ok results) => some (convertToAssets runtime description results.reverse fun _ => none)

/-- More turns than needed change nothing. -/
theorem traverseTreeBreadthFirst_mono {description : Description} {low high : Nat}
    (higher : low ≤ high) {queue results : List String} {outcome : Except Thrown (List String)}
    (ends : traverseTreeBreadthFirst description low queue results = some outcome) :
    traverseTreeBreadthFirst description high queue results = some outcome := by
  induction low generalizing high queue results with
  | zero =>
      cases queue with
      | nil => simpa [traverseTreeBreadthFirst] using ends
      | cons name queue => simp [traverseTreeBreadthFirst] at ends
  | succ low induction =>
      cases queue with
      | nil => simpa [traverseTreeBreadthFirst] using ends
      | cons name queue =>
          cases high with
          | zero => omega
          | succ high =>
              have below : low ≤ high := Nat.le_of_succ_le_succ higher
              rw [traverseTreeBreadthFirst] at ends ⊢
              split at ends
              · exact ends
              · split at ends
                · exact induction below ends
                · exact induction below ends

theorem createAssetTree_unique {runtime : Runtime} {description : Description}
    {firstFuel secondFuel : Nat} {first second : Outcome runtime}
    (firstEnds : createAssetTree runtime description firstFuel = some first)
    (secondEnds : createAssetTree runtime description secondFuel = some second) :
    first = second := by
  have lift : ∀ fuel outcome, fuel ≤ max firstFuel secondFuel →
      createAssetTree runtime description fuel = some outcome →
        createAssetTree runtime description (max firstFuel secondFuel) = some outcome := by
    intro fuel outcome below ends
    rw [createAssetTree] at ends ⊢
    cases collected : traverseTreeBreadthFirst description fuel ["root"] [] with
    | none => simp [collected] at ends
    | some result =>
        rw [traverseTreeBreadthFirst_mono below collected]
        rw [collected] at ends
        exact ends
  have firstLifted := lift firstFuel first (Nat.le_max_left _ _) firstEnds
  have secondLifted := lift secondFuel second (Nat.le_max_right _ _) secondEnds
  exact Option.some.inj (firstLifted.symm.trans secondLifted)

/-! ## The breadth-first pass -/

/-- What the loop keeps: the children of a collected name stand behind it, and
every name but the first is a proper descendant of the root. -/
structure Collected (description : Description) (queue results : List String) : Prop where
  childrenLater : ∀ before name after, results = before ++ name :: after →
    ∀ child, Edge description.graph name child → child ∈ after ++ queue
  fromRoot : ∃ rest, results ++ queue = "root" :: rest ∧
    ∀ name ∈ rest, Relation.TransGen (Edge description.graph) "root" name

theorem Collected.initial (description : Description) :
    Collected description ["root"] [] where
  childrenLater := by simp
  fromRoot := ⟨[], rfl, by simp⟩

theorem Collected.reachable {description : Description} {queue results : List String}
    (collected : Collected description queue results) {name : String}
    (member : name ∈ results ++ queue) : Reachable description.graph "root" name := by
  rcases collected.fromRoot with ⟨rest, total, descendants⟩
  rw [total] at member
  rcases List.mem_cons.mp member with equal | member
  · exact equal ▸ .refl
  · exact (descendants name member).to_reflTransGen

/-- One turn of the loop keeps the invariant. -/
theorem Collected.step {description : Description} {name : String} {queue results : List String}
    {data : Fields} {children : List String}
    (collected : Collected description (name :: queue) results)
    (found : description.graph name = some (data, children)) :
    Collected description (queue ++ children) (results ++ [name]) where
  childrenLater := by
    intro before other after split child edge
    rcases List.eq_nil_or_concat after with empty | ⟨front, last, concat⟩
    · subst empty
      rcases List.append_inj' split rfl with ⟨_, same⟩
      cases same
      rcases edge with ⟨_, others, entry, member⟩
      rw [found] at entry
      cases entry
      simp [member]
    · subst concat
      have parts : results ++ [name] = (before ++ other :: front) ++ [last] := by
        simpa using split
      rcases List.append_inj' parts rfl with ⟨earlier, same⟩
      cases same
      have later := collected.childrenLater before other front earlier child edge
      simp only [List.concat_eq_append, List.append_assoc, List.mem_append,
        List.mem_cons, List.not_mem_nil, or_false] at later ⊢
      tauto
  fromRoot := by
    rcases collected.fromRoot with ⟨rest, total, descendants⟩
    refine ⟨rest ++ children, ?_, ?_⟩
    · have : results ++ [name] ++ (queue ++ children) = (results ++ name :: queue) ++ children := by
        simp
      rw [this, total, List.cons_append]
    · intro other member
      rcases List.mem_append.mp member with earlier | child
      · exact descendants other earlier
      · exact Relation.TransGen.tail' (collected.reachable (by simp)) ⟨data, children, found, child⟩

/-- Each turn takes one node off the trees below the queue, so the loop ends
after as many turns as these trees have nodes. -/
theorem traverseTreeBreadthFirst_collects (description : Description) (fuel : Nat)
    (queue results : List String) (trees : List (RoseTree Fields))
    (unfolds : List.Forall₂ (Unfolds description.graph) queue trees)
    (enough : (trees.map RoseTree.size).sum ≤ fuel)
    (collected : Collected description queue results) :
    ∃ final, traverseTreeBreadthFirst description fuel queue results = some (.ok final) ∧
      Collected description [] final := by
  induction fuel generalizing queue results trees with
  | zero =>
      cases unfolds with
      | nil => exact ⟨results, by rw [traverseTreeBreadthFirst], collected⟩
      | @cons _ tree _ _ _ _ =>
          have := tree.size_pos
          simp only [List.map_cons, List.sum_cons] at enough
          omega
  | succ fuel induction =>
      cases unfolds with
      | nil => exact ⟨results, by rw [traverseTreeBreadthFirst], collected⟩
      | @cons name tree queue rest first others =>
          cases tree with
          | node data below =>
              rcases unfolds_node_iff.mp first with ⟨children, found, childrenUnfold⟩
              have entryFound := Description.graph_eq_some_iff.mp found
              rw [traverseTreeBreadthFirst, entryFound]
              exact induction (queue ++ children) (results ++ [name]) (rest ++ below)
                (List.rel_append others childrenUnfold) (RoseTree.sum_size_turn enough)
                (collected.step found)

end PizzaChain.Assets
