import PizzaChain.Assets.CreateAssetTree
import PizzaChain.Foundation.LevelOrder

/-! # The breadth-first collection

`traverseTreeBreadthFirst` keeps no set of visited names: it lists the tree that
the child lists unfold to, level by level, and ends exactly when there is one.
An entry without a child list counts as a leaf here.
-/

namespace PizzaChain.Assets

namespace Description

/-- The names that the loop pushes for a name: none without a child list. -/
def childNames (description : Description) (name : String) : List String :=
  ((description.entry name).bind Entry.children).getD []

/-- The child lists as a graph of names, in which every name is its own label. -/
abbrev links (description : Description) : String → Option (String × List String) :=
  namedGraph description.childNames

theorem finite_reachable_links (description : Description) (root : String) :
    Set.Finite { name | Reachable description.links root name } := by
  let named := description.flatMap fun pair => pair.2.children.getD []
  refine (List.finite_toSet (root :: named)).subset ?_
  intro name reachable
  rcases Relation.ReflTransGen.cases_tail reachable with same | ⟨parent, _, edge⟩
  · exact same ▸ List.mem_cons_self
  · apply List.mem_cons_of_mem
    have member := edge_namedGraph_iff.mp edge
    rw [childNames] at member
    cases found : description.entry parent with
    | none => simp [found] at member
    | some entry =>
        rcases entry with ⟨data, children⟩
        cases children with
        | none => simp [found] at member
        | some children =>
            have own := lookup_of_entry found
            rcases List.lookup_eq_some_iff.mp own with ⟨before, after, split, _⟩
            rw [found] at member
            exact List.mem_flatMap.mpr ⟨(parent, ⟨data, some children⟩), by simp [split], member⟩

theorem exists_unfolds_links {description : Description}
    (acyclic : Acyclic description.links "root") : ∃ tree, Unfolds description.links "root" tree :=
  exists_unfolds_of_finite (description.finite_reachable_links "root")
    (complete_namedGraph "root") acyclic .refl

end Description

/-! ## Turns of the loop -/

theorem traverseTreeBreadthFirst_turn (description : Description) (fuel : Nat) (name : String)
    (queue results : List String) {entry : Entry} (found : description.entry name = some entry) :
    traverseTreeBreadthFirst description (fuel + 1) (name :: queue) results =
      traverseTreeBreadthFirst description fuel (queue ++ description.childNames name)
        (results ++ [name]) := by
  rcases entry with ⟨data, children⟩
  cases children with
  | none => simp [traverseTreeBreadthFirst, Description.childNames, found]
  | some children => simp [traverseTreeBreadthFirst, Description.childNames, found]

/-- The loop lists the trees below the queue in level order, or throws at a name
without an entry that stands in it. -/
theorem traverseTreeBreadthFirst_order (description : Description) (fuel bound : Nat)
    (queue results : List String) (trees : List (RoseTree String))
    (unfolds : List.Forall₂ (Unfolds description.links) queue trees)
    (enough : (trees.map RoseTree.size).sum ≤ fuel)
    (low : ∀ tree ∈ trees, tree.height ≤ bound) :
    (traverseTreeBreadthFirst description fuel queue results =
        some (.ok (results ++ RoseTree.forestOrder bound trees)) ∧
      ∀ name ∈ RoseTree.forestOrder bound trees, description.entry name ≠ none) ∨
    ∃ name ∈ RoseTree.forestOrder bound trees, description.entry name = none ∧
      traverseTreeBreadthFirst description fuel queue results =
        some (.error (.undefinedEntry name)) := by
  induction fuel generalizing queue results trees with
  | zero =>
      cases unfolds with
      | nil => exact .inl (by simp [traverseTreeBreadthFirst, RoseTree.forestOrder_nil])
      | @cons _ tree _ _ _ _ =>
          have := tree.size_pos
          simp only [List.map_cons, List.sum_cons] at enough
          omega
  | succ fuel induction =>
      cases unfolds with
      | nil => exact .inl (by simp [traverseTreeBreadthFirst, RoseTree.forestOrder_nil])
      | @cons name tree queue rest first others =>
          rcases tree with ⟨label, below⟩
          rcases unfolds_namedGraph_node_iff.mp first with ⟨named, childrenUnfold⟩
          subst named
          rw [RoseTree.forestOrder_cons (low _ List.mem_cons_self)]
          cases found : description.entry label with
          | none =>
              exact .inr ⟨label, List.mem_cons_self, found, by
                simp [traverseTreeBreadthFirst, found]⟩
          | some entry =>
              rw [traverseTreeBreadthFirst_turn description fuel label queue results found]
              rcases induction _ (results ++ [label]) (rest ++ below)
                  (List.rel_append others childrenUnfold) (RoseTree.sum_size_turn enough)
                  (RoseTree.low_turn low) with ⟨ends, described⟩ | ⟨name, member, absent, thrown⟩
              · refine .inl ⟨by rw [ends, List.append_assoc, List.singleton_append], ?_⟩
                intro name member
                rcases List.mem_cons.mp member with same | later
                · simp [same, found]
                · exact described name later
              · exact .inr ⟨name, List.mem_cons_of_mem _ member, absent, thrown⟩

/-- When the loop ends, the graph unfolds from every name that was queued. -/
theorem exists_unfolds_of_traverse {description : Description} {fuel : Nat}
    {queue results final : List String}
    (ends : traverseTreeBreadthFirst description fuel queue results = some (.ok final)) :
    ∀ name ∈ queue, ∃ tree, Unfolds description.links name tree := by
  induction fuel generalizing queue results with
  | zero =>
      cases queue with
      | nil => simp
      | cons name queue => simp [traverseTreeBreadthFirst] at ends
  | succ fuel induction =>
      cases queue with
      | nil => simp
      | cons name queue =>
          cases found : description.entry name with
          | none => simp [traverseTreeBreadthFirst, found] at ends
          | some entry =>
              rw [traverseTreeBreadthFirst_turn description fuel name queue results found] at ends
              have later := induction ends
              have available : ∀ child ∈ description.childNames name,
                  ∃ tree, Unfolds description.links child tree :=
                fun child member => later child (List.mem_append_right _ member)
              intro other member
              rcases List.mem_cons.mp member with same | queued
              · rcases exists_forall₂_of_forall available with ⟨trees, unfolded⟩
                exact ⟨.node name trees, by
                  rw [same]
                  exact unfolds_namedGraph_node_iff.mpr ⟨rfl, unfolded⟩⟩
              · exact later other (List.mem_append_left _ queued)

theorem acyclic_of_traverse {description : Description} {fuel : Nat} {results : List String}
    (ends : traverseTreeBreadthFirst description fuel ["root"] [] = some (.ok results)) :
    Acyclic description.links "root" := by
  rcases exists_unfolds_of_traverse ends "root" List.mem_cons_self with ⟨tree, unfolds⟩
  exact acyclic_of_unfolds unfolds

/-- From the root: the whole tree in level order, or a reachable name without an
entry. -/
theorem traverseTreeBreadthFirst_root {description : Description} {tree : RoseTree String}
    (unfolds : Unfolds description.links "root" tree) :
    (traverseTreeBreadthFirst description tree.size ["root"] [] = some (.ok tree.levelOrder) ∧
      ∀ name, Reachable description.links "root" name → description.entry name ≠ none) ∨
    ∃ name, Reachable description.links "root" name ∧ description.entry name = none ∧
      traverseTreeBreadthFirst description tree.size ["root"] [] =
        some (.error (.undefinedEntry name)) := by
  have listed := RoseTree.mem_levelOrder_iff unfolds
  rcases traverseTreeBreadthFirst_order description tree.size tree.height ["root"] [] [tree]
      (.cons unfolds .nil) (by simp) (by simp) with ⟨ends, described⟩ | ⟨name, member, failed⟩
  · exact .inl ⟨ends, fun name reachable => described name ((listed name).mpr reachable)⟩
  · exact .inr ⟨name, (listed name).mp member, failed⟩

/-! ## Termination and the number of paths -/

/-- On a description without absent entries the queue becomes empty exactly when
no cycle is reachable, and each name is then collected once for every downward
path to it. -/
theorem traverseTreeBreadthFirst_ends_iff_acyclic (description : Description)
    (described : ∀ name, Reachable description.links "root" name →
      description.entry name ≠ none) :
    ((∃ fuel results, traverseTreeBreadthFirst description fuel ["root"] [] =
        some (.ok results)) ↔ Acyclic description.links "root") ∧
      ∀ fuel results, traverseTreeBreadthFirst description fuel ["root"] [] =
          some (.ok results) →
        ∀ name, Set.encard { path | descend description.links "root" path = some name } =
          results.count name := by
  have listing : ∀ tree, Unfolds description.links "root" tree →
      traverseTreeBreadthFirst description tree.size ["root"] [] =
        some (.ok tree.levelOrder) := by
    intro tree unfolds
    rcases traverseTreeBreadthFirst_root unfolds with ⟨ends, _⟩ | ⟨name, reachable, absent, _⟩
    · exact ends
    · exact absurd absent (described name reachable)
  constructor
  · constructor
    · intro ending
      rcases ending with ⟨fuel, results, ends⟩
      exact acyclic_of_traverse ends
    · intro acyclic
      rcases Description.exists_unfolds_links acyclic with ⟨tree, unfolds⟩
      exact ⟨tree.size, tree.levelOrder, listing tree unfolds⟩
  · intro fuel results ends name
    rcases exists_unfolds_of_traverse ends "root" List.mem_cons_self with ⟨tree, unfolds⟩
    have first := traverseTreeBreadthFirst_mono (Nat.le_max_left fuel tree.size) ends
    have second :=
      traverseTreeBreadthFirst_mono (Nat.le_max_right fuel tree.size) (listing tree unfolds)
    rw [first] at second
    cases second
    rw [encard_descend unfolds, tree.levelOrder_perm.count_eq]

/-- A description that names one part twice. -/
def axle : Description :=
  [("root", ⟨[("name", .string "axle")], some ["wheel", "wheel"]⟩),
    ("wheel", ⟨[("name", .string "wheel")], none⟩)]

theorem axle_described (name : String) (reachable : Reachable axle.links "root" name) :
    axle.entry name ≠ none := by
  have known : name = "root" ∨ name = "wheel" := by
    apply Reachable.inherit (.inl rfl) _ reachable
    intro parent child parentKnown edge
    have member := edge_namedGraph_iff.mp edge
    rcases parentKnown with isRoot | isWheel
    · subst isRoot
      have wheels : axle.childNames "root" = ["wheel", "wheel"] := by decide
      rw [wheels] at member
      exact .inr (by simpa using member)
    · subst isWheel
      have none : axle.childNames "wheel" = [] := by decide
      rw [none] at member
      cases member
  rcases known with isRoot | isWheel
  · subst isRoot
    exact Option.some_ne_none _
  · subst isWheel
    exact Option.some_ne_none _

theorem traverseTreeBreadthFirst_ends_iff_acyclic_axle :
    traverseTreeBreadthFirst axle 3 ["root"] [] = some (.ok ["root", "wheel", "wheel"]) ∧
      Acyclic axle.links "root" ∧
      Set.encard { path | descend axle.links "root" path = some "wheel" } = 2 := by
  have ends : traverseTreeBreadthFirst axle 3 ["root"] [] =
      some (.ok ["root", "wheel", "wheel"]) := rfl
  have ending := traverseTreeBreadthFirst_ends_iff_acyclic axle axle_described
  exact ⟨ends, ending.1.mp ⟨3, _, ends⟩, ending.2 3 _ ends "wheel"⟩

end PizzaChain.Assets
