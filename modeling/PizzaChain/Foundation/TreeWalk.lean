import Mathlib.Algebra.BigOperators.Group.List.Basic
import Mathlib.Data.List.Perm.Basic
import PizzaChain.Foundation.Positions

/-! # Walking a tree while answers arrive in any order

A visit of a node requests the children one by one, and a child is visited when
its request is answered. Answers arrive in any order, also during a visit, so
visits are nested.
-/

namespace PizzaChain

/-! ## The steps that are left -/

/-- The steps that are left: one for the end of each visit, and three for each
node still to be requested, answered and ended. -/
def stepsLeft (visits : List (List (RoseTree α))) (pending : List (RoseTree α)) : Nat :=
  (visits.map fun trees => 1 + 3 * (trees.map RoseTree.size).sum).sum +
    (pending.map fun tree => 3 * tree.size - 1).sum

theorem stepsLeft_cons (trees : List (RoseTree α)) (outer : List (List (RoseTree α)))
    (pending : List (RoseTree α)) :
    stepsLeft (trees :: outer) pending =
      1 + 3 * (trees.map RoseTree.size).sum + stepsLeft outer pending := by
  simp only [stepsLeft, List.map_cons, List.sum_cons]
  omega

theorem stepsLeft_eq_zero_iff {visits : List (List (RoseTree α))}
    {pending : List (RoseTree α)} :
    stepsLeft visits pending = 0 ↔ visits = [] ∧ pending = [] := by
  constructor
  · intro none
    cases visits with
    | cons trees outer =>
        rw [stepsLeft_cons] at none
        omega
    | nil =>
        cases pending with
        | nil => exact ⟨rfl, rfl⟩
        | cons tree pending =>
            have positive := tree.size_pos
            simp only [stepsLeft, List.map_cons, List.sum_cons] at none
            omega
  · rintro ⟨rfl, rfl⟩
    rfl

theorem perm_of_pending {pending : List β} {index : Nat} {value : β}
    (found : pending[index]? = some value) : pending.Perm (value :: pending.eraseIdx index) := by
  rcases List.getElem?_eq_some_iff.mp found with ⟨bound, rfl⟩
  exact (List.getElem_cons_eraseIdx_perm bound).symm

theorem stepsLeft_answer (visits : List (List (RoseTree α)))
    {pending : List (RoseTree α)} {index : Nat} {label : α}
    {children : List (RoseTree α)} (found : pending[index]? = some (.node label children)) :
    stepsLeft visits pending = stepsLeft (children :: visits) (pending.eraseIdx index) + 1 := by
  have total := ((perm_of_pending found).map fun tree => 3 * tree.size - 1).sum_eq
  rw [List.map_cons, List.sum_cons, RoseTree.size] at total
  rw [stepsLeft_cons, stepsLeft, stepsLeft, total]
  omega

theorem stepsLeft_request (first : RoseTree α) (rest : List (RoseTree α))
    (outer : List (List (RoseTree α))) (pending : List (RoseTree α)) :
    stepsLeft ((first :: rest) :: outer) pending =
      stepsLeft (rest :: outer) (pending ++ [first]) + 1 := by
  have positive := first.size_pos
  simp only [stepsLeft, List.map_cons, List.sum_cons, List.map_append, List.map_nil,
    List.sum_append, List.sum_nil]
  omega

/-! ## Parts with their paths -/

namespace RoseTree

/-- The positions at and below a part that stands at the given path. -/
def positionsAt (located : List Nat × RoseTree α) : List (List Nat) :=
  located.2.positions.map fun position => located.1 ++ position.1

/-- The children of the part at a path, numbered from the given index on. -/
def branches (path : List Nat) : (start : Nat) → List (RoseTree α) →
    List (List Nat × RoseTree α)
  | _, [] => []
  | start, child :: rest => (path ++ [start], child) :: branches path (start + 1) rest

theorem map_snd_branches (path : List Nat) (start : Nat) (children : List (RoseTree α)) :
    (branches path start children).map Prod.snd = children := by
  induction children generalizing start with
  | nil => rfl
  | cons child rest induction => rw [branches, List.map_cons, induction]

theorem mem_branches_iff {path : List Nat} {start : Nat} {children : List (RoseTree α)}
    {located : List Nat × RoseTree α} :
    located ∈ branches path start children ↔
      ∃ index, located.1 = path ++ [start + index] ∧ children[index]? = some located.2 := by
  induction children generalizing start with
  | nil => simp [branches]
  | cons child rest induction =>
      rw [branches, List.mem_cons, induction]
      constructor
      · intro member
        rcases member with equal | ⟨index, placed, found⟩
        · cases equal
          exact ⟨0, rfl, rfl⟩
        · exact ⟨index + 1, by rw [placed, Nat.add_assoc, Nat.add_comm 1], found⟩
      · intro member
        rcases member with ⟨index, placed, found⟩
        cases index with
        | zero =>
            cases found
            exact .inl (Prod.ext placed rfl)
        | succ index =>
            exact .inr ⟨index, by rw [placed, Nat.add_assoc, Nat.add_comm 1], found⟩

theorem map_positionsFrom_append (path : List Nat) (start : Nat) (children : List (RoseTree α)) :
    (positionsFrom start children).map (fun position => path ++ position.1) =
      (branches path start children).flatMap positionsAt := by
  induction children generalizing start with
  | nil => rfl
  | cons child rest induction =>
      rw [positionsFrom, List.map_append, List.map_map, induction, branches, List.flatMap_cons,
        positionsAt]
      simp [Function.comp_def]

theorem positionsAt_node (path : List Nat) (label : α) (children : List (RoseTree α)) :
    positionsAt (path, .node label children) =
      path :: (branches path 0 children).flatMap positionsAt := by
  rw [positionsAt, positions, List.map_cons, map_positionsFrom_append, List.append_nil]

theorem follow_append (tree : RoseTree α) (path rest : List Nat) :
    tree.follow (path ++ rest) = (tree.follow path).bind fun part => part.follow rest := by
  induction path generalizing tree with
  | nil => rfl
  | cons index path induction =>
      rcases tree with ⟨label, children⟩
      simp only [List.cons_append, follow, induction, Option.bind_assoc]

theorem follow_branch {tree : RoseTree α} {path : List Nat} {label : α}
    {children : List (RoseTree α)} (found : tree.follow path = some (.node label children))
    {located : List Nat × RoseTree α} (member : located ∈ branches path 0 children) :
    tree.follow located.1 = some located.2 := by
  rcases mem_branches_iff.mp member with ⟨index, placed, child⟩
  rw [Nat.zero_add] at placed
  rw [placed, follow_append, found]
  simp [follow, child]

end RoseTree

/-! ## Walks -/

/-- The parts visited so far in this order, for each visit the parts it has yet to
request with the innermost visit first, and the parts that are requested. -/
structure TreeWalk (α : Type u) where
  visited : List (List Nat × RoseTree α)
  visits : List (List (List Nat × RoseTree α))
  pending : List (List Nat × RoseTree α)

namespace TreeWalk

open RoseTree (positionsAt branches)

def outstanding (walk : TreeWalk α) : List (List Nat × RoseTree α) :=
  walk.visits.flatten ++ walk.pending

def left (walk : TreeWalk α) : Nat :=
  stepsLeft (walk.visits.map fun parts => parts.map Prod.snd) (walk.pending.map Prod.snd)

/-- The root is being visited. -/
def start : RoseTree α → TreeWalk α
  | .node label children => ⟨[([], .node label children)], [branches [] 0 children], []⟩

inductive Step : TreeWalk α → TreeWalk α → Prop
  | request {visited first rest outer pending} :
      Step ⟨visited, (first :: rest) :: outer, pending⟩
        ⟨visited, rest :: outer, pending ++ [first]⟩
  | finish {visited outer pending} :
      Step ⟨visited, [] :: outer, pending⟩ ⟨visited, outer, pending⟩
  | visit {visited visits pending index path label children} :
      pending[index]? = some (path, .node label children) →
      Step ⟨visited, visits, pending⟩
        ⟨visited ++ [(path, .node label children)], branches path 0 children :: visits,
          pending.eraseIdx index⟩

theorem left_start (tree : RoseTree α) : (start tree).left = 3 * tree.size - 2 := by
  rcases tree with ⟨label, children⟩
  simp only [start, left, List.map_cons, List.map_nil, RoseTree.map_snd_branches, stepsLeft,
    List.sum_cons, List.sum_nil, RoseTree.size]
  omega

theorem Step.left_eq {walk next : TreeWalk α} (step : Step walk next) :
    walk.left = next.left + 1 := by
  cases step with
  | @request visited first rest outer pending =>
      simp only [left, List.map_cons, List.map_append, List.map_nil]
      exact stepsLeft_request first.2 _ _ _
  | finish =>
      simp only [left, List.map_cons, List.map_nil, stepsLeft_cons, List.sum_nil]
      omega
  | @visit visited visits pending index path label children found =>
      have placed : (pending.map Prod.snd)[index]? = some (.node label children) := by
        simp [found]
      simp only [left, List.map_cons, RoseTree.map_snd_branches, ← List.eraseIdx_map]
      exact stepsLeft_answer _ placed

theorem left_eq_zero_iff {walk : TreeWalk α} :
    walk.left = 0 ↔ walk.visits = [] ∧ walk.pending = [] := by
  rw [left, stepsLeft_eq_zero_iff, List.map_eq_nil_iff, List.map_eq_nil_iff]

theorem exists_step {walk : TreeWalk α} (unfinished : walk.left ≠ 0) :
    ∃ next, Step walk next := by
  rcases walk with ⟨visited, visits, pending⟩
  match visits, pending with
  | [], [] => exact absurd rfl unfinished
  | [], (path, .node label children) :: pending => exact ⟨_, .visit List.getElem?_cons_zero⟩
  | [] :: outer, pending => exact ⟨_, .finish⟩
  | (first :: rest) :: outer, pending => exact ⟨_, .request⟩

/-! ## What a walk has visited -/

/-- The visited positions and those below what is outstanding are the positions of
the tree, and parents are visited before their children. -/
structure Sound (tree : RoseTree α) (walk : TreeWalk α) : Prop where
  located : ∀ part ∈ walk.visited ++ walk.outstanding, tree.follow part.1 = some part.2
  divided : (walk.visited.map Prod.fst ++ walk.outstanding.flatMap positionsAt).Perm
    (tree.positions.map Prod.fst)
  parents : ∀ part ∈ walk.outstanding, part.1.dropLast ∈ walk.visited.map Prod.fst
  ordered : ∀ before part after, walk.visited = before ++ part :: after → part.1 ≠ [] →
    part.1.dropLast ∈ before.map Prod.fst

theorem sound_start (tree : RoseTree α) : Sound tree (start tree) := by
  rcases tree with ⟨label, children⟩
  constructor
  · intro part member
    simp only [start, outstanding, List.flatten_cons, List.flatten_nil, List.append_nil,
      List.singleton_append, List.mem_cons] at member
    rcases member with root | branch
    · rw [root]
      rfl
    · exact RoseTree.follow_branch rfl branch
  · have whole := RoseTree.positionsAt_node [] label children
    simp only [positionsAt, List.nil_append] at whole
    simp only [start, outstanding, List.map_cons, List.map_nil, List.flatten_cons,
      List.flatten_nil, List.append_nil, List.singleton_append]
    rw [whole]
  · intro part member
    simp only [start, outstanding, List.flatten_cons, List.flatten_nil, List.append_nil] at member
    rcases RoseTree.mem_branches_iff.mp member with ⟨index, placed, _⟩
    simp [placed, start]
  · intro before part after split nonempty
    rcases List.cons_eq_append_iff.mp split with ⟨_, equal⟩ | ⟨_, _, equal⟩
    · cases equal
      exact absurd rfl nonempty
    · simp at equal

namespace Sound

variable {tree : RoseTree α} {walk next : TreeWalk α}

/-- A step that only requests or ends a visit leaves everything where it is. -/
theorem of_same (sound : Sound tree walk) (visited : next.visited = walk.visited)
    (same : next.outstanding.Perm walk.outstanding) : Sound tree next := by
  constructor
  · intro part member
    rw [visited] at member
    exact sound.located part ((same.append_left _).mem_iff.mp member)
  · rw [visited]
    exact ((same.flatMap_right positionsAt).append_left _).trans sound.divided
  · intro part member
    rw [visited]
    exact sound.parents part (same.mem_iff.mp member)
  · rw [visited]
    exact sound.ordered

/-- A visit takes one part from what is outstanding and puts its children there. -/
theorem of_visit (sound : Sound tree walk) {path : List Nat} {label : α}
    {children : List (RoseTree α)} {rest : List (List Nat × RoseTree α)}
    (waits : walk.outstanding.Perm ((path, .node label children) :: rest))
    (visited : next.visited = walk.visited ++ [(path, .node label children)])
    (opened : next.outstanding = branches path 0 children ++ rest) : Sound tree next := by
  have member : (path, RoseTree.node label children) ∈ walk.outstanding :=
    waits.mem_iff.mpr List.mem_cons_self
  have kept : ∀ part ∈ rest, part ∈ walk.outstanding := fun part waiting =>
    waits.mem_iff.mpr (List.mem_cons_of_mem _ waiting)
  have here := sound.located _ (List.mem_append_right _ member)
  constructor
  · intro part partMember
    rw [visited, opened] at partMember
    simp only [List.mem_append, List.mem_singleton] at partMember
    rcases partMember with (early | same) | branch | other
    · exact sound.located part (List.mem_append_left _ early)
    · rw [same]
      exact here
    · exact RoseTree.follow_branch here branch
    · exact sound.located part (List.mem_append_right _ (kept part other))
  · have below := waits.flatMap_right positionsAt
    rw [List.flatMap_cons, RoseTree.positionsAt_node] at below
    have total := (below.append_left (walk.visited.map Prod.fst)).symm.trans sound.divided
    rw [visited, opened]
    simpa using total
  · intro part partMember
    rw [opened, List.mem_append] at partMember
    rw [visited, List.map_append]
    rcases partMember with branch | other
    · rcases RoseTree.mem_branches_iff.mp branch with ⟨_, placed, _⟩
      simp [placed]
    · exact List.mem_append_left _ (sound.parents part (kept part other))
  · intro before part after split nonempty
    rw [visited] at split
    rcases List.eq_nil_or_concat after with last | ⟨early, final, concat⟩
    · subst last
      rcases List.append_inj' split rfl with ⟨same, final⟩
      cases final
      rw [← same]
      exact sound.parents _ member
    · rw [concat, List.concat_eq_append, ← List.cons_append, ← List.append_assoc] at split
      rcases List.append_inj' split rfl with ⟨same, _⟩
      exact sound.ordered before part early same nonempty

theorem step (sound : Sound tree walk) (step : Step walk next) : Sound tree next := by
  cases step with
  | @request visited first rest outer pending =>
      refine sound.of_same rfl ?_
      simp only [outstanding, List.flatten_cons, List.cons_append]
      rw [← List.append_assoc]
      exact List.perm_append_singleton first _
  | finish => exact sound.of_same rfl (by simp [outstanding])
  | @visit visited visits pending index path label children found =>
      apply sound.of_visit _ rfl
      · simp only [outstanding, List.flatten_cons, List.append_assoc]
        rfl
      · exact ((perm_of_pending found).append_left visits.flatten).trans List.perm_middle

theorem nodup (sound : Sound tree walk) : (walk.visited.map Prod.fst).Nodup :=
  (List.nodup_append.mp (sound.divided.nodup_iff.mpr tree.nodup_positions)).1

/-- At the end every position is visited. -/
theorem mem_visited (sound : Sound tree walk) (finished : walk.left = 0) {path : List Nat}
    {part : RoseTree α} (found : tree.follow path = some part) :
    path ∈ walk.visited.map Prod.fst := by
  rcases left_eq_zero_iff.mp finished with ⟨noVisits, noPending⟩
  have position : path ∈ tree.positions.map Prod.fst :=
    List.mem_map.mpr ⟨(path, part), RoseTree.mem_positions_iff.mpr found, rfl⟩
  have divided := sound.divided
  rw [outstanding, noVisits, noPending, List.flatten_nil, List.nil_append, List.flatMap_nil,
    List.append_nil] at divided
  exact divided.mem_iff.mpr position

end Sound

end TreeWalk

end PizzaChain
