import Mathlib.Algebra.BigOperators.Group.List.Basic
import Mathlib.Data.List.Perm.Basic
import PizzaChain.Foundation.TreeWalk

/-! # Worklists

Names are taken from a list in any order, and the children of a taken name are
put on it. Nothing remembers what was taken before, so the names taken in the
end are the labels of the unfolded tree.
-/

namespace PizzaChain

structure Worklist (ν : Type u) where
  done : List ν
  pending : List ν

namespace Worklist

def start (children : ν → List ν) (name : ν) : Worklist ν :=
  ⟨[name], children name⟩

/-- The name at the given place is taken. -/
def step (children : ν → List ν) (work : Worklist ν) (index : Nat) : Option (Worklist ν) :=
  work.pending[index]?.map fun name =>
    ⟨work.done ++ [name], work.pending.eraseIdx index ++ children name⟩

/-- The trees below the names: none is infinite. -/
def Grows (children : ν → List ν) (treeOf : ν → RoseTree ν) : Prop :=
  ∀ name, treeOf name = .node name ((children name).map treeOf)

theorem exists_grows {children : ν → List ν}
    (available : ∀ name, ∃ tree, Unfolds (namedGraph children) name tree) :
    ∃ treeOf, Grows children treeOf ∧ ∀ name, Unfolds (namedGraph children) name (treeOf name) := by
  choose treeOf unfolds using available
  refine ⟨treeOf, fun name => ?_, unfolds⟩
  apply (unfolds name).unique
  apply unfolds_namedGraph_node_iff.mpr
  refine ⟨rfl, ?_⟩
  rw [List.forall₂_map_right_iff, List.forall₂_same]
  exact fun child _ => unfolds child

/-- The nodes that are left to take. -/
def left (treeOf : ν → RoseTree ν) (work : Worklist ν) : Nat :=
  (work.pending.map fun name => (treeOf name).size).sum

/-- What was taken and what is below the names on the list are the labels of the
tree below the root. -/
def Explores (treeOf : ν → RoseTree ν) (root : ν) (work : Worklist ν) : Prop :=
  (work.done ++ work.pending.flatMap fun name => (treeOf name).labels).Perm (treeOf root).labels

variable {children : ν → List ν} {treeOf : ν → RoseTree ν} {root : ν} {work next : Worklist ν}

theorem labels_of_grows (grows : Grows children treeOf) (name : ν) :
    (treeOf name).labels = name :: (children name).flatMap fun child => (treeOf child).labels := by
  rw [grows, RoseTree.labels_node, List.flatMap_map]

theorem explores_start (grows : Grows children treeOf) :
    Explores treeOf root (start children root) := by
  rw [Explores, labels_of_grows grows root]
  rfl

theorem left_start (grows : Grows children treeOf) :
    (treeOf root).size = (start children root).left treeOf + 1 := by
  rw [grows, RoseTree.size, List.map_map, left]
  exact Nat.add_comm _ _

theorem Explores.step (grows : Grows children treeOf) (explores : Explores treeOf root work)
    {index : Nat} (taken : work.step children index = some next) :
    Explores treeOf root next ∧ work.left treeOf = next.left treeOf + 1 := by
  rcases Option.map_eq_some_iff.mp taken with ⟨name, found, equal⟩
  subst equal
  have split := perm_of_pending found
  constructor
  · refine List.Perm.trans ?_ explores
    have below := split.flatMap_right fun name => (treeOf name).labels
    rw [List.flatMap_cons, labels_of_grows grows] at below
    refine List.Perm.trans ?_ (below.symm.append_left work.done)
    simp only [List.flatMap_append, List.append_assoc, List.cons_append, List.nil_append]
    exact ((List.perm_append_comm).cons name).append_left work.done
  · have total := (split.map fun name => (treeOf name).size).sum_eq
    rw [List.map_cons, List.sum_cons, grows, RoseTree.size, List.map_map] at total
    simp only [left, List.map_append, List.sum_append]
    simp only [Function.comp_def] at total
    omega

theorem exists_step (children : ν → List ν) (unfinished : work.left treeOf ≠ 0) :
    ∃ index next, work.step children index = some next := by
  rcases work with ⟨done, pending⟩
  cases pending with
  | nil => exact absurd rfl unfinished
  | cons name pending => exact ⟨0, _, rfl⟩

/-- When nothing is left, the whole tree was taken. -/
theorem Explores.perm_of_finished (explores : Explores treeOf root work)
    (finished : work.left treeOf = 0) : work.done.Perm (treeOf root).labels := by
  have none : work.pending = [] := by
    cases pending : work.pending with
    | nil => rfl
    | cons name rest =>
        have := (treeOf name).size_pos
        simp only [left, pending, List.map_cons, List.sum_cons] at finished
        omega
  rw [Explores, none, List.flatMap_nil, List.append_nil] at explores
  exact explores

end Worklist

end PizzaChain
