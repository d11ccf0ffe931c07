import Mathlib.Algebra.GroupWithZero.Nat
import Mathlib.Data.List.Forall2

/-! # Lists

Members of lists that are related entry by entry, and entries of longer lists.
-/

namespace PizzaChain

theorem exists_related {related : α → β → Prop} {first : List α} {second : List β} {value : α}
    (pairs : List.Forall₂ related first second) (member : value ∈ first) :
    ∃ other ∈ second, related value other := by
  induction pairs with
  | nil => cases member
  | cons head _ induction =>
      rcases List.mem_cons.mp member with rfl | later
      · exact ⟨_, List.mem_cons_self, head⟩
      · rcases induction later with ⟨other, otherMember, holds⟩
        exact ⟨other, List.mem_cons_of_mem _ otherMember, holds⟩

/-- Related lists have related entries at the same indices. -/
theorem getElem?_related {related : α → β → Prop} {first : List α} {second : List β}
    (pairs : List.Forall₂ related first second) (index : Nat) :
    (first[index]? = none ∧ second[index]? = none) ∨
      ∃ value other, first[index]? = some value ∧ second[index]? = some other ∧
        related value other := by
  induction pairs generalizing index with
  | nil => exact .inl ⟨rfl, rfl⟩
  | @cons value other _ _ head _ induction =>
      cases index with
      | zero => exact .inr ⟨value, other, rfl, rfl, head⟩
      | succ index => exact induction index

theorem set_related {related : α → β → Prop} {first : List α} {second : List β}
    (pairs : List.Forall₂ related first second) (index : Nat) {value : α} {other : β}
    (holds : related value other) :
    List.Forall₂ related (first.set index value) (second.set index other) := by
  induction pairs generalizing index with
  | nil => exact .nil
  | cons head tail induction =>
      cases index with
      | zero => exact .cons holds tail
      | succ index => exact .cons head (induction index)

theorem map_eq_map_of_related {related : α → β → Prop} {first : List α} {second : List β}
    (pairs : List.Forall₂ related first second) (left : α → γ) (right : β → γ)
    (same : ∀ value ∈ first, ∀ other, related value other → right other = left value) :
    second.map right = first.map left := by
  induction pairs with
  | nil => rfl
  | cons head _ induction =>
      rw [List.map_cons, List.map_cons, same _ List.mem_cons_self _ head,
        induction fun value member => same value (List.mem_cons_of_mem _ member)]

theorem getElem?_append_of_some {values : List α} {index : Nat} {value : α}
    (found : values[index]? = some value) (more : List α) :
    (values ++ more)[index]? = some value := by
  rw [List.getElem?_append_left (List.getElem?_eq_some_iff.mp found).1]
  exact found

/-- Two different members count both in a sum. -/
theorem add_le_sum_map (value : α → Nat) {values : List α} {left right : α}
    (leftMember : left ∈ values) (rightMember : right ∈ values) (different : left ≠ right) :
    value left + value right ≤ (values.map value).sum := by
  rcases List.append_of_mem leftMember with ⟨before, after, split⟩
  have other : right ∈ before ++ after := by
    rw [split] at rightMember
    simpa [different.symm] using rightMember
  rcases List.append_of_mem other with ⟨early, late, apart⟩
  have total : (values.map value).sum = value left + ((before ++ after).map value).sum := by
    simp only [split, List.map_append, List.map_cons, List.sum_append, List.sum_cons]
    omega
  rw [total, apart]
  simp only [List.map_append, List.map_cons, List.sum_append, List.sum_cons]
  omega

/-- Replacing the first occurrence replaces all of them when there is only one, or
when nothing changes. -/
theorem set_idxOf_eq_map_iff [DecidableEq α] {values : List α} {old new : α} :
    values.set (values.idxOf old) new =
        values.map (fun value => if value = old then new else value) ↔
      values.count old ≤ 1 ∨ new = old := by
  induction values with
  | nil => simp
  | cons first rest induction =>
      by_cases same : first = old
      · subst same
        rw [List.idxOf_cons_self, List.set_cons_zero, List.map_cons, if_pos rfl,
          List.count_cons_self]
        constructor
        · intro equal
          by_cases member : first ∈ rest
          · have kept := List.map_inj_left.mp
              ((List.cons.inj equal).2.symm.trans (List.map_id _).symm)
            exact .inr (by simpa using kept first member)
          · exact .inl (by simp [List.count_eq_zero.mpr member])
        · intro either
          refine congrArg _ (Eq.symm ?_)
          refine (List.map_congr_left fun value member => ?_).trans (List.map_id _)
          by_cases same : value = first
          · subst same
            rcases either with once | unchanged
            · have := List.count_pos_iff.mpr member
              omega
            · simp [unchanged]
          · simp [same]
      · rw [List.idxOf_cons_ne _ same, List.set_cons_succ, List.map_cons, if_neg same,
          List.count_cons_of_ne same, List.cons.injEq, ← induction]
        simp

theorem eq_of_set_idxOf_eq_map [DecidableEq α] {values : List α} {old new other : α}
    (member : old ∈ values)
    (equal : values.set (values.idxOf old) new =
      values.map fun value => if value = old then other else value) : new = other := by
  induction values with
  | nil => cases member
  | cons first rest induction =>
      by_cases same : first = old
      · subst same
        rw [List.idxOf_cons_self, List.set_cons_zero, List.map_cons, if_pos rfl] at equal
        exact (List.cons.inj equal).1
      · rw [List.idxOf_cons_ne _ same, List.set_cons_succ, List.map_cons, if_neg same] at equal
        exact induction ((List.mem_cons.mp member).resolve_left (Ne.symm same))
          (List.cons.inj equal).2

end PizzaChain
