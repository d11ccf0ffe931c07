import Mathlib.Data.List.Induction
import Mathlib.Logic.Function.Basic

/-! # Stores with a key for each item

Items are put one after another under keys that are computed from them. Items that
share a key are told apart only by the last of them.
-/

namespace PizzaChain

variable {κ : Type u} [DecidableEq κ]

/-- The store after items are put into it, in the order of the list. -/
def putAll (key : α → κ) (value : α → ν) (store : κ → Option ν) (items : List α) : κ → Option ν :=
  items.foldl (fun store item => Function.update store (key item) (some (value item))) store

variable {key : α → κ} {value : α → ν} {store : κ → Option ν} {items : List α}

theorem putAll_append_singleton (item : α) :
    putAll key value store (items ++ [item]) =
      Function.update (putAll key value store items) (key item) (some (value item)) := by
  rw [putAll, List.foldl_append]
  rfl

/-- An item is found under its key if all items with the key have its value. -/
theorem putAll_of_mem {item : α}
    (agree : ∀ other ∈ items, key other = key item → value other = value item)
    (member : item ∈ items) : putAll key value store items (key item) = some (value item) := by
  induction items using List.reverseRecOn with
  | nil => cases member
  | append_singleton earlier last induction =>
      rw [putAll_append_singleton]
      by_cases same : key item = key last
      · rw [same, Function.update_self, agree last (by simp) same.symm]
      · rw [Function.update_of_ne same]
        apply induction
        · exact fun other otherMember => agree other (List.mem_append_left _ otherMember)
        · rcases List.mem_append.mp member with early | late
          · exact early
          · exact absurd (congrArg key (List.mem_singleton.mp late)) same

end PizzaChain
